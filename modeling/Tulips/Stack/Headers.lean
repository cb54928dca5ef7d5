import Tulips.System.ByteOrder

/-!
# Addresses, protocol headers and checksums

Headers are packed structures laid over a frame. The TCP header is decoded to
a record and encoded back; the Ethernet and IPv4 headers are only ever written
field by field, so they appear as the bytes the producers store.
-/

namespace Tulips

/-! ## Ethernet -/

namespace Ethernet

structure Address where
  data : Vector UInt8 6
  deriving DecidableEq

/-- The unset address. -/
def Address.zero : Address := ⟨#v[0, 0, 0, 0, 0, 0]⟩

def Address.broadcast : Address := ⟨#v[0xff, 0xff, 0xff, 0xff, 0xff, 0xff]⟩

def Address.load (data : Bytes) (off : Nat) : Address := ⟨.ofFn fun i => data (off + i)⟩

def headerLen : Nat := 14

def ethtypeArp : UInt16 := 0x0806

def ethtypeIp : UInt16 := 0x0800

/-- The bytes of an Ethernet header. -/
def headerBytes (dest src : Address) (type : UInt16) : List UInt8 :=
  dest.data.toList ++ src.data.toList ++ store16 (htons type)

@[simp] theorem length_headerBytes (dest src : Address) (type : UInt16) :
    (headerBytes dest src type).length = headerLen := by
  simp [headerBytes, store16, headerLen]

end Ethernet

/-! ## Checksums -/

namespace Utils

/-- One step of the ones' complement sum. -/
def carryAdd (sum t : UInt16) : UInt16 :=
  if sum + t < t then sum + t + 1 else sum + t

/-- The 16-bit word whose high byte is at `off`. -/
def word (data : Bytes) (off : Nat) : UInt16 :=
  ((data off).toUInt16 <<< 8) + (data (off + 1)).toUInt16

/-- The loop of `utils::checksum`, over the bytes that remain. -/
def checksumFrom (data : Bytes) : Nat → Nat → UInt16 → UInt16
  | 0, _, sum => sum
  | 1, off, sum => carryAdd sum ((data off).toUInt16 <<< 8)
  | n + 2, off, sum => checksumFrom data n (off + 2) (carryAdd sum (word data off))

def checksum (seed : UInt16) (data : Bytes) (len : UInt16) : UInt16 :=
  checksumFrom data len.toNat 0 seed

def cap (length : UInt32) : UInt16 :=
  if length > 0xffff then 0xffff else length.toUInt16

theorem cap_le (n : UInt32) : (cap n).toNat ≤ n.toNat := by
  unfold cap
  split
  · next h =>
      have h' : (0xffff : UInt32).toNat < n.toNat := h
      exact Nat.le_of_lt h'
  · rw [UInt32.toNat_toUInt16]
    exact Nat.mod_le _ _

end Utils

/-! ## IPv4 -/

namespace Ipv4

/-- An IPv4 address, in the host's load of its four bytes. -/
structure Address where
  data : UInt32
  deriving DecidableEq

def Address.bytes (a : Address) : List UInt8 := store32 a.data

def Address.broadcast : Address := ⟨0xffffffff⟩

def Address.empty (a : Address) : Bool := a.data == 0

def Address.load (data : Bytes) (off : Nat) : Address := ⟨load32 data off⟩

def headerLen : Nat := 20

def protoIcmp : UInt8 := 1

def protoTcp : UInt8 := 6

def protoTest : UInt8 := 254

/-- Time to live of every packet sent. -/
def ttl : UInt8 := 64

/-- The bytes `ipv4::Producer::prepare` stores; the length and the checksum are
filled in by the commit. -/
def headerBytes (ipid : UInt16) (proto : UInt8) (src dst : Address) : List UInt8 :=
  [0x45, 0] ++ store16 (UInt16.ofNat headerLen) ++ store16 (htons ipid) ++ [0, 0, ttl, proto] ++
    store16 0 ++ src.bytes ++ dst.bytes

@[simp] theorem length_headerBytes (ipid : UInt16) (proto : UInt8) (src dst : Address) :
    (headerBytes ipid proto src dst).length = headerLen := by
  simp [headerBytes, store16, Address.bytes, store32, headerLen]

def checksum (data : Bytes) : UInt16 :=
  let sum := Utils.checksum 0 data (UInt16.ofNat headerLen)
  if sum = 0 then 0xffff else htons sum

end Ipv4

/-! ## TCP -/

namespace Tcpv4

abbrev Port := UInt16

/-- Four bits have a zero. -/
instance nibbleNeZero : NeZero 16 := ⟨by decide⟩

/-- The fixed part of a TCP header, each field as the host loads it. -/
structure Header where
  srcport : Port
  destport : Port
  seqno : UInt32
  ackno : UInt32
  reserved : Fin 16
  offset : Fin 16
  flags : UInt8
  wnd : UInt16
  chksum : UInt16
  urgp : UInt16
  deriving DecidableEq

def headerLen : Nat := 20

/-- What the IPv4 and TCP headers take from the MTU. -/
def headerOverhead : UInt16 := 40

/-- Initial retransmission timeout, in ticks. -/
def rto : UInt8 := 3

def tcpFin : UInt8 := 0x01
def tcpSyn : UInt8 := 0x02
def tcpRst : UInt8 := 0x04
def tcpPsh : UInt8 := 0x08
def tcpAck : UInt8 := 0x10
def tcpUrg : UInt8 := 0x20
def tcpCtl : UInt8 := 0x3f

namespace Header

/-- Where the payload starts: the header length with options. -/
def lenWithOpts (h : Header) : UInt16 := UInt16.ofNat (h.offset.val * 4)

/-- Whether any of the given flags is set. -/
def has (h : Header) (f : UInt8) : Bool := h.flags &&& f != 0

def bytes (h : Header) : List UInt8 :=
  store16 h.srcport ++ store16 h.destport ++ store32 h.seqno ++ store32 h.ackno ++
    [UInt8.ofNat (h.offset.val * 16 + h.reserved.val), h.flags] ++
    store16 h.wnd ++ store16 h.chksum ++ store16 h.urgp

def load (data : Bytes) : Header where
  srcport := load16 data 0
  destport := load16 data 2
  seqno := load32 data 4
  ackno := load32 data 8
  reserved := Fin.ofNat 16 (data 12).toNat
  offset := Fin.ofNat 16 ((data 12).toNat / 16)
  flags := data 13
  wnd := load16 data 14
  chksum := load16 data 16
  urgp := load16 data 18

@[simp] theorem length_bytes (h : Header) : h.bytes.length = headerLen := rfl

/-- A header is read back from the bytes it was written as. -/
theorem load_of_bytes {data : Bytes} {h : Header}
    (hdata : ∀ i < headerLen, data i = h.bytes.getD i 0) : load data = h := by
  have hoff : data 12 = UInt8.ofNat (h.offset.val * 16 + h.reserved.val) := hdata 12 (by decide)
  have hnat : (data 12).toNat = h.offset.val * 16 + h.reserved.val := by
    have := h.offset.isLt
    have := h.reserved.isLt
    rw [hoff, UInt8.toNat_ofNat', Nat.mod_eq_of_lt (by omega)]
  have hres : Fin.ofNat 16 (data 12).toNat = h.reserved := by
    have := h.reserved.isLt
    apply Fin.ext
    rw [Fin.val_ofNat, hnat]
    omega
  have hofs : Fin.ofNat 16 ((data 12).toNat / 16) = h.offset := by
    have := h.offset.isLt
    have := h.reserved.isLt
    apply Fin.ext
    rw [Fin.val_ofNat, hnat]
    omega
  have hsrc : load16 data 0 = h.srcport :=
    load16_eq (hdata 0 (by decide)) (hdata 1 (by decide))
  have hdest : load16 data 2 = h.destport :=
    load16_eq (hdata 2 (by decide)) (hdata 3 (by decide))
  have hseq : load32 data 4 = h.seqno :=
    load32_eq (hdata 4 (by decide)) (hdata 5 (by decide)) (hdata 6 (by decide))
      (hdata 7 (by decide))
  have hack : load32 data 8 = h.ackno :=
    load32_eq (hdata 8 (by decide)) (hdata 9 (by decide)) (hdata 10 (by decide))
      (hdata 11 (by decide))
  have hflags : data 13 = h.flags := hdata 13 (by decide)
  have hwnd : load16 data 14 = h.wnd :=
    load16_eq (hdata 14 (by decide)) (hdata 15 (by decide))
  have hsum : load16 data 16 = h.chksum :=
    load16_eq (hdata 16 (by decide)) (hdata 17 (by decide))
  have hurg : load16 data 18 = h.urgp :=
    load16_eq (hdata 18 (by decide)) (hdata 19 (by decide))
  simp only [load, hsrc, hdest, hseq, hack, hres, hofs, hflags, hwnd, hsum, hurg]

end Header

end Tcpv4

end Tulips
