import Tulips.Stack.Tcpv4.Environment

/-!
# The producers

Preparing a buffer asks the device for one and lays the Ethernet and the IPv4
header at its start; committing one fills in the IPv4 length and checksum and
hands the frame to the device. Every store names the party it is made for.
-/

namespace Tulips.Tcpv4

variable {D H : Type}

abbrev WorldProgram (D H α : Type) := Program Fault (World D H) α

/-- Where a TCP header starts in a prepared buffer. -/
def tcpOffset : Nat := Ethernet.headerLen + Ipv4.headerLen

def record (ev : Event) : WorldProgram D H Unit :=
  .update fun w => { w with log := ev :: w.log }

/-- Store bytes at an offset from a pointer. -/
def store (who : Option UInt16) (p : Option Ptr) (off : Nat) (bytes : List UInt8) :
    WorldProgram D H Unit :=
  match p with
  | none => .fault .nullPointer
  | some p => .update fun w =>
      { w with mem := w.mem.write p.buf (p.off + off) bytes, log := .write who p.buf :: w.log }

/-- The TCP header a pointer designates. -/
def loadHeader (p : Option Ptr) : WorldProgram D H Header :=
  match p with
  | none => .fault .nullPointer
  | some p => .gets fun w => Header.load (w.mem.bytesFrom p.buf p.off)

/-- Assign fields of the TCP header a pointer designates. -/
def modifyHeader (who : Option UInt16) (p : Option Ptr) (f : Header → Header) :
    WorldProgram D H Unit := do
  let hdr ← loadHeader p
  store who p 0 (f hdr).bytes

namespace EthernetProducer

def setDestination (addr : Ethernet.Address) : WorldProgram D H Unit :=
  .update fun w => { w with ethto := { w.ethto with destAddress := addr } }

def setType (type : UInt16) : WorldProgram D H Unit :=
  .update fun w => { w with ethto := { w.ethto with type := type } }

/-- `Device::prepare` -/
def devicePrepare (env : Env D H) (who : Option UInt16) :
    WorldProgram D H (Except Failure Nat) := do
  let answer ← .gets fun w => env.device.prepare w.dev
  match answer.1 with
  | .error ret =>
      .update fun w => { w with dev := answer.2, log := .prepare who none :: w.log }
      pure (.error ret)
  | .ok (buf, content) =>
      .update fun w => { w with
        dev := answer.2, mem := w.mem.fill buf content, log := .prepare who (some buf) :: w.log }
      pure (.ok buf)

/-- `ethernet::Producer::prepare` -/
def prepare (env : Env D H) (who : Option UInt16) : WorldProgram D H (Except Failure Ptr) := do
  match ← devicePrepare env who with
  | .error ret => pure (.error ret)
  | .ok buf =>
      let eth ← .gets World.ethto
      store who (some ⟨buf, 0⟩) 0 (Ethernet.headerBytes eth.destAddress env.hostMac eth.type)
      pure (.ok ⟨buf, Ethernet.headerLen⟩)

/-- `ethernet::Producer::commit`, down to the device. -/
def commit (env : Env D H) (who : Option UInt16) (len : UInt32) (p : Ptr) (mss : UInt16) :
    WorldProgram D H Status := do
  let frame ← .gets fun w => w.mem.read p.buf (p.off - Ethernet.headerLen)
    (len.toNat + Ethernet.headerLen)
  let answer ← .gets fun w => env.device.commit w.dev p.buf frame mss
  .update fun w =>
    { w with dev := answer.2, log := .commit who p.buf frame mss answer.1 :: w.log }
  pure answer.1

end EthernetProducer

namespace Ipv4Producer

def setDestination (addr : Ipv4.Address) : WorldProgram D H Unit :=
  .update fun w => { w with ip4to := { w.ip4to with destAddress := addr } }

def setProtocol (proto : UInt8) : WorldProgram D H Unit :=
  .update fun w => { w with ip4to := { w.ip4to with proto := proto } }

/-- `ipv4::Producer::prepare` -/
def prepare (env : Env D H) (who : Option UInt16) : WorldProgram D H (Except Failure Ptr) := do
  EthernetProducer.setType Ethernet.ethtypeIp
  match ← EthernetProducer.prepare env who with
  | .error ret => pure (.error ret)
  | .ok p =>
      .update fun w => { w with ip4to := { w.ip4to with ipid := w.ip4to.ipid + 1 } }
      let ip ← .gets World.ip4to
      store who (some p) 0 (Ipv4.headerBytes ip.ipid ip.proto env.hostIp ip.destAddress)
      pure (.ok ⟨p.buf, p.off + Ipv4.headerLen⟩)

/-- `ipv4::Producer::commit`, given the pointer behind the IPv4 header. -/
def commit (env : Env D H) (who : Option UInt16) (len : UInt32) (buf : Ptr) (mss : UInt16) :
    WorldProgram D H Status := do
  let p : Ptr := ⟨buf.buf, buf.off - Ipv4.headerLen⟩
  let outlen := len + UInt32.ofNat Ipv4.headerLen
  store who (some p) 2 (store16 (htons outlen.toUInt16))
  .when (env.config.hwChecksum = false) do
    let sum ← .gets fun w => Ipv4.checksum (w.mem.bytesFrom p.buf p.off)
    store who (some p) 10 (store16 (~~~sum))
  EthernetProducer.commit env who outlen p mss

end Ipv4Producer

end Tulips.Tcpv4
