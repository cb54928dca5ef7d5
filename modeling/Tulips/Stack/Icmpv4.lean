import Tulips.Stack.Arp

/-!
# ICMP

Echo requests of the peer are answered; those of this host are objects of their
own that are registered under an identifier and wait for the reply.
-/

namespace Tulips

open Tcpv4 (WorldProgram EthernetProducer Ipv4Producer store)

variable {D H : Type}

namespace Icmpv4

structure Header where
  type : UInt8
  icode : UInt8
  icmpchksum : UInt16
  id : UInt16
  seqno : UInt16
  deriving DecidableEq

def headerLen : Nat := 8

def echoReply : UInt8 := 0

def echo : UInt8 := 8

namespace Header

def bytes (h : Header) : List UInt8 :=
  [h.type, h.icode] ++ store16 h.icmpchksum ++ store16 h.id ++ store16 h.seqno

def load (data : Bytes) : Header where
  type := data 0
  icode := data 1
  icmpchksum := load16 data 2
  id := load16 data 4
  seqno := load16 data 6

end Header

def checksum (data : Bytes) : UInt16 :=
  let sum := Utils.checksum 0 data (UInt16.ofNat headerLen)
  if sum = 0 then 0xffff else htons sum

inductive State
  | idle
  | request
  | response
  deriving DecidableEq

structure Request where
  id : UInt16
  state : State
  seq : UInt16

/-- `Request::operator()`, with what becomes of the request. The Ethernet
destination is left as it is. -/
def Request.call (env : Net D H) (arp : Arp.Processor) (req : Request) (dst : Ipv4.Address) :
    WorldProgram D H (Status × Request) := do
  match req.state with
  | .request => pure (.operationInProgress, req)
  | .response => pure (.operationCompleted, { req with state := .idle, seq := req.seq + 1 })
  | .idle =>
      match arp.query env dst with
      | none => pure (.hardwareTranslationMissing, req)
      | some _ =>
          Ipv4Producer.setDestination dst
          Ipv4Producer.setProtocol Ipv4.protoIcmp
          match ← Ipv4Producer.prepare env.toEnv none with
          | .error ret => pure (ret.val, req)
          | .ok data =>
              let hdr : Header := ⟨echo, 0, 0, req.id, req.seq⟩
              let sum := checksum fun i => hdr.bytes.getD i 0
              store none (some data) 0 { hdr with icmpchksum := ~~~sum }.bytes
              let ret ← Ipv4Producer.commit env.toEnv none (UInt32.ofNat headerLen) data 0
              pure (ret, { req with state := .request })

/-- The requests by their place in the heap; one that was detached is gone. -/
structure Processor where
  heap : List (Option Request)
  reqs : UInt16 → Option Nat
  ids : UInt16

namespace Processor

def initial : Processor := ⟨[], fun _ => none, 0⟩

/-- The request at a place of the heap. -/
def request? (icmp : Processor) (i : Nat) : Option Request := icmp.heap[i]?.join

def setRequest (icmp : Processor) (i : Nat) (req : Request) : Processor :=
  { icmp with heap := icmp.heap.set i (some req) }

/-- `Processor::attach`, with the place of the new request. -/
def attach (icmp : Processor) : Processor × Nat :=
  let nid := icmp.ids + 1
  let i := icmp.heap.length
  ({ icmp with
      heap := icmp.heap ++ [some ⟨nid, .idle, 1⟩]
      reqs := Function.update icmp.reqs nid (some i) }, i)

def detach (icmp : Processor) (i : Nat) : Option Processor := do
  let req ← icmp.request? i
  some { icmp with
    reqs := Function.update icmp.reqs req.id none
    heap := icmp.heap.set i none }

/-- The answer to an echo request: its header with another type. -/
def replyTo (hdr : Header) : Header :=
  { hdr with
    type := echoReply
    icmpchksum :=
      if hdr.icmpchksum ≥ htons ((0xffff : UInt16) - echo.toUInt16 <<< 8) then
        hdr.icmpchksum + (htons (echo.toUInt16 <<< 8) + 1)
      else hdr.icmpchksum + htons (echo.toUInt16 <<< 8) }

/-- `Processor::process`, for a packet from the given addresses. -/
def process (env : Net D H) (icmp : Processor) (ethSrc : Ethernet.Address)
    (ipSrc : Ipv4.Address) (data : Bytes) : WorldProgram D H (Status × Processor) := do
  let hdr := Header.load data
  if hdr.type ≠ echo ∧ hdr.type ≠ echoReply then pure (.protocolError, icmp)
  else if hdr.type = echoReply then
    match icmp.reqs hdr.id with
    | none => pure (.protocolError, icmp)
    | some i =>
        match icmp.request? i with
        | none => .fault .nullPointer
        | some req =>
            if req.state ≠ .request then pure (.protocolError, icmp)
            else pure (.ok, icmp.setRequest i { req with state := .response })
  else
    Ipv4Producer.setProtocol Ipv4.protoIcmp
    Ipv4Producer.setDestination ipSrc
    EthernetProducer.setDestination ethSrc
    match ← Ipv4Producer.prepare env.toEnv none with
    | .error ret => pure (ret.val, icmp)
    | .ok outdata =>
        store none (some outdata) 0 (replyTo hdr).bytes
        let ret ← Ipv4Producer.commit env.toEnv none (UInt32.ofNat headerLen) outdata 0
        pure (ret, icmp)

end Processor

end Icmpv4

end Tulips
