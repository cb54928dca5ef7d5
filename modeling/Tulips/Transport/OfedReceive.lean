import Tulips.Lib.Program
import Tulips.Transport.Ofed

/-!
# The receive queue of the OFED device

A poll fetches the completed receive buffers, hands each to the processor unless the
hardware found a checksum wrong, and posts the buffers again: in batches on the way,
and what is left in the end. The hardware may refuse a buffer, which ends the poll.
-/

namespace Tulips.Ofed

/-- What the hardware tells of a receive buffer it has filled. -/
structure Completion where
  wrId : Nat
  byteLen : Nat
  ipv4Packet : Bool
  ipCsumOk : Bool
  tcpUdpCsumOk : Bool

/-- How the device is built, and which checksums it is told to validate. -/
structure ReceiveConfig where
  nbuf : UInt16
  hwChecksum : Bool
  validateIpCsum : Bool
  validateTcpCsum : Bool

inductive ReceiveEvent
  /-- A packet is handed to the processor, while `pending` buffers are held. -/
  | process (id len : Nat) (pending : UInt16)
  /-- A packet is dropped. -/
  | drop (id : Nat)
  /-- The hardware has taken a buffer. -/
  | post (id : Nat)
  deriving DecidableEq

/-- The device, with the history of its receive queue, newest event first. -/
structure Receiver where
  dev : Ofed
  log : List ReceiveEvent

/-- The calls of the processor on the device. -/
inductive Call
  | prepare
  | commit (buf : Nat) (frame : List UInt8) (mss : UInt16)
  | listen (port : Tcpv4.Port)
  | unlisten (port : Tcpv4.Port)

def call (nbuf : UInt16) (d : Ofed) : Call → Ofed
  | .prepare => (d.prepare nbuf).2
  | .commit buf frame mss => (d.commit buf frame mss).2
  | .listen port => (d.listen port).2
  | .unlisten port => d.unlisten port

/-- Which buffers the hardware takes, and what the processor does with a packet. -/
structure Surroundings where
  takes : Receiver → Nat → Bool
  process : Receiver → Completion → List Call

abbrev ReceiveProgram (α : Type) := Program Failure Receiver α

namespace Receiver

/-- `POST_RECV_THRESHOLD` -/
def postRecvThreshold : Nat := 32

def record (ev : ReceiveEvent) : ReceiveProgram Unit :=
  .update fun r => { r with log := ev :: r.log }

def setPending (f : UInt16 → UInt16) : ReceiveProgram Unit :=
  .update fun r => { r with dev := { r.dev with pending := f r.dev.pending } }

/-- `Device::postReceive`, and the end of the poll when it fails. -/
def postReceive (around : Surroundings) (wrId : Nat) : ReceiveProgram Unit := do
  let r ← .gets id
  if around.takes r wrId then record (.post wrId)
  else .fault ⟨.hardwareError, Status.hardwareError_ne_ok⟩

/-- Post `count` buffers, the ones of the completions from `first` on. -/
def repost (around : Surroundings) (wc : Nat → Completion) : Nat → Nat → ReceiveProgram Unit
  | 0, _ => pure ()
  | count + 1, first => do
      postReceive around (wc first).wrId
      repost around wc count (first + 1)

/-- Whether the hardware found a checksum wrong that is to be validated. -/
def invalid (config : ReceiveConfig) (c : Completion) : Bool :=
  config.hwChecksum && c.ipv4Packet &&
    (config.validateIpCsum && !c.ipCsumOk || config.validateTcpCsum && !c.tcpUdpCsumOk)

/-- `proc.process` -/
def process (around : Surroundings) (config : ReceiveConfig) (c : Completion) :
    ReceiveProgram Unit := do
  let r ← .gets id
  record (.process c.wrId c.byteLen r.dev.pending)
  .update fun r' => { r' with dev := (around.process r c).foldl (call config.nbuf) r'.dev }

/-- The loop of `Device::poll` over the completions from `i` on, of which there are
`rest`; the buffers of those before `pre` are posted. -/
def pollFrom (around : Surroundings) (config : ReceiveConfig) (wc : Nat → Completion) :
    Nat → Nat → Nat → ReceiveProgram Nat
  | 0, _, pre => pure pre
  | rest + 1, i, pre =>
      if invalid config (wc i) then do
        -- The packet is skipped, and the batch with it that may be due.
        record (.drop (wc i).wrId)
        pollFrom around config wc rest (i + 1) pre
      else do
        process around config (wc i)
        if 0 < i ∧ i % postRecvThreshold = 0 then
          repost around wc postRecvThreshold pre
          setPending fun pending => pending - UInt16.ofNat postRecvThreshold
          pollFrom around config wc rest (i + 1) (pre + postRecvThreshold)
        else pollFrom around config wc rest (i + 1) pre

/-- `Device::poll`, given the completions that the hardware reports, if it does. -/
def poll (around : Surroundings) (config : ReceiveConfig) (reported : Option (List Completion)) :
    ReceiveProgram Status :=
  match reported with
  | none => .fault ⟨.hardwareError, Status.hardwareError_ne_ok⟩
  | some [] => pure .noDataAvailable
  | some completions => do
      let wc := fun i => completions.getD i ⟨0, 0, false, false, false⟩
      setPending fun _ => UInt16.ofNat completions.length
      let pre ← pollFrom around config wc completions.length 0 0
      repost around wc (completions.length - pre) pre
      setPending fun _ => 0
      pure .ok

end Receiver

end Tulips.Ofed
