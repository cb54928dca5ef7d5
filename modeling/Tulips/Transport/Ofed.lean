import Tulips.Stack.Tcpv4.Environment

/-!
# The OFED device

Send buffers that can be handed out are in a FIFO. A committed buffer is posted
to the hardware, which completes each posted buffer once and in order; when a
buffer is prepared, the completed ones are put back in the FIFO first. What the
hardware does and what the buffers hold is up to a script.
-/

namespace Tulips

structure Ofed where
  /-- The buffers that can be handed out: `m_fifo`. -/
  fifo : List Nat
  /-- The buffers the hardware has not completed, or whose completions have not
  been polled. -/
  posted : List Nat
  /-- The receive buffers a poll of the device still holds: `m_pending`. -/
  pending : UInt16
  /-- The ports with a flow. -/
  filters : List Tcpv4.Port
  /-- What the next buffers to be handed out hold. -/
  contents : List Bytes
  /-- How many completions the next polls of the send queue find, if they succeed. -/
  polls : List (Option Nat)
  /-- What the next calls of `commit` return. -/
  posts : List Status
  /-- Whether the next flows can be created. -/
  flows : List Bool

namespace Ofed

/-- The device as it is built. -/
def initial (nbuf : UInt16) (contents : List Bytes) (polls : List (Option Nat))
    (posts : List Status) (flows : List Bool) : Ofed :=
  ⟨List.range nbuf.toNat, [], 0, [], contents, polls, posts, flows⟩

/-- `tulips_fifo_push` on a FIFO of the given depth; nothing is pushed on a full one. -/
def push (nbuf : UInt16) (fifo : List Nat) (buf : Nat) : List Nat :=
  if fifo.length = nbuf.toNat then fifo else fifo ++ [buf]

/-- Put the buffers of the first `cqn` completions back in the FIFO. -/
def complete (nbuf : UInt16) (d : Ofed) (cqn : Nat) : Ofed :=
  { d with
    fifo := (d.posted.take cqn).foldl (push nbuf) d.fifo
    posted := d.posted.drop cqn
    polls := d.polls.tail }

def prepare (nbuf : UInt16) (d : Ofed) : Except Failure (Nat × Bytes) × Ofed :=
  match d.polls.headD (some d.posted.length) with
  | none => (.error ⟨.hardwareError, Status.hardwareError_ne_ok⟩, { d with polls := d.polls.tail })
  | some found =>
      -- One poll finds at most `nbuf` completions.
      let d := d.complete nbuf (min found nbuf.toNat)
      match d.fifo with
      | [] => (.error ⟨.noMoreResources, Status.noMoreResources_ne_ok⟩, d)
      | buf :: fifo =>
          (.ok (buf, d.contents.headD fun _ => 0),
            { d with fifo := fifo, contents := d.contents.tail })

def commit (d : Ofed) (buf : Nat) (_frame : List UInt8) (_mss : UInt16) : Status × Ofed :=
  let ret := d.posts.headD .ok
  if ret = .ok then (.ok, { d with posted := d.posted ++ [buf], posts := d.posts.tail })
  else (ret, { d with posts := d.posts.tail })

def listen (d : Ofed) (port : Tcpv4.Port) : Status × Ofed :=
  if d.flows.headD true then
    (.ok, { d with filters := d.filters.insert port, flows := d.flows.tail })
  else (.hardwareError, { d with flows := d.flows.tail })

def unlisten (d : Ofed) (port : Tcpv4.Port) : Ofed := { d with filters := d.filters.erase port }

/-- The device with the given number of buffers, each of the given length. -/
def device (nbuf : UInt16) (mtu buflen : UInt32) : Tcpv4.Device Ofed where
  mtu := mtu
  mss := buflen
  receiveBufferLengthLog2 := 11
  receiveBuffersAvailable d := nbuf - d.pending
  prepare := prepare nbuf
  commit := commit
  listen := listen
  unlisten := unlisten

end Ofed

end Tulips
