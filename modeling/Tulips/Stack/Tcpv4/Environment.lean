import Tulips.Api.Status
import Tulips.Lib.BlockMemory
import Tulips.Lib.Program
import Tulips.Stack.Tcpv4.Connection

/-!
# What surrounds the TCP processor

The device below and the event handler above are arbitrary machines: each has a
state of its own and answers every call as it likes. The world holds their
states, the memory of the send buffers, the state of the two producers, and the
history of everything that crossed the boundary, newest event first. The history
is write-only for the stack: no decision of the code depends on it.
-/

namespace Tulips.Tcpv4

/-! ## Device and event handler -/

structure Device (D : Type) where
  mtu : UInt32
  /-- The size of a send buffer. -/
  mss : UInt32
  receiveBufferLengthLog2 : UInt8
  receiveBuffersAvailable : D → UInt16
  /-- A send buffer with its present content. -/
  prepare : D → Except Failure (Nat × Bytes) × D
  /-- Commit the frame in a buffer, with the segment size for offloading. -/
  commit : D → Nat → List UInt8 → UInt16 → Status × D
  listen : D → Port → Status × D
  unlisten : D → Port → D

/-- The methods of `tcpv4::EventHandler`. The data callbacks come in two forms;
the one that may send is given the length of the response area. -/
inductive Callback
  | onConnected
  | onAborted
  | onTimedOut
  | onSent
  | onAcked (alen : Option UInt32)
  | onNewData (data : List UInt8) (alen : Option UInt32)
  | onClosed
  deriving DecidableEq

/-- How a callback returns: the handler may set the cookie and the options of
the connection, and a data callback answers with an action, the bytes it put in
the response area and the length it claims for them. -/
structure Reply (H : Type) where
  hdl : H
  cookie : Option Nat
  opts : UInt64
  action : Action
  sdata : List UInt8
  slen : UInt32

abbrev EventHandler (H : Type) := H → Connection → Callback → Reply H

/-! ## History -/

inductive Event
  /-- The device was asked for a buffer. -/
  | prepare (who : Option UInt16) (buf : Option Nat)
  | write (who : Option UInt16) (buf : Nat)
  | commit (who : Option UInt16) (buf : Nat) (frame : List UInt8) (mss : UInt16) (ret : Status)
  | listen (port : Port) (ret : Status)
  | unlisten (port : Port)
  | callback (id : UInt16) (cb : Callback) (action : Action)
  /-- A slot starts a new connection with the given buffer; `leftover` tells
  whether segments of an earlier one are still in its ring. -/
  | create (id : UInt16) (iss : UInt32) (buf : Nat) (leftover : Bool)
  /-- The initial sequence number of the peer is known. -/
  | synced (id : UInt16) (irs : UInt32)
  /-- A segment of the ring went to the device. -/
  | transmit (id : UInt16) (state : State) (seq len : UInt32) (rexmit : Bool) (ret : Status)
  /-- A retransmission was called for, with `slen` bytes pending; `intact` tells
  whether exchanging buffers keeps the payload of the segment. -/
  | rexmit (id : UInt16) (state : State) (slen : BitVec 24) (seg : Segment) (intact : Bool)
  /-- A segment without data is about to leave from the send buffer. -/
  | control (id : UInt16) (state : State) (slen : BitVec 24)
  /-- The send buffer was to be replaced after a frame had gone out, `first`
  if that was a new segment; `clash` tells whether the connection still refers
  to the buffer it got. -/
  | refill (id : UInt16) (state : State) (first : Bool) (buf : Option Nat) (clash : Bool)
  /-- The immediate acknowledgement of new data was attempted. -/
  | immediateAck (id : UInt16) (ret : Status)
  /-- Bytes were accepted from the application, behind `slen` pending ones. -/
  | append (id : UInt16) (slen : BitVec 24) (bytes : List UInt8)
  deriving DecidableEq

/-! ## World -/

/-- Why an operation stops. -/
inductive Fault
  | nullPointer
  | noSegment
  | clockExhausted
  deriving DecidableEq

structure Config where
  /-- `TULIPS_HAS_HW_CHECKSUM` -/
  hwChecksum : Bool
  /-- `TULIPS_DISABLE_CHECKSUM_CHECK` -/
  disableChecksumCheck : Bool
  /-- `TULIPS_ENABLE_LATENCY_MONITOR` -/
  latencyMonitor : Bool

structure Env (D H : Type) where
  config : Config
  hostMac : Ethernet.Address
  hostIp : Ipv4.Address
  device : Device D
  handler : EventHandler H

structure EthernetProducer where
  destAddress : Ethernet.Address
  type : UInt16

structure Ipv4Producer where
  destAddress : Ipv4.Address
  proto : UInt8
  ipid : UInt16

structure World (D H : Type) where
  dev : D
  hdl : H
  mem : BlockMemory
  ethto : EthernetProducer
  ip4to : Ipv4Producer
  log : List Event

/-- The world before anything has happened. -/
def World.initial {D H : Type} (dev : D) (hdl : H) : World D H where
  dev := dev
  hdl := hdl
  mem := fun _ _ => 0
  ethto := ⟨.zero, 0⟩
  ip4to := ⟨⟨0⟩, 0, 0⟩
  log := []

/-- The room for TCP payload in a send buffer: `Processor::m_mss`. -/
def Env.mss {D H : Type} (env : Env D H) : UInt32 :=
  env.device.mss - UInt32.ofNat (Ethernet.headerLen + Ipv4.headerLen + headerLen)

/-- The MSS announced for new connections. -/
def Env.initialMss {D H : Type} (env : Env D H) : UInt16 :=
  env.device.mtu.toUInt16 - headerOverhead

end Tulips.Tcpv4
