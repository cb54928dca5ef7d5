import Tulips.Lib.Ring
import Tulips.Stack.Headers

/-!
# TCP connections

The control block of a connection with its ring of outstanding segments, and
the parts of the processing of a segment that only touch the control block: the
round-trip estimator, the scan of the ring for acknowledged segments and the
parsing of the SYN options.
-/

namespace Tulips.Tcpv4

/-- A pointer into a send buffer of the device. -/
structure Ptr where
  buf : Nat
  off : Nat
  deriving DecidableEq

/-- A segment that has been sent; it is free when its length is zero. -/
structure Segment where
  len : UInt32
  seq : UInt32
  dat : Option Ptr
  deriving DecidableEq

/-- The content of a free segment. -/
def Segment.cleared : Segment := ⟨0, 0, none⟩

def Segment.isFree (s : Segment) : Bool := s.len == 0

inductive State
  | close
  | closed
  | closing
  | established
  | finWait1
  | finWait2
  | lastAck
  | stopped
  | synRcvd
  | synSent
  | timeWait
  deriving DecidableEq, Repr

/-- Number of segments a connection may have in flight. -/
abbrev segmentCount : Nat := 16

def maxRtx : Nat := 5

def maxSynRtx : Nat := 5

def timeWaitTimeout : UInt8 := 120

structure Connection where
  id : UInt16
  rethaddr : Ethernet.Address
  ripaddr : Ipv4.Address
  lport : Port
  rport : Port
  rcvNxt : UInt32
  sndNxt : UInt32
  state : State
  ackdata : Bool
  newdata : Bool
  pshdata : Bool
  wndscl : UInt8
  /-- The window last advertised by the peer, unscaled. -/
  wnd : UInt16
  segidx : Fin segmentCount
  nrtx : BitVec 5
  slen : BitVec 24
  sdat : Option Ptr
  initialmss : UInt16
  mss : UInt16
  sa : UInt8
  sv : UInt8
  rto : UInt8
  timer : UInt8
  opts : UInt64
  cookie : Option Nat
  segments : Fin segmentCount → Segment

namespace Connection

/-- A connection as the table is built with. -/
def initial (id : UInt16) : Connection where
  id := id
  rethaddr := .zero
  ripaddr := ⟨0⟩
  lport := 0
  rport := 0
  rcvNxt := 0
  sndNxt := 0
  state := .closed
  ackdata := false
  newdata := false
  pshdata := false
  wndscl := 0
  wnd := 0
  segidx := 0
  nrtx := 0
  slen := 0
  sdat := none
  initialmss := 0
  mss := 0
  sa := 0
  sv := 0
  rto := 0
  timer := 0
  opts := 0
  cookie := none
  segments := fun _ => .cleared

def hasNoDelay (e : Connection) : Bool := e.opts &&& 0x1 != 0

def hasDelayedAck (e : Connection) : Bool := e.opts &&& 0x2 != 0

def hasAvailableSegments (e : Connection) : Bool :=
  (List.finRange segmentCount).any fun i => (e.segments i).isFree

def hasOutstandingSegments (e : Connection) : Bool :=
  (List.finRange segmentCount).any fun i => !(e.segments i).isFree

def hasPendingSendData (e : Connection) : Bool := e.slen != 0

/-- A window field in the scale of the peer. -/
def windowOf (e : Connection) (wnd : UInt16) : UInt32 :=
  wnd.toUInt32 <<< e.wndscl.toUInt32

def window (e : Connection) : UInt32 := e.windowOf e.wnd

/-- The segment at the index of the connection, its oldest one. -/
def segment (e : Connection) : Segment := e.segments e.segidx

def nextAvailableSegment (e : Connection) : Option (Fin segmentCount) :=
  Ring.firstFree Segment.isFree e.segments e.segidx

def setSegment (e : Connection) (i : Fin segmentCount) (s : Segment) : Connection :=
  { e with segments := Function.update e.segments i s }

def resetSendBuffer (e : Connection) : Connection := { e with slen := 0, sdat := none }

def updateRttEstimation (e : Connection) : Connection :=
  let m : Int8 := (e.rto - e.timer).toInt8
  let m := m - (e.sa >>> 3).toInt8
  let sa := e.sa + m.toUInt8
  let m := if m < 0 then -m else m
  let m := m - (e.sv >>> 2).toInt8
  let sv := e.sv + m.toUInt8
  { e with sa := sa, sv := sv, rto := (sa >>> 3) + sv }

/-! ## The scan for acknowledged segments -/

/-- An acknowledgement of the oldest segment's own number: the peer may be
announcing a change of its window. -/
def noteWindow (e : Connection) (wnd : UInt16) : Connection :=
  if e.window ≠ e.windowOf wnd then
    let e := { e with wnd := wnd }
    if e.nrtx = 0 then
      let e := e.updateRttEstimation
      { e with timer := e.rto }
    else e
  else e

/-- The housekeeping done for the first segment an ACK clears. -/
def noteAck (e : Connection) : Connection :=
  if e.ackdata then e
  else
    let e := if e.nrtx = 0 then e.updateRttEstimation else e
    { e with nrtx := 0, ackdata := true, timer := e.rto }

/-- Clear the oldest segment and go to the next one. -/
def clearSegment (e : Connection) : Connection :=
  { e.setSegment e.segidx .cleared with segidx := e.segidx + 1 }

/-- Scan the ring for segments acknowledged by `ackno`, for at most the given
number of slots. The flag tells whether the peer asked for a retransmission. -/
def ackScan (wnd : UInt16) (ackno : UInt32) : Nat → Connection → Connection × Bool
  | 0, e => (e, false)
  | n + 1, e =>
      let seg := e.segment
      let explm := seg.seq.toNat + seg.len.toNat
      -- The acknowledgement is linearised past the end of the sequence space.
      let acklm := if ackno < seg.seq then ackno.toNat + 2 ^ 32 else ackno.toNat
      if ackno = seg.seq then (e.noteWindow wnd, true)
      else if acklm < explm then (e, false)
      else if acklm = explm then (e.noteAck.clearSegment, false)
      else ackScan wnd ackno n e.noteAck.clearSegment

end Connection

/-! ## SYN options -/

namespace Options

def optEnd : UInt8 := 0
def optNoop : UInt8 := 1
def optMss : UInt8 := 2
def optMssLen : UInt8 := 4
def optWsc : UInt8 := 3
def optWscLen : UInt8 := 3

def applyMss (e : Connection) (omss : UInt16) : Connection :=
  { e with initialmss := if omss > e.initialmss then e.initialmss else omss }

def applyWsc (e : Connection) (wsc : UInt8) : Connection :=
  let scale := if wsc > 14 then 14 else wsc
  { e with wndscl := scale, wnd := e.wnd >>> scale.toUInt16 }

/-- The loop of `Options::parse` from the option at offset `c`; every round
advances by at least one byte, so `len` rounds reach the end. -/
def parseFrom (options : Bytes) (len : Nat) : Nat → Nat → Connection → Connection
  | 0, _, e => e
  | fuel + 1, c, e =>
      if len ≤ c then e
      else if options c = optEnd then e
      else if options c = optNoop then parseFrom options len fuel (c + 1) e
      else if options c = optMss ∧ options (c + 1) = optMssLen then
        parseFrom options len fuel (c + 4) (applyMss e (ntohs (load16 options (c + 2))))
      else if options c = optWsc ∧ options (c + 1) = optWscLen then
        parseFrom options len fuel (c + 3) (applyWsc e (options (c + 2)))
      else if options (c + 1) = 0 then e
      else if 40 ≤ c + (options (c + 1)).toNat then e
      else parseFrom options len fuel (c + (options (c + 1)).toNat) e

def parse (e : Connection) (len : UInt16) (data : Bytes) : Connection :=
  parseFrom (fun i => data (headerLen + i)) len.toNat len.toNat 0 e

end Options

end Tulips.Tcpv4
