import Tulips.Stack.Tcpv4.Table

/-!
# The abstract machine of a connection

What a connection is for: bytes accepted from the application wait in a send
buffer, go out as segments of a ring, and leave the ring when they are
acknowledged. A slot holds the part of a connection this is about, with the
memory and the history around it. Its acts are what the processor does between
two points where the slot is at rest; each is put together from a few effects
on the slot.
-/

namespace Tulips.Tcpv4

/-! ## Frames -/

namespace Frame

/-- The TCP header of a frame. -/
def header (frame : List UInt8) : Header :=
  Header.load fun i => frame.getD (tcpOffset + i) 0

def seqno (frame : List UInt8) : UInt32 := ntohl (header frame).seqno

/-- What follows the TCP header, as far as its offset says it reaches. -/
def payload (frame : List UInt8) : List UInt8 :=
  frame.drop (tcpOffset + (header frame).offset.val * 4)

end Frame

/-! ## Slots -/

/-- Where the segments of a connection go, and the ports they carry. -/
structure Peer where
  rethaddr : Ethernet.Address
  ripaddr : Ipv4.Address
  lport : Port
  rport : Port
  deriving DecidableEq

/-- The fields of a connection that its send and receive streams depend on. -/
structure Core where
  id : UInt16
  peer : Peer
  state : State
  ackdata : Bool
  rcvNxt : UInt32
  sndNxt : UInt32
  segidx : Fin segmentCount
  segments : Fin segmentCount → Segment
  slen : BitVec 24
  sdat : Option Ptr

def Connection.core (e : Connection) : Core where
  id := e.id
  peer := ⟨e.rethaddr, e.ripaddr, e.lport, e.rport⟩
  state := e.state
  ackdata := e.ackdata
  rcvNxt := e.rcvNxt
  sndNxt := e.sndNxt
  segidx := e.segidx
  segments := e.segments
  slen := e.slen
  sdat := e.sdat

/-- A connection as the machine sees it, with what it shares with the others. -/
structure Slot (H : Type) extends Core where
  hdl : H
  mem : BlockMemory
  log : List Event

variable {D H : Type}

def Ctx.slot (s : Ctx D H) : Slot H where
  toCore := s.e.core
  hdl := s.w.hdl
  mem := s.w.mem
  log := s.w.log

namespace Core

def hasFree (c : Core) : Prop := ∃ i, (c.segments i).isFree = true

def hasOutstanding (c : Core) : Prop := ∃ i, (c.segments i).isFree = false

/-- The slot of the ring the next segment goes to. -/
def nextFree (c : Core) : Option (Fin segmentCount) :=
  Ring.firstFree Segment.isFree c.segments c.segidx

/-- Whether the core refers to a buffer. -/
def refersTo (c : Core) (buf : Nat) : Prop :=
  c.sdat.map Ptr.buf = some buf ∨
    ∃ i, (c.segments i).isFree = false ∧ (c.segments i).dat.map Ptr.buf = some buf

end Core

namespace Slot

def logged (s : Slot H) (ev : Event) : Slot H := { s with log := ev :: s.log }

def moved (s : Slot H) (st : State) : Slot H := { s with state := st }

/-- The send buffer becomes a segment of the ring. -/
def pushed (s : Slot H) (k : Fin segmentCount) (len : UInt32) : Slot H :=
  { s with
    segments := Function.update s.segments k ⟨len, s.sndNxt, s.sdat⟩
    slen := 0
    sdat := none }

/-- The oldest segment moves to the send buffer, whose pending data is lost. -/
def swapped (s : Slot H) : Slot H :=
  { s with
    segments := Function.update s.segments s.segidx
      { s.segments s.segidx with dat := s.sdat }
    slen := 0
    sdat := none }

/-- The oldest segment is acknowledged. -/
def cleared (s : Slot H) : Slot H :=
  { s with
    ackdata := true
    segments := Function.update s.segments s.segidx .cleared
    segidx := s.segidx + 1 }

/-- The slot starts a new connection; its ring keeps its content. -/
def opened (s : Slot H) (peer : Peer) (st : State) (rcvNxt iss : UInt32) : Slot H :=
  { s with
    peer := peer
    state := st
    ackdata := false
    rcvNxt := rcvNxt
    sndNxt := iss
    segidx := 0
    slen := 0
    sdat := none }

/-- The SYN of a new connection enters the ring. -/
def pushedSyn (s : Slot H) (k : Fin segmentCount) (p : Ptr) : Slot H :=
  { s with segments := Function.update s.segments k ⟨1, s.sndNxt, some p⟩ }

end Slot

/-! ## Effects -/

/-- Bytes of a buffer have been stored, all between two offsets. -/
def Stored (p : Ptr) (lo hi : Nat) (s t : Slot H) : Prop :=
  ∃ mem writes, t = { s with mem := mem, log := writes ++ s.log } ∧
    (∀ ev ∈ writes, ev = .write (some s.id) p.buf) ∧
    BlockMemory.SameOutside p.buf lo hi s.mem mem

/-- The event handler has been called. -/
def Called (handler : EventHandler H) (cb : Callback) (s t : Slot H) : Prop :=
  ∃ e : Connection, e.id = s.id ∧
    t = { s with
      hdl := (handler s.hdl e cb).hdl
      log := .callback s.id cb (handler s.hdl e cb).action :: s.log }

/-- A frame has been committed: a TCP header of `hlen` bytes with the given
sequence number at `p`, and the `n` bytes that were behind it. That much is only
promised for a frame whose header and length are `known`. -/
def Committed (known : Prop) (p : Ptr) (hlen : Nat) (seq : UInt32) (n : Nat) (ret : Status)
    (s t : Slot H) : Prop :=
  ∃ u frame mss, Stored p (p.off - tcpOffset) (p.off + hlen) s u ∧
    t = u.logged (.commit (some s.id) p.buf frame mss ret) ∧
    (tcpOffset ≤ p.off → known → Frame.seqno frame = seq ∧
      Frame.payload frame = s.mem.read p.buf (p.off + hlen) n)

/-- The device was asked for the next send buffer. -/
def Refilled (first : Bool) (s t : Slot H) : Prop :=
  t = (s.logged (.prepare (some s.id) none)).logged (.refill s.id s.state first none false) ∨
  ∃ buf mem writes clash, (clash = true ↔ s.refersTo buf) ∧
    (∀ ev ∈ writes, ev = .write (some s.id) buf) ∧
    BlockMemory.SameOff buf s.mem mem ∧
    t = { s with
      sdat := some ⟨buf, tcpOffset⟩
      mem := mem
      log := .refill s.id s.state first (some buf) clash ::
        (writes ++ .prepare (some s.id) (some buf) :: s.log) }

/-- A new segment is counted, and its departure may be reported. -/
def Counted (handler : EventHandler H) (len : UInt32) (s t : Slot H) : Prop :=
  ∃ u, (u = s ∨ Called handler .onSent s u) ∧ t = { u with sndNxt := u.sndNxt + len }

/-- The segment in slot `k` has been sent. -/
def Transmitted (handler : EventHandler H) (known : Prop) (k : Fin segmentCount) (hlen n : Nat)
    (s t : Slot H) : Prop :=
  ∃ p u ret, (s.segments k).dat = some p ∧
    Committed known p hlen (s.segments k).seq n ret s u ∧
    let again := (s.segments k).seq != s.sndNxt
    let v := u.logged (.transmit s.id s.state (s.segments k).seq (s.segments k).len again ret)
    (ret ≠ .ok ∧ t = v) ∨
    (ret = .ok ∧ ∃ x, (if again then x = v else Counted handler (s.segments k).len v x) ∧
      Refilled (!again) x t)

/-- A segment without data has been sent from the send buffer. -/
def SentControl (known : Prop) (s t : Slot H) : Prop :=
  ∃ p u ret, s.sdat = some p ∧
    Committed known p headerLen s.sndNxt 0 ret (s.logged (.control s.id s.state s.slen)) u ∧
    ((ret ≠ .ok ∧ t = u) ∨ (ret = .ok ∧ Refilled false u t))

/-- A spare buffer has been prepared for the flags of an acknowledgement. -/
def Spared (s t : Slot H) : Prop :=
  ∃ buf mem writes, (∀ ev ∈ writes, ev = .write (some s.id) buf) ∧
    BlockMemory.SameOff buf s.mem mem ∧
    t = { s with mem := mem, log := writes ++ .prepare (some s.id) (some buf) :: s.log }

/-- A connection has been opened in the slot, its first segment in `p`. -/
def Opened (handler : EventHandler H) (peer : Peer) (st : State) (iss : UInt32) (p : Ptr)
    (s t : Slot H) : Prop :=
  ∃ leftover rcvNxt synced k, (leftover = true ↔ s.hasOutstanding) ∧
    (∀ ev ∈ synced, ∃ irs, ev = Event.synced s.id irs) ∧
    let u : Slot H := { s with log := synced ++ .create s.id iss p.buf leftover :: s.log }
    let v := u.opened peer st rcvNxt iss
    v.nextFree = some k ∧ Transmitted handler True k 28 0 (v.pushedSyn k p) t

/-- The last thing that happened is that the send buffer was replaced. -/
def Replenished (s : Slot H) : Prop :=
  ∃ id st first buf clash post, s.log = .refill id st first (some buf) clash :: post

/-- The buffer that was prepared last, for whoever would use it. -/
def Fetched (buf : Nat) (log : List Event) : Prop :=
  ∃ mid post, log = mid ++ .prepare none (some buf) :: post ∧
    ∀ ev ∈ mid, ev = .write none buf ∨ ∃ port ret, ev = .listen port ret

/-! ## Acts -/

/-- Events that report nothing about a stream. -/
def Event.isNote : Event → Bool
  | .prepare _ none | .listen _ _ | .unlisten _ | .immediateAck _ _ | .rexmit _ _ _ _ _ => true
  | _ => false

/-- The connection an event is about, if it is about one. -/
def Event.owner : Event → Option UInt16
  | .prepare who _ | .write who _ | .commit who _ _ _ _ => who
  | .listen _ _ | .unlisten _ => none
  | .callback id _ _ | .create id _ _ _ | .synced id _ | .transmit id _ _ _ _ _
  | .rexmit id _ _ _ _ | .control id _ _ | .refill id _ _ _ _ | .immediateAck id _
  | .append id _ _ => some id

def Callback.isData : Callback → Bool
  | .onAcked _ | .onNewData _ _ => true
  | _ => false

/-- The changes of state outside the paths that open or abort a connection or
send a FIN, and short of the states that only wait. -/
def State.leadsTo : State → State → Bool
  | .synRcvd, .established | .synSent, .established | .established, .close
  | .finWait1, .closing => true
  | st, .closed => st != .closed
  | _, _ => false

/-- The changes of state to FIN_WAIT_2 and TIME_WAIT. -/
def State.settlesTo : State → State → Bool
  | .finWait1, .finWait2 | .finWait1, .timeWait | .finWait2, .timeWait
  | .closing, .timeWait => true
  | _, _ => false

/-- Kinds of acts. -/
inductive Label
  | note | life | data | move | settle | rcv | news | clear | store | append
  | emit | fin | resend | control | spare | kill | abort | create | createFailed
  deriving DecidableEq

/-- One act of a slot. -/
inductive Act (handler : EventHandler H) : Label → Slot H → Slot H → Prop
  | note {s : Slot H} {ev : Event} (hev : ev.isNote = true)
      (howner : ev.owner = none ∨ ev.owner = some s.id) : Act handler .note s (s.logged ev)
  | life {s t : Slot H} {cb : Callback} (hcb : cb.isData = false)
      (hcall : Called handler cb s t) : Act handler .life s t
  | data {s t : Slot H} {cb : Callback} (hcb : cb.isData = true)
      (hcall : Called handler cb s t) : Act handler .data s t
  /-- The handshake only ends once the SYN has been acknowledged. -/
  | move {s : Slot H} {st : State} (hst : s.state.leadsTo st = true)
      (hack : st = .established → s.ackdata = true) : Act handler .move s (s.moved st)
  /-- From now on the connection waits, since its FIN counts as acknowledged. -/
  | settle {s : Slot H} {st : State} (hst : s.state.settlesTo st = true)
      (hack : s.state = .finWait2 ∨ s.ackdata = true) : Act handler .settle s (s.moved st)
  | rcv {s : Slot H} {rcvNxt : UInt32} {synced : List Event}
      (hsynced : ∀ ev ∈ synced, ∃ irs, ev = .synced s.id irs) :
      Act handler .rcv s { s with rcvNxt := rcvNxt, log := synced ++ s.log }
  | news {s : Slot H} : Act handler .news s { s with ackdata := false }
  | clear {s : Slot H} : Act handler .clear s s.cleared
  /-- A store to the header of the send buffer or behind the pending data. -/
  | store {s t : Slot H} {p : Ptr} {lo hi : Nat} (hstate : s.state ≠ .closed)
      (hsdat : s.sdat = some p)
      (hrange : hi ≤ p.off + headerLen ∨ p.off + headerLen + s.slen.toNat ≤ lo)
      (hstore : Stored p lo hi s t) : Act handler .store s t
  | append {s : Slot H} {bytes : List UInt8} (hstate : s.state = .established)
      (hbytes : ∀ p, s.sdat = some p →
        bytes = s.mem.read p.buf (p.off + headerLen + s.slen.toNat) bytes.length) :
      Act handler .append s
        { s with
          slen := s.slen + BitVec.ofNat 24 bytes.length
          log := .append s.id s.slen bytes :: s.log }
  /-- The pending data goes out as a new segment. -/
  | emit {s t : Slot H} {k : Fin segmentCount} (hstate : s.state = .established)
      (hfree : s.nextFree = some k)
      (hsend : Transmitted handler True k headerLen s.slen.toNat
        (s.pushed k (UInt32.ofNat s.slen.toNat)) t) : Act handler .emit s t
  /-- The connection closes on this side and sends a FIN. -/
  | fin {s t : Slot H} {st : State} {k : Fin segmentCount}
      (hstate : s.state = .established ∨ s.state = .close)
      (hst : st = .finWait1 ∨ st = .lastAck) (hfree : s.nextFree = some k)
      (hsend : Transmitted handler True k headerLen 0 ((s.moved st).pushed k 1) t) :
      Act handler .fin s t
  /-- The oldest segment goes out again, as its state has it. -/
  | resend {s u t : Slot H} {intact : Bool} {p : Ptr} {hlen n : Nat}
      (hstate : s.state ≠ .closed) (hsdat : s.sdat = some p)
      (hintact : intact = (s.segments s.segidx).swapKeeps s.mem s.sdat)
      (hcopy : ∀ q, (s.segments s.segidx).dat = some q → (s.segments s.segidx).len ≠ 0 →
        u.mem.read p.buf p.off (s.segments s.segidx).len.toNat =
          s.mem.read q.buf q.off (s.segments s.segidx).len.toNat)
      (hstore : Stored p p.off (p.off + (s.segments s.segidx).len.toNat)
        (s.logged (.rexmit s.id s.state s.slen (s.segments s.segidx) intact)) u)
      (hkind : s.state = .established ∧ hlen = headerLen ∧
          n = (s.segments s.segidx).len.toNat ∨
        s.state ≠ .established ∧ n = 0)
      (hsend : Transmitted handler (n < 2 ^ 24) s.segidx hlen n u.swapped t) :
      Act handler .resend s t
  | control {s u t : Slot H} {p : Ptr} (hstate : s.state ≠ .closed) (hslen : s.slen = 0)
      (hsdat : s.sdat = some p) (hstore : Stored p p.off (p.off + headerLen) s u)
      (hsend : SentControl True u t) : Act handler .control s t
  /-- An acknowledgement while data is pending. -/
  | spare {s u t : Slot H} (hstate : s.state ≠ .closed) (hslen : s.slen ≠ 0)
      (hspare : Spared s u) (hsend : SentControl False u t) : Act handler .spare s t
  /-- The connection is closed and resets its peer. -/
  | kill {s u t : Slot H} {p : Ptr} (hstate : s.state ≠ .closed) (hsdat : s.sdat = some p)
      (hstore : Stored p p.off (p.off + headerLen) (s.moved .closed) u)
      (hsend : SentControl True u t) : Act handler .kill s t
  /-- The user aborts the connection, whatever its state. -/
  | abort {s u v w t : Slot H} {p : Ptr} {port : Port}
      (hcall : Called handler .onAborted (s.moved .closed) u) (hsdat : s.sdat = some p)
      (hflags : Stored p p.off (p.off + headerLen) u v)
      (hstore : Stored p p.off (p.off + headerLen) (v.logged (.unlisten port)) w)
      (hsend : SentControl True w t) : Act handler .abort s t
  | create {s t : Slot H} {peer : Peer} {st : State} {iss : UInt32} {p : Ptr}
      (hstate : s.state = .closed ∨ s.state = .timeWait)
      (hst : st = .synRcvd ∨ st = .synSent ∧ Replenished t) (hoff : p.off = tcpOffset)
      (hfetched : Fetched p.buf s.log)
      (hopen : Opened handler peer st iss p s t) : Act handler .create s t
  /-- The SYN did not go out, or left no buffer behind. -/
  | createFailed {s u t : Slot H} {peer : Peer} {iss : UInt32} {p : Ptr} {port : Port}
      (hstate : s.state = .closed ∨ s.state = .timeWait) (hoff : p.off = tcpOffset)
      (hfetched : Fetched p.buf s.log) (hopen : Opened handler peer .synSent iss p s u)
      (ht : t = (u.logged (.unlisten port)).moved .closed) : Act handler .createFailed s t

/-- An act of one of the given kinds. -/
def Step (handler : EventHandler H) (L : List Label) (s t : Slot H) : Prop :=
  ∃ l ∈ L, Act handler l s t

/-- Why a slot cannot go on: it lacks a buffer to write to or to read from. -/
def Stuck : Fault → Slot H → Slot H → Prop
  | .nullPointer, s, t => (∃ new, t.log = new ++ s.log) ∧ s.state ≠ .closed ∧ (s.sdat = none ∨
      (s.segments s.segidx).dat = none ∧ (s.segments s.segidx).isFree = false)
  | _, _, _ => False

end Tulips.Tcpv4
