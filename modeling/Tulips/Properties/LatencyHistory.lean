import Tulips.Api.Client
import Tulips.Machine.Frames
import Tulips.Machine.ReportsTable
import Tulips.Properties.AckScan

/-!
# The latency history of a client

With the latency monitor a client keeps, for each connection, the times at which the
segments it was told of were given to it, and takes one out per acknowledgement it is
told of. One acknowledgement may cover several such segments, or none, so the history
is right only as long as every acknowledgement covers as many as the client is told of.
-/

namespace Tulips

namespace Tcpv4

open Program

/-! ## The ring of an open connection -/

namespace Connection

variable {e : Connection} {una : UInt32} {out free : List Segment}

/-- A scan that asks for the oldest segment again has come to a segment that starts at
the acknowledgement. -/
theorem ackScan_again {wnd : UInt16} {ackno : UInt32} {k : Nat} {e : Connection}
    (h : (e.ackScan wnd ackno k).2 = true) :
    (e.ackScan wnd ackno k).1.segment.seq = ackno := by
  induction k generalizing e with
  | zero => cases h
  | succ k ih =>
      rw [ackScan_succ] at h ⊢
      split_ifs at h ⊢ with hsame
      · have hcore := core_noteWindow e wnd
        have hseg : (e.noteWindow wnd).segment = e.segment := by
          show (e.noteWindow wnd).core.segments (e.noteWindow wnd).core.segidx = _
          rw [hcore]
          rfl
        rw [hseg, hsame]
      · exact ih h

/-- An acknowledgement of everything asks for nothing again. -/
theorem ackScan_everything {wnd : UInt16} {nxt : UInt32} {k : Nat}
    (h : InFlight e.segments e.segidx nxt una out free) (hout : out ≠ []) :
    (e.ackScan wnd nxt k).2 = false := by
  induction k generalizing e una out free with
  | zero => rfl
  | succ k ih =>
      obtain ⟨x, rest, rfl⟩ := List.exists_cons_of_ne_nil hout
      have hx : e.segment = x := h.head_eq
      have hbusy : (e.segments e.segidx).isFree = false := by
        rw [show e.segments e.segidx = x from hx]
        exact h.busy x (by simp)
      have hseq : x.seq = una := h.consecutive.1
      have hdist := h.distance
      rw [Sequence.total_cons] at hdist
      have hne : nxt ≠ x.seq := by
        rw [← hx]
        exact Ne.symm (h.seq_ne_nxt hbusy)
      rw [ackScan_succ, hx, if_neg hne, hseq]
      split_ifs with hshort hexact
      · rfl
      · rfl
      · apply ih (acked_inFlight h)
        rintro rfl
        rw [Sequence.total_nil] at hdist
        omega

theorem scanned_sndNxt (e : Connection) (inc : Incoming) :
    (e.scanned inc).1.sndNxt = e.sndNxt := by
  apply @scanned_invariant fun e' => e'.sndNxt = e.sndNxt
  · exact fun e' h => (congrArg Core.sndNxt (core_noteWindow e' _)).trans h
  · exact fun e' h => (congrArg Core.sndNxt (core_noteAck e')).trans h
  · rfl

/-- What is sent again has left before. -/
theorem heard_again {inc : Incoming}
    (h : InFlight e.segments e.segidx e.sndNxt una out free)
    (hagain : (e.clearNews.scanned inc).2 = true) :
    (e.heard inc).segment.seq ≠ (e.heard inc).sndNxt := by
  rw [heard, scanned_sndNxt]
  unfold scanned at hagain ⊢
  split at hagain
  swap
  · cases hagain
  next hbusy =>
  rw [if_pos hbusy, ackScan_again hagain]
  intro hall
  have hall : inc.ackno = e.sndNxt := hall
  obtain ⟨j, hj⟩ := e.hasOutstandingSegments_iff.mp hbusy.2
  have hout : out ≠ [] := List.ne_nil_of_mem (h.mem_out_iff.mpr ⟨j, rfl, hj⟩)
  rw [hall, ackScan_everything (e := e.clearNews) h hout] at hagain
  cases hagain

/-- The oldest segment in flight has left before. -/
theorem departed_of_inFlight (h : InFlight e.segments e.segidx e.sndNxt una out free) :
    e.Departed := by
  intro hbusy
  obtain ⟨j, hj⟩ := e.hasOutstandingSegments_iff.mp hbusy
  apply h.seq_ne_nxt
  rw [← Bool.not_eq_true]
  intro hfree
  have hmem := h.mem_out_iff.mpr ⟨j, rfl, hj⟩
  rw [h.out_eq_nil_iff.mpr hfree] at hmem
  cases hmem

end Connection

/-! ## The processor -/

variable {D H : Type} {n : Nat} {env : Env D H} {p q : Processor D H n}

theorem Event.isTaken.ringGood {ev : Event} (h : ev.isTaken = true) : ev.ringGood = true := by
  cases ev with
  | transmit id st seq len again ret => exact Bool.or_eq_true_iff.mpr (.inl h)
  | create => exact h
  | _ => rfl

/-- The pointers of every connection are in their place, and those that are open have
their ring in order. -/
structure Processor.Ordered (p : Processor D H n) : Prop where
  numbered : p.table.Numbered
  placed : ∀ i, (p.conns i).core.Placed
  ordered : Taken p.w.log → ∀ i, (p.conns i).core.InOrder p.w.log

namespace Processor.Ordered

theorem initial (n : Nat) (dev : D) (hdl : H) : (Processor.initial n dev hdl).Ordered where
  numbered := Processor.initial_numbered dev hdl
  placed _ := ⟨fun _ h => (by cases h), fun _ _ h => by cases h⟩
  ordered _ _ hopen := absurd rfl hopen

theorem inOrder_kept (handler : EventHandler H) : Kept handler Taken Core.InOrder where
  suffix := Taken.suffix
  act hact htaken hs :=
    (Tcpv4.inOrder_kept handler).act hact (fun ev hev => Event.isTaken.ringGood (htaken ev hev)) hs
  other := (Tcpv4.inOrder_kept handler).other

theorem exec {op : Op} (h : p.Ordered) (hn : n < 2 ^ 16) (hop : exec env op p = .ok () q) :
    q.Ordered := by
  have hout := exec_outcome hop
  obtain ⟨hnum, hplaced⟩ := hout.each (placed_kept env.handler) hn h.numbered fun _ => h.placed
  exact ⟨hnum, hplaced trivial,
    (hout.each (inOrder_kept env.handler) hn h.numbered h.ordered).2⟩

/-- Frames sent next to the processor. -/
theorem sent {w : World D H} (handler : EventHandler H) (h : p.Ordered) (hsent : SentOne p.w w) :
    ({ p with w := w } : Processor D H n).Ordered := by
  rcases hsent.table with htable | hact
  · have hlog : w.log = p.w.log := congrArg Table.log htable
    refine ⟨h.numbered, h.placed, ?_⟩
    rw [show ({ p with w := w } : Processor D H n).w.log = p.w.log from hlog]
    exact h.ordered
  · obtain ⟨hnum, hordered⟩ := (inOrder_kept handler).world hact h.numbered h.ordered
    exact ⟨hnum, h.placed, hordered⟩

theorem departed (h : p.Ordered) (htaken : Taken p.w.log) {i : Fin n}
    (hopen : (p.conns i).state ≠ .closed) : (p.conns i).Departed := by
  obtain ⟨una, out, free, hring, -⟩ := h.ordered htaken i hopen
  exact Connection.departed_of_inFlight hring

end Processor.Ordered

namespace Journal

variable {J : Journal env.handler}

variable (J) in
/-- The processor of an application that waits for the right number of segments of every
open connection and listens on no port. -/
structure Steady (p : Processor D H n) : Prop extends p.Ordered where
  unheard : p.listenports = []
  unbroken : Taken p.w.log → J.broken p.w.hdl = false
  even : Taken p.w.log → J.AllEven p

variable (J) in
/-- What an operation has to meet: a segment acknowledges as much as the application is told
of, and no send leaves nothing pending and yet sends a segment with the PSH flag. -/
def Fits (p : Processor D H n) : Processor.Op → Prop
  | .process inc => ∀ i, p.demux inc = some i → J.Heeds (p.ctx i) inc
  | .send id len data off => ∀ i, Processor.slot? n id = some i →
      (p.conns i).state = .established → ¬env.hollow (p.conns i) len data off
  | _ => True

theorem Steady.initial (n : Nat) (dev : D) {hdl : H} (hdl_ok : J.broken hdl = false) :
    J.Steady (Processor.initial n dev hdl) where
  toOrdered := .initial n dev hdl
  unheard := rfl
  unbroken _ := hdl_ok
  even _ _ hopen := absurd rfl hopen

theorem Steady.of_even (h : J.Steady p) (hq : q.Ordered) (hlisten : q.listenports = p.listenports)
    (hlog : ∃ new, q.w.log = new ++ p.w.log)
    (heven : Taken q.w.log → J.AllEven p → J.AllEven q ∧ J.broken q.w.hdl = J.broken p.w.hdl) :
    J.Steady q := by
  obtain ⟨new, hlog⟩ := hlog
  have hbefore : Taken q.w.log → Taken p.w.log := fun htaken => (hlog ▸ htaken).suffix
  refine ⟨hq, hlisten.trans h.unheard, fun htaken => ?_, fun htaken => ?_⟩
  · rw [(heven htaken (h.even (hbefore htaken))).2]
    exact h.unbroken (hbefore htaken)
  · exact (heven htaken (h.even (hbefore htaken))).1

/-- What is left to show of an operation is what becomes of the connections. -/
theorem Steady.exec {op : Processor.Op} (h : J.Steady p) (hn : n < 2 ^ 16)
    (hop : Processor.exec env op p = .ok () q) (hlisten : q.listenports = p.listenports)
    (heven : Taken q.w.log → J.AllEven p → J.AllEven q ∧ J.broken q.w.hdl = J.broken p.w.hdl) :
    J.Steady q :=
  h.of_even (h.toOrdered.exec hn hop) hlisten (Processor.exec_outcome hop).extends heven

theorem Steady.process {inc : Incoming} {ret : Status} (h : J.Steady p) (hn : n < 2 ^ 16)
    (hfits : J.Fits p (.process inc)) (hok : Processor.process env inc p = .ok ret q) :
    J.Steady q := by
  have hop : Processor.exec env (.process inc) p = .ok () q := bind_eq_ok.mpr ⟨ret, q, hok, rfl⟩
  have hlisten : q.listenports = p.listenports := by
    rcases Processor.process_cases hok with hwanes | ⟨i, -, hstarts, -⟩
    · exact hwanes.listenports
    · exact hstarts.listenports
  obtain ⟨new, hlog⟩ : ∃ new, q.w.log = new ++ p.w.log := (Processor.exec_outcome hop).extends
  apply h.exec hn hop hlisten
  intro htaken heven
  have hbefore : Taken p.w.log := (hlog ▸ htaken).suffix
  refine heven.process hn h.numbered h.unheard (fun i hdemux hagain => ?_) hfits hok htaken
  obtain ⟨una, out, free, hring, -⟩ := h.ordered hbefore i (demux_spec hdemux)
  exact Connection.heard_again hring hagain

theorem Steady.run {expired : Bool} {ret : Status} (h : J.Steady p) (hn : n < 2 ^ 16)
    (hok : Processor.run env expired p = .ok ret q) : J.Steady q := by
  have hop : Processor.exec env (.run expired) p = .ok () q :=
    bind_eq_ok.mpr ⟨ret, q, hok, rfl⟩
  obtain ⟨new, hlog⟩ : ∃ new, q.w.log = new ++ p.w.log := (Processor.exec_outcome hop).extends
  apply h.exec hn hop (Processor.run_wanes hok).listenports
  intro htaken heven
  have hbefore : Taken p.w.log := (hlog ▸ htaken).suffix
  exact heven.run hn h.numbered (fun i hopen => h.departed hbefore hopen) hok htaken

theorem Steady.close {id : UInt16} {ret : Status} (h : J.Steady p) (hn : n < 2 ^ 16)
    (hok : Processor.close env id p = .ok ret q) : J.Steady q := by
  have hop : Processor.exec env (.close id) p = .ok () q := bind_eq_ok.mpr ⟨ret, q, hok, rfl⟩
  apply h.exec hn hop (Processor.close_wanes hok).listenports
  exact fun htaken heven => heven.close hn h.numbered hok htaken

theorem Steady.abort {id : UInt16} {ret : Status} (h : J.Steady p) (hn : n < 2 ^ 16)
    (hok : Processor.abort env id p = .ok ret q) : J.Steady q := by
  have hlisten : q.listenports = p.listenports := by
    rcases Processor.abort_left hok with rfl | ⟨i, t, -, -, rfl⟩
    · rfl
    · rfl
  have hop : Processor.exec env (.abort id) p = .ok () q := bind_eq_ok.mpr ⟨ret, q, hok, rfl⟩
  apply h.exec hn hop hlisten
  exact fun htaken heven => heven.abort hn h.numbered hok htaken

theorem Steady.send {id : UInt16} {len : UInt32} {data : Option Bytes} {off : UInt32}
    {result : Status × UInt32} (h : J.Steady p) (hn : n < 2 ^ 16)
    (hfits : J.Fits p (.send id len data off))
    (hok : Processor.send env id len data off p = .ok result q) : J.Steady q := by
  have hop : Processor.exec env (.send id len data off) p = .ok () q :=
    bind_eq_ok.mpr ⟨result, q, hok, rfl⟩
  apply h.exec hn hop (Processor.send_wanes hok).listenports
  exact fun htaken heven => heven.send hn h.numbered h.placed hfits hok htaken

/-- Frames sent next to the processor. -/
theorem Steady.sent {w : World D H} (h : J.Steady p) (hsent : SentOne p.w w) :
    J.Steady ({ p with w := w } : Processor D H n) := by
  have hhdl : w.hdl = p.w.hdl := hsent.1
  obtain ⟨new, hlog, hnew⟩ : ∃ new, w.log = new ++ p.w.log ∧ ∀ ev ∈ new, ev.isStay = true := by
    obtain ⟨-, ⟨-, hlog | hlog⟩ | ⟨buf, writes, frame, mss, ret, -, hwrites, hlog⟩⟩ := hsent
    · exact ⟨[], hlog, by simp⟩
    · exact ⟨[_], hlog, by simp [Event.isStay]⟩
    · refine ⟨.commit none buf frame mss ret :: (writes ++ [.prepare none (some buf)]), ?_, ?_⟩
      · rw [hlog]
        simp
      · intro ev hev
        rcases List.mem_cons.mp hev with rfl | hev
        · rfl
        rcases List.mem_append.mp hev with hev | hev
        · rw [hwrites ev hev]
          rfl
        · rw [List.mem_singleton.mp hev]
          rfl
  exact h.of_even (h.toOrdered.sent env.handler hsent) rfl ⟨new, hlog⟩ fun _ heven =>
    ⟨heven.world hhdl ⟨new, hlog, hnew⟩, congrArg J.broken hhdl⟩

theorem connect_listenports {rhwaddr : Ethernet.Address} {ripaddr : Ipv4.Address}
    {rport : Port} {clock : List UInt64} {result : Status × Option (Fin n)}
    (hok : Processor.connect env rhwaddr ripaddr rport clock p = .ok result q) :
    q.listenports = p.listenports := by
  rcases Processor.connect_cases hok with
    hwanes | ⟨i, lport, -, -, ⟨hstarts, -⟩ | ⟨hstarts, -⟩⟩
  · exact hwanes.listenports
  · exact hstarts.listenports
  · exact hstarts.listenports

/-- An application that waits for nothing more of the connection. -/
theorem Even.retold {e : Connection} {w : World D H} {hdl : H} (h : J.Even e w)
    (hwaiting : ∀ m, J.waiting hdl e.id = some m → J.waiting w.hdl e.id = some m) :
    J.Even e { w with hdl := hdl } :=
  ⟨h.enough, fun m hm => h.even m (hwaiting m hm)⟩

/-- What the application does by itself. -/
theorem Steady.retold {hdl : H} (h : J.Steady p)
    (hwaiting : ∀ id m, J.waiting hdl id = some m → J.waiting p.w.hdl id = some m)
    (hbroken : J.broken hdl = J.broken p.w.hdl) :
    J.Steady ({ p with w.hdl := hdl } : Processor D H n) where
  toOrdered := ⟨h.numbered, h.placed, h.ordered⟩
  unheard := h.unheard
  unbroken htaken := hbroken.trans (h.unbroken htaken)
  even htaken i hopen := (h.even htaken i hopen).retold (hwaiting _)

/-- An attempt to connect that returns an error leaves everything as it was. -/
theorem Steady.refused {rhwaddr : Ethernet.Address} {ripaddr : Ipv4.Address} {rport : Port}
    {clock : List UInt64} {result : Status × Option (Fin n)} (h : J.Steady p) (hn : n < 2 ^ 16)
    (hok : Processor.connect env rhwaddr ripaddr rport clock p = .ok result q)
    (hret : result.1 ≠ .ok) : J.Steady q := by
  have hop : Processor.exec env (.connect rhwaddr ripaddr rport clock) p = .ok () q :=
    bind_eq_ok.mpr ⟨result, q, hok, rfl⟩
  apply h.exec hn hop (connect_listenports hok)
  intro htaken heven
  obtain ⟨hbroken, ⟨hq, -⟩ | ⟨i, hresult, -⟩⟩ := heven.connect hn h.numbered hok htaken
  · exact ⟨hq, hbroken⟩
  · rw [hresult] at hret
    exact absurd rfl hret

/-- The application takes up the connection it has opened. -/
theorem Steady.opened {rhwaddr : Ethernet.Address} {ripaddr : Ipv4.Address} {rport : Port}
    {clock : List UInt64} {conn : Option (Fin n)} {hdl : H} (h : J.Steady p) (hn : n < 2 ^ 16)
    (hok : Processor.connect env rhwaddr ripaddr rport clock p = .ok (.ok, conn) q)
    (hbroken : J.broken hdl = J.broken q.w.hdl)
    (hfresh : q.w.hdl = p.w.hdl → ∀ i, conn = some i → ∀ id m, J.waiting hdl id = some m →
      (id = UInt16.ofNat i.val → m = 0) ∧
      (id ≠ UInt16.ofNat i.val → J.waiting q.w.hdl id = some m)) :
    J.Steady ({ q with w.hdl := hdl } : Processor D H n) := by
  have hop : Processor.exec env (.connect rhwaddr ripaddr rport clock) p = .ok () q :=
    bind_eq_ok.mpr ⟨(.ok, conn), q, hok, rfl⟩
  obtain ⟨new, hlog⟩ : ∃ new, q.w.log = new ++ p.w.log := (Processor.exec_outcome hop).extends
  have hq : q.Ordered := h.toOrdered.exec hn hop
  have hopens : Taken q.w.log → J.broken q.w.hdl = false ∧ ∃ i, conn = some i ∧ J.Opens p q i := by
    intro htaken
    have hbefore : Taken p.w.log := (hlog ▸ htaken).suffix
    obtain ⟨hsame, ⟨-, hret⟩ | ⟨i, hresult, hopens⟩⟩ :=
      (h.even hbefore).connect hn h.numbered hok htaken
    · exact absurd rfl hret
    · cases hresult
      exact ⟨hsame.trans (h.unbroken hbefore), i, rfl, hopens⟩
  refine ⟨⟨hq.numbered, hq.placed, hq.ordered⟩, (connect_listenports hok).trans h.unheard,
    fun htaken => hbroken.trans (hopens htaken).1, fun htaken j hopen => ?_⟩
  obtain ⟨-, i, rfl, hi⟩ := hopens htaken
  have hfresh := hfresh hi.hdl i rfl
  by_cases hj : j = i
  · -- The new connection has its SYN outstanding, which was not reported.
    subst hj
    obtain ⟨left, hleft⟩ := hi.unreported
    refine ⟨?_, fun m hm => ?_⟩
    · rw [hi.outstanding, hleft]
      exact Nat.succ_pos _
    · rw [show (({ q with w.hdl := hdl } : Processor D H n).conns j).id = UInt16.ofNat j.val
        from hq.numbered j] at hm
      rw [(hfresh _ m hm).1 rfl, Connection.reported, hi.outstanding, hleft]
      rfl
  · have hid := hq.numbered.id_ne hn hj
    rw [hq.numbered i] at hid
    exact (hi.others j hj hopen).retold fun m hm => (hfresh _ m hm).2 hid

end Journal

end Tcpv4

/-! ## Frames -/

namespace Host

open Program Tcpv4

variable {D H : Type} {n : Nat} {env : Net D H} {s t : Host D H n} {len : UInt16} {data : Bytes}
  {ret : Status}

/-- At most one frame was sent next to the TCP processor. -/
def SentBeside (s t : Host D H n) : Prop :=
  ∃ w, SentOne s.tcp.w w ∧ t.tcp = { s.tcp with w := w }

theorem SentBeside.refl (s : Host D H n) : SentBeside s s := ⟨s.tcp.w, .refl, rfl⟩

/-- A frame that is not taken for a segment goes past the TCP processor. -/
theorem process_cases (hok : process env len data s = .ok ret t) :
    (∃ inc, segment? env len data = some inc ∧
      Processor.process env.toEnv inc s.tcp = .ok ret t.tcp) ∨ SentBeside s t := by
  cases hseg : segment? env len data with
  | some inc =>
      rw [process_of_segment hseg] at hok
      obtain ⟨q, hrun, rfl⟩ := zoom_eq_ok.mp hok
      exact .inl ⟨inc, rfl, hrun⟩
  | none =>
      right
      unfold process at hok
      dsimp only at hok
      split_ifs at hok with harp hip
      · rw [bind_gets_id] at hok
        obtain ⟨r, u, hworld, hok⟩ := bind_eq_ok.mp hok
        obtain ⟨w, hrun, rfl⟩ := zoom_eq_ok.mp hworld
        cases hok
        exact ⟨w, Arp.Processor.process_sentOne hrun, rfl⟩
      · rw [segment?, if_pos hip] at hseg
        unfold processIpv4 at hok
        rw [show (fun i => data (Ethernet.headerLen + i)) = packet data from rfl] at hok
        cases hpacket : ipv4Packet env (.load data 6) (len - UInt16.ofNat Ethernet.headerLen)
            (packet data) with
        | rejected =>
            rw [hpacket] at hok
            cases hok
            exact .refl s
        | tcp inc =>
            rw [hpacket] at hseg
            cases hseg
        | icmp ipSrc iplen payload =>
            rw [hpacket] at hok
            dsimp only at hok
            rw [bind_gets_id] at hok
            obtain ⟨r, u, hworld, hok⟩ := bind_eq_ok.mp hok
            obtain ⟨w, hrun, rfl⟩ := zoom_eq_ok.mp hworld
            cases hok
            exact ⟨w, Icmpv4.Processor.process_sentOne hrun, rfl⟩
        | raw =>
            rw [hpacket] at hok
            cases hok
            exact .refl s
      all_goals
        cases hok
        exact .refl s

end Host

/-! ## The client -/

namespace Client

open Program Tcpv4

variable {D S : Type} {n : Nat} {env : Setup D S} {cl : Client S} {id h : UInt16}

/-- The length of the history of a handle that designates the connection. -/
def Connection.waiting (d : Connection) (id : UInt16) : Option Nat :=
  if d.conn = id then some d.history.length else none

/-- The length of the history of the handle that a connection is given to, if that handle
designates the connection. -/
def waiting (cl : Client S) (id : UInt16) : Option Nat := (cl.cns (cl.idx id)).waiting id

theorem waiting_setConn_apply (cl : Client S) (h : UInt16) (d : Connection) (id : UInt16) :
    (cl.setConn h d).waiting id = (Function.update cl.cns h d (cl.idx id)).waiting id := rfl

/-- A handle that keeps its connection and the length of its history. -/
theorem waiting_setConn {d : Connection} (hconn : d.conn = (cl.cns h).conn)
    (hhistory : d.history.length = (cl.cns h).history.length) :
    (cl.setConn h d).waiting = cl.waiting := by
  funext id
  rw [waiting_setConn_apply, waiting]
  by_cases hid : cl.idx id = h
  · rw [hid, Function.update_self, Connection.waiting, hconn, hhistory, Connection.waiting]
  · rw [Function.update_of_ne hid]

/-- The history of the handle that designates a connection changes. -/
theorem waiting_setHistory (cl : Client S) {d : Connection}
    (hconn : d.conn = (cl.cns (cl.idx id)).conn) (hown : (cl.cns (cl.idx id)).conn = id) :
    (cl.setConn (cl.idx id) d).waiting =
      Function.update cl.waiting id (some d.history.length) := by
  funext other
  rw [waiting_setConn_apply]
  by_cases hother : other = id
  · rw [hother, Function.update_self, Function.update_self]
    exact if_pos (hconn.trans hown)
  · rw [Function.update_of_ne hother, waiting]
    by_cases hsame : cl.idx other = cl.idx id
    · -- The handle designates another connection.
      have hne : (cl.cns (cl.idx id)).conn ≠ other := by
        rw [hown]
        exact Ne.symm hother
      rw [hsame, Function.update_self, Connection.waiting, hconn, Connection.waiting,
        if_neg hne, if_neg hne]
    · rw [Function.update_of_ne hsame]

section Handler

variable {monitor : Bool} {clock : Nat → UInt64} {dlg : Delegate S}

theorem handler_other (cl : Client S) (e : Tcpv4.Connection) {cb : Callback}
    (hcb : cb.isOther = true) :
    (handler monitor clock dlg cl e cb).hdl.waiting = cl.waiting ∧
      (handler monitor clock dlg cl e cb).hdl.undefined = cl.undefined := by
  unfold handler
  dsimp only
  split
  · exact ⟨rfl, rfl⟩
  cases cb with
  | onSent | onAcked => cases hcb
  | onConnected | onAborted | onTimedOut | onClosed => exact ⟨waiting_setConn rfl rfl, rfl⟩
  | onNewData data alen => exact ⟨rfl, rfl⟩

/-- A connection that no handle designates is not waited for. -/
theorem waiting_unowned (f : Nat → Nat) (hleft : (cl.cns (cl.idx id)).conn ≠ id) :
    cl.waiting = Function.update cl.waiting id ((cl.waiting id).map f) := by
  have hnone : cl.waiting id = none := if_neg hleft
  apply Eq.symm
  apply Function.update_eq_self_iff.mpr
  rw [hnone]
  rfl

theorem onSent_waiting (hown : (cl.cns (cl.idx id)).conn = id) :
    (cl.onSent true (cl.idx id)).waiting =
      Function.update cl.waiting id (some ((cl.cns (cl.idx id)).history.length + 1)) := by
  let d := cl.cns (cl.idx id)
  let d' : Connection := { d with history := d.history ++ [d.pre], pre := 0 }
  have hset : (cl.setConn (cl.idx id) d').waiting =
      Function.update cl.waiting id (some (d.history ++ [d.pre]).length) :=
    waiting_setHistory cl rfl hown
  rw [List.length_append] at hset
  exact hset

/-- A history that is not empty gives up its oldest time. -/
theorem noteLatency_waiting {first : UInt64} {rest : List UInt64}
    (hown : (cl.cns (cl.idx id)).conn = id)
    (hhistory : (cl.cns (cl.idx id)).history = first :: rest) :
    (cl.noteLatency clock (cl.idx id)).waiting =
        Function.update cl.waiting id (some rest.length) ∧
      (cl.noteLatency clock (cl.idx id)).undefined = cl.undefined := by
  let told : Client S := { cl with reads := cl.reads + 1 }
  let d := cl.cns (cl.idx id)
  have hnoted : cl.noteLatency clock (cl.idx id) = told.setConn (told.idx id) { d with
      count := d.count + 1, lat := d.lat + (clock cl.reads - first), history := rest } := by
    unfold noteLatency
    dsimp only
    rw [hhistory]
  rw [hnoted]
  exact ⟨waiting_setHistory told rfl hown, rfl⟩

theorem handler_sent (hmonitor : monitor = true) (cl : Client S) (e : Tcpv4.Connection) :
    (handler monitor clock dlg cl e .onSent).hdl.waiting =
        Function.update cl.waiting e.id ((cl.waiting e.id).map (· + 1)) ∧
      (handler monitor clock dlg cl e .onSent).hdl.undefined = cl.undefined := by
  subst hmonitor
  unfold handler
  dsimp only
  split
  · next hleft => exact ⟨waiting_unowned _ hleft, rfl⟩
  · next hown =>
      have hown : (cl.cns (cl.idx e.id)).conn = e.id := not_not.mp hown
      have hsome : cl.waiting e.id = some (cl.cns (cl.idx e.id)).history.length := if_pos hown
      rw [hsome]
      exact ⟨onSent_waiting hown, rfl⟩

theorem handler_acked (hmonitor : monitor = true) (cl : Client S) (e : Tcpv4.Connection)
    (alen : Option UInt32) (hwaits : cl.waiting e.id ≠ some 0) :
    (handler monitor clock dlg cl e (.onAcked alen)).hdl.waiting =
        Function.update cl.waiting e.id ((cl.waiting e.id).map (· - 1)) ∧
      (handler monitor clock dlg cl e (.onAcked alen)).hdl.undefined = cl.undefined := by
  subst hmonitor
  unfold handler
  dsimp only
  split
  · next hleft => exact ⟨waiting_unowned _ hleft, rfl⟩
  · next hown =>
      have hown : (cl.cns (cl.idx e.id)).conn = e.id := not_not.mp hown
      have hsome : cl.waiting e.id = some (cl.cns (cl.idx e.id)).history.length := if_pos hown
      rw [hsome] at hwaits ⊢
      cases hhistory : (cl.cns (cl.idx e.id)).history with
      | nil =>
          rw [hhistory] at hwaits
          exact absurd rfl hwaits
      | cons first rest => exact noteLatency_waiting hown hhistory

end Handler

/-- The history as what the client waits for. -/
def journal (env : Setup D S) (hmonitor : env.config.latencyMonitor = true) :
    Journal env.net.toEnv.handler where
  waiting := waiting
  broken := Client.undefined
  other cl e _ hcb := handler_other cl e hcb
  sent cl e := @handler_sent S _ env.clock env.delegate hmonitor cl e
  acked cl e alen hwaits := handler_acked hmonitor cl e alen hwaits

/-! ## Runs of a client -/

/-- Reached by operations that all meet a condition on what they find. -/
inductive ReachableBy (env : Setup D S) (good : Host D (Client S) n → Op → Prop) :
    Host D (Client S) n → Prop
  | start (hn : n < 2 ^ 16) (dev : D) (dlg : S) : ReachableBy env good (start n dev dlg)
  | exec {s t : Host D (Client S) n} {op : Op} (hs : ReachableBy env good s) (hgood : good s op)
      (hop : exec env op s = .ok () t) : ReachableBy env good t

/-- As many segments that a connected client was told of are acknowledged as it is told of
acknowledgements. -/
def Acknowledges (s : Host D (Client S) n) (i : Fin n) (inc : Incoming) : Prop :=
  ((of s).waiting (s.tcp.conns i).id).isSome = true → (s.tcp.conns i).listens inc = true →
    (s.tcp.conns i).acknowledged s.tcp.w.log inc = if (s.tcp.conns i).tells inc then 1 else 0

/-- What an operation has to meet: a segment acknowledges as much as the client is told of,
no send leaves nothing pending and yet sends a segment with the PSH flag, and a handle that
waits to be connected is connected with an empty history. -/
def Balanced (env : Setup D S) (s : Host D (Client S) n) : Op → Prop
  | .process len data => ∀ inc ∈ Host.segment? env.net len data, ∀ i ∈ s.tcp.demux inc,
      Acknowledges s i inc
  | .send id len data off => ∀ i ∈ Processor.slot? n ((of s).cns id).conn,
      (s.tcp.conns i).state = .established → ¬env.net.toEnv.hollow (s.tcp.conns i) len data off
  | .connect id _ _ _ _ => ((of s).cns id).state = .opened ∨ ((of s).cns id).state = .resolving →
      ((of s).cns id).history = []
  | _ => True

section Step

variable {hmonitor : env.config.latencyMonitor = true} {s t : Host D (Client S) n}

variable (hmonitor) in
/-- The processor of the client, seen with its history. -/
abbrev Steady (s : Host D (Client S) n) : Prop := (journal env hmonitor).Steady s.tcp

theorem Steady.modify {f : Client S → Client S} (h : Steady hmonitor s)
    (hwaiting : (f (of s)).waiting = (of s).waiting)
    (hundefined : (f (of s)).undefined = (of s).undefined)
    (hok : modify f s = .ok () t) : Steady hmonitor t := by
  cases hok
  exact h.retold (fun id m hm => by
    change (f (of s)).waiting id = some m at hm
    rw [hwaiting] at hm
    exact hm) hundefined

theorem Steady.setState {st : State} (h : Steady hmonitor s) (hok : setState id st s = .ok () t) :
    Steady hmonitor t := by
  apply h.modify _ rfl hok
  apply waiting_setConn
  · rfl
  · rfl

theorem Steady.beside (h : Steady hmonitor s) (hbeside : Host.SentBeside s t) :
    Steady hmonitor t := by
  obtain ⟨w, hsent, htcp⟩ := hbeside
  unfold Steady
  rw [htcp]
  exact h.sent hsent

theorem stamp_waiting (clock : Nat → UInt64) (cl : Client S) (id : UInt16) :
    (cl.stamp clock id).waiting = cl.waiting ∧ (cl.stamp clock id).undefined = cl.undefined ∧
      ((cl.stamp clock id).cns id).conn = (cl.cns id).conn := by
  unfold stamp
  dsimp only
  split
  · refine ⟨waiting_setConn rfl rfl, rfl, ?_⟩
    show (Function.update cl.cns id { cl.cns id with pre := clock cl.reads } id).conn = _
    rw [Function.update_self]
  · exact ⟨rfl, rfl, rfl⟩

/-- A handle that is connected to a slot waits for nothing of the connection there, and for
nothing of any other. -/
theorem waiting_connected {d : Connection} (hhistory : d.history = []) (other : UInt16) (m : ℕ)
    (hm : ({ cl.setConn h d with idx := Function.update cl.idx d.conn h } : Client S).waiting
      other = some m) :
    (other = d.conn → m = 0) ∧ (other ≠ d.conn → cl.waiting other = some m) := by
  change (Function.update cl.cns h d (Function.update cl.idx d.conn h other)).waiting other =
    some m at hm
  refine ⟨?_, fun hother => ?_⟩
  · rintro rfl
    rw [Function.update_self, Function.update_self, Connection.waiting, if_pos rfl, hhistory] at hm
    cases hm
    rfl
  · rw [Function.update_of_ne hother] at hm
    by_cases hidx : cl.idx other = h
    · -- The handle has left this connection.
      rw [hidx, Function.update_self, Connection.waiting, if_neg (Ne.symm hother)] at hm
      cases hm
    · rwa [Function.update_of_ne hidx] at hm

theorem Steady.connectTo {rhwaddr : Ethernet.Address} {ripaddr : Ipv4.Address} {rport : Port}
    {clock : List UInt64} {ret : Status} (h : Steady hmonitor s) (hn : n < 2 ^ 16)
    (hhistory : ((of s).cns id).history = [])
    (hok : connectTo env id rhwaddr ripaddr rport clock s = .ok ret t) : Steady hmonitor t := by
  unfold Client.connectTo at hok
  obtain ⟨⟨ret', conn⟩, u, htcp, hok⟩ := bind_eq_ok.mp hok
  obtain ⟨q, hrun, rfl⟩ := zoom_eq_ok.mp htcp
  dsimp only at hok
  split at hok
  · next hret =>
      subst hret
      obtain ⟨_, v, hmodify, hok⟩ := bind_eq_ok.mp hok
      cases hok
      cases hmodify
      let cl := q.w.hdl
      let d : Connection := { cl.cns id with
        conn := (conn.map fun i => UInt16.ofNat i.val).getD (cl.cns id).conn
        state := .connecting }
      let hdl : Client S := { cl.setConn id d with idx := Function.update cl.idx d.conn id }
      have hopened : (journal env hmonitor).Steady ({ q with w.hdl := hdl } : Processor D _ n) := by
        apply Journal.Steady.opened h hn hrun
        · rfl
        · intro hhdl i hi other m hm
          subst hi
          have hempty : d.history = [] := by
            have hcl : cl = of s := hhdl
            rw [← hhistory, ← hcl]
          exact waiting_connected hempty other m hm
      exact hopened
  · next hret =>
      cases hok
      exact Journal.Steady.refused h hn hrun hret

theorem Steady.connect {ripaddr : Ipv4.Address} {rport : Port}
    {found : Option Ethernet.Address} {clock : List UInt64} {ret : Status}
    (h : Steady hmonitor s) (hn : n < 2 ^ 16)
    (hhistory : ((of s).cns id).state = .opened ∨ ((of s).cns id).state = .resolving →
      ((of s).cns id).history = [])
    (hok : connect env id ripaddr rport found clock s = .ok ret t) : Steady hmonitor t := by
  have hskip : ∀ {ret' : Status}, (Pure.pure ret' : HostProgram D (Client S) n Status) s =
      .ok ret t → Steady hmonitor t := by
    intro ret' hok
    cases hok
    exact h
  unfold Client.connect at hok
  split at hok
  · exact hskip hok
  obtain ⟨_, _, hget, hok⟩ := bind_eq_ok.mp hok
  cases hget
  cases hstate : ((of s).cns id).state <;> rw [hstate] at hok <;> dsimp only at hok
  case closed | connecting | connected => exact hskip hok
  case opened =>
    have hhistory := hhistory (.inl hstate)
    split at hok
    · cases hquery : s.arp.query env.net ripaddr with
      | some rhwaddr =>
          rw [hquery] at hok
          exact h.connectTo hn hhistory hok
      | none =>
          rw [hquery] at hok
          obtain ⟨ret', u, hworld, hok⟩ := bind_eq_ok.mp hok
          obtain ⟨w, hrun, rfl⟩ := zoom_eq_ok.mp hworld
          have hu : Steady hmonitor (s.setW w) :=
            h.beside ⟨w, Arp.Processor.discover_sentOne hrun, rfl⟩
          split at hok
          · obtain ⟨_, v, hset, hok⟩ := bind_eq_ok.mp hok
            cases hok
            exact hu.setState hset
          · cases hok
            exact hu
    · cases found with
      | none => exact hskip hok
      | some rhwaddr => exact h.connectTo hn hhistory hok
  case resolving =>
    have hhistory := hhistory (.inr hstate)
    cases hquery : s.arp.query env.net ripaddr with
    | none =>
        rw [hquery] at hok
        exact hskip hok
    | some rhwaddr =>
        rw [hquery] at hok
        exact h.connectTo hn hhistory hok

/-- `Client::abort` and `Client::close`, by what they do to the connection. -/
theorem Steady.onConn {m : UInt16 → ProcProgram D (Client S) n Status} {ret : Status}
    (h : Steady hmonitor s)
    (hm : ∀ conn q, m conn s.tcp = .ok ret q → (journal env hmonitor).Steady q)
    (hok : onConn id m s = .ok ret t) : Steady hmonitor t := by
  unfold Client.onConn at hok
  split at hok
  · cases hok
    exact h
  obtain ⟨_, _, hget, hok⟩ := bind_eq_ok.mp hok
  cases hget
  split at hok
  · cases hok
    exact h
  · obtain ⟨q, hrun, rfl⟩ := zoom_eq_ok.mp hok
    exact hm _ q hrun

theorem Steady.send {len : UInt32} {data : Option Bytes} {off : UInt32}
    {result : Status × UInt32} (h : Steady hmonitor s) (hn : n < 2 ^ 16)
    (hgood : Balanced env s (.send id len data off))
    (hok : send env id len data off s = .ok result t) : Steady hmonitor t := by
  unfold Client.send at hok
  split at hok
  · cases hok
    exact h
  obtain ⟨_, u, hstamp, hok⟩ := bind_eq_ok.mp hok
  obtain ⟨_, _, hget, hok⟩ := bind_eq_ok.mp hok
  cases hget
  obtain ⟨q, hrun, rfl⟩ := zoom_eq_ok.mp hok
  rw [Program.when, if_pos hmonitor] at hstamp
  obtain ⟨hwaiting, hundefined, hstamped⟩ := stamp_waiting env.clock (of s) id
  have hu : Steady hmonitor u := h.modify hwaiting hundefined hstamp
  -- The stamp changes neither the connection nor what it is connected to.
  have hconn : ((of u).cns id).conn = ((of s).cns id).conn := by
    cases hstamp
    exact hstamped
  have hconns : u.tcp.conns = s.tcp.conns := by
    cases hstamp
    rfl
  apply Journal.Steady.send hu hn _ hrun
  intro i hslot hstate
  rw [hconn] at hslot
  rw [hconns] at hstate ⊢
  exact hgood i hslot hstate

theorem Steady.exec {op : Op} (h : Steady hmonitor s) (hn : n < 2 ^ 16)
    (hgood : Balanced env s op) (hok : exec env op s = .ok () t) : Steady hmonitor t := by
  cases op with
  | «open» =>
      obtain ⟨_, _, hok, hrest⟩ := bind_eq_ok.mp hok
      cases hrest
      unfold Client.«open» at hok
      rw [bind_gets] at hok
      cases hfree : ((List.range n).map UInt16.ofNat).find? fun i =>
          ((of s).cns i).state == .closed with
      | none =>
          rw [hfree] at hok
          cases hok
          exact h
      | some id =>
          rw [hfree] at hok
          obtain ⟨_, u, hset, hok⟩ := bind_eq_ok.mp hok
          cases hok
          exact h.setState hset
  | connect id ripaddr rport found clock =>
      obtain ⟨_, _, hok, hrest⟩ := bind_eq_ok.mp hok
      cases hrest
      exact h.connect hn hgood hok
  | abort id =>
      obtain ⟨_, _, hok, hrest⟩ := bind_eq_ok.mp hok
      cases hrest
      exact h.onConn (fun _ _ hrun => Journal.Steady.abort h hn hrun) hok
  | close id =>
      obtain ⟨_, _, hok, hrest⟩ := bind_eq_ok.mp hok
      cases hrest
      exact h.onConn (fun _ _ hrun => Journal.Steady.close h hn hrun) hok
  | send id len data off =>
      obtain ⟨_, _, hok, hrest⟩ := bind_eq_ok.mp hok
      cases hrest
      exact h.send hn hgood hok
  | averageLatency id =>
      change averageLatency env id s = _ at hok
      unfold Client.averageLatency at hok
      split at hok
      · cases hok
        exact h
      rw [Program.when, if_pos hmonitor] at hok
      apply h.modify _ rfl hok
      apply waiting_setConn
      · rfl
      · rfl
  | process len data =>
      obtain ⟨ret, u, hok, hrest⟩ := bind_eq_ok.mp hok
      cases hrest
      rcases Host.process_cases hok with ⟨inc, hseg, hrun⟩ | hbeside
      · exact Journal.Steady.process h hn (fun i hi => hgood inc hseg i hi) hrun
      · exact h.beside hbeside
  | run arpExpired tcpExpired =>
      obtain ⟨ret, u, hok, hrest⟩ := bind_eq_ok.mp hok
      cases hrest
      obtain ⟨_, v, harp, hok⟩ := bind_eq_ok.mp hok
      obtain ⟨q, hrun, rfl⟩ := zoom_eq_ok.mp hok
      have hv : v.tcp = s.tcp := by
        rcases when_eq_ok.mp harp with ⟨-, hupdate⟩ | ⟨-, rfl⟩
        · cases hupdate
          rfl
        · rfl
      rw [hv] at hrun
      exact Journal.Steady.run h hn hrun

end Step

theorem start_steady (hmonitor : env.config.latencyMonitor = true) (n : Nat) (dev : D) (dlg : S) :
    (journal env hmonitor).Steady (start n dev dlg).tcp := Journal.Steady.initial n dev rfl

/-- On a run whose device takes every new segment, and whose operations all meet the
condition, no acknowledgement finds an empty history, and no history is longer than there are
segments outstanding. -/
theorem history_within (hmonitor : env.config.latencyMonitor = true)
    {s : Host D (Client S) n} (hs : ReachableBy env (Balanced env) s)
    (htaken : Taken s.tcp.w.log) :
    (of s).undefined = false ∧ ∀ i, (s.tcp.conns i).state ≠ .closed → ∀ m,
      (of s).waiting (s.tcp.conns i).id = some m → m ≤ (s.tcp.conns i).outstanding := by
  have hsteady : n < 2 ^ 16 ∧ (journal env hmonitor).Steady s.tcp := by
    clear htaken
    induction hs with
    | start hn dev dlg => exact ⟨hn, start_steady hmonitor _ dev dlg⟩
    | exec _ hgood hop ih => exact ⟨ih.1, Steady.exec ih.2 ih.1 hgood hop⟩
  refine ⟨hsteady.2.unbroken htaken, fun i hopen m hm => ?_⟩
  have heven := (hsteady.2.even htaken i hopen).even m hm
  rw [heven]
  exact Tcpv4.Connection.reported_le _ _

section Runs

open Testbed

instance (s : Host D (Client S) n) (i : Fin n) (inc : Incoming) :
    Decidable (Acknowledges s i inc) := by
  unfold Acknowledges
  infer_instance

instance {H : Type} (env : Env D H) (e : Tcpv4.Connection) (len : UInt32) (data : Option Bytes)
    (off : UInt32) : Decidable (env.hollow e len data off) := by
  unfold Env.hollow
  infer_instance

instance (env : Setup D S) (s : Host D (Client S) n) : (op : Op) → Decidable (Balanced env s op)
  | .process len data => inferInstanceAs (Decidable
      (∀ inc ∈ Host.segment? env.net len data, ∀ i ∈ s.tcp.demux inc, Acknowledges s i inc))
  | .send id len data off => inferInstanceAs (Decidable
      (∀ i ∈ Processor.slot? n ((of s).cns id).conn, (s.tcp.conns i).state = .established →
        ¬env.net.toEnv.hollow (s.tcp.conns i) len data off))
  | .connect id _ _ _ _ => inferInstanceAs (Decidable
      (((of s).cns id).state = .opened ∨ ((of s).cns id).state = .resolving →
        ((of s).cns id).history = []))
  | .«open» | .abort _ | .close _ | .averageLatency _ | .run _ _ =>
      inferInstanceAs (Decidable True)

/-- Operations that meet a condition lead to a client that passes a test. -/
def LeadsBy (env : Setup D S) (good : Host D (Client S) n → Op → Prop)
    (test : Host D (Client S) n → Prop) : List Op → Host D (Client S) n → Prop
  | [], s => test s
  | op :: ops, s =>
      good s op ∧ Program.Passes (exec env op) s fun _ t => LeadsBy env good test ops t

/-- Whether a run meets the condition and passes the test can be computed. -/
def LeadsBy.decide {good : Host D (Client S) n → Op → Prop} {test : Host D (Client S) n → Prop}
    [∀ s op, Decidable (good s op)] [DecidablePred test] :
    (ops : List Op) → (s : Host D (Client S) n) → Decidable (LeadsBy env good test ops s)
  | [], s => inferInstanceAs (Decidable (test s))
  | op :: ops, s =>
      have : ∀ t : Host D (Client S) n, Decidable (LeadsBy env good test ops t) :=
        fun t => LeadsBy.decide ops t
      inferInstanceAs (Decidable (good s op ∧
        Program.Passes (exec env op) s fun _ t => LeadsBy env good test ops t))

instance {good : Host D (Client S) n → Op → Prop} {test : Host D (Client S) n → Prop}
    [∀ s op, Decidable (good s op)] [DecidablePred test] (ops : List Op)
    (s : Host D (Client S) n) : Decidable (LeadsBy env good test ops s) := LeadsBy.decide ops s

theorem LeadsBy.reaches {good : Host D (Client S) n → Op → Prop}
    {test : Host D (Client S) n → Prop} {ops : List Op} {s : Host D (Client S) n}
    (h : LeadsBy env good test ops s) (hs : ReachableBy env good s) :
    ∃ t, ReachableBy env good t ∧ test t := by
  induction ops generalizing s with
  | nil => exact ⟨s, hs, h⟩
  | cons op ops ih =>
      obtain ⟨_, t, hop, hrest⟩ := h.2.exists
      exact ih hrest (hs.exec h.1 hop)

/-- A client in front of the script, whose delegate only chooses the options of its
connections. -/
def setup (opts : UInt8) : Setup Script Unit where
  config := ⟨true, true, true⟩
  hostMac := Testbed.env.hostMac
  hostIp := Testbed.env.hostIp
  device := device
  handler _ e _ := ⟨(), e.cookie, e.opts, .continue, [], 0⟩
  netMask := ⟨0⟩
  defaultRouterAddress := ⟨0⟩
  enableArp := false
  enableIcmp := false
  enableRaw := false
  clock reads := UInt64.ofNat reads
  delegate _ _ cookie _ := ⟨(), cookie, opts, .continue, [], 0⟩

/-- A frame of the peer. -/
def frame (h : Header) (payload : List UInt8) : Op :=
  let packet := h.bytes ++ payload
  let bytes := List.replicate 12 0 ++ store16 (htons Ethernet.ethtypeIp) ++
    ([0x45, 0] ++ store16 (htons (UInt16.ofNat (Ipv4.headerLen + packet.length))) ++
      [0, 0, 0, 0, 64, Ipv4.protoTcp, 0, 0] ++ store32 peer.data ++
      store32 Testbed.env.hostIp.data) ++ packet
  .process (UInt16.ofNat bytes.length) fun i => bytes.getD i 0

/-- A client connects its only handle, and the peer answers with the given window. -/
def handshake (wnd : UInt16) : List Op :=
  [.«open», .connect 0 peer 80 (some .zero) [5000],
    frame { header 5000 (tcpSyn ||| tcpAck) 100 1 with wnd := htons wnd } []]

/-- Two sends leave, and the first of them is acknowledged. -/
theorem history_within_two : ∃ s : Host Script (Client Unit) 1,
    ((of s).cns 0).history.length = 1 ∧ (s.tcp.conns 0).outstanding = 1 ∧
      (of s).undefined = false := by
  let ops := handshake 512 ++ [.send 0 2 (some fun _ => 7) 0, .send 0 2 (some fun _ => 7) 0,
    frame (header 5000 tcpAck 101 3) []]
  have hlead : LeadsBy (setup 1) (Balanced (setup 1))
      (fun s => (∀ ev ∈ s.tcp.w.log, ev.isTaken = true) ∧
        ((of s).cns 0).history.length = 1 ∧ (s.tcp.conns 0).outstanding = 1)
      ops (start 1 Script.empty ()) := by decide +kernel
  obtain ⟨s, hs, htaken, hlength, hout⟩ := hlead.reaches (.start (by decide) Script.empty ())
  exact ⟨s, hlength, hout, (history_within rfl hs htaken).1⟩

/-- One byte of two fits in the window of the peer, so it leaves without the PSH flag, and
its acknowledgement finds an empty history. -/
theorem history_not_within : ¬ ∀ (D S : Type) (n : Nat) (env : Setup D S),
    env.config.latencyMonitor = true → ∀ s : Host D (Client S) n,
    ReachableBy env (fun _ _ => True) s → (of s).undefined = false ∧
      ∀ i, (s.tcp.conns i).state ≠ .closed → ∀ m,
        (of s).waiting (s.tcp.conns i).id = some m → m ≤ (s.tcp.conns i).outstanding := by
  intro hall
  let ops := handshake 1 ++ [.send 0 2 (some fun _ => 7) 0, frame (header 5000 tcpAck 101 2) []]
  have hlead : LeadsBy (setup 1) (fun _ _ => True) (fun s => (of s).undefined = true) ops
      (start 1 Script.empty ()) := by decide +kernel
  obtain ⟨s, hs, hundefined⟩ := hlead.reaches (.start (by decide) Script.empty ())
  have hdefined := (hall _ _ _ (setup 1) rfl s hs).1
  rw [hundefined] at hdefined
  cases hdefined

end Runs

end Client

end Tulips
