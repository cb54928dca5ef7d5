import Tulips.Machine.Endings
import Tulips.Machine.Hosts
import Tulips.Machine.Reports

/-!
# Reports of every connection

What the application waits for is right for every open connection of the table. Every
operation of the processor keeps it so, under conditions on single connections.
-/

namespace Tulips.Tcpv4

open Program

variable {D H : Type} {n : Nat} {env : Env D H}

/-- The oldest of the outstanding segments has left before. -/
def Connection.Departed (e : Connection) : Prop :=
  e.hasOutstandingSegments = true → e.segment.seq ≠ e.sndNxt

namespace Journal

variable (J : Journal env.handler)

/-- The application waits for the right number of segments of every open connection. -/
def AllEven (p : Processor D H n) : Prop :=
  ∀ i, (p.conns i).state ≠ .closed → J.Even (p.conns i) p.w

variable {J} {p q : Processor D H n} {i : Fin n}

/-! ## The world -/

/-- Events that concern neither departures nor the application. -/
theorem AllEven.world {w : World D H} (h : J.AllEven p) (hhdl : w.hdl = p.w.hdl)
    (hlog : ∃ new, w.log = new ++ p.w.log ∧ ∀ ev ∈ new, ev.isStay = true) :
    J.AllEven ({ p with w := w } : Processor D H n) := by
  intro i hopen
  have hstill : J.Still (p.ctx i) ⟨p.conns i, w⟩ :=
    ⟨rfl, fun _ => ⟨rfl, rfl⟩, hlog, congrArg J.waiting hhdl, congrArg J.broken hhdl⟩
  exact hstill.even (h i hopen)

theorem AllEven.mute {α : Type} {m : WorldProgram D H α} {a : α} (h : J.AllEven p) (hm : Mute m)
    (hok : Processor.world m p = .ok a q) : J.AllEven q ∧ q.conns = p.conns ∧
      q.w.hdl = p.w.hdl ∧ (∃ new, q.w.log = new ++ p.w.log) ∧ q.listenports = p.listenports := by
  obtain ⟨w, hrun, rfl⟩ := zoom_eq_ok.mp hok
  have hw : Plainly p.w w := hm.ok hrun
  obtain ⟨new, hlog, hnew⟩ := hw.log
  refine ⟨h.world hw.hdl ⟨new, hlog, fun ev hev => Event.isPlain.isStay (hnew ev hev)⟩, rfl,
    hw.hdl, ⟨new, hlog⟩, rfl⟩

/-! ## One connection -/

/-- What happens to one connection leaves the others as they are. -/
theorem AllEven.apart {t : Ctx D H} {j : Fin n} (h : J.AllEven p) (hn : n < 2 ^ 16)
    (hnum : p.table.Numbered) (happ : J.Apart (p.ctx i) t) (hj : j ≠ i)
    (hopen : (p.conns j).state ≠ .closed) : J.Even (p.conns j) t.w := by
  have hid : (p.conns j).id ≠ (p.ctx i).e.id := hnum.id_ne hn hj
  have hold := h j hopen
  refine ⟨?_, fun m hm => ?_⟩
  · rw [happ.departures _ hid]
    exact hold.enough
  · rw [happ.waiting _ hid] at hm
    rw [hold.even m hm, Connection.reported, Connection.reported, happ.departures _ hid]
    rfl

theorem AllEven.setCtx {t : Ctx D H} (h : J.AllEven p) (hn : n < 2 ^ 16)
    (hnum : p.table.Numbered) (happ : J.Apart (p.ctx i) t)
    (heven : t.e.state ≠ .closed → J.Even t.e t.w) : J.AllEven (Processor.setCtx i p t) := by
  intro j hopen
  by_cases hj : j = i
  · subst hj
    rw [Processor.setCtx_conns_self] at hopen ⊢
    exact heven hopen
  · rw [Processor.setCtx_conns_of_ne p t hj] at hopen ⊢
    exact h.apart hn hnum happ hj hopen

theorem numbered_setCtx {t : Ctx D H} (hnum : p.table.Numbered) (hid : t.e.id = (p.conns i).id) :
    (Processor.setCtx i p t).table.Numbered := by
  rw [Processor.table_setCtx]
  exact hnum.set hid

variable {t : Ctx D H} {ret : Status}

/-- An operation on one open connection. -/
theorem AllEven.onConn {α : Type} {m : ConnProgram D H α} {a : α} (h : J.AllEven p)
    (hn : n < 2 ^ 16) (hnum : p.table.Numbered) (hok : Processor.onConn i m p = .ok a q)
    (htaken : Taken q.w.log)
    (hm : ∀ t, m (p.ctx i) = .ok a t → (p.conns i).state = .closed ∧ t = p.ctx i ∨
      J.Minds (p.ctx i) t ∧ ((p.conns i).state = .closed → t.e.state = .closed)) :
    J.AllEven q ∧ J.broken q.w.hdl = J.broken p.w.hdl := by
  obtain ⟨t, hrun, rfl⟩ := zoom_eq_ok.mp hok
  rcases hm t hrun with ⟨hclosed, rfl⟩ | ⟨hminds, hstay⟩
  · exact ⟨h.setCtx hn hnum (.refl _) fun hopen => absurd hclosed hopen, rfl⟩
  · refine ⟨h.setCtx hn hnum hminds.toApart fun hopen => ?_, hminds.broken⟩
    exact hminds.even htaken (h i fun hclosed => hopen (hstay hclosed))

theorem AllEven.process {inc : Incoming} (h : J.AllEven p) (hn : n < 2 ^ 16)
    (hnum : p.table.Numbered) (hlisten : p.listenports = [])
    (hagain : ∀ i, p.demux inc = some i → ((p.conns i).clearNews.scanned inc).2 = true →
      ((p.conns i).heard inc).segment.seq ≠ ((p.conns i).heard inc).sndNxt)
    (hheeds : ∀ i, p.demux inc = some i → J.Heeds (p.ctx i) inc)
    (hok : Processor.process env inc p = .ok ret q) (htaken : Taken q.w.log) :
    J.AllEven q ∧ J.broken q.w.hdl = J.broken p.w.hdl := by
  have hreset : Processor.world (Processor.reset env inc) p = .ok ret q →
      J.AllEven q ∧ J.broken q.w.hdl = J.broken p.w.hdl := by
    intro hrun
    obtain ⟨heven, -, hhdl, -, -⟩ := h.mute (Processor.reset_mute inc) hrun
    exact ⟨heven, congrArg J.broken hhdl⟩
  unfold Processor.process at hok
  rw [bind_gets_id] at hok
  split at hok
  · cases hok
    exact ⟨h, rfl⟩
  cases hdemux : p.demux inc with
  | some i =>
      rw [hdemux] at hok
      obtain ⟨t, hrun, rfl⟩ := zoom_eq_ok.mp hok
      obtain ⟨happ, heven⟩ := Journal.processSegment (hagain i hdemux) (hheeds i hdemux) hrun
        htaken (h i (demux_spec hdemux))
      exact ⟨h.setCtx hn hnum happ fun _ => heven, happ.broken⟩
  | none =>
      rw [hdemux] at hok
      dsimp only at hok
      rw [hlisten] at hok
      split_ifs at hok with hsyn hport
      · exact hreset hok
      · simp at hport
      · exact hreset hok

theorem tick_closed {again : Option Status} {s : Ctx D H} (hclosed : s.e.state = .closed)
    (hok : Tcpv4.tick env s = .ok again t) : t = s := by
  unfold Tcpv4.tick at hok
  rw [bind_gets, if_pos hclosed] at hok
  cases hok
  rfl

/-- The loop over the connections that remain ticks none of them twice. -/
theorem tickFrom_even {l : List (Fin n)} (h : Taken p.w.log → J.AllEven p) (hn : n < 2 ^ 16)
    (hnum : p.table.Numbered) (hl : l.Nodup)
    (hold : ∀ i ∈ l, (p.conns i).state ≠ .closed → (p.conns i).Departed)
    (hok : Processor.tickFrom env l p = .ok ret q) :
    (Taken q.w.log → J.AllEven q) ∧ J.broken q.w.hdl = J.broken p.w.hdl := by
  induction l generalizing p with
  | nil =>
      cases hok
      exact ⟨h, rfl⟩
  | cons i l ih =>
      obtain ⟨hi, hl⟩ := List.nodup_cons.mp hl
      obtain ⟨again, r, htick, hrest⟩ := bind_eq_ok.mp hok
      obtain ⟨t, hrun, rfl⟩ := zoom_eq_ok.mp htick
      have hminds : J.Minds (p.ctx i) t := by
        by_cases hclosed : (p.conns i).state = .closed
        · rw [tick_closed hclosed hrun]
          exact (Still.refl _).minds
        · exact Journal.tick (hold i List.mem_cons_self hclosed) hrun
      have heven : Taken t.w.log → J.AllEven (Processor.setCtx i p t) := by
        intro htaken
        obtain ⟨new, hlog⟩ := hminds.log
        have hp := h (hlog ▸ htaken).suffix
        refine hp.setCtx hn hnum hminds.toApart fun hopen => hminds.even htaken (hp i ?_)
        intro hclosed
        rw [tick_closed hclosed hrun] at hopen
        exact hopen hclosed
      cases again with
      | some ret =>
          cases hrest
          exact ⟨heven, hminds.broken⟩
      | none =>
          obtain ⟨hq, hbroken⟩ := ih heven (numbered_setCtx hnum hminds.id) hl
            (fun j hj => by
              have hne : j ≠ i := fun heq => hi (heq ▸ hj)
              rw [Processor.setCtx_conns_of_ne p t hne]
              exact hold j (List.mem_cons_of_mem i hj)) hrest
          exact ⟨hq, hbroken.trans hminds.broken⟩

theorem AllEven.run {expired : Bool} (h : J.AllEven p) (hn : n < 2 ^ 16)
    (hnum : p.table.Numbered) (hold : ∀ i, (p.conns i).state ≠ .closed → (p.conns i).Departed)
    (hok : Processor.run env expired p = .ok ret q) (htaken : Taken q.w.log) :
    J.AllEven q ∧ J.broken q.w.hdl = J.broken p.w.hdl := by
  unfold Processor.run at hok
  split at hok
  · cases hok
    exact ⟨h, rfl⟩
  · have hp : J.AllEven { p with iss := p.iss + 1 } := h
    obtain ⟨hq, hbroken⟩ := tickFrom_even (fun _ => hp) hn hnum (List.nodup_finRange n)
      (fun i _ => hold i) hok
    exact ⟨hq htaken, hbroken⟩

theorem AllEven.onId {id : UInt16} {m : ConnProgram D H Status} (h : J.AllEven p)
    (hn : n < 2 ^ 16) (hnum : p.table.Numbered) (hok : Processor.onId id m p = .ok ret q)
    (htaken : Taken q.w.log)
    (hm : ∀ i t, m (p.ctx i) = .ok ret t → (p.conns i).state = .closed ∧ t = p.ctx i ∨
      J.Minds (p.ctx i) t ∧ ((p.conns i).state = .closed → t.e.state = .closed)) :
    J.AllEven q ∧ J.broken q.w.hdl = J.broken p.w.hdl := by
  unfold Processor.onId at hok
  cases hslot : Processor.slot? n id with
  | none =>
      rw [hslot] at hok
      cases hok
      exact ⟨h, rfl⟩
  | some i =>
      rw [hslot] at hok
      exact h.onConn hn hnum hok htaken (hm i)

theorem AllEven.close {id : UInt16} (h : J.AllEven p) (hn : n < 2 ^ 16)
    (hnum : p.table.Numbered) (hok : Processor.close env id p = .ok ret q)
    (htaken : Taken q.w.log) : J.AllEven q ∧ J.broken q.w.hdl = J.broken p.w.hdl := by
  refine h.onId hn hnum hok htaken fun i t hrun => ?_
  by_cases hclosed : (p.conns i).state = .closed
  · unfold Tcpv4.close at hrun
    rw [bind_gets, if_pos (by show (p.conns i).state ≠ _; rw [hclosed]; decide)] at hrun
    cases hrun
    exact .inl ⟨hclosed, rfl⟩
  · exact .inr ⟨minds_attends.close hrun, fun h => absurd h hclosed⟩

theorem sendAbort_closed {s : Ctx D H} (hok : sendAbort env s = .ok ret t) :
    t.e.state = .closed := by
  obtain ⟨_, _, hget, hok⟩ := bind_eq_ok.mp hok
  cases hget
  obtain ⟨_, _, hunlisten, hok⟩ := bind_eq_ok.mp hok
  cases hunlisten
  obtain ⟨_, u, hset, hok⟩ := bind_eq_ok.mp hok
  obtain ⟨_, v, hflags, hok⟩ := bind_eq_ok.mp hok
  obtain ⟨_, he⟩ := ((acknowledging_controls.sendControl env).ok hok).conn
  obtain ⟨_, he'⟩ := ((acknowledging_controls.setFlags _ _ _).ok hflags).conn
  rw [he, he']
  cases hset
  rfl

theorem abort_closed {s : Ctx D H} (hok : Tcpv4.abort env s = .ok ret t) :
    t.e.state = .closed := by
  obtain ⟨_, _, hget, hok⟩ := bind_eq_ok.mp hok
  cases hget
  obtain ⟨_, _, hunlisten, hok⟩ := bind_eq_ok.mp hok
  obtain ⟨_, _, hset, hok⟩ := bind_eq_ok.mp hok
  obtain ⟨_, _, hcall, hok⟩ := bind_eq_ok.mp hok
  obtain ⟨_, _, hflags, hok⟩ := bind_eq_ok.mp hok
  exact sendAbort_closed hok

theorem AllEven.abort {id : UInt16} (h : J.AllEven p) (hn : n < 2 ^ 16)
    (hnum : p.table.Numbered) (hok : Processor.abort env id p = .ok ret q)
    (htaken : Taken q.w.log) : J.AllEven q ∧ J.broken q.w.hdl = J.broken p.w.hdl :=
  h.onId hn hnum hok htaken fun _ _ hrun =>
    .inr ⟨minds_attends.abort hrun, fun _ => abort_closed hrun⟩

theorem AllEven.send {id : UInt16} {len : UInt32} {data : Option Bytes} {off : UInt32}
    {result : Status × UInt32} (h : J.AllEven p) (hn : n < 2 ^ 16) (hnum : p.table.Numbered)
    (hplaced : ∀ i, (p.conns i).core.Placed)
    (hfull : ∀ i, Processor.slot? n id = some i → (p.conns i).state = .established →
      ¬env.hollow (p.conns i) len data off)
    (hok : Processor.send env id len data off p = .ok result q) (htaken : Taken q.w.log) :
    J.AllEven q ∧ J.broken q.w.hdl = J.broken p.w.hdl := by
  unfold Processor.send at hok
  cases hslot : Processor.slot? n id with
  | none =>
      rw [hslot] at hok
      cases hok
      exact ⟨h, rfl⟩
  | some i =>
      rw [hslot] at hok
      refine h.onConn hn hnum hok htaken fun t hrun => ?_
      by_cases hclosed : (p.conns i).state = .closed
      · unfold Tcpv4.send at hrun
        rw [bind_gets, if_pos (by show (p.conns i).state ≠ _; rw [hclosed]; decide)] at hrun
        cases hrun
        exact .inl ⟨hclosed, rfl⟩
      · exact .inr ⟨Journal.send (hplaced i) (hfull i hslot) hrun, fun h => absurd h hclosed⟩

/-! ## Opening -/

/-- The SYN of an active open was taken, and the next buffer handed out. -/
theorem replenished_of_taken {peer : Peer} {iss : UInt32} {outdata : Ptr} {s t : Slot H}
    (h : Opened env.handler peer .synSent iss outdata s t) (htaken : Taken t.log) :
    Replenished t := by
  obtain ⟨leftover, rcvNxt, synced, k, -, -, -, q, u, ret, -, hcommit, hout⟩ := h
  dsimp only [Slot.pushedSyn, Slot.opened] at hout
  rw [Function.update_self, bne_self_eq_false] at hout
  rcases hout with ⟨hret, rfl⟩ | ⟨rfl, x, hx, hrefill⟩
  · have hev := htaken _ List.mem_cons_self
    simp [Event.isTaken, hret] at hev
  · rcases hrefill with rfl | ⟨buf, mem, writes, clash, -, -, -, rfl⟩
    · have hstate : x.state = .synSent := by
        have hx : Counted env.handler 1 _ x := hx
        rw [show x.state = x.toCore.state from rfl, hx.toCore_eq]
        exact congrArg Core.state hcommit.toCore_eq
      have hev := htaken _ List.mem_cons_self
      simp [Event.isTaken, hstate] at hev
    · exact ⟨_, _, _, _, _, _, rfl⟩

/-- A SYN leaves, and the application is not told of it. -/
theorem syn_departs {outdata : Ptr} {k : Fin segmentCount} {s t : Ctx D H}
    (hoff : outdata.off = tcpOffset) (hfree : s.e.nextAvailableSegment = some k)
    (hok : (do
      setFlags (some outdata) 0 none
      sendSyn env k : ConnProgram D H Status)
        { s with e := s.e.setSegment k ⟨1, s.e.sndNxt, some outdata⟩ } = .ok ret t)
    (htaken : Taken t.w.log) :
    J.Apart s t ∧ t.w.hdl = s.w.hdl ∧ t.e.outstanding = s.e.outstanding + 1 ∧
      departures t.e.id t.w.log = false :: departures s.e.id s.w.log := by
  obtain ⟨_, u, hset, hok⟩ := bind_eq_ok.mp hok
  obtain ⟨hu, hue, huflags⟩ := setFlags_cases (J := J) hset
  obtain ⟨v, n, hv, hok⟩ := sendSyn_cases (J := J) hok
  have hve : v.e = s.e.setSegment k ⟨1, s.e.sndNxt, some outdata⟩ := hv.conn.trans hue
  have hseg : v.e.segments k = ⟨1, s.e.sndNxt, some outdata⟩ := by
    rw [hve]
    exact Function.update_self _ _ _
  have hflags : (v.w.headerAt outdata).has tcpPsh = false := by
    rw [Header.has, hv.flags outdata (by rw [← hv.conn, hseg]), huflags outdata rfl]
    decide
  obtain ⟨b, ret', hb, hbe, ht⟩ := sendSegment_unreported (J := J) (by rw [hseg, hve]; rfl)
    (by rw [hseg]) hoff hflags hok
  rw [hseg, ← hbe] at ht
  replace ht : J.Silent (b.noted (.transmit b.e.id b.e.state s.e.sndNxt 1 false ret')) t := ht
  obtain ⟨new, hnew, -⟩ := ht.log
  have hleft := htaken (.transmit b.e.id b.e.state s.e.sndNxt 1 false ret') (by
    rw [hnew]
    exact List.mem_append_right _ List.mem_cons_self)
  obtain rfl : ret' = .ok := by simpa [Event.isTaken] using hleft
  have hsilent : J.Silent { s with e := s.e.setSegment k ⟨1, s.e.sndNxt, some outdata⟩ } b :=
    (hu.trans hv.silent).trans hb
  have hstill := hsilent.toStill
  have hpushed : J.Apart s { s with e := s.e.setSegment k ⟨1, s.e.sndNxt, some outdata⟩ } :=
    ⟨rfl, ⟨[], rfl⟩, fun _ _ => rfl, fun _ _ => rfl, rfl⟩
  refine ⟨?_, ht.hdl.trans hsilent.hdl, ?_, ?_⟩
  · exact ((hpushed.trans hstill.apart).trans (.transmitted b _ _ _ _ _)).trans ht.toStill.apart
  · apply ht.toStill.outstanding.trans
    apply hstill.outstanding.trans
    exact Connection.outstanding_push (Ring.free_of_firstFree hfree) rfl
  · have hdeparted : departures b.e.id (b.noted (.transmit b.e.id b.e.state s.e.sndNxt 1 false
        .ok)).w.log = false :: departures b.e.id b.w.log := if_pos ⟨rfl, by decide, rfl, rfl⟩
    rw [ht.id, ht.toStill.departures]
    apply hdeparted.trans
    rw [hstill.id, hstill.departures]
    rfl

/-- The SYN of an active open is the only segment outstanding, and the application is not
told of it. -/
theorem openSynSent_opens {rhwaddr : Ethernet.Address} {ripaddr : Ipv4.Address}
    {lport rport : Port} {iss : UInt32} {outdata : Ptr} {s t : Ctx D H}
    (hoff : outdata.off = tcpOffset)
    (hok : openSynSent env rhwaddr ripaddr lport rport iss outdata s = .ok ret t)
    (htaken : Taken t.w.log) :
    ret = .ok ∧ J.Apart s t ∧ t.w.hdl = s.w.hdl ∧ t.e.outstanding = 1 ∧
      ∃ left, departures t.e.id t.w.log = false :: left := by
  have hret : ret = .ok := by
    rcases openSynSent_spec env rhwaddr ripaddr lport rport iss outdata s with
      ⟨_, herr, -⟩ | ⟨_, _, hrun, hopened, hfull⟩
    · rw [herr] at hok
      cases hok
    · rw [hrun] at hok
      cases hok
      exact hfull.mpr (replenished_of_taken hopened htaken)
  unfold openSynSent at hok
  rw [bind_gets, bind_record] at hok
  simp only [modifyConn, bind_update] at hok
  set u : Ctx D H := { e := _, w := _ }
  have hu : J.Still s u :=
    ⟨rfl, fun _ => ⟨rfl, rfl⟩, ⟨[_], rfl, by simp [Event.isStay]⟩, rfl, rfl⟩
  obtain ⟨k, v, hpush, hok⟩ := bind_eq_ok.mp hok
  rcases pushSyn_spec outdata u with ⟨herr, -⟩ | ⟨k', _, hrun, hfree, rfl⟩
  · rw [herr] at hpush
    cases hpush
  rw [hrun] at hpush
  cases hpush
  obtain ⟨happ, hhdl, hout, hleft⟩ := syn_departs (J := J) (s := u) hoff hfree hok htaken
  have hempty : s.e.outstanding = 0 := by
    obtain ⟨new, hnew⟩ := happ.log
    have hcreated := htaken (.create s.e.id iss outdata.buf s.e.hasOutstandingSegments) (by
      rw [hnew]
      exact List.mem_append_right _ List.mem_cons_self)
    have hnone : s.e.hasOutstandingSegments = false := by simpa [Event.isTaken] using hcreated
    rw [Connection.hasOutstandingSegments, List.any_eq_false] at hnone
    apply Finset.card_eq_zero.mpr
    apply Finset.filter_eq_empty_iff.mpr
    intro i _ hbusy
    apply hnone i (List.mem_finRange i)
    rw [hbusy]
    rfl
  refine ⟨hret, hu.apart.trans happ, hhdl, ?_, _, hleft⟩
  rw [hout, hu.outstanding, hempty]

/-- Connection `i` has been opened: one segment is outstanding, and the application was not
told of it. -/
structure Opens (J : Journal env.handler) (p q : Processor D H n) (i : Fin n) : Prop where
  hdl : q.w.hdl = p.w.hdl
  outstanding : (q.conns i).outstanding = 1
  unreported : ∃ left, departures (q.conns i).id q.w.log = false :: left
  others : ∀ j ≠ i, (q.conns j).state ≠ .closed → J.Even (q.conns j) q.w

/-- An attempt to connect that opens no connection returns an error. -/
theorem AllEven.connect {rhwaddr : Ethernet.Address} {ripaddr : Ipv4.Address} {rport : Port}
    {clock : List UInt64} {result : Status × Option (Fin n)} (h : J.AllEven p) (hn : n < 2 ^ 16)
    (hnum : p.table.Numbered)
    (hok : Processor.connect env rhwaddr ripaddr rport clock p = .ok result q)
    (htaken : Taken q.w.log) :
    J.broken q.w.hdl = J.broken p.w.hdl ∧
      (J.AllEven q ∧ result.1 ≠ .ok ∨
        ∃ i, result = (.ok, some i) ∧ J.Opens p q i) := by
  unfold Processor.connect at hok
  obtain ⟨out, r, hprep, hok⟩ := bind_eq_ok.mp hok
  obtain ⟨hr, hconns, hhdl, -, -⟩ := h.mute (Processor.prepareTo_mute env _ _) hprep
  have hoff : ∀ outdata, out = .ok outdata → outdata.off = tcpOffset := by
    rintro outdata rfl
    obtain ⟨w, hrun, -⟩ := zoom_eq_ok.mp hprep
    obtain ⟨w', -, ⟨ret, hrun', -⟩ | ⟨buf, writes, hrun', -⟩⟩ :=
      prepareTo_cases env rhwaddr ripaddr p.w
    · rw [hrun'] at hrun
      cases hrun
    · rw [hrun'] at hrun
      cases hrun
      rfl
  cases out with
  | error ret =>
      cases hok
      exact ⟨congrArg J.broken hhdl, .inl ⟨hr, ret.property⟩⟩
  | ok outdata =>
      dsimp only at hok
      rw [bind_gets_id] at hok
      cases hport : r.localPort clock with
      | none =>
          rw [hport] at hok
          cases hok
      | some lport =>
          rw [hport] at hok
          cases hvacant : r.vacant with
          | none =>
              rw [hvacant] at hok
              cases hok
              exact ⟨congrArg J.broken hhdl, .inl ⟨hr, nofun⟩⟩
          | some i =>
              rw [hvacant] at hok
              obtain ⟨ret, x, hlisten, hok⟩ := bind_eq_ok.mp hok
              have hx : J.AllEven x ∧ x.conns = r.conns ∧ x.w.hdl = r.w.hdl := by
                cases hlisten
                exact ⟨hr.world rfl ⟨[_], rfl, by simp [Event.isStay]⟩, rfl, rfl⟩
              obtain ⟨heven, hxconns, hxhdl⟩ := hx
              have hxp : x.w.hdl = p.w.hdl := hxhdl.trans hhdl
              split at hok
              · next hret =>
                  cases hok
                  exact ⟨congrArg J.broken hxp, .inl ⟨heven, hret⟩⟩
              · next hret =>
                  have hxnum : x.table.Numbered := by
                    intro j
                    have hcore := congrArg Connection.core (congrFun (hxconns.trans hconns) j)
                    exact (congrArg Core.id hcore).trans (hnum j)
                  obtain ⟨syn, y, hopen, hok⟩ := bind_eq_ok.mp hok
                  obtain ⟨t, hrun, rfl⟩ := zoom_eq_ok.mp hopen
                  -- What the opening adds to the history is part of the history that is taken.
                  have ht : Taken t.w.log := by
                    split at hok
                    · cases hok
                      exact fun ev hev => htaken ev (List.mem_cons_of_mem _ hev)
                    · cases hok
                      exact htaken
                  obtain ⟨rfl, happ, hhdl', hout, hleft⟩ :=
                    openSynSent_opens (J := J) (hoff outdata rfl) hrun ht
                  cases hok
                  refine ⟨happ.broken.trans (congrArg J.broken hxp), .inr ⟨i, rfl, ?_, ?_, ?_, ?_⟩⟩
                  · exact hhdl'.trans hxp
                  · rw [Processor.setCtx_conns_self]
                    exact hout
                  · rw [Processor.setCtx_conns_self]
                    exact hleft
                  · intro j hj hstate
                    rw [Processor.setCtx_conns_of_ne x t hj] at hstate ⊢
                    exact heven.apart hn hxnum happ hj hstate

end Journal

end Tulips.Tcpv4
