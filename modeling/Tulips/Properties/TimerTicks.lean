import Tulips.Machine.Lifetime
import Tulips.Machine.Testbed

/-!
# Timer ticks

A tick is meant for every connection of the table. The loop over them returns
with the status of the first one that retransmits or times out, and what comes
after it in the table is left to the next tick.
-/

namespace Tulips.Tcpv4

open Program

variable {D H : Type}

/-! ## A tick of one connection -/

namespace Connection

/-- The connection only waits for its end. -/
def Waits (e : Connection) : Prop := e.state = .timeWait ∨ e.state = .finWait2

instance (e : Connection) : Decidable e.Waits :=
  inferInstanceAs (Decidable (e.state = .timeWait ∨ e.state = .finWait2))

/-- What the next tick counts the timer of outstanding segments to. -/
def counted (e : Connection) : UInt8 := if e.Waits then e.timer else e.timer - 1

/-- The timer of the connection runs out with the next tick: it retransmits or is aborted. -/
def Fires (e : Connection) : Prop :=
  e.state ≠ .closed ∧ e.hasOutstandingSegments = true ∧ e.counted = 0

/-- The next tick leaves the connection as it is. -/
def Idle (e : Connection) : Prop :=
  e.state = .closed ∨
    (e.Waits ∧ e.hasOutstandingSegments = true ∧ e.timer ≠ 0 ∧ e.timer + 1 ≠ timeWaitTimeout) ∨
    (¬e.Waits ∧ e.hasOutstandingSegments = false)

instance (e : Connection) : Decidable e.Fires := inferInstanceAs (Decidable (_ ∧ _ ∧ _))

instance (e : Connection) : Decidable e.Idle := inferInstanceAs (Decidable (_ ∨ _ ∨ _))

end Connection

section Tick

variable {env : Env D H} {s t : Ctx D H} {ret : Option Status}

theorem tick_closed (h : s.e.state = .closed) : tick env s = .ok none s := by
  unfold tick
  rw [bind_gets, if_pos h]
  rfl

/-- A connection that does not wait only counts its timer down. -/
theorem tick_running (hopen : s.e.state ≠ .closed) (hwaits : ¬s.e.Waits) :
    tick env s =
      if s.e.hasOutstandingSegments = true then tickOutstanding env s else .ok none s := by
  have hwaits' : ¬(s.e.state = .timeWait ∨ s.e.state = .finWait2) := hwaits
  unfold tick Program.when
  rw [bind_gets, if_neg hopen, if_neg hwaits', bind_pure_apply, bind_gets, if_neg hopen]
  split <;> rfl

/-- One that waits counts it up first. -/
theorem tick_waiting (hwaits : s.e.Waits) (htimer : s.e.timer + 1 ≠ timeWaitTimeout) :
    tick env s =
      if s.e.hasOutstandingSegments = true then
        tickOutstanding env ⟨{ s.e with timer := s.e.timer + 1 }, s.w⟩
      else .ok none ⟨{ s.e with timer := s.e.timer + 1 }, s.w⟩ := by
  have hopen : s.e.state ≠ .closed := by
    rcases hwaits with h | h <;> rw [h] <;> decide
  have hcounts : tickWaiting env s = .ok () ⟨{ s.e with timer := s.e.timer + 1 }, s.w⟩ := by
    unfold tickWaiting modifyConn Program.when
    rw [bind_update, bind_gets, if_neg htimer]
    rfl
  have hwaits' : s.e.state = .timeWait ∨ s.e.state = .finWait2 := hwaits
  unfold tick Program.when
  rw [bind_gets, if_neg hopen, if_pos hwaits', bind_of_ok hcounts, bind_gets]
  have hopen' : ({ s.e with timer := s.e.timer + 1 } : Connection).state ≠ .closed := hopen
  have hout : ({ s.e with timer := s.e.timer + 1 } : Connection).hasOutstandingSegments =
      s.e.hasOutstandingSegments := rfl
  rw [if_neg hopen', hout]
  split <;> rfl

/-- The time to wait is over. -/
theorem tick_expired (env : Env D H) (hwaits : s.e.Waits)
    (htimer : s.e.timer + 1 = timeWaitTimeout) :
    ∃ t, tick env s = .ok none t ∧ t.e.state = .closed := by
  have hopen : s.e.state ≠ .closed := by
    rcases hwaits with h | h <;> rw [h] <;> decide
  have hwaits' : s.e.state = .timeWait ∨ s.e.state = .finWait2 := hwaits
  unfold tick tickWaiting modifyConn Program.when
  rw [bind_gets, if_neg hopen, if_pos hwaits', bind_assoc_apply, bind_update, bind_assoc_apply,
    bind_gets, if_pos htimer]
  exact ⟨_, rfl, rfl⟩

theorem tickOutstanding_counts (h : s.e.timer - 1 ≠ 0) :
    tickOutstanding env s = .ok none ⟨{ s.e with timer := s.e.timer - 1 }, s.w⟩ := by
  have hpos : 0 < s.e.timer - 1 := UInt8.pos_iff_ne_zero.mpr h
  unfold tickOutstanding modifyConn
  rw [bind_update, bind_gets, if_pos hpos]
  rfl

/-- A timer that runs out ends the loop, and leaves a mark on its connection. -/
theorem tickOutstanding_fires (h : s.e.timer - 1 = 0)
    (hok : tickOutstanding env s = .ok ret t) :
    ret ≠ none ∧ (t.e.state = .closed ∨ t.e.nrtx = s.e.nrtx + 1) := by
  have hzero : ¬0 < s.e.timer - 1 := by
    rw [h]
    decide
  unfold tickOutstanding modifyConn at hok
  rw [bind_update, bind_gets, if_neg hzero] at hok
  split at hok
  · obtain ⟨_, s₁, -, hok⟩ := bind_eq_ok.mp hok
    obtain ⟨r, s₂, habort, hok⟩ := bind_eq_ok.mp hok
    cases hok
    exact ⟨by simp, .inl (sendAbort_closed habort)⟩
  · rw [bind_update] at hok
    obtain ⟨r, s₂, hrexmit, hok⟩ := bind_eq_ok.mp hok
    cases hok
    have hnrtx := congrArg Connection.nrtx ((sends_bears env).rexmit.ok hrexmit).posture
    exact ⟨by simp, .inr hnrtx⟩

/-- What a tick that returns has done to a connection. -/
inductive Ticked (s : Ctx D H) : Option Status → Ctx D H → Prop
  | closed (hclosed : s.e.state = .closed) : Ticked s none s
  | expired {t : Ctx D H} (hwaits : s.e.Waits) (htimer : s.e.timer + 1 = timeWaitTimeout)
      (hclosed : t.e.state = .closed) : Ticked s none t
  | waits (hwaits : s.e.Waits) (htimer : s.e.timer + 1 ≠ timeWaitTimeout)
      (hout : s.e.hasOutstandingSegments = false) :
      Ticked s none ⟨{ s.e with timer := s.e.timer + 1 }, s.w⟩
  | rests (hopen : s.e.state ≠ .closed) (hwaits : ¬s.e.Waits)
      (hout : s.e.hasOutstandingSegments = false) : Ticked s none s
  | counts (hopen : s.e.state ≠ .closed) (hout : s.e.hasOutstandingSegments = true)
      (hwaits : s.e.Waits → s.e.timer + 1 ≠ timeWaitTimeout) (htimer : s.e.counted ≠ 0) :
      Ticked s none ⟨{ s.e with timer := s.e.counted }, s.w⟩
  | fires {ret : Option Status} {t : Ctx D H} (hopen : s.e.state ≠ .closed)
      (hout : s.e.hasOutstandingSegments = true) (htimer : s.e.counted = 0) (hret : ret ≠ none)
      (hmark : t.e.state = .closed ∨ t.e.nrtx = s.e.nrtx + 1) : Ticked s ret t

theorem tick_ticked (hok : tick env s = .ok ret t) : Ticked s ret t := by
  by_cases hclosed : s.e.state = .closed
  · rw [tick_closed hclosed] at hok
    cases hok
    exact .closed hclosed
  by_cases hwaits : s.e.Waits
  · have hcounted : s.e.counted = s.e.timer := by
      rw [Connection.counted, if_pos hwaits]
    by_cases hlast : s.e.timer + 1 = timeWaitTimeout
    · obtain ⟨u, hu, hu'⟩ := tick_expired env hwaits hlast
      rw [hu] at hok
      cases hok
      exact .expired hwaits hlast hu'
    rw [tick_waiting hwaits hlast] at hok
    have hback : s.e.timer + 1 - 1 = s.e.counted := by
      rw [hcounted]
      grind
    split at hok
    · next hout =>
        by_cases hzero : s.e.counted = 0
        · obtain ⟨hret, hmark⟩ := tickOutstanding_fires (hback.trans hzero) hok
          exact .fires hclosed hout hzero hret hmark
        · rw [tickOutstanding_counts (by rwa [hback])] at hok
          cases hok
          rw [hback]
          exact .counts hclosed hout (fun _ => hlast) hzero
    · next hout =>
        cases hok
        exact .waits hwaits hlast (by simpa using hout)
  · have hcounted : s.e.counted = s.e.timer - 1 := by
      rw [Connection.counted, if_neg hwaits]
    rw [tick_running hclosed hwaits] at hok
    split at hok
    · next hout =>
        by_cases hzero : s.e.counted = 0
        · obtain ⟨hret, hmark⟩ := tickOutstanding_fires (hcounted.symm.trans hzero) hok
          exact .fires hclosed hout hzero hret hmark
        · rw [tickOutstanding_counts (by rwa [← hcounted])] at hok
          cases hok
          rw [← hcounted]
          exact .counts hclosed hout (fun h => absurd h hwaits) hzero
    · next hout =>
        cases hok
        exact .rests hclosed hwaits (by simpa using hout)

/-- A tick that returns has ended the loop if the timer ran out, and only then. -/
theorem tick_fires (hok : tick env s = .ok ret t) : s.e.Fires ↔ ret ≠ none := by
  cases tick_ticked hok with
  | closed hclosed => simp [Connection.Fires, hclosed]
  | expired hwaits htimer =>
      have hne : s.e.timer ≠ 0 := by
        intro h
        rw [h] at htimer
        cases htimer
      simp [Connection.Fires, hwaits, Connection.counted, hne]
  | waits _ _ hout => simp [Connection.Fires, hout]
  | rests _ _ hout => simp [Connection.Fires, hout]
  | counts _ _ _ htimer => simp [Connection.Fires, htimer]
  | fires hopen hout htimer hret => simp [Connection.Fires, hopen, hout, htimer, hret]

theorem tick_idle (h : s.e.Idle) : tick env s = .ok none s := by
  rcases h with hclosed | ⟨hwaits, hout, htimer, hlast⟩ | ⟨hwaits, hout⟩
  · exact tick_closed hclosed
  · have hback : s.e.timer + 1 - 1 = s.e.timer := by grind
    rw [tick_waiting hwaits hlast, if_pos hout, tickOutstanding_counts (by rwa [hback])]
    rw [hback]
  · by_cases hclosed : s.e.state = .closed
    · exact tick_closed hclosed
    · rw [tick_running hclosed hwaits, if_neg (by simp [hout])]

/-- A tick only leaves idle connections as they are. -/
theorem idle_of_tick (hok : tick env s = .ok ret t) (hsame : t.e = s.e) : s.e.Idle := by
  cases tick_ticked hok with
  | closed hclosed => exact .inl hclosed
  | expired hwaits _ hclosed => exact .inl (hsame ▸ hclosed)
  | waits hwaits =>
      have htimer : s.e.timer + 1 = s.e.timer := congrArg Connection.timer hsame
      grind
  | rests _ hwaits hout => exact .inr (.inr ⟨hwaits, hout⟩)
  | counts _ hout hlast htimer =>
      have hcounted : s.e.counted = s.e.timer := congrArg Connection.timer hsame
      by_cases hwaits : s.e.Waits
      · exact .inr (.inl ⟨hwaits, hout, hcounted ▸ htimer, hlast hwaits⟩)
      · rw [Connection.counted, if_neg hwaits] at hcounted
        grind
  | fires _ _ _ _ hmark =>
      rw [hsame] at hmark
      rcases hmark with hclosed | hnrtx
      · exact .inl hclosed
      · bv_omega

end Tick

/-! ## A tick of the table -/

namespace Processor

variable {n : Nat}

/-- The connections are ticked one after the other, whatever becomes of each. -/
def tickEach (env : Env D H) : List (Fin n) → ProcProgram D H n Unit
  | [] => pure ()
  | i :: rest => do
      let _ ← onConn i (tick env)
      tickEach env rest

/-- The expired timer has led to the table every connection of which is ticked. -/
def TicksEach (env : Env D H) (p q : Processor D H n) : Prop :=
  tickEach env (List.finRange n) { p with iss := p.iss + 1 } = .ok () q

variable {env : Env D H} {p q : Processor D H n} {l : List (Fin n)}

theorem tickEach_cons {i : Fin n} : tickEach env (i :: l) p = .ok () q ↔
    ∃ ret t, tick env (p.ctx i) = .ok ret t ∧ tickEach env l (setCtx i p t) = .ok () q := by
  constructor
  · intro hok
    obtain ⟨ret, r, hrun, hrest⟩ := bind_eq_ok.mp hok
    obtain ⟨t, htick, rfl⟩ := zoom_eq_ok.mp hrun
    exact ⟨ret, t, htick, hrest⟩
  · rintro ⟨ret, t, htick, hrest⟩
    exact bind_eq_ok.mpr ⟨ret, _, zoom_eq_ok.mpr ⟨t, htick, rfl⟩, hrest⟩

/-- Each connection has become what its own tick makes of it, in the world that the
ticks before have left. -/
theorem tickEach_conn (hl : l.Nodup) (hok : tickEach env l p = .ok () q) (i : Fin n) :
    (i ∉ l → q.conns i = p.conns i) ∧
      (i ∈ l → ∃ w ret t, tick env ⟨p.conns i, w⟩ = .ok ret t ∧ q.conns i = t.e) := by
  induction l generalizing p with
  | nil =>
      cases hok
      simp
  | cons j l ih =>
      obtain ⟨hj, hl⟩ := List.nodup_cons.mp hl
      obtain ⟨ret, t, htick, hrest⟩ := tickEach_cons.mp hok
      obtain ⟨hout, hin⟩ := ih hl hrest
      by_cases hij : i = j
      · subst hij
        refine ⟨fun h => absurd List.mem_cons_self h, fun _ => ⟨p.w, ret, t, htick, ?_⟩⟩
        rw [hout hj, setCtx_conns_self]
      · rw [setCtx_conns_of_ne p t hij] at hout hin
        simpa [hij] using ⟨hout, hin⟩

theorem setCtx_ctx (i : Fin n) : setCtx i p (p.ctx i) = p := by
  rw [setCtx, ctx, Function.update_eq_self]

/-- Ticking leaves the table as it is if all its connections are idle. -/
theorem tickEach_self (hl : l.Nodup) :
    tickEach env l p = .ok () p ↔ ∀ i ∈ l, (p.conns i).Idle := by
  induction l with
  | nil => simp [tickEach]
  | cons i l ih =>
      obtain ⟨hi, hl⟩ := List.nodup_cons.mp hl
      have hrest : (p.conns i).Idle →
          (tickEach env (i :: l) p = .ok () p ↔ tickEach env l p = .ok () p) := by
        intro hidle
        have htick : tick env (p.ctx i) = .ok none (p.ctx i) := tick_idle hidle
        rw [tickEach_cons]
        constructor
        · rintro ⟨ret, t, hrun, hrest⟩
          rw [htick] at hrun
          cases hrun
          rwa [setCtx_ctx] at hrest
        · intro hrest
          exact ⟨none, p.ctx i, htick, by rwa [setCtx_ctx]⟩
      rw [List.forall_mem_cons]
      constructor
      · intro hok
        obtain ⟨ret, t, hrun, hlast⟩ := tickEach_cons.mp hok
        have hkept := (tickEach_conn hl hlast i).1 hi
        rw [setCtx_conns_self] at hkept
        have hidle : (p.conns i).Idle := idle_of_tick hrun hkept.symm
        exact ⟨hidle, (ih hl).mp ((hrest hidle).mp hok)⟩
      · rintro ⟨hidle, hall⟩
        exact (hrest hidle).mpr ((ih hl).mpr hall)

/-- The loop that stops has the effect of ticking every connection if no connection
whose timer runs out stands before one that is not idle. -/
theorem tickFrom_ticks (hl : l.Nodup) {ret : Status} (hok : tickFrom env l p = .ok ret q) :
    tickEach env l p = .ok () q ↔
      l.Pairwise fun i j => (p.conns i).Fires → (p.conns j).Idle := by
  -- On the connections still to visit: a tick that answers ends the loop of the code.
  induction l generalizing p with
  | nil =>
      cases hok
      simp [tickEach]
  | cons i l ih =>
      obtain ⟨hi, hl⟩ := List.nodup_cons.mp hl
      obtain ⟨again, r, hrun, hrest⟩ := bind_eq_ok.mp hok
      obtain ⟨t, htick, rfl⟩ := zoom_eq_ok.mp hrun
      have hfires : (p.conns i).Fires ↔ again ≠ none := tick_fires htick
      have hothers : ∀ j ∈ l, (setCtx i p t).conns j = p.conns j := fun j hj =>
        setCtx_conns_of_ne p t fun h => hi (h ▸ hj)
      have heach : tickEach env (i :: l) p = .ok () q ↔
          tickEach env l (setCtx i p t) = .ok () q := by
        rw [tickEach_cons]
        constructor
        · rintro ⟨ret', t', htick', hlast⟩
          rw [htick] at htick'
          cases htick'
          exact hlast
        · exact fun hlast => ⟨again, t, htick, hlast⟩
      rw [heach, List.pairwise_cons]
      cases again with
      | none =>
          have hstill : ¬(p.conns i).Fires := fun h => hfires.mp h rfl
          have hsame : l.Pairwise (fun i' j => ((setCtx i p t).conns i').Fires →
              ((setCtx i p t).conns j).Idle) ↔
              l.Pairwise fun i' j => (p.conns i').Fires → (p.conns j).Idle := by
            apply List.Pairwise.iff_of_mem
            intro i' j hi' hj
            rw [hothers i' hi', hothers j hj]
          rw [ih hl hrest, hsame]
          exact (and_iff_right fun _ _ h => absurd h hstill).symm
      | some ret =>
          cases hrest
          have hends : (p.conns i).Fires := hfires.mpr (by simp)
          -- The rest is left alone by the code, so ticking it must change nothing.
          rw [tickEach_self hl]
          constructor
          · intro hall
            have hidle : ∀ j ∈ l, (p.conns j).Idle := fun j hj => hothers j hj ▸ hall j hj
            refine ⟨fun j hj _ => hidle j hj, ?_⟩
            apply List.pairwise_of_forall_mem_list
            intro _ _ j hj _
            exact hidle j hj
          · rintro ⟨hall, -⟩ j hj
            rw [hothers j hj]
            exact hall j hj hends

/-- A tick reaches every connection of the table exactly if no connection whose timer
runs out stands before one that is not idle. -/
theorem run_ticksEach_iff {ret : Status} (hok : run env true p = .ok ret q) :
    TicksEach env p q ↔ ∀ i j, i < j → (p.conns i).Fires → (p.conns j).Idle := by
  have hloop : tickFrom env (List.finRange n) { p with iss := p.iss + 1 } = .ok ret q := hok
  rw [TicksEach, tickFrom_ticks (List.nodup_finRange n) hloop, List.pairwise_iff_getElem]
  simp only [List.length_finRange, List.getElem_finRange]
  constructor
  · intro hall i j hij
    exact hall i j i.isLt j.isLt hij
  · intro hall i j hi hj hij
    exact hall ⟨i, hi⟩ ⟨j, hj⟩ hij

open Testbed in
/-- Two clients whose SYN has not been answered, one tick before both go out again. -/
def twoClients : List Op :=
  [connectFrom 5000, connectFrom 5001, .run true, .run true]

open Testbed in
theorem twoClients_reaches : ∃ p : Processor Script Answers 2, Reachable Testbed.env p ∧
    Program.Passes (run Testbed.env true) p (fun _ _ => True) ∧
      (p.conns 0).Fires ∧ ¬(p.conns 1).Idle := by
  obtain ⟨p, -, hp, hpass⟩ := reaches 2 .empty [] twoClients
    (fun p => Program.Passes (run Testbed.env true) p (fun _ _ => True) ∧
      (p.conns 0).Fires ∧ ¬(p.conns 1).Idle) (by decide) (by decide +kernel)
  exact ⟨p, hp, hpass⟩

open Testbed in
/-- Two clients, the first of which has been reset and has connected anew since. -/
def laterClient : List Op :=
  [connectFrom 5000, connectFrom 5001, .run true, .run true, segment 5000 tcpRst 0 0 [],
    connectFrom 5002]

open Testbed in
/-- The timer of the second client runs out; the first one only counts down. -/
theorem run_ticksEach_iff_later : ∃ (p q : Processor Script Answers 2) (ret : Status),
    Reachable Testbed.env p ∧ run Testbed.env true p = .ok ret q ∧ ¬(p.conns 0).Idle ∧
      (p.conns 1).Fires ∧ TicksEach Testbed.env p q := by
  obtain ⟨p, -, hp, hpass, hidle, hstays, hfires⟩ := reaches 2 .empty [] laterClient
    (fun p => Program.Passes (run Testbed.env true) p (fun _ _ => True) ∧
      ¬(p.conns 0).Idle ∧ ¬(p.conns 0).Fires ∧ (p.conns 1).Fires) (by decide) (by decide +kernel)
  obtain ⟨ret, q, hrun, -⟩ := hpass.exists
  refine ⟨p, q, ret, hp, hrun, hidle, hfires, (run_ticksEach_iff hrun).mpr ?_⟩
  intro i j hij hfirst
  -- Only the first client stands before another.
  have hi : i = 0 := by omega
  subst hi
  exact absurd hfirst hstays

/-- The second client waits for a tick more. -/
theorem not_ticksEach : ¬ ∀ (D H : Type) (n : Nat) (env : Env D H) (p q : Processor D H n)
    (ret : Status), Reachable env p → run env true p = .ok ret q → TicksEach env p q := by
  obtain ⟨p, hp, hpass, hfires, hidle⟩ := twoClients_reaches
  obtain ⟨ret, q, hrun, -⟩ := hpass.exists
  intro hall
  have hloop : tickFrom Testbed.env (List.finRange 2) { p with iss := p.iss + 1 } = .ok ret q :=
    hrun
  have hpairs := (tickFrom_ticks (List.nodup_finRange 2) hloop).mp (hall _ _ _ _ p q ret hp hrun)
  have hall' := (List.pairwise_cons.mp hpairs).1 1 (by decide)
  exact hidle (hall' hfires)

end Processor

end Tulips.Tcpv4
