import Tulips.Machine.Departures
import Tulips.Properties.SendBuffer

/-!
# The contract of `send`

What a call of `send` returns says what it has done with the bytes it was given:
they are in the stream as far as the offset has moved, and a call that reports
an error has done nothing. That depends on how the device serves the segment,
if the call sends one.
-/

namespace Tulips.Tcpv4

variable {D H : Type}

/-! ## The contract -/

/-- A segment with payload has been handed to the device. -/
def Transmits (s t : Ctx D H) : Prop :=
  ∃ buf frame, commits t.w.log =
      .commit (some s.e.id) buf frame s.e.mss .ok :: commits s.w.log ∧
    tcpOffset + headerLen < frame.length

/-- What a call of `send` that moves the offset from `off` to `off'` promises. -/
structure SendContract (s t : Ctx D H) (len off : UInt32) (ret : Status) (off' : UInt32) :
    Prop where
  counted : (stream s.e.id t.w.log).length =
    (stream s.e.id s.w.log).length + (off' - off).toNat
  bounded : off' - off ≤ len - off
  done : ret = .ok → off' ≠ off ∨ Transmits s t
  busy : ret = .operationInProgress → off' = off ∧ ¬Transmits s t
  failed : ret ≠ .ok → ret ≠ .operationInProgress → off' = off ∧ t.e.slen = s.e.slen ∧
    t.pending = s.pending ∧ t.e.segments = s.e.segments ∧ t.e.sndNxt = s.e.sndNxt

/-- The call has nothing to send. -/
def Env.Idle (env : Env D H) (e : Connection) (len off : UInt32) : Prop :=
  env.fitting e len off = 0 ∧ e.slen = 0

/-- An empty segment leaves the ring as it is. -/
def Connection.KeepsRing (e : Connection) : Prop :=
  ∀ k, e.nextAvailableSegment = some k → e.segments k = ⟨0, e.sndNxt, e.sdat⟩

/-- The way the device serves the segment of a call suits the contract. -/
def Env.Suits (env : Env D H) (e : Connection) (len off : UInt32) : Service → Prop
  | .taken => ¬env.Idle e len off
  | .refused ret =>
      if ret.val = .operationInProgress then env.fitting e len off = 0
      else env.Idle e len off ∧ e.KeepsRing
  | .unreplaced ret =>
      env.Idle e len off ∧ (ret.val = .operationInProgress ∨ e.KeepsRing)

/-- However the device serves the frame a call hands over, if it hands over one,
suits the contract. -/
def Env.Accords (env : Env D H) (s t : Ctx D H) (len off : UInt32) : Prop :=
  ∀ buf frame ret, commits t.w.log =
      .commit (some s.e.id) buf frame s.e.mss ret :: commits s.w.log →
    env.Suits s.e len off (env.device.serve s.w.dev buf frame s.e.mss)

/-! ## Calls that send nothing -/

section Quiet

variable {env : Env D H} {s t : Ctx D H} {len off : UInt32}

theorem not_cons_commits {ev : Event} (h : commits t.w.log = commits s.w.log) :
    commits t.w.log ≠ ev :: commits s.w.log := by
  rw [h]
  intro heq
  simpa using congrArg List.length heq

/-- Without a frame there is nothing to serve. -/
theorem accords_of_quiet (h : commits t.w.log = commits s.w.log) : env.Accords s t len off :=
  fun _ _ _ hcommits => absurd hcommits (not_cons_commits h)

theorem not_transmits_of_quiet (h : commits t.w.log = commits s.w.log) : ¬Transmits s t := by
  rintro ⟨_, _, hcommits, -⟩
  exact not_cons_commits h hcommits

/-- A call that changes nothing keeps the contract, if it does not claim success. -/
theorem contract_unchanged (ret : Status) (hret : ret ≠ .ok) :
    SendContract s s len off ret off where
  counted := by simp
  bounded := by simp
  done := fun h => absurd h hret
  busy := fun _ => ⟨rfl, not_transmits_of_quiet rfl⟩
  failed := fun _ _ => ⟨rfl, rfl, rfl, rfl, rfl⟩

end Quiet

/-! ## The course of a call -/

section Course

variable {env : Env D H} {s t u : Ctx D H} {len off off' : UInt32} {data : Option Bytes}
  {ret : Status}

/-- The part of the data a call takes in is part of what it was given. -/
theorem Env.fitting_le {e : Connection} (hbound : ¬env.bound e < UInt32.ofNat e.slen.toNat) :
    env.fitting e len off ≤ len - off := by
  have hslen := e.slen.isLt
  have hnat : (UInt32.ofNat e.slen.toNat).toNat = e.slen.toNat := by
    rw [UInt32.toNat_ofNat']
    omega
  unfold fitting
  simp only
  split
  · next h =>
      rw [UInt32.lt_iff_toNat_lt, hnat] at hbound
      rw [gt_iff_lt, UInt32.lt_iff_toNat_lt, UInt32.toNat_add, hnat] at h
      rw [UInt32.le_iff_toNat_le, UInt32.toNat_sub_of_le _ _ (by
        rw [UInt32.le_iff_toNat_le, hnat]
        omega), hnat]
      have := (len - off).toNat_lt
      omega
  · exact UInt32.le_refl _

/-- A call that takes nothing in has found the send buffer full. -/
theorem Env.bound_of_fitting_eq_zero {e : Connection} (hlt : off < len)
    (h : env.fitting e len off = 0) : UInt32.ofNat e.slen.toNat = env.bound e := by
  unfold fitting at h
  simp only at h
  split at h
  · simpa using (UInt32.sub_eq_iff_eq_add.mp h).symm
  · rw [UInt32.sub_eq_iff_eq_add.mp h, UInt32.zero_add] at hlt
    exact absurd hlt (UInt32.lt_irrefl _)

/-- Data has been put behind what is pending. -/
structure Copied (a : UInt32) (s u : Ctx D H) : Prop where
  conn : u.e = { s.e with slen := s.e.slen + BitVec.ofNat 24 a.toNat }
  dev : u.w.dev = s.w.dev
  commits : commits u.w.log = commits s.w.log

theorem copied_of_run {bytes : Bytes} {a : UInt32}
    (hok : Program.when (a ≠ 0) (copyPayload bytes off a) s = .ok () u) : Copied a s u := by
  unfold Program.when at hok
  split at hok
  · unfold copyPayload at hok
    rw [Program.bind_gets] at hok
    cases hsdat : s.e.sdat with
    | none =>
        rw [hsdat] at hok
        cases hok
    | some p =>
        simp only [hsdat] at hok
        obtain ⟨w, hstore, -, hlaid⟩ := store_laid (some s.e.id) p (headerLen + s.e.slen.toNat)
          ((List.range a.toNat).map fun i => bytes (off.toNat + i)) s.w
        rw [Program.bind_of_ok (onWorld_ok hstore)] at hok
        cases hok
        refine ⟨?_, hlaid.dev, (commits_cons rfl _).trans hlaid.commits_eq⟩
        simp
  · next ha =>
      cases hok
      obtain rfl : a = 0 := of_not_not ha
      refine ⟨?_, rfl, rfl⟩
      simp

/-- What a call of `send` comes down to. -/
inductive Course (env : Env D H) (s t : Ctx D H) (len off : UInt32) : Status → UInt32 → Prop
  | rejected {ret : Status} (hret : ret ≠ .ok) (ht : t = s) : Course env s t len off ret off
  | full (hcopied : Copied (env.fitting s.e len off) s t) :
      Course env s t len off
        (if env.fitting s.e len off = 0 then .operationInProgress else .ok)
        (off + env.fitting s.e len off)
  | waiting (hcopied : Copied (env.fitting s.e len off) s t)
      (ha : env.fitting s.e len off ≠ 0) :
      Course env s t len off .ok (off + env.fitting s.e len off)
  | sent {u : Ctx D H} {ret : Status} {flag : UInt8}
      (hcopied : Copied (env.fitting s.e len off) s u)
      (havail : s.e.hasAvailableSegments = true) (hsend : sendNoDelay env flag u = .ok ret t) :
      Course env s t len off ret (off + env.fitting s.e len off)

theorem send_course (hlt : off < len) (hok : send env len data off s = .ok (ret, off') t) :
    Course env s t len off ret off' ∧ off' - off ≤ len - off := by
  have hreject : ∀ {ret' : Status}, ret' ≠ .ok →
      (pure (ret', off) : ConnProgram D H (Status × UInt32)) s = .ok (ret, off') t →
      Course env s t len off ret off' ∧ off' - off ≤ len - off := by
    intro ret' hret h
    cases h
    exact ⟨.rejected hret rfl, by simp⟩
  unfold send at hok
  rw [Program.bind_gets] at hok
  split at hok
  · exact hreject (by decide) hok
  split at hok
  · exact hreject (by decide) hok
  cases data with
  | none => exact hreject (by decide) hok
  | some bytes =>
      simp only at hok
      split at hok
      · exact hreject (by decide) hok
      split at hok
      · exact hreject (by decide) hok
      next hbound =>
      obtain ⟨_, u, hcopy, hrest⟩ := Program.bind_eq_ok.mp hok
      have hcopied := copied_of_run hcopy
      have hle : off + env.fitting s.e len off - off ≤ len - off := by
        rw [UInt32.add_comm, UInt32.add_sub_cancel]
        exact Env.fitting_le hbound
      split at hrest
      · cases hrest
        exact ⟨.full hcopied, hle⟩
      next havail =>
      have havail : s.e.hasAvailableSegments = true := by simpa using havail
      split at hrest
      · obtain ⟨ret', t', hsend, hpure⟩ := Program.bind_eq_ok.mp hrest
        cases hpure
        exact ⟨.sent hcopied havail hsend, hle⟩
      · obtain ⟨ret', t', hsend, hpure⟩ := Program.bind_eq_ok.mp hrest
        cases hpure
        refine ⟨?_, hle⟩
        unfold sendNagle at hsend
        rw [Program.bind_gets] at hsend
        split at hsend
        · exact .sent hcopied havail hsend
        next hslen =>
        split at hsend
        · cases hsend
          -- Nothing is pending, so with nothing accepted the bound of the call was zero.
          refine .waiting hcopied fun ha => hslen ?_
          rw [hcopied.conn, ha]
          simpa using Env.bound_of_fitting_eq_zero hlt ha
        · exact .sent hcopied havail hsend

/-- With one frame handed over, its service is the one that matters. -/
theorem accords_iff {buf : Nat} {frame : List UInt8}
    (hcommits : commits t.w.log =
      .commit (some s.e.id) buf frame s.e.mss ret :: commits s.w.log) :
    env.Accords s t len off ↔
      env.Suits s.e len off (env.device.serve s.w.dev buf frame s.e.mss) := by
  constructor
  · intro h
    exact h buf frame ret hcommits
  · intro h buf' frame' ret' hcommits'
    rw [hcommits] at hcommits'
    cases (List.cons.inj hcommits').1
    exact h

theorem off_ne_iff {a : UInt32} : off + a ≠ off ↔ a ≠ 0 := by
  simp

/-- What a call that has sent a segment leaves behind. -/
structure Pushed (env : Env D H) (a : UInt32) (p : Ptr) (k : Fin segmentCount)
    (frame : List UInt8) (s t : Ctx D H) : Prop where
  sdat : s.e.sdat = some p
  free : s.e.nextAvailableSegment = some k
  commits : commits t.w.log = .commit (some s.e.id) p.buf frame s.e.mss
    (env.device.commit s.w.dev p.buf frame s.e.mss).1 :: commits s.w.log
  slen : t.e.slen = 0
  segments : t.e.segments = Function.update s.e.segments k
    ⟨UInt32.ofNat (s.e.slen + BitVec.ofNat 24 a.toNat).toNat, s.e.sndNxt, some p⟩
  sndNxt : t.e.sndNxt =
    (if (env.device.serve s.w.dev p.buf frame s.e.mss).sent = true
      then s.e.sndNxt + UInt32.ofNat (s.e.slen + BitVec.ofNat 24 a.toNat).toNat
      else s.e.sndNxt)
  length : frame.length =
    tcpOffset + headerLen + (s.e.slen + BitVec.ofNat 24 a.toNat).toNat

theorem pushed_of_sent {a : UInt32} {flag : UInt8} (hcopied : Copied a s u)
    (havail : s.e.hasAvailableSegments = true) (hsend : sendNoDelay env flag u = .ok ret t) :
    ∃ p k frame, ret = (env.device.serve s.w.dev p.buf frame s.e.mss).status ∧
      Pushed env a p k frame s t := by
  obtain ⟨k, hfree⟩ := Core.nextFree_isSome (s.e.hasAvailableSegments_iff.mp havail)
  have hufree : u.e.nextAvailableSegment = some k := by
    rw [hcopied.conn]
    exact hfree
  cases husdat : u.e.sdat with
  | none =>
      obtain ⟨v, hfault⟩ := sendNoDelay_none env flag hufree husdat
      rw [hfault] at hsend
      cases hsend
  | some p =>
      obtain ⟨t', frame, hok, hcommits, hslen, hsegments, hsndNxt, hlength⟩ :=
        sendNoDelay_departs env flag husdat hufree
      rw [hsend] at hok
      obtain ⟨rfl, rfl⟩ := EStateM.Result.ok.inj hok
      rw [hcopied.commits, Ctx.commitOf] at hcommits
      rw [hcopied.conn] at hcommits hsegments hsndNxt hlength husdat ⊢
      rw [hcopied.dev] at hcommits hsndNxt ⊢
      exact ⟨p, k, frame, rfl, husdat, hfree, hcommits, hslen, hsegments, hsndNxt, hlength⟩

namespace Pushed

variable {p : Ptr} {k : Fin segmentCount} {frame : List UInt8}

theorem transmits_iff {a : UInt32} (h : Pushed env a p k frame s t) :
    Transmits s t ↔ (env.device.commit s.w.dev p.buf frame s.e.mss).1 = .ok ∧
      s.e.slen + BitVec.ofNat 24 a.toNat ≠ 0 := by
  have hpos : tcpOffset + headerLen < frame.length ↔ s.e.slen + BitVec.ofNat 24 a.toNat ≠ 0 := by
    rw [h.length, Nat.lt_add_right_iff_pos, Nat.pos_iff_ne_zero]
    exact not_congr ⟨fun h => BitVec.eq_of_toNat_eq h, fun h => by rw [h]; rfl⟩
  constructor
  · rintro ⟨buf, frame', hcommits, hlength⟩
    rw [h.commits] at hcommits
    injection hcommits with hev
    injection hev with _ hbuf hframe _ hret
    subst hframe
    exact ⟨hret, hpos.mp hlength⟩
  · rintro ⟨hret, hne⟩
    refine ⟨p.buf, frame, ?_, hpos.mpr hne⟩
    rw [h.commits, hret]

/-- The call has left everything as it was exactly if it had nothing to send and
the ring does not show it. -/
theorem unchanged_iff (h : Pushed env (env.fitting s.e len off) p k frame s t) :
    (off + env.fitting s.e len off = off ∧ t.e.slen = s.e.slen ∧ t.pending = s.pending ∧
      t.e.segments = s.e.segments ∧ t.e.sndNxt = s.e.sndNxt) ↔
      env.Idle s.e len off ∧ s.e.KeepsRing := by
  have hoff : off + env.fitting s.e len off = off ↔ env.fitting s.e len off = 0 :=
    not_iff_not.mp off_ne_iff
  constructor
  · rintro ⟨hsame, hslen, -, hsegments, -⟩
    have ha := hoff.mp hsame
    have hzero : s.e.slen = 0 := by rw [← hslen, h.slen]
    refine ⟨⟨ha, hzero⟩, fun k' hk' => ?_⟩
    obtain rfl : k = k' := Option.some_inj.mp (h.free.symm.trans hk')
    have hk := congrFun hsegments k
    rw [h.segments, Function.update_self, ha, hzero] at hk
    rw [← hk, h.sdat]
    rfl
  · rintro ⟨⟨ha, hzero⟩, hring⟩
    refine ⟨hoff.mpr ha, by rw [h.slen, hzero], ?_, ?_, ?_⟩
    · rw [Ctx.pending_of_empty h.slen, Ctx.pending_of_empty hzero]
    · rw [h.segments, ha, hzero, ← h.sdat]
      exact Function.update_eq_self_iff.mpr (hring k h.free).symm
    · rw [h.sndNxt, ha, hzero]
      simp

/-- A segment that was sent keeps the contract if its service suits it. -/
theorem contract_iff (h : Pushed env (env.fitting s.e len off) p k frame s t)
    (hcounted : (stream s.e.id t.w.log).length = (stream s.e.id s.w.log).length +
      (off + env.fitting s.e len off - off).toNat)
    (hbounded : off + env.fitting s.e len off - off ≤ len - off) :
    SendContract s t len off (env.device.serve s.w.dev p.buf frame s.e.mss).status
        (off + env.fitting s.e len off) ↔
      env.Suits s.e len off (env.device.serve s.w.dev p.buf frame s.e.mss) := by
  have hoff : off + env.fitting s.e len off ≠ off ↔ env.fitting s.e len off ≠ 0 := off_ne_iff
  have htrans := h.transmits_iff
  have hunchanged := h.unchanged_iff
  rw [Device.commit_of_serve] at htrans
  -- Without data taken in, what is sent was pending.
  have hpend : env.fitting s.e len off = 0 →
      s.e.slen + BitVec.ofNat 24 (env.fitting s.e len off).toNat = s.e.slen := by
    intro ha
    rw [ha]
    simp
  have hcontract : ∀ ret, SendContract s t len off ret (off + env.fitting s.e len off) ↔
      (ret = .ok → off + env.fitting s.e len off ≠ off ∨ Transmits s t) ∧
      (ret = .operationInProgress → off + env.fitting s.e len off = off ∧ ¬Transmits s t) ∧
      (ret ≠ .ok → ret ≠ .operationInProgress → env.Idle s.e len off ∧ s.e.KeepsRing) := by
    intro ret
    rw [← hunchanged]
    exact ⟨fun c => ⟨c.done, c.busy, c.failed⟩, fun ⟨h₁, h₂, h₃⟩ =>
      ⟨hcounted, hbounded, h₁, h₂, h₃⟩⟩
  have hbusy : Status.ok ≠ .operationInProgress := by decide
  rw [hcontract]
  cases hserve : env.device.serve s.w.dev p.buf frame s.e.mss with
  | taken =>
      rw [hserve] at htrans
      simp only [Service.status, Env.Suits, hoff, htrans, true_and, ne_eq, not_true_eq_false,
        false_implies, and_true, forall_const, hbusy]
      constructor
      · rintro h ⟨ha, hzero⟩
        rw [hpend ha] at h
        exact h.elim (fun h => h ha) fun h => h hzero
      · intro h
        by_cases ha : env.fitting s.e len off = 0
        · rw [hpend ha]
          exact .inr fun hzero => h ⟨ha, hzero⟩
        · exact .inl ha
  | refused ret =>
      rw [hserve] at htrans
      have hnot : ¬Transmits s t := fun h => ret.property (htrans.mp h).1
      have hret : ret.val ≠ .ok := ret.property
      simp only [Service.status, Env.Suits, hret, hnot, false_implies, true_and, not_false_iff,
        and_true, ne_eq, forall_const]
      by_cases hprogress : ret.val = .operationInProgress
      · simp only [hprogress, forall_const, not_true_eq_false, false_implies, and_true, if_true]
        exact not_iff_not.mp hoff
      · simp only [hprogress, false_implies, true_and, not_false_iff, forall_const, if_false]
  | unreplaced ret =>
      rw [hserve] at htrans
      have hret : ret.val ≠ .ok := ret.property
      simp only [Service.status, Env.Suits, hret, htrans, true_and, false_implies, ne_eq,
        not_false_iff, forall_const]
      by_cases hprogress : ret.val = .operationInProgress
      · simp only [hprogress, forall_const, not_true_eq_false, false_implies, and_true, true_or,
          not_not]
        constructor
        · rintro ⟨hsame, hzero⟩
          have ha : env.fitting s.e len off = 0 := (not_iff_not.mp hoff).mp hsame
          rw [hpend ha] at hzero
          exact ⟨ha, hzero⟩
        · rintro ⟨ha, hzero⟩
          rw [hpend ha]
          exact ⟨(not_iff_not.mp hoff).mpr ha, hzero⟩
      · simp only [hprogress, false_implies, true_and, not_false_iff, forall_const, false_or]

end Pushed

/-- A call keeps the contract exactly if the device serves the frame it hands
over, if any, in a way that suits the contract. -/
theorem contract_iff_accords (hlt : off < len) (hok : send env len data off s = .ok (ret, off') t) :
    SendContract s t len off ret off' ↔ env.Accords s t len off := by
  have hcounted := send_stream hok
  obtain ⟨hcourse, hbounded⟩ := send_course hlt hok
  cases hcourse with
  | rejected hret ht =>
      subst ht
      exact iff_of_true (contract_unchanged ret hret) (accords_of_quiet rfl)
  | full hcopied =>
      refine iff_of_true ⟨hcounted, hbounded, fun h => .inl ?_, fun h => ⟨?_, ?_⟩, fun h h' => ?_⟩
        (accords_of_quiet hcopied.commits)
      · rw [off_ne_iff]
        intro ha
        rw [if_pos ha] at h
        cases h
      · by_contra hne
        rw [if_neg (off_ne_iff.mp hne)] at h
        cases h
      · exact not_transmits_of_quiet hcopied.commits
      · exfalso
        by_cases ha : env.fitting s.e len off = 0
        · exact h' (if_pos ha)
        · exact h (if_neg ha)
  | waiting hcopied ha =>
      refine iff_of_true ⟨hcounted, hbounded, fun _ => .inl (off_ne_iff.mpr ha), fun h => ?_,
        fun h => absurd rfl h⟩ (accords_of_quiet hcopied.commits)
      cases h
  | sent hcopied havail hsend =>
      obtain ⟨p, k, frame, rfl, hpushed⟩ := pushed_of_sent hcopied havail hsend
      rw [hpushed.contract_iff hcounted hbounded, accords_iff hpushed.commits]

end Course

/-! ## The call of the application -/

namespace Processor

variable {n : Nat} {env : Env D H} {p q : Processor D H n} {id : UInt16} {len off off' : UInt32}
  {data : Option Bytes} {ret : Status}

/-- The contract of `Processor::send`; no connection means nothing has happened. -/
def SendContract (p q : Processor D H n) (id : UInt16) (len off : UInt32) (ret : Status)
    (off' : UInt32) : Prop :=
  match slot? n id with
  | none => q = p ∧ ret = .invalidConnection ∧ off' = off
  | some i => Tcpv4.SendContract (p.ctx i) (q.ctx i) len off ret off'

/-- The device serves the frame of the call, if there is one, in a way that suits
the contract. -/
def Accords (env : Env D H) (p q : Processor D H n) (id : UInt16) (len off : UInt32) : Prop :=
  ∀ i, slot? n id = some i → env.Accords (p.ctx i) (q.ctx i) len off

/-- Every call of `send` keeps its contract exactly if the device serves its
segment in a way that suits the contract. -/
theorem send_contract_iff (hlt : off < len)
    (hok : send env id len data off p = .ok (ret, off') q) :
    SendContract p q id len off ret off' ↔ Accords env p q id len off := by
  unfold SendContract Accords
  unfold send at hok
  cases hslot : slot? n id with
  | none =>
      rw [hslot] at hok
      cases hok
      simp
  | some i =>
      rw [hslot] at hok
      obtain ⟨t, hrun, rfl⟩ := Program.zoom_eq_ok.mp hok
      simp only [Option.some_inj, forall_eq', ctx_setCtx]
      exact contract_iff_accords hlt hrun

/-! ## A refused segment -/

section Refused

open Testbed

/-- A connection to the peer, whose next segment the device refuses. -/
def refusedRun : List Op := [connectFrom 5000, segment 5000 (tcpSyn ||| tcpAck) 100 1 []]

/-- The device takes the SYN and the acknowledgement, and no more. -/
def refusingScript : Script := { Script.empty with commits := [.ok, .ok, .noMoreResources] }

/-- The four bytes count as sent, and the call reports an error. -/
theorem refused_send : ∃ p q : Processor Script Answers 1, Reachable Testbed.env p ∧
    send Testbed.env 0 4 (some fun i => UInt8.ofNat i) 0 p = .ok (.noMoreResources, 4) q := by
  obtain ⟨p, -, hp, hsend⟩ := reaches 1 refusingScript [] refusedRun
    (fun p => Program.Passes (send Testbed.env 0 4 (some fun i => UInt8.ofNat i) 0) p fun r _ =>
      r = (.noMoreResources, 4))
    (by decide) (by decide +kernel)
  obtain ⟨r, q, hok, rfl⟩ := hsend.exists
  exact ⟨p, q, hp, hok⟩

theorem not_contract_of_refused {p q : Processor Script Answers 1} :
    ¬SendContract p q 0 4 0 .noMoreResources 4 := by
  intro h
  have hoff := (Tcpv4.SendContract.failed (show Tcpv4.SendContract (p.ctx 0) (q.ctx 0) 4 0 _ 4
    from h) (by decide) (by decide)).1
  exact absurd hoff (by decide)

theorem send_contract_iff_refused : ∃ p q : Processor Script Answers 1,
    Reachable Testbed.env p ∧ ¬Accords Testbed.env p q 0 4 0 := by
  obtain ⟨p, q, hp, hok⟩ := refused_send
  exact ⟨p, q, hp, mt (send_contract_iff (by decide) hok).mpr not_contract_of_refused⟩

/-- The call moves the offset although it reports an error. -/
theorem not_send_contract : ¬ ∀ (D H : Type) (n : Nat) (env : Env D H) (p q : Processor D H n)
    (id : UInt16) (len off off' : UInt32) (data : Option Bytes) (ret : Status),
    Reachable env p → off < len → send env id len data off p = .ok (ret, off') q →
    SendContract p q id len off ret off' := by
  intro hall
  obtain ⟨p, q, hp, hok⟩ := refused_send
  exact not_contract_of_refused (hall _ _ _ _ p q 0 4 0 4 _ _ hp (by decide) hok)

end Refused

end Processor

end Tulips.Tcpv4
