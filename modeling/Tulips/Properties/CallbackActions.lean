import Tulips.Machine.Answering
import Tulips.Machine.Departures
import Tulips.Machine.Endings
import Tulips.Machine.Testbed

/-!
# What the application asks for

A data callback answers with an action. The processor acts on it in ESTABLISHED,
as far as a FIN finds a free slot of the ring; where data comes with the
handshake or with a FIN of the peer, it does not look at the answer.
-/

namespace Tulips.Tcpv4

open Program

variable {D H : Type}

/-! ## Decisions -/

/-- The action a data callback has answered with. -/
def Event.decision? : Event → Option Action
  | .callback _ cb action => if cb.isData then some action else none
  | _ => none

/-- The answers of the data callbacks in a history, newest first. -/
def decisions (log : List Event) : List Action := log.filterMap Event.decision?

/-- Since `s` the data callbacks of the connection have answered with the given actions. -/
structure Decided (acts : List Action) (s t : Ctx D H) : Prop where
  id : t.e.id = s.e.id
  log : ∃ new, t.w.log = new ++ s.w.log ∧ decisions new = acts

/-- A frame with the given flag has been handed to the device since `s`. -/
def SentWith (flag : UInt8) (s t : Ctx D H) : Prop :=
  ∃ new, t.w.log = new ++ s.w.log ∧ ∃ buf frame mss ret,
    .commit (some s.e.id) buf frame mss ret ∈ new ∧ (Frame.header frame).has flag = true

/-- What was asked for has been done. -/
structure Honoured (acts : List Action) (s t : Ctx D H) : Prop where
  abort : .abort ∈ acts → t.e.state = .closed ∧ SentWith tcpRst s t
  close : .close ∈ acts → t.e.state = .close ∨
    (t.e.state = .finWait1 ∨ t.e.state = .lastAck) ∧ SentWith tcpFin s t

/-- What was asked for is what the processor looks at in the state of the connection. -/
def Connection.Heeds (e : Connection) (inc : Incoming) (acts : List Action) : Prop :=
  match e.state with
  | .synRcvd | .synSent => ∀ a ∈ acts, a = .continue
  | .established =>
      if inc.has tcpFin then .abort ∉ acts
      else .close ∈ acts → (e.clearNews.scanned inc).1.hasAvailableSegments = true
  | _ => True

section Decided

variable {acts acts' : List Action} {flag : UInt8} {s t u : Ctx D H}

theorem Decided.trans (h : Decided acts s t) (h' : Decided acts' t u) :
    Decided (acts' ++ acts) s u := by
  obtain ⟨new, hlog, hacts⟩ := h.log
  obtain ⟨new', hlog', hacts'⟩ := h'.log
  refine ⟨h'.id.trans h.id, new' ++ new, by rw [hlog', hlog, List.append_assoc], ?_⟩
  rw [decisions, List.filterMap_append]
  exact congrArg₂ _ hacts' hacts

/-- Without a data callback nothing is decided. -/
theorem Decided.of_none {new : List Event} (hid : t.e.id = s.e.id) (hlog : t.w.log = new ++ s.w.log)
    (hnew : ∀ ev ∈ new, ev.decision? = none) : Decided [] s t :=
  ⟨hid, new, hlog, List.filterMap_eq_nil_iff.mpr hnew⟩

theorem Decided.refl (s : Ctx D H) : Decided [] s s := ⟨rfl, [], rfl, rfl⟩

theorem Decided.conn {e : Connection} (hid : e.id = s.e.id) : Decided [] s ⟨e, s.w⟩ :=
  ⟨hid, [], rfl, rfl⟩

/-- Before the first decision. -/
theorem Decided.after_none (h : Decided [] s t) (h' : Decided acts t u) : Decided acts s u := by
  simpa using h.trans h'

theorem Decided.conn_after {e : Connection} (h : Decided acts s t) (hid : e.id = t.e.id) :
    Decided acts s ⟨e, t.w⟩ := h.trans (.conn hid)

theorem decided_modify {f : Connection → Connection} (hf : ∀ e, (f e).id = e.id) :
    Relates (Decided []) (modifyConn f : ConnProgram D H Unit) := fun s => .conn (hf s.e)

theorem decided_setState (st : State) :
    Relates (Decided []) (setState st : ConnProgram D H Unit) := decided_modify fun _ => rfl

theorem Decided.noted {ev : Event} (hev : ev.decision? = none) : Decided [] s (s.noted ev) :=
  ⟨rfl, [ev], rfl, by simp [decisions, hev]⟩

theorem decided_walk : Walk (Decided (D := D) (H := H) []) := ⟨.refl, .trans⟩

theorem Event.isPlain.decision? {ev : Event} (h : ev.isPlain = true) : ev.decision? = none := by
  cases ev with
  | callback => cases h
  | _ => rfl

theorem Decided.of_plainly {w : World D H} (h : Plainly s.w w) : Decided [] s ⟨s.e, w⟩ := by
  obtain ⟨new, hlog, hnew⟩ := h.log
  exact .of_none rfl hlog fun ev hev => Event.isPlain.decision? (hnew ev hev)

theorem Decided.called (env : Env D H) {cb : Callback} (hcb : cb.isData = false) (s : Ctx D H) :
    Decided [] s (s.called env cb) := by
  have hev : Event.decision? (.callback s.e.id cb (env.handler s.w.hdl s.e cb).action) = none := by
    simp [Event.decision?, hcb]
  exact ⟨rfl, [_], rfl, by simp [decisions, hev]⟩

theorem decided_bears (env : Env D H) : Bears env (Decided []) where
  toWalk := decided_walk
  world := .of_plainly
  buffer := fun _ _ => .conn rfl
  transmit := fun _ _ _ _ _ => .noted rfl
  sent := Decided.called env rfl
  counted := fun _ _ => .conn rfl
  segment := fun _ _ _ => .conn rfl
  reset := fun _ => .conn rfl

theorem Decided.after (h : Decided acts s t) (h' : SentWith flag t u) : SentWith flag s u := by
  obtain ⟨new, hlog, -⟩ := h.log
  obtain ⟨new', hlog', buf, frame, mss, ret, hmem, hflag⟩ := h'
  rw [h.id] at hmem
  exact ⟨new' ++ new, by rw [hlog', hlog, List.append_assoc], buf, frame, mss, ret,
    List.mem_append_left _ hmem, hflag⟩

/-- The frame that was committed last. -/
theorem sentWith_of_commits {p : Ptr} {frame : List UInt8} {ret : Status}
    (h : Decided acts s t) (hcommits : commits t.w.log = s.commitOf p frame ret :: commits s.w.log)
    (hflag : (Frame.header frame).has flag = true) : SentWith flag s t := by
  obtain ⟨new, hlog, -⟩ := h.log
  refine ⟨new, hlog, p.buf, frame, s.e.mss, ret, ?_, hflag⟩
  have hnew : commits new = [s.commitOf p frame ret] := by
    have happend : commits new ++ commits s.w.log =
        [s.commitOf p frame ret] ++ commits s.w.log := by
      rw [commits, commits, ← List.filter_append, ← hlog]
      exact hcommits
    exact List.append_cancel_right happend
  have hmem : s.commitOf p frame ret ∈ commits new := by simp [hnew]
  exact List.mem_of_mem_filter hmem

end Decided

/-! ## What the actions do -/

section Actions

variable {env : Env D H} {acts : List Action} {s t : Ctx D H} {ret : Status}

/-- A segment without data leaves with the flags it is given. -/
theorem control_sent {flags flag : UInt8} (hplaced : s.e.core.Placed)
    (hflag : flags &&& flag ≠ 0)
    (hok : (setFlags s.e.sdat flags (some 5) >>= fun _ => sendControl env) s = .ok ret t) :
    t.e.state = s.e.state ∧ Decided [] s t ∧ SentWith flag s t := by
  have hdecided : Decided [] s t :=
    ((decided_bears env).bind ((decided_bears env).setFlags _ _ _) fun _ =>
      (decided_bears env).sendControl env).ok hok
  cases hsdat : s.e.sdat with
  | none =>
      rw [hsdat] at hok
      cases hok
  | some p =>
      obtain ⟨w, hset, hhdr, hlaid⟩ := modifyHeader_laid (some s.e.id) p
        (fun h => { h with flags := flags, offset := (some 5).getD h.offset }) s.w
      obtain ⟨t', frame, hsend, hcommits, he, -, hframe⟩ :=
        sendControl_departs env (s := { s with w := w }) hsdat
      have hflags : setFlags (some p) flags (some 5) s = .ok () { s with w := w } := onWorld_ok hset
      rw [hsdat, bind_of_ok hflags, hsend] at hok
      cases hok
      refine ⟨by rw [he], hdecided, ?_⟩
      obtain ⟨-, ⟨chksum, hheader⟩, -⟩ := hframe (Nat.le_of_eq (hplaced.sdat p hsdat).symm)
      have hcommits : commits t.w.log =
          s.commitOf p frame (env.device.commit w.dev p.buf frame s.e.mss).1 ::
            commits s.w.log := by
        rw [hcommits, ← hlaid.commits_eq]
        rfl
      apply sentWith_of_commits hdecided hcommits
      rw [hheader]
      simpa [Header.has, Ctx.filled, hhdr] using hflag

/-- A reset closes the connection and is handed to the device. -/
theorem sendAbort_sent (hplaced : s.e.core.Placed) (hok : sendAbort env s = .ok ret t) :
    t.e.state = .closed ∧ Decided [] s t ∧ SentWith tcpRst s t := by
  unfold sendAbort at hok
  rw [bind_gets] at hok
  let u : Ctx D H := ⟨{ s.e with state := .closed }, { s.w with
    dev := env.device.unlisten s.w.dev s.e.lport, log := .unlisten s.e.lport :: s.w.log }⟩
  have hu : Decided [] s u := ⟨rfl, [.unlisten s.e.lport], rfl, rfl⟩
  have hflag : (tcpRst ||| if s.e.newdata then tcpAck else 0) &&& tcpRst ≠ 0 := by
    cases s.e.newdata <;> decide
  obtain ⟨hstate, hdecided, hsent⟩ := control_sent (s := u) ⟨hplaced.sdat, hplaced.dat⟩ hflag hok
  exact ⟨hstate, hu.trans hdecided, hu.after hsent⟩

/-- The FIN a connection closes with is handed to the device. -/
theorem pushFinAck_sent (hplaced : s.e.core.Placed) (hok : pushFinAck env s = .ok ret t) :
    t.e.state = s.e.state ∧ Decided [] s t ∧ SentWith tcpFin s t := by
  have hdecided : Decided [] s t := (decided_bears env).pushFinAck.ok hok
  have hstate : t.e.state = s.e.state := ((sends_bears env).pushFinAck.ok hok).state_eq
  refine ⟨hstate, hdecided, ?_⟩
  obtain ⟨k, u, hpush, hok⟩ := bind_eq_ok.mp hok
  unfold pushSegment at hpush
  rw [bind_gets] at hpush
  cases hfree : s.e.nextAvailableSegment with
  | none =>
      rw [hfree] at hpush
      cases hpush
  | some i =>
      rw [hfree] at hpush
      cases hpush
      let seg : Segment := ⟨1, s.e.sndNxt, s.e.sdat⟩
      let u : Ctx D H := { s with e := (s.e.setSegment k seg).resetSendBuffer }
      have hseg : u.e.segments k = seg := Function.update_self ..
      cases hsdat : s.e.sdat with
      | none =>
          have hnone : (u.e.segments k).dat = none := by rw [hseg, ← hsdat]
          have hfault := (sendKind_none env hnone).2.2.2
          rw [hfault] at hok
          cases hok
      | some p =>
          have hdat : (u.e.segments k).dat = some p := by rw [hseg, ← hsdat]
          obtain ⟨t', ret', frame, hsend, hdeparts, hframe⟩ := sendFinAck_departs env hdat
          have hok : sendFinAck env k u = .ok ret t := hok
          rw [hsend] at hok
          cases hok
          obtain ⟨-, ⟨chksum, hheader⟩, -⟩ := hframe (Nat.le_of_eq (hplaced.sdat p hsdat).symm)
          apply sentWith_of_commits hdecided hdeparts.commits
          rw [hheader]
          have hflag : ((tcpAck ||| tcpFin) &&& tcpFin != 0) = true := by decide
          exact hflag

/-- A close finds a free slot, or nothing happens. -/
theorem sendClose_sent (hplaced : s.e.core.Placed) (hok : sendClose env s = .ok ret t) :
    Decided [] s t ∧
      if s.e.hasAvailableSegments then t.e.state = .finWait1 ∧ SentWith tcpFin s t else t = s := by
  unfold sendClose at hok
  rw [bind_gets] at hok
  cases hfree : s.e.hasAvailableSegments with
  | false =>
      rw [hfree, if_pos rfl] at hok
      cases hok
      exact ⟨.refl s, rfl⟩
  | true =>
      rw [hfree, if_neg (by decide)] at hok
      let u : Ctx D H := { s with e := { s.e with state := .finWait1 } }
      have hok : pushFinAck env u = .ok ret t := hok
      have hu : Decided [] s u := .conn rfl
      obtain ⟨hstate, hdecided, hsent⟩ :=
        pushFinAck_sent (s := u) ⟨hplaced.sdat, hplaced.dat⟩ hok
      exact ⟨hu.trans hdecided, hstate, hu.after hsent⟩

end Actions

/-! ## What becomes of the answers -/

/-- What has become of the answers in ESTABLISHED, given whether a slot was free. -/
inductive Verdict (free : Bool) (acts : List Action) (s t : Ctx D H) : Prop
  | goes (hacts : ∀ a ∈ acts, a = .continue)
  | aborts (hstate : t.e.state = .closed) (hsent : SentWith tcpRst s t) (hacts : .close ∉ acts)
  | closes (hfree : free = true) (hstate : t.e.state = .finWait1) (hsent : SentWith tcpFin s t)
      (hacts : .abort ∉ acts)
  | stays (hfree : free = false) (hstate : t.e.state = .established) (hacts : .close ∈ acts)

/-- Some answers were given, and something has become of them. -/
def Judged (free : Bool) (s t : Ctx D H) : Prop := ∃ acts, Decided acts s t ∧ Verdict free acts s t

section Verdict

variable {env : Env D H} {inc : Incoming} {free : Bool} {s t u : Ctx D H} {ret : Status}
  {canSend : Bool}

/-- The connection has not lost its place. -/
structure Resumes (s u : Ctx D H) : Prop where
  same : SameButTraffic s.e u.e
  placed : s.e.core.Placed → u.e.core.Placed

theorem Resumes.refl (s : Ctx D H) : Resumes s s := ⟨.refl, id⟩

theorem Resumes.trans (h : Resumes s t) (h' : Resumes t u) : Resumes s u :=
  ⟨h.same.trans h'.same, fun hs => h'.placed (h.placed hs)⟩

theorem Answered.resumes {cb : Option UInt32 → Callback} {reply : Reply H}
    (h : Answered env cb canSend s reply u) : Resumes s u := by
  refine ⟨⟨_, s.e.sdat, _, _, h.conn⟩, fun hs => ?_⟩
  rw [h.conn]
  exact ⟨hs.sdat, hs.dat⟩

theorem Answered.decided {cb : Option UInt32 → Callback} {reply : Reply H}
    (hcb : ∀ alen, (cb alen).isData = true) (h : Answered env cb canSend s reply u) :
    Decided [reply.action] s u := by
  obtain ⟨appended, writes, hlog, hwrites, happended⟩ := h.log
  refine ⟨by rw [h.conn], appended ++ (writes ++
    [.callback s.e.id (cb (env.offer s.e canSend)) reply.action]), by simp [hlog], ?_⟩
  have hnone : decisions writes = [] := by
    apply List.filterMap_eq_nil_iff.mpr
    intro ev hev
    obtain ⟨buf, rfl⟩ := hwrites ev hev
    rfl
  have hnone' : decisions appended = [] := by
    split at happended
    · obtain ⟨bytes, -, rfl⟩ := happended
      rfl
    · rw [happended]
      rfl
  simp only [decisions, List.filterMap_append] at hnone hnone' ⊢
  rw [hnone, hnone']
  simp [Event.decision?, hcb]

theorem Acknowledging.resumes (h : Acknowledging s u) : Resumes s u := by
  obtain ⟨sdat, he⟩ := h.conn
  exact ⟨⟨_, sdat, _, _, he⟩, h.placed⟩

theorem Acknowledging.decided (h : Acknowledging s u) : Decided [] s u := by
  obtain ⟨sdat, he⟩ := h.conn
  obtain ⟨new, hlog, hnew⟩ := h.world.log
  exact .of_none (by rw [he]) hlog fun ev hev => Event.isPlain.decision? (hnew ev hev)

/-- Nothing was asked. -/
theorem Judged.of_none (h : Decided [] s t) : Judged free s t := ⟨[], h, .goes (by simp)⟩

/-- What was asked before has not stopped anything. -/
theorem Judged.after {acts : List Action} (hacts : ∀ a ∈ acts, a = .continue)
    (h : Decided acts s u) (h' : Judged free u t) : Judged free s t := by
  have hnot : ∀ {a : Action}, a ≠ .continue → a ∉ acts := fun hne hmem => hne (hacts _ hmem)
  obtain ⟨acts', hdecided, hverdict⟩ := h'
  refine ⟨acts' ++ acts, h.trans hdecided, ?_⟩
  cases hverdict with
  | goes hgoes =>
      apply Verdict.goes
      intro a hmem
      rcases List.mem_append.mp hmem with hmem | hmem
      · exact hgoes a hmem
      · exact hacts a hmem
  | aborts hstate hsent hclose =>
      refine .aborts hstate (h.after hsent) fun hmem => ?_
      rcases List.mem_append.mp hmem with hmem | hmem
      · exact hclose hmem
      · exact hnot (by decide) hmem
  | closes hfree hstate hsent habort =>
      refine .closes hfree hstate (h.after hsent) fun hmem => ?_
      rcases List.mem_append.mp hmem with hmem | hmem
      · exact habort hmem
      · exact hnot (by decide) hmem
  | stays hfree hstate hclose => exact .stays hfree hstate (List.mem_append_left _ hclose)

theorem respond_judged {cb : Option UInt32 → Callback} {next : ConnProgram D H Status}
    (hcb : ∀ alen, (cb alen).isData = true) (hplaced : s.e.core.Placed)
    (hstate : s.e.state = .established)
    (hnext : ∀ u, Resumes s u → next u = .ok ret t → Judged s.e.hasAvailableSegments u t)
    (hok : respond env cb canSend next s = .ok ret t) :
    Judged s.e.hasAvailableSegments s t := by
  obtain ⟨reply, u, hanswer, hok⟩ := respond_cases hok
  have hresumes := hanswer.resumes
  have hdecided := hanswer.decided hcb
  have hu := hresumes.placed hplaced
  cases haction : reply.action with
  | abort =>
      rw [haction] at hok hdecided
      obtain ⟨hclosed, hquiet, hsent⟩ := sendAbort_sent hu hok
      exact ⟨[.abort], hdecided.trans hquiet, .aborts hclosed (hdecided.after hsent) (by simp)⟩
  | close =>
      rw [haction] at hok hdecided
      obtain ⟨hquiet, hsent⟩ := sendClose_sent hu hok
      refine ⟨[.close], hdecided.trans hquiet, ?_⟩
      rw [← hresumes.same.available_eq]
      cases hfree : u.e.hasAvailableSegments with
      | true =>
          rw [hfree, if_pos rfl] at hsent
          exact .closes rfl hsent.1 (hdecided.after hsent.2) (by simp)
      | false =>
          rw [hfree, if_neg (by decide)] at hsent
          subst hsent
          exact .stays rfl (hresumes.same.state_eq.trans hstate) (by simp)
  | «continue» =>
      rw [haction] at hok hdecided
      exact (hnext u hresumes hok).after (by simp) hdecided

theorem notifyNewData_judged {next : ConnProgram D H Status} (hplaced : s.e.core.Placed)
    (hstate : s.e.state = .established)
    (hnext : ∀ u, Resumes s u → next u = .ok ret t → Judged s.e.hasAvailableSegments u t)
    (hok : notifyNewData env inc canSend next s = .ok ret t) :
    Judged s.e.hasAvailableSegments s t := by
  rcases notifyNewData_cases hok with ⟨-, hok⟩ | ⟨-, u, hack, ⟨-, rfl⟩ | hok⟩
  · exact hnext s (.refl s) hok
  · exact .of_none hack.decided
  · have hresumes := hack.resumes
    apply Judged.after (by simp) hack.decided
    rw [← hresumes.same.available_eq] at hnext ⊢
    refine respond_judged (fun _ => rfl) (hresumes.placed hplaced)
      (hresumes.same.state_eq.trans hstate) ?_ hok
    intro v hv
    exact hnext v (hresumes.trans hv)

theorem notifyAcked_judged {next : Bool → ConnProgram D H Status} (hplaced : s.e.core.Placed)
    (hstate : s.e.state = .established)
    (hnext : ∀ can u, Resumes s u → next can u = .ok ret t →
      Judged s.e.hasAvailableSegments u t)
    (hok : notifyAcked env canSend next s = .ok ret t) :
    Judged s.e.hasAvailableSegments s t := by
  rcases notifyAcked_cases hok with ⟨-, hok⟩ | ⟨-, hok⟩
  · exact hnext _ s (.refl s) hok
  · refine respond_judged (fun _ => rfl) hplaced hstate ?_ hok
    intro u hu hok
    rw [bind_gets] at hok
    exact hnext _ u hu hok

theorem afterUpdate_judged (hplaced : s.e.core.Placed) (hstate : s.e.state = .established)
    (hok : afterUpdate env inc s = .ok ret t) : Judged s.e.hasAvailableSegments s t := by
  unfold afterUpdate at hok
  rw [bind_gets] at hok
  split at hok
  · refine notifyAcked_judged hplaced hstate ?_ hok
    intro can u hu hok
    rw [← hu.same.available_eq]
    refine notifyNewData_judged (hu.placed hplaced) (hu.same.state_eq.trans hstate) ?_ hok
    intro v hv hok
    exact .of_none (((decided_bears env).flush can).ok hok)
  · cases hok
    exact .of_none (.refl s)

end Verdict

/-! ## The other states -/

section Others

variable {env : Env D H} {inc : Incoming} {s t u : Ctx D H} {ret : Status}

/-- Acts keep the number of the connection and add to the history. -/
theorem adds_of_path {L : List Label} {r v : Slot H}
    (h : Relation.ReflTransGen (Step env.handler L) r v) :
    v.id = r.id ∧ ∃ new, v.log = new ++ r.log ∧ ∀ ev ∈ new, ∃ l ∈ L, ev.From l r.id := by
  induction h with
  | refl => exact ⟨rfl, [], rfl, by simp⟩
  | tail _ hstep ih =>
      obtain ⟨l, hl, hact⟩ := hstep
      obtain ⟨hid, new, hlog, hnew⟩ := ih
      obtain ⟨hid', new', hlog', hnew'⟩ := hact.adds
      refine ⟨hid'.trans hid, new' ++ new, by rw [hlog', hlog, List.append_assoc], ?_⟩
      intro ev hev
      rcases List.mem_append.mp hev with hev | hev
      · exact ⟨l, hl, hid ▸ hnew' ev hev⟩
      · exact hnew ev hev

/-- Acts that are no data callbacks decide nothing. -/
theorem decided_of_path {L : List Label} (hL : .data ∉ L)
    (h : Relation.ReflTransGen (Step env.handler L) s.slot t.slot) : Decided [] s t := by
  obtain ⟨hid, new, hlog, hnew⟩ := adds_of_path h
  apply Decided.of_none hid hlog
  intro ev hev
  obtain ⟨l, hl, -, hfrom⟩ := hnew ev hev
  cases ev with
  | callback id cb action =>
      cases hcb : cb.isData with
      | false => simp [Event.decision?, hcb]
      | true =>
          simp only [Event.labels, hcb, if_true, List.mem_singleton] at hfrom
          exact absurd (hfrom ▸ hl) hL
  | _ => rfl

/-- Whatever is decided while a segment is processed is in the history. -/
theorem processSegment_decided (hopen : s.e.state ≠ .closed)
    (hok : processSegment env inc s = .ok ret t) : ∃ acts, Decided acts s t := by
  have hpath := processSegment_performs env inc (fun _ h => h) hopen
  rw [hok] at hpath
  obtain ⟨hid, new, hlog, -⟩ := adds_of_path hpath
  exact ⟨decisions new, hid, new, hlog, rfl⟩

theorem Performs.decided {x : ConnProgram D H Status} {L : List Label}
    (h : Performs env L s (x s)) (hL : .data ∉ L) (hok : x s = .ok ret t) : Decided [] s t := by
  rw [hok] at h
  exact decided_of_path hL h

theorem processClose_decided : Relates (Decided []) (processClose env inc) := by
  have hR := decided_bears env
  apply Relates.gets_bind
  intro e
  apply Relates.ite (hR.pure _)
  apply hR.bind (decided_setState _)
  intro _
  apply hR.bind (hR.pushSegment 1)
  intro i
  apply hR.bind
  · exact hR.when (decided_modify fun _ => rfl)
  · intro _
    exact hR.sendFinAck i

/-- What the application is told in the states that wait for the end. -/
theorem processState_decided (hstate : s.e.state ≠ .synRcvd) (hsyn : s.e.state ≠ .synSent)
    (hest : s.e.state ≠ .established) (hopen : s.e.state ≠ .closed)
    (hok : processState env inc s = .ok ret t) : Decided [] s t := by
  unfold processState at hok
  rw [bind_gets] at hok
  cases hst : s.e.state with
  | synRcvd => exact absurd hst hstate
  | synSent => exact absurd hst hsyn
  | established => exact absurd hst hest
  | closed => exact absurd hst hopen
  | lastAck =>
      rw [hst] at hok
      exact (processLastAck_performs env (fun _ h => h) hst).decided (by decide) hok
  | finWait1 =>
      rw [hst] at hok
      exact (processFinWait1_performs env inc (fun _ h => h) hst).decided (by decide) hok
  | finWait2 =>
      rw [hst] at hok
      exact (processFinWait2_performs env inc (fun _ h => h) hst).decided (by decide) hok
  | closing =>
      rw [hst] at hok
      have hpath : Performs env Label.closing s (processClosing s) :=
        processClosing_performs (fun _ h => h) hst
      exact hpath.decided (by decide) hok
  | timeWait =>
      rw [hst] at hok
      exact ((decided_bears env).sendAck env).ok hok
  | close =>
      rw [hst] at hok
      exact processClose_decided.ok hok
  | stopped =>
      rw [hst] at hok
      cases hok
      exact .refl s

theorem Decided.delivered (env : Env D H) (inc : Incoming) (s : Ctx D H) :
    ∃ action, Decided [action] s (s.called env (.onNewData inc.payload none)) :=
  ⟨_, rfl, [_], rfl, rfl⟩

/-- Data that comes with the handshake is handed over, whatever the answer is. -/
theorem processSynRcvd_decided (hok : processSynRcvd env inc s = .ok ret t) :
    ∃ acts, Decided acts s t ∧ (acts = [] ∨ t.e.state = .established) := by
  unfold processSynRcvd at hok
  rw [bind_gets] at hok
  split at hok
  · let u : Ctx D H := { s with e := { s.e with state := .established } }
    have hok : (callback env .onConnected >>= fun _ =>
        if 0 < inc.plen then do
          modifyConn fun e => e.receive inc inc.plen
          deliver env inc
          sendAck env
        else pure .ok) u = .ok ret t := hok
    rw [bind_of_ok (callback_eq env .onConnected u)] at hok
    have hu : Decided [] s (u.called env .onConnected) :=
      (Decided.conn rfl : Decided [] s u).trans (Decided.called env rfl u)
    split at hok
    · let v : Ctx D H := { u.called env .onConnected with
        e := (u.called env .onConnected).e.receive inc inc.plen }
      have hv : Decided [] s v := hu.conn_after rfl
      have hok : sendAck env (v.called env (.onNewData inc.payload none)) = .ok ret t := hok
      obtain ⟨action, hdelivered⟩ := Decided.delivered env inc v
      have hack := ((decided_bears env).sendAck env).ok hok
      refine ⟨_, (hv.trans hdelivered).trans hack, .inr ?_⟩
      exact (((sends_bears env).sendAck env).ok hok).state_eq
    · cases hok
      exact ⟨[], hu, .inl rfl⟩
  · cases hok
    exact ⟨[], .refl s, .inl rfl⟩

theorem processSynSent_decided (hplaced : s.e.core.Placed)
    (hok : processSynSent env inc s = .ok ret t) :
    ∃ acts, Decided acts s t ∧ (acts = [] ∨ t.e.state = .established) := by
  unfold processSynSent at hok
  rw [bind_gets] at hok
  split at hok
  · let e : Connection := { s.e with
      state := .established, rcvNxt := inc.seqno + 1, wnd := inc.window }
    let u : Ctx D H := ⟨e.parseOptions inc,
      { s.w with log := .synced s.e.id inc.seqno :: s.w.log }⟩
    have hid : u.e.id = s.e.id := congrArg Core.id (e.core_parseOptions inc)
    have hestablished : u.e.state = .established := congrArg Core.state (e.core_parseOptions inc)
    have hok : (callback env .onConnected >>= fun _ => do
        Program.when (0 < inc.plen) do
          modifyConn fun e => { e with newdata := true, pshdata := inc.has tcpPsh }
          deliver env inc
        sendAck env) u = .ok ret t := hok
    rw [bind_of_ok (callback_eq env .onConnected u)] at hok
    have hu : Decided [] s (u.called env .onConnected) := by
      have hsynced : Decided [] s u := ⟨hid, [.synced s.e.id inc.seqno], rfl, rfl⟩
      exact hsynced.trans (Decided.called env rfl u)
    obtain ⟨_, x, hdeliver, hok⟩ := bind_eq_ok.mp hok
    have hack := ((decided_bears env).sendAck env).ok hok
    have hstate := (((sends_bears env).sendAck env).ok hok).state_eq
    rcases when_eq_ok.mp hdeliver with ⟨-, hdeliver⟩ | ⟨-, rfl⟩
    · cases hdeliver
      let v : Ctx D H := { u.called env .onConnected with e :=
        { (u.called env .onConnected).e with newdata := true, pshdata := inc.has tcpPsh } }
      have hv : Decided [] s v := hu.conn_after rfl
      obtain ⟨action, hdelivered⟩ := Decided.delivered env inc v
      exact ⟨_, (hv.trans hdelivered).trans hack, .inr (hstate.trans hestablished)⟩
    · exact ⟨[], hu.trans hack, .inl rfl⟩
  · rw [bind_of_ok (callback_eq env .onAborted s)] at hok
    have hcalled : Decided [] s (s.called env .onAborted) := Decided.called env rfl s
    have hplaced' : (s.called env .onAborted).e.core.Placed := ⟨hplaced.sdat, hplaced.dat⟩
    exact ⟨[], hcalled.trans (sendAbort_sent hplaced' hok).2.1, .inl rfl⟩

/-- Data that comes with a FIN is handed over, and the connection closes in any case. -/
theorem processFin_decided (hplaced : s.e.core.Placed) (hok : processFin env inc s = .ok ret t) :
    ∃ acts, Decided acts s t ∧
      (acts = [] ∨ t.e.state = .lastAck ∧ SentWith tcpFin s t) := by
  unfold processFin at hok
  rw [bind_gets] at hok
  split at hok
  · cases hok
    exact ⟨[], .refl s, .inl rfl⟩
  · let u : Ctx D H := { s with
      e := { s.e with rcvNxt := s.e.rcvNxt + inc.plen.toUInt32 + 1 } }
    have hu : Decided [] s u := .conn rfl
    obtain ⟨_, v, hdeliver, hok⟩ := bind_eq_ok.mp
      (show (Program.when (0 < inc.plen) (deliver env inc) >>= fun _ =>
        setState .lastAck >>= fun _ => pushFinAck env) u = .ok ret t from hok)
    have hv : ∃ acts, Decided acts s v ∧ v.e.core.Placed := by
      rcases when_eq_ok.mp hdeliver with ⟨-, hdeliver⟩ | ⟨-, rfl⟩
      · cases hdeliver
        obtain ⟨action, hdelivered⟩ := Decided.delivered env inc u
        exact ⟨_, hu.trans hdelivered, ⟨hplaced.sdat, hplaced.dat⟩⟩
      · exact ⟨[], hu, ⟨hplaced.sdat, hplaced.dat⟩⟩
    obtain ⟨acts, hv, hplaced⟩ := hv
    let x : Ctx D H := { v with e := { v.e with state := .lastAck } }
    have hok : pushFinAck env x = .ok ret t := hok
    have hx : Decided acts s x := hv.conn_after rfl
    obtain ⟨hstate, hquiet, hsent⟩ :=
      pushFinAck_sent (s := x) ⟨hplaced.sdat, hplaced.dat⟩ hok
    exact ⟨acts, hx.trans hquiet, .inr ⟨hstate, hx.after hsent⟩⟩

end Others

/-! ## Whole segments -/

section Segments

variable {env : Env D H} {inc : Incoming} {acts : List Action} {s t : Ctx D H} {ret : Status}

theorem Decided.unique {acts' : List Action} (h : Decided acts s t) (h' : Decided acts' s t) :
    acts = acts' := by
  obtain ⟨new, hlog, hacts⟩ := h.log
  obtain ⟨new', hlog', hacts'⟩ := h'.log
  have hnew : new = new' := List.append_cancel_right (hlog.symm.trans hlog')
  rw [← hacts, ← hacts', hnew]

/-- Nothing that was not asked for is missed. -/
theorem honoured_nil : Honoured [] s t where
  abort := fun h => absurd h (List.not_mem_nil)
  close := fun h => absurd h (List.not_mem_nil)

theorem Connection.heeds_nil (e : Connection) (inc : Incoming) : e.Heeds inc [] := by
  unfold Heeds
  split <;> simp

/-- In ESTABLISHED, without a FIN, only a close that finds no free slot is dropped. -/
theorem Verdict.honoured_iff {free : Bool} (h : Verdict free acts s t) :
    Honoured acts s t ↔ (.close ∈ acts → free = true) := by
  cases h with
  | goes hacts =>
      have hnot : ∀ {a : Action}, a ≠ .continue → a ∉ acts := fun hne hmem => hne (hacts _ hmem)
      constructor
      · intro _ hmem
        exact absurd hmem (hnot (by decide))
      · intro _
        exact ⟨fun hmem => absurd hmem (hnot (by decide)), fun hmem =>
          absurd hmem (hnot (by decide))⟩
  | aborts hstate hsent hclose =>
      constructor
      · intro _ hmem
        exact absurd hmem hclose
      · intro _
        exact ⟨fun _ => ⟨hstate, hsent⟩, fun hmem => absurd hmem hclose⟩
  | closes hfree hstate hsent habort =>
      constructor
      · intro _ _
        exact hfree
      · intro _
        exact ⟨fun hmem => absurd hmem habort, fun _ => .inr ⟨.inl hstate, hsent⟩⟩
  | stays hfree hstate hclose =>
      constructor
      · intro h
        have := h.close hclose
        simp [hstate] at this
      · intro h
        rw [h hclose] at hfree
        cases hfree

/-- During the handshake nothing but to go on is honoured. -/
theorem honoured_iff_of_established (hstate : acts = [] ∨ t.e.state = .established) :
    Honoured acts s t ↔ ∀ a ∈ acts, a = .continue := by
  rcases hstate with rfl | hstate
  · simp [honoured_nil]
  constructor
  · intro h a hmem
    cases a with
    | abort =>
        have := (h.abort hmem).1
        simp [hstate] at this
    | close =>
        have := h.close hmem
        simp [hstate] at this
    | «continue» => rfl
  · intro h
    refine ⟨fun hmem => ?_, fun hmem => ?_⟩
    · exact absurd (h _ hmem) (by decide)
    · exact absurd (h _ hmem) (by decide)

/-- With a FIN the connection closes, whether it is asked to or not. -/
theorem honoured_iff_of_lastAck
    (hstate : acts = [] ∨ t.e.state = .lastAck ∧ SentWith tcpFin s t) :
    Honoured acts s t ↔ .abort ∉ acts := by
  rcases hstate with rfl | ⟨hstate, hsent⟩
  · simp [honoured_nil]
  constructor
  · intro h hmem
    have := (h.abort hmem).1
    simp [hstate] at this
  · intro h
    exact ⟨fun hmem => absurd hmem h, fun _ => .inr ⟨.inr hstate, hsent⟩⟩

theorem Connection.updated_eq (e : Connection) (inc : Incoming) :
    (e.updated inc).id = e.id ∧ (e.updated inc).state = e.state ∧
      (e.updated inc).segments = e.segments ∧ (e.updated inc).sdat = e.sdat := by
  unfold updated
  split <;> exact ⟨rfl, rfl, rfl, rfl⟩

/-- What the application asks for while a segment is processed is done exactly if it
is something the processor looks at. -/
theorem processSegment_honoured_iff (hplaced : s.e.core.Placed) (hopen : s.e.state ≠ .closed)
    (hacts : Decided acts s t) (hok : processSegment env inc s = .ok ret t) :
    Honoured acts s t ↔ s.e.Heeds inc acts := by
  have hnone : Decided [] s t → (Honoured acts s t ↔ s.e.Heeds inc acts) := by
    intro h
    rw [hacts.unique h]
    exact iff_of_true honoured_nil (s.e.heeds_nil inc)
  let u : Ctx D H := { s with e := s.e.clearNews }
  let v : Ctx D H := { s with e := (s.e.clearNews.scanned inc).1 }
  have hu : Decided [] s u := .conn rfl
  have hscan := processSegment_scans (L := [.news, .clear]) (s := s) env inc (by decide) (by decide)
  have hv : Decided [] s v := decided_of_path (by decide) hscan
  have hv' : v.e.core.Placed := path_invariant (I := fun c : Slot H => c.toCore.Placed)
    (fun _ _ ⟨_, _, hact⟩ hc => hact.placed hc) hscan hplaced
  have hstate : v.e.state = s.e.state := scanned_state _ inc
  -- A reset, a segment out of sequence and one that asks for a repetition call nothing.
  rcases processSegment_cases hok with ⟨-, hok⟩ | ⟨hok, -⟩ | ⟨-, hok⟩ | hok
  · apply hnone
    apply hu.after_none
    exact (processRst_performs (L := [.note, .move, .life]) (s := u) env (by decide) (by decide)
      (by decide) hopen).decided (by decide) hok
  · exact hnone (hu.after_none (((decided_bears env).sendAck env).ok hok))
  · exact hnone (hv.after_none ((decided_bears env).rexmit.ok hok))
  by_cases hrcvd : v.e.state = .synRcvd
  · unfold processState at hok
    rw [bind_gets, hrcvd] at hok
    obtain ⟨acts', hdecided, hend⟩ := processSynRcvd_decided hok
    rw [Connection.Heeds, ← hstate, hrcvd, hacts.unique (hv.after_none hdecided)]
    exact honoured_iff_of_established hend
  by_cases hsent : v.e.state = .synSent
  · unfold processState at hok
    rw [bind_gets, hsent] at hok
    obtain ⟨acts', hdecided, hend⟩ := processSynSent_decided hv' hok
    rw [Connection.Heeds, ← hstate, hsent, hacts.unique (hv.after_none hdecided)]
    exact honoured_iff_of_established hend
  by_cases hest : v.e.state = .established
  · unfold processState at hok
    rw [bind_gets, hest] at hok
    rw [Connection.Heeds, ← hstate, hest]
    rcases processEstablished_cases hok with ⟨hfin, hok⟩ | ⟨hfin, hok⟩
    · obtain ⟨acts', hdecided, hend⟩ := processFin_decided hv' hok
      rw [hacts.unique (hv.after_none hdecided)]
      dsimp only
      rw [if_pos hfin]
      exact honoured_iff_of_lastAck (hend.imp_right fun ⟨hlast, hsent⟩ => ⟨hlast, hv.after hsent⟩)
    -- The window is taken over before the application is told of data.
    · obtain ⟨hid, hkeeps, hsegments, hsdat⟩ := v.e.updated_eq inc
      let x : Ctx D H := { v with e := v.e.updated inc }
      have hx : Decided [] s x := hv.conn_after hid
      have hx' : x.e.core.Placed :=
        ⟨fun p hp => hv'.sdat p (hsdat.symm.trans hp), fun i p hp => hv'.dat i p (by
          rw [← hp]
          exact congrArg (fun segs => (segs i).dat) hsegments.symm)⟩
      obtain ⟨acts', hdecided, hverdict⟩ :=
        (afterUpdate_judged hx' (hkeeps.trans hest) hok).after (by simp) hx
      have hfree : x.e.hasAvailableSegments = v.e.hasAvailableSegments := by
        rw [Connection.hasAvailableSegments, hsegments]
        rfl
      have hnot : ¬inc.has tcpFin = true := by simp [hfin]
      rw [hacts.unique hdecided, hverdict.honoured_iff, hfree]
      dsimp only
      rw [if_neg hnot]
  · exact hnone (hv.after_none (processState_decided hrcvd hsent hest (hstate ▸ hopen) hok))

/-- Answering a SYN asks for nothing. -/
theorem openSynRcvd_decided (iss : UInt32) (outdata : Ptr) :
    Relates (Decided []) (openSynRcvd env inc iss outdata) := by
  have hnote : ∀ ev : Event, ev.decision? = none →
      Relates (Decided []) (onWorld (record ev) : ConnProgram D H Unit) := fun _ hev _ => .noted hev
  apply Relates.gets_bind
  intro e
  apply decided_walk.bind (hnote _ rfl)
  intro _
  apply decided_walk.bind (hnote _ rfl)
  intro _
  apply decided_walk.bind
  · exact decided_modify fun _ => rfl
  intro _
  apply decided_walk.bind ((decided_bears env).pushSyn outdata)
  intro i
  apply decided_walk.bind (decided_modify fun e => congrArg Terms.id (e.terms_parseOptions inc))
  intro _
  exact (decided_bears env).sendSynAck i

end Segments

namespace Processor

variable {n : Nat} {env : Env D H} {inc : Incoming} {p q : Processor D H n} {ret : Status}

/-- What the application asks for while a segment is processed is done, and it is
asked only about the connection the segment is for. -/
def Honours (inc : Incoming) (p q : Processor D H n) : Prop :=
  match p.demux inc with
  | some i => Honoured (decisions (since p q)) (p.ctx i) (q.ctx i)
  | none => decisions (since p q) = []

/-- The application has not been asked. -/
def Unasked (p q : Processor D H n) : Prop :=
  ∃ new, q.w.log = new ++ p.w.log ∧ decisions new = []

theorem unasked_walk : Walk (Unasked (D := D) (H := H) (n := n)) where
  refl := fun _ => ⟨[], rfl, rfl⟩
  trans := by
    rintro p q r ⟨new, hlog, hnone⟩ ⟨new', hlog', hnone'⟩
    refine ⟨new' ++ new, by rw [hlog', hlog, List.append_assoc], ?_⟩
    rw [decisions, List.filterMap_append]
    exact congrArg₂ _ hnone' hnone

theorem world_unasked {α : Type} {m : WorldProgram D H α} (hm : Mute m) :
    Relates Unasked (world m : ProcProgram D H n α) := by
  intro p
  obtain ⟨new, hlog, hnew⟩ := (hm p.w).log
  refine ⟨new, ?_, List.filterMap_eq_nil_iff.mpr fun ev hev =>
    Event.isPlain.decision? (hnew ev hev)⟩
  rw [← hlog]
  unfold world zoom
  cases m p.w <;> rfl

theorem onConn_unasked {α : Type} {i : Fin n} {m : ConnProgram D H α}
    (hm : Relates (Decided []) m) : Relates Unasked (onConn i m) := by
  intro p
  obtain ⟨new, hlog, hnone⟩ := (hm (p.ctx i)).log
  refine ⟨new, ?_, hnone⟩
  refine Eq.trans ?_ hlog
  unfold onConn zoom
  cases m (p.ctx i) <;> rfl

/-- A segment for no connection raises no data callback. -/
theorem process_unasked (hdemux : p.demux inc = none) (hok : process env inc p = .ok ret q) :
    Unasked p q := by
  unfold process at hok
  rw [bind_gets_id] at hok
  split at hok
  · cases hok
    exact unasked_walk.refl p
  rw [hdemux] at hok
  dsimp only at hok
  split at hok
  · exact (world_unasked (reset_mute inc)).ok hok
  split at hok
  · refine Relates.ok (m := acceptSyn env inc) (Relates.gets_bind fun r => ?_) hok
    cases r.vacant with
    | none => exact unasked_walk.pure _
    | some i =>
        apply unasked_walk.bind (world_unasked (prepareTo_mute env _ _))
        intro answer
        cases answer with
        | error ret => exact unasked_walk.pure _
        | ok outdata => exact onConn_unasked (openSynRcvd_decided _ _)
  · exact (world_unasked (reset_mute inc)).ok hok

/-- While a received segment is processed, what the application asks for is done
exactly if it is something the processor looks at. -/
theorem honours_iff (hp : Reachable env p) (hok : process env inc p = .ok ret q) :
    p.Honours inc q ↔
      ∀ i, p.demux inc = some i → (p.conns i).Heeds inc (decisions (since p q)) := by
  unfold Honours
  cases hdemux : p.demux inc with
  | none =>
      obtain ⟨new, hlog, hnone⟩ := process_unasked hdemux hok
      simp [since_eq hlog, hnone]
  | some i =>
      dsimp only
      simp only [Option.some_inj, forall_eq']
      unfold process at hok
      rw [bind_gets_id] at hok
      split at hok
      · -- A segment that fails the check changes nothing.
        cases hok
        have hnone : decisions (since p p) = [] := by simp [since, decisions]
        rw [hnone]
        exact iff_of_true honoured_nil ((p.conns i).heeds_nil inc)
      · rw [hdemux] at hok
        obtain ⟨t, hrun, rfl⟩ := zoom_eq_ok.mp hok
        have hopen : (p.ctx i).e.state ≠ .closed := demux_spec hdemux
        obtain ⟨acts, hacts⟩ := processSegment_decided hopen hrun
        obtain ⟨new, hlog, hnew⟩ := hacts.log
        have hsince : decisions (since p (setCtx i p t)) = acts := by
          rw [since_eq hlog]
          exact hnew
        rw [hsince, ctx_setCtx]
        exact processSegment_honoured_iff (hp.placed i) hopen hacts hrun

section Runs

open Testbed

/-- The second answer of the application, the one to the first data. -/
def asking (action : Action) : Answers := [(.continue, []), (action, [])]

theorem honours_iff_close :
    ∃ (p q : Processor Script Answers 1) (inc : Incoming), Reachable Testbed.env p ∧
      process Testbed.env inc p = .ok .ok q ∧ decisions (since p q) = [.close] ∧
      p.Honours inc q := by
  let inc := incoming (header 5000 tcpAck 101 1) [7]
  obtain ⟨p, -, hp, hstate, hfree, hrun⟩ := reaches 1 .empty (asking .close)
    [connectFrom 5000, segment 5000 (tcpSyn ||| tcpAck) 100 1 []]
    (fun p => (p.conns 0).state = .established ∧
      ((p.conns 0).clearNews.scanned inc).1.hasAvailableSegments = true ∧
      Program.Passes (process Testbed.env inc) p fun ret q =>
        ret = .ok ∧ decisions (since p q) = [.close])
    (by decide) (by decide +kernel)
  obtain ⟨ret, q, hok, rfl, hacts⟩ := hrun.exists
  refine ⟨p, q, inc, hp, hok, hacts, (honours_iff hp hok).mpr fun i _ => ?_⟩
  rw [Subsingleton.elim i 0, Connection.Heeds, hstate]
  dsimp only
  rw [if_neg (by decide)]
  exact fun _ => hfree

/-- The answer to the data that comes with the peer's SYN is dropped: the
connection goes on although the application wants it aborted. -/
theorem not_honours : ¬ ∀ (D H : Type) (n : Nat) (env : Env D H) (inc : Incoming)
    (p q : Processor D H n) (ret : Status), Reachable env p → process env inc p = .ok ret q →
    p.Honours inc q := by
  intro hall
  let inc := incoming (header 5000 (tcpSyn ||| tcpAck) 100 1) [7]
  obtain ⟨p, -, hp, hdemux, hrun⟩ := reaches 1 .empty (asking .abort) [connectFrom 5000]
    (fun p => p.demux inc = some 0 ∧ Program.Passes (process Testbed.env inc) p fun _ q =>
      decisions (since p q) = [.abort] ∧ (q.conns 0).state = .established)
    (by decide) (by decide +kernel)
  obtain ⟨ret, q, hok, hacts, hstate⟩ := hrun.exists
  have hhonours := hall _ _ _ _ inc p q ret hp hok
  unfold Honours at hhonours
  rw [hdemux] at hhonours
  have hclosed := (hhonours.abort (by simp [hacts])).1
  have hopen : (q.ctx 0).e.state = .established := hstate
  rw [hopen] at hclosed
  cases hclosed

end Runs

end Processor

end Tulips.Tcpv4
