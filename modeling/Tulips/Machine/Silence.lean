import Tulips.Machine.Reception

/-!
# What takes nothing in

Most of what a connection does tells it nothing of its peer: no data is handed over, and
the next number to receive stays. A connection that has left ESTABLISHED hands nothing to
its application any more.
-/

namespace Tulips.Tcpv4

open Program

variable {D H : Type}

/-- How many connections a slot has started. -/
def incarnation (id : UInt16) (log : List Event) : Nat := log.countP (Event.creates id)

theorem incarnation_append {id : UInt16} {new log : List Event}
    (h : ∀ ev ∈ new, ev.creates id = false) :
    incarnation id (new ++ log) = incarnation id log := by
  rw [incarnation, List.countP_append, List.countP_eq_zero.mpr, Nat.zero_add]
  · rfl
  · intro ev hev
    rw [h ev hev]
    decide

theorem incarnation_beside {id : UInt16} {w w' : World D H} (h : Beside id w w') :
    incarnation id w'.log = incarnation id w.log := by
  obtain ⟨new, hlog, hnew⟩ := h
  rw [hlog, incarnation_append fun ev hev => Event.creates_of_owner (hnew ev hev)]

/-- Only an opening starts a new incarnation. -/
theorem incarnation_of_path {handler : EventHandler H} {L : List Label} {u v : Slot H}
    (hL : ∀ k ∈ L, k ∉ Label.opening) (h : Relation.ReflTransGen (Step handler L) u v) :
    v.id = u.id ∧ ∃ new, v.log = new ++ u.log ∧ ∀ ev ∈ new, ∀ id, ev.creates id = false := by
  induction h with
  | refl => exact ⟨rfl, [], rfl, by simp⟩
  | tail _ hstep ih =>
      obtain ⟨l, hl, hact⟩ := hstep
      obtain ⟨hid, new, hlog, hnew⟩ := ih
      obtain ⟨hid', new', hlog', hnew'⟩ := hact.adds
      refine ⟨hid'.trans hid, new' ++ new, by rw [hlog', hlog, List.append_assoc], ?_⟩
      intro ev hev id
      rcases List.mem_append.mp hev with hev | hev
      · exact (hnew' ev hev).not_creates (hL l hl) id
      · exact hnew ev hev id

/-! ## Steps that take nothing in -/

/-- Nothing has been handed to the application of the connection, and it is the one it was. -/
def Unserved (s t : Ctx D H) : Prop :=
  t.e.id = s.e.id ∧ ∃ new, t.w.log = new ++ s.w.log ∧
    ∀ ev ∈ new, ev.handed? s.e.id = none ∧ ev.creates s.e.id = false

/-- Nothing has been taken in: neither data nor the number of the peer. -/
structure Unfed (s t : Ctx D H) : Prop where
  id : t.e.id = s.e.id
  rcvNxt : t.e.rcvNxt = s.e.rcvNxt
  log : ∃ new, t.w.log = new ++ s.w.log ∧
    ∀ ev ∈ new, ev.handed? s.e.id = none ∧ ev.creates s.e.id = false ∧ ev.syncs s.e.id = none

section Unfed

variable {env : Env D H} {s t : Ctx D H}

theorem Unserved.received (h : Unserved s t) :
    received t.e.id t.w.log = received s.e.id s.w.log := by
  obtain ⟨hid, new, hlog, hnew⟩ := h
  rw [hid, hlog, received_append fun ev hev => (hnew ev hev).2,
    handed_eq_nil fun ev hev => (hnew ev hev).1]
  exact List.append_nil _

theorem Unserved.incarnation (h : Unserved s t) :
    incarnation t.e.id t.w.log = incarnation s.e.id s.w.log := by
  obtain ⟨hid, new, hlog, hnew⟩ := h
  rw [hid, hlog, incarnation_append fun ev hev => (hnew ev hev).2]

theorem Unfed.unserved (h : Unfed s t) : Unserved s t := by
  obtain ⟨new, hlog, hnew⟩ := h.log
  exact ⟨h.id, new, hlog, fun ev hev => ⟨(hnew ev hev).1, (hnew ev hev).2.1⟩⟩

theorem Unfed.syncedWith (h : Unfed s t) :
    syncedWith t.e.id t.w.log = syncedWith s.e.id s.w.log := by
  obtain ⟨new, hlog, hnew⟩ := h.log
  rw [h.id, hlog]
  exact syncedWith_append_none (fun ev hev => (hnew ev hev).2.1) fun ev hev => (hnew ev hev).2.2

theorem Event.From.handed? {l : Label} {id id' : UInt16} {ev : Event} (h : ev.From l id)
    (hl : l ≠ .data) : ev.handed? id' = none := by
  cases ev with
  | callback id'' cb action =>
      cases cb with
      | onNewData data alen => exact absurd (List.mem_singleton.mp h.2) hl
      | _ => rfl
  | _ => rfl

theorem Event.From.syncs {l : Label} {id id' : UInt16} {ev : Event} (h : ev.From l id)
    (hl : l ∉ Label.rcv :: Label.opening) : ev.syncs id' = none := by
  cases ev with
  | synced id'' irs => exact absurd h.2 hl
  | _ => rfl

/-- The kinds of acts that tell a connection nothing of its peer. -/
def Label.deaf : List Label :=
  [.note, .life, .move, .settle, .news, .clear, .store, .append, .emit, .fin, .resend, .control,
    .spare, .kill, .abort]

theorem Core.Change.rcvNxt_eq {l : Label} {c c' : Core} (h : Change l c c') (hl : l ≠ .rcv) :
    c'.rcvNxt = c.rcvNxt := by
  cases h with
  | rcv => exact absurd rfl hl
  | _ => rfl

/-- A path of deaf acts adds nothing that concerns the receive stream. -/
theorem deaf_of_path {u v : Slot H}
    (h : Relation.ReflTransGen (Step env.handler Label.deaf) u v) :
    v.id = u.id ∧ v.rcvNxt = u.rcvNxt ∧ ∃ new, v.log = new ++ u.log ∧ ∀ ev ∈ new, ∀ id,
      ev.handed? id = none ∧ ev.creates id = false ∧ ev.syncs id = none := by
  induction h with
  | refl => exact ⟨rfl, rfl, [], rfl, by simp⟩
  | tail _ hstep ih =>
      obtain ⟨l, hl, hact⟩ := hstep
      have hopening : l ∉ Label.opening := by
        revert hl
        cases l <;> decide
      obtain ⟨hid, hrcv, new, hlog, hnew⟩ := ih
      obtain ⟨hid', new', hlog', hnew'⟩ := hact.adds
      refine ⟨hid'.trans hid, ?_, new' ++ new, by rw [hlog', hlog, List.append_assoc], ?_⟩
      · refine ((hact.change hopening).rcvNxt_eq ?_).trans hrcv
        rintro rfl
        exact absurd hl (by decide)
      · intro ev hev id
        rcases List.mem_append.mp hev with hev | hev
        · refine ⟨(hnew' ev hev).handed? ?_, (hnew' ev hev).not_creates hopening id,
            (hnew' ev hev).syncs ?_⟩
          · rintro rfl
            exact absurd hl (by decide)
          · revert hl
            cases l <;> decide
        · exact hnew ev hev id

theorem Performs.unfed {L : List Label} {α : Type} {x : ConnProgram D H α} {a : α}
    (h : Performs env L s (x s)) (hL : ∀ l ∈ L, l ∈ Label.deaf) (hok : x s = .ok a t) :
    Unfed s t := by
  have hdeaf := h.mono hL
  rw [hok] at hdeaf
  obtain ⟨hid, hrcv, new, hlog, hnew⟩ := deaf_of_path hdeaf
  exact ⟨hid, hrcv, new, hlog, fun ev hev => hnew ev hev _⟩

/-- Past the handshake a connection stays in its state or stops receiving. -/
theorem Core.Change.receives {l : Label} {c c' : Core} (h : Change l c c')
    (hst : c.state = .established ∨ c.state.receives = false) :
    c'.state = c.state ∨ c'.state.receives = false := by
  cases h with
  | @move c st hmove =>
      right
      revert hst hmove
      show _ → c.state.leadsTo st = true → st.receives = false
      cases c.state <;> cases st <;> simp [State.receives, State.leadsTo]
  | @settle c st hsettle =>
      right
      revert hsettle
      show c.state.settlesTo st = true → st.receives = false
      cases c.state <;> cases st <;> simp [State.receives, State.settlesTo]
  | fin _ _ _ hfin =>
      right
      rcases hfin with rfl | rfl <;> rfl
  | kill => exact .inr rfl
  | _ => exact .inl rfl

theorem receives_of_path {L : List Label} {u v : Slot H} (hL : ∀ k ∈ L, k ∉ Label.opening)
    (h : Relation.ReflTransGen (Step env.handler L) u v)
    (hst : u.state = .established ∨ u.state.receives = false) :
    v.state = u.state ∨ v.state.receives = false := by
  induction h with
  | refl => exact .inl rfl
  | tail _ hstep ih =>
      obtain ⟨k, hk, hact⟩ := hstep
      have hchange := hact.change (hL k hk)
      rcases ih with hsame | hclosing
      · rw [← hsame] at hst ⊢
        exact hchange.receives hst
      · rcases hchange.receives (.inr hclosing) with h | h
        · exact .inr (h ▸ hclosing)
        · exact .inr h

/-! ## Segments past ESTABLISHED -/

theorem unserved_walk : Walk (Unserved (D := D) (H := H)) where
  refl := fun s => ⟨rfl, [], rfl, by simp⟩
  trans := by
    rintro s t u ⟨hid, new, hlog, hnew⟩ ⟨hid', new', hlog', hnew'⟩
    refine ⟨hid'.trans hid, new' ++ new, by rw [hlog', hlog, List.append_assoc], ?_⟩
    intro ev hev
    rcases List.mem_append.mp hev with hev | hev
    · rw [← hid]
      exact hnew' ev hev
    · exact hnew ev hev

theorem Unserved.conn {e : Connection} (hid : e.id = s.e.id) : Unserved s ⟨e, s.w⟩ :=
  ⟨hid, [], rfl, by simp⟩

theorem Hands.unserved (h : Hands [] s t) : Unserved s t := by
  obtain ⟨new, hlog, hhanded, hnew⟩ := h.log
  refine ⟨h.id, new, hlog, fun ev hev => ⟨?_, hnew ev hev _⟩⟩
  exact List.filterMap_eq_nil_iff.mp hhanded ev hev

theorem Relates.unserved {α : Type} {x : ConnProgram D H α} (h : Relates (Hands []) x) :
    Relates Unserved x := fun s => (h s).unserved

theorem unserved_modify {f : Connection → Connection} (hid : ∀ e, (f e).id = e.id) :
    Relates Unserved (modifyConn f : ConnProgram D H Unit) := fun s => .conn (hid s.e)

theorem unserved_callback {cb : Callback} (hcb : ∀ data alen, cb ≠ .onNewData data alen) :
    Relates Unserved (callback env cb) := Relates.unserved (hands_callback hcb)

theorem unserved_sendAck (env : Env D H) : Relates Unserved (sendAck env) :=
  Relates.unserved ((hands_bears env).sendAck env)

theorem unserved_setState (st : State) :
    Relates Unserved (setState st : ConnProgram D H Unit) := unserved_modify fun _ => rfl

theorem unserved_skipPayload (inc : Incoming) :
    Relates Unserved (skipPayload inc : ConnProgram D H Unit) :=
  unserved_walk.when (unserved_modify fun _ => rfl)

theorem unserved_enterTimeWait : Relates Unserved (enterTimeWait : ConnProgram D H Unit) :=
  unserved_walk.bind (unserved_setState _) fun _ => unserved_modify fun _ => rfl

theorem unserved_acknowledgeFin (env : Env D H) : Relates Unserved (acknowledgeFin env) := by
  refine unserved_walk.bind (unserved_modify fun _ => rfl) fun _ => ?_
  apply unserved_walk.bind (unserved_callback (by simp))
  intro _
  exact unserved_sendAck env

/-- A connection that has stopped receiving hands nothing to its application. -/
theorem processState_unserved {inc : Incoming} {ret : Status}
    (hclosing : s.e.state.receives = false) (hok : processState env inc s = .ok ret t) :
    Unserved s t := by
  unfold processState at hok
  rw [bind_gets] at hok
  revert hclosing hok
  -- Only three states hand data over; in the others every branch is followed.
  cases s.e.state with
  | synSent | synRcvd | established =>
      intro hclosing
      cases hclosing
  | lastAck =>
      intro _ hok
      refine (?_ : Relates Unserved (processLastAck env)).ok hok
      apply Relates.gets_bind
      intro e
      apply unserved_walk.bind _ fun _ => unserved_walk.pure _
      apply unserved_walk.when
      apply unserved_walk.bind (Relates.unserved (hands_unlisten _))
      intro _
      apply unserved_walk.bind (unserved_setState _)
      intro _
      exact unserved_walk.bind (unserved_callback (by simp)) fun _ => unserved_walk.pure _
  | finWait1 =>
      intro _ hok
      refine (?_ : Relates Unserved (processFinWait1 env inc)).ok hok
      apply unserved_walk.bind (unserved_skipPayload inc)
      intro _
      apply Relates.gets_bind
      intro e
      apply Relates.ite
      · apply Relates.ite
        · exact unserved_walk.bind unserved_enterTimeWait fun _ => unserved_acknowledgeFin env
        · exact unserved_walk.bind (unserved_setState _) fun _ => unserved_acknowledgeFin env
      · apply Relates.ite
        · exact unserved_walk.bind (unserved_setState _) fun _ => unserved_walk.pure _
        · exact Relates.ite (unserved_sendAck env) (unserved_walk.pure _)
  | finWait2 =>
      intro _ hok
      refine (?_ : Relates Unserved (processFinWait2 env inc)).ok hok
      apply unserved_walk.bind (unserved_skipPayload inc)
      intro _
      apply Relates.ite
      · exact unserved_walk.bind unserved_enterTimeWait fun _ => unserved_acknowledgeFin env
      · exact Relates.ite (unserved_sendAck env) (unserved_walk.pure _)
  | timeWait =>
      intro _ hok
      exact (unserved_sendAck env).ok hok
  | close =>
      intro _ hok
      refine (?_ : Relates Unserved (processClose env inc)).ok hok
      apply Relates.gets_bind
      intro e
      apply Relates.ite (unserved_walk.pure _)
      apply unserved_walk.bind (unserved_setState _)
      intro _
      apply unserved_walk.bind (Relates.unserved ((hands_bears env).pushSegment 1))
      intro i
      refine unserved_walk.bind (unserved_walk.when (unserved_modify fun _ => rfl)) fun _ => ?_
      exact Relates.unserved ((hands_bears env).sendFinAck i)
  | closing =>
      intro _ hok
      refine (?_ : Relates Unserved processClosing).ok hok
      apply Relates.gets_bind
      intro e
      exact unserved_walk.bind (unserved_walk.when unserved_enterTimeWait) fun _ =>
        unserved_walk.pure _
  | stopped | closed =>
      intro _ hok
      cases hok
      exact unserved_walk.refl s

end Unfed

/-! ## Operations of the application and the timer -/

section Operations

variable {env : Env D H} {s t : Ctx D H} {ret : Status}

theorem close_unfed (hok : close env s = .ok ret t) :
    Unfed s t ∧ (t.e.state = s.e.state ∨ t.e.state.receives = false) := by
  refine ⟨(close_performs env (L := Label.own) fun _ h => h).unfed (by decide) hok, ?_⟩
  unfold close at hok
  rw [bind_gets] at hok
  split_ifs at hok
  · cases hok
    exact .inl rfl
  · cases hok
    exact .inr rfl
  · next hout =>
      obtain ⟨_, u, hflags, hok⟩ := bind_eq_ok.mp hok
      have hu := onWorld_conn_of_ok (x := modifyHeader (some s.e.id) s.e.sdat _) hflags
      have hfree := Connection.available_of_not_outstanding hout
      rw [← hu] at hfree
      rw [sendClose_state hfree hok]
      exact .inr rfl

theorem send_unfed {len : UInt32} {data : Option Bytes} {off : UInt32} {ret : Status × UInt32}
    (hok : send env len data off s = .ok ret t) : Unfed s t ∧ t.e.state = s.e.state :=
  ⟨(send_performs env (L := Label.own) len data off fun _ h => h).unfed (by decide) hok,
    ((send_sends env len data off).ok hok).state_eq⟩

theorem abort_unfed (hok : abort env s = .ok ret t) : Unfed s t ∧ t.e.state = .closed := by
  constructor
  · refine (abort_performs (L := [.note, .abort]) env (by decide) (by decide) ?_).unfed
      (by decide) hok
    intro hsdat
    obtain ⟨u, hfault⟩ := abort_none env hsdat
    rw [hfault] at hok
    cases hok
  · unfold abort at hok
    rw [bind_gets] at hok
    obtain ⟨_, u, -, hok⟩ := bind_eq_ok.mp hok
    obtain ⟨_, v, -, hok⟩ := bind_eq_ok.mp hok
    obtain ⟨_, x, -, hok⟩ := bind_eq_ok.mp hok
    obtain ⟨_, y, -, hok⟩ := bind_eq_ok.mp hok
    exact sendAbort_closed hok

/-- A retransmission keeps the state, and giving up closes the connection. -/
theorem tickOutstanding_state {ret : Option Status} (hopen : s.e.state ≠ .closed)
    (hok : tickOutstanding env s = .ok ret t) :
    t.e.state = s.e.state ∨ t.e.state = .closed := by
  unfold tickOutstanding at hok
  obtain ⟨_, u, hcount, hok⟩ := bind_eq_ok.mp hok
  cases hcount
  rw [bind_gets] at hok
  split_ifs at hok
  · cases hok
    exact .inl rfl
  · obtain ⟨reply, v, -, hok⟩ := bind_eq_ok.mp hok
    obtain ⟨ret', x, habort, hok⟩ := bind_eq_ok.mp hok
    cases hok
    exact .inr (sendAbort_closed habort)
  · obtain ⟨_, v, hrearm, hok⟩ := bind_eq_ok.mp hok
    cases hrearm
    obtain ⟨ret', x, hrexmit, hok⟩ := bind_eq_ok.mp hok
    cases hok
    refine .inl ((rexmit_state ?_ hrexmit).trans rfl)
    exact hopen

theorem tick_unfed {ret : Option Status} (hok : tick env s = .ok ret t) :
    Unfed s t ∧ (t.e.state = s.e.state ∨ t.e.state.receives = false) := by
  have hpath := tick_performs env (s := s) (L := Label.own) fun _ h => h
  refine ⟨hpath.unfed (by decide) hok, ?_⟩
  rw [hok] at hpath
  by_cases hpast : s.e.state = .established ∨ s.e.state.receives = false
  · exact receives_of_path (by decide) hpath hpast
  have hwaits : ¬(s.e.state = .timeWait ∨ s.e.state = .finWait2) := by
    rintro (h | h) <;> · rw [h] at hpast; exact hpast (.inr rfl)
  have hopen : s.e.state ≠ .closed := by
    intro h
    rw [h] at hpast
    exact hpast (.inr rfl)
  unfold tick at hok
  rw [bind_gets, if_neg hopen] at hok
  obtain ⟨_, u, hwait, hrest⟩ := bind_eq_ok.mp hok
  obtain ⟨-, rfl⟩ := (when_eq_ok.mp hwait).resolve_left fun h => hwaits h.1
  rw [bind_gets, if_neg hopen] at hrest
  split at hrest
  · rcases tickOutstanding_state hopen hrest with h | h
    · exact .inl h
    · rw [h]
      exact .inr rfl
  · cases hrest
    exact .inl rfl

end Operations

/-! ## Opening -/

section Opening

variable {env : Env D H} {s t u : Ctx D H} {ret : Status}

theorem Unfed.trans (h : Unfed s t) (h' : Unfed t u) : Unfed s u := by
  obtain ⟨new, hlog, hnew⟩ := h.log
  obtain ⟨new', hlog', hnew'⟩ := h'.log
  refine ⟨h'.id.trans h.id, h'.rcvNxt.trans h.rcvNxt, new' ++ new,
    by rw [hlog', hlog, List.append_assoc], ?_⟩
  intro ev hev
  rcases List.mem_append.mp hev with hev | hev
  · rw [← h.id]
    exact hnew' ev hev
  · exact hnew ev hev

theorem unfed_of_adds (hid : t.e.id = s.e.id) (hrcv : t.e.rcvNxt = s.e.rcvNxt)
    (hadds : Adds (Event.From .emit s.e.id) s.slot t.slot) : Unfed s t := by
  obtain ⟨new, hlog, hnew⟩ := hadds
  refine ⟨hid, hrcv, new, hlog, fun ev hev => ⟨(hnew ev hev).handed? (by decide), ?_, ?_⟩⟩
  · exact (hnew ev hev).not_creates (by decide) _
  · exact (hnew ev hev).syncs (by decide)

theorem setFlags_unfed {p : Ptr} {flags : UInt8} {offset : Option (Fin 16)}
    (hok : setFlags (some p) flags offset s = .ok () t) : Unfed s t := by
  obtain ⟨w, hrun, -, hwrote⟩ := setFlags_some p flags offset s
  rw [hrun] at hok
  cases hok
  exact unfed_of_adds rfl rfl hwrote.stored.adds

theorem sendSyn_unfed {i : Fin segmentCount} {p : Ptr} (hdat : (s.e.segments i).dat = some p)
    (hok : sendSyn env i s = .ok ret t) : Unfed s t := by
  obtain ⟨u, ret', hrun, -, hsent, -⟩ := sendSyn_spec env hdat True
  rw [hrun] at hok
  cases hok
  obtain ⟨-, ret', -, hadds, hcore⟩ := hsent.summary (l := .emit) (by decide)
  refine unfed_of_adds ?_ ?_ hadds.adds
  · rcases hcore with ⟨-, -, hcore⟩ | ⟨-, sdat, hcore⟩ <;> exact congrArg Core.id hcore
  · rcases hcore with ⟨-, -, hcore⟩ | ⟨-, sdat, hcore⟩ <;> exact congrArg Core.rcvNxt hcore

theorem setFlags_conn {p : Option Ptr} {flags : UInt8} {offset : Option (Fin 16)}
    (hok : setFlags p flags offset s = .ok () t) : t.e = s.e :=
  onWorld_conn_of_ok (x := modifyHeader (some s.e.id) p _) hok

theorem sendSynAck_unfed {i : Fin segmentCount} {p : Ptr}
    (hdat : (s.e.segments i).dat = some p) (hok : sendSynAck env i s = .ok ret t) :
    Unfed s t := by
  unfold sendSynAck at hok
  rw [bind_gets, hdat] at hok
  obtain ⟨_, u, hflags, hok⟩ := bind_eq_ok.mp hok
  have hdat' : (u.e.segments i).dat = some p := by
    rw [setFlags_conn hflags]
    exact hdat
  exact (setFlags_unfed hflags).trans (sendSyn_unfed hdat' hok)

theorem pushSyn_unfed {outdata : Ptr} {i : Fin segmentCount}
    (hok : pushSyn outdata s = .ok i t) :
    Unfed s t ∧ (t.e.segments i).dat = some outdata ∧ t.e.state = s.e.state := by
  rcases pushSyn_spec outdata s with ⟨hrun, -⟩ | ⟨k, u, hrun, -, hu⟩
  · rw [hrun] at hok
    cases hok
  · rw [hrun] at hok
    cases hok
    rw [hu]
    exact ⟨⟨rfl, rfl, [], rfl, by simp⟩, by simp [Connection.setSegment], rfl⟩

end Opening

end Tulips.Tcpv4
