import Tulips.Machine.Encounters
import Tulips.Machine.Lifetime
import Tulips.Machine.Reports

/-!
# What a connection takes in

The payload of a segment is handed to the application, and the next number to receive
is moved past it. The rules below follow both through the processing of a segment: what
sends leaves them alone, and in ESTABLISHED new data is handed over unless something
stops the processor before.
-/

namespace Tulips.Tcpv4

open Program

variable {D H : Type}

/-! ## The history -/

/-- The data an event hands to the application of a connection. -/
def Event.handed? (id : UInt16) : Event → Option (List UInt8)
  | .callback id' (.onNewData data _) _ => if id' = id then some data else none
  | _ => none

/-- The pieces of data handed over, newest first. -/
def handed (id : UInt16) (log : List Event) : List (List UInt8) :=
  log.filterMap (Event.handed? id)

/-- The bytes handed over since the connection was created, oldest first. -/
def received (id : UInt16) (log : List Event) : List UInt8 :=
  (handed id (sinceCreate id log)).reverse.flatten

/-- The initial sequence number an event gives to the peer. -/
def Event.syncs (id : UInt16) : Event → Option UInt32
  | .synced id' irs => if id' = id then some irs else none
  | _ => none

/-- The initial sequence number of the peer, once it is known. -/
def syncedWith (id : UInt16) (log : List Event) : Option UInt32 :=
  (sinceCreate id log).reverse.findSome? (Event.syncs id)

section History

variable {id : UInt16} {new log : List Event}

@[simp] theorem handed_append : handed id (new ++ log) = handed id new ++ handed id log :=
  List.filterMap_append

theorem handed_eq_nil (h : ∀ ev ∈ new, ev.handed? id = none) : handed id new = [] :=
  List.filterMap_eq_nil_iff.mpr h

theorem received_append (h : ∀ ev ∈ new, ev.creates id = false) :
    received id (new ++ log) = received id log ++ (handed id new).reverse.flatten := by
  rw [received, sinceCreate_append h, handed_append, List.reverse_append, List.flatten_append]
  rfl

theorem received_create (iss : UInt32) (buf : Nat) (leftover : Bool) :
    received id (.create id iss buf leftover :: log) = [] := by
  simp [received, handed]

/-- Once the peer's number is known, it stays. -/
theorem syncedWith_append {irs : UInt32} (h : ∀ ev ∈ new, ev.creates id = false)
    (hirs : syncedWith id log = some irs) : syncedWith id (new ++ log) = some irs := by
  rw [syncedWith, sinceCreate_append h, List.reverse_append, List.findSome?_append]
  unfold syncedWith at hirs
  rw [hirs]
  rfl

theorem syncedWith_append_none (h : ∀ ev ∈ new, ev.creates id = false)
    (hnew : ∀ ev ∈ new, ev.syncs id = none) : syncedWith id (new ++ log) = syncedWith id log := by
  have hnone : new.reverse.findSome? (Event.syncs id) = none := by
    rw [List.findSome?_eq_none_iff]
    simpa using hnew
  rw [syncedWith, sinceCreate_append h, List.reverse_append, List.findSome?_append, hnone,
    Option.or_none]
  rfl

theorem Event.handed?_of_owner {ev : Event} (h : ev.owner ≠ some id) : ev.handed? id = none := by
  cases ev with
  | callback id' cb action =>
      cases cb with
      | onNewData data alen =>
          have hne : id' ≠ id := fun heq => h (by rw [← heq]; rfl)
          exact if_neg hne
      | _ => rfl
  | _ => rfl

theorem Event.syncs_of_owner {ev : Event} (h : ev.owner ≠ some id) : ev.syncs id = none := by
  cases ev with
  | synced id' irs =>
      have hne : id' ≠ id := fun heq => h (by rw [← heq]; rfl)
      exact if_neg hne
  | _ => rfl

theorem Event.isPlain.handed? {ev : Event} (h : ev.isPlain = true) : ev.handed? id = none := by
  cases ev with
  | callback => cases h
  | _ => rfl

/-- What happens beside a connection tells it nothing. -/
theorem received_beside {w w' : World D H} (h : Beside id w w') :
    received id w'.log = received id w.log ∧ syncedWith id w'.log = syncedWith id w.log := by
  obtain ⟨new, hlog, hnew⟩ := h
  have hnone : ∀ ev ∈ new, ev.creates id = false := fun ev hev =>
    Event.creates_of_owner (hnew ev hev)
  have hhanded : handed id new = [] := handed_eq_nil fun ev hev =>
    Event.handed?_of_owner (hnew ev hev)
  rw [hlog]
  constructor
  · rw [received_append hnone, hhanded]
    exact List.append_nil _
  · exact syncedWith_append_none hnone fun ev hev => Event.syncs_of_owner (hnew ev hev)

end History

/-! ## Handing over -/

/-- The states in which data may be handed to the application. -/
def State.receives : State → Bool
  | .synSent | .synRcvd | .established => true
  | _ => false

/-- Since `s` the given pieces of data have been handed over, newest first, and the
connection expects the same number. -/
structure Hands (ds : List (List UInt8)) (s t : Ctx D H) : Prop where
  id : t.e.id = s.e.id
  rcvNxt : t.e.rcvNxt = s.e.rcvNxt
  log : ∃ new, t.w.log = new ++ s.w.log ∧ handed s.e.id new = ds ∧
    ∀ ev ∈ new, ∀ id, ev.creates id = false

/-- An event has been recorded since `s`. -/
def Meanwhile (ev : Event) (s t : Ctx D H) : Prop :=
  ∃ new, t.w.log = new ++ s.w.log ∧ ev ∈ new

section Hands

variable {ds ds' : List (List UInt8)} {s t u : Ctx D H}

theorem Hands.trans (h : Hands ds s t) (h' : Hands ds' t u) : Hands (ds' ++ ds) s u := by
  obtain ⟨new, hlog, hds, hnew⟩ := h.log
  obtain ⟨new', hlog', hds', hnew'⟩ := h'.log
  refine ⟨h'.id.trans h.id, h'.rcvNxt.trans h.rcvNxt, new' ++ new,
    by rw [hlog', hlog, List.append_assoc], ?_, fun ev hev => ?_⟩
  · rw [handed_append, hds, ← hds', h.id]
  · rcases List.mem_append.mp hev with hev | hev
    · exact hnew' ev hev
    · exact hnew ev hev

theorem Hands.refl (s : Ctx D H) : Hands [] s s := ⟨rfl, rfl, [], rfl, rfl, by simp⟩

theorem Hands.after (h : Hands [] s t) (h' : Hands ds t u) : Hands ds s u := by
  simpa using h.trans h'

theorem Hands.before (h : Hands ds s t) (h' : Hands [] t u) : Hands ds s u := h.trans h'

theorem Hands.conn {e : Connection} (hid : e.id = s.e.id) (hrcv : e.rcvNxt = s.e.rcvNxt) :
    Hands [] s ⟨e, s.w⟩ := ⟨hid, hrcv, [], rfl, rfl, by simp⟩

theorem Hands.noted {ev : Event} (hev : ev.handed? s.e.id = none)
    (hnew : ∀ id, ev.creates id = false) : Hands [] s (s.noted ev) := by
  refine ⟨rfl, rfl, [ev], rfl, handed_eq_nil ?_, ?_⟩
  · simpa using hev
  · simpa using hnew

theorem hands_walk : Walk (Hands (D := D) (H := H) []) := ⟨.refl, fun h h' => h.trans h'⟩

theorem Hands.of_plainly {w : World D H} (h : Plainly s.w w) : Hands [] s ⟨s.e, w⟩ := by
  obtain ⟨new, hlog, hnew⟩ := h.log
  exact ⟨rfl, rfl, new, hlog, handed_eq_nil fun ev hev => Event.isPlain.handed? (hnew ev hev),
    fun ev hev => Event.isQuiet.creates (Event.isPlain.isQuiet (hnew ev hev))⟩

/-- A callback without new data. -/
theorem Hands.called (env : Env D H) {cb : Callback}
    (hcb : ∀ data alen, cb ≠ .onNewData data alen) (s : Ctx D H) :
    Hands [] s (s.called env cb) := by
  refine ⟨rfl, rfl, [_], rfl, handed_eq_nil ?_, by simp [Event.creates]⟩
  intro ev hev
  rw [List.mem_singleton.mp hev]
  cases cb with
  | onNewData data alen => exact absurd rfl (hcb data alen)
  | _ => rfl

theorem Hands.delivered (env : Env D H) (data : List UInt8) (alen : Option UInt32)
    (s : Ctx D H) : Hands [data] s (s.called env (.onNewData data alen)) := by
  refine ⟨rfl, rfl, [_], rfl, ?_, by simp [Event.creates]⟩
  simp [handed, Event.handed?]

theorem hands_bears (env : Env D H) : Bears env (Hands []) where
  toWalk := hands_walk
  world := .of_plainly
  buffer := fun _ _ => .conn rfl rfl
  transmit := fun _ _ _ _ _ => .noted rfl fun _ => rfl
  sent := Hands.called env (by simp)
  counted := fun _ _ => .conn rfl rfl
  segment := fun _ _ _ => .conn rfl rfl
  reset := fun _ => .conn rfl rfl

theorem Meanwhile.after {ev : Event} (h : Hands ds s t) (h' : Meanwhile ev t u) :
    Meanwhile ev s u := by
  obtain ⟨new, hlog, -⟩ := h.log
  obtain ⟨new', hlog', hmem⟩ := h'
  exact ⟨new' ++ new, by rw [hlog', hlog, List.append_assoc], List.mem_append_left _ hmem⟩

theorem Meanwhile.before {ev : Event} (h : Meanwhile ev s t) (h' : Hands ds t u) :
    Meanwhile ev s u := by
  obtain ⟨new, hlog, hmem⟩ := h
  obtain ⟨new', hlog', -⟩ := h'.log
  exact ⟨new' ++ new, by rw [hlog', hlog, List.append_assoc], List.mem_append_right _ hmem⟩

theorem Hands.received (h : Hands ds s t) :
    received s.e.id t.w.log = received s.e.id s.w.log ++ ds.reverse.flatten := by
  obtain ⟨new, hlog, hds, hnew⟩ := h.log
  rw [hlog, received_append fun ev hev => hnew ev hev _, hds]

theorem Hands.syncedWith {irs : UInt32} (h : Hands ds s t)
    (hirs : syncedWith s.e.id s.w.log = some irs) : syncedWith s.e.id t.w.log = some irs := by
  obtain ⟨new, hlog, -, hnew⟩ := h.log
  rw [hlog]
  exact syncedWith_append (fun ev hev => hnew ev hev _) hirs

end Hands

/-! ## What takes nothing in -/

section Silence

variable {env : Env D H} {s t : Ctx D H} {ret : Status}

theorem hands_modify {f : Connection → Connection} (hid : ∀ e, (f e).id = e.id)
    (hrcv : ∀ e, (f e).rcvNxt = e.rcvNxt) :
    Relates (Hands []) (modifyConn f : ConnProgram D H Unit) := fun s => .conn (hid s.e) (hrcv s.e)

theorem hands_setState (st : State) : Relates (Hands []) (setState st : ConnProgram D H Unit) :=
  hands_modify (fun _ => rfl) fun _ => rfl

theorem hands_callback {cb : Callback} (hcb : ∀ data alen, cb ≠ .onNewData data alen) :
    Relates (Hands []) (callback env cb) := Hands.called env hcb

theorem hands_unlisten (port : Port) :
    Relates (Hands []) (onWorld (deviceUnlisten env port)) :=
  fun _ => ⟨rfl, rfl, [.unlisten port], rfl, rfl, by simp [Event.creates]⟩

theorem hands_sendAbort (env : Env D H) : Relates (Hands []) (sendAbort env) := by
  have hR := hands_bears env
  apply Relates.gets_bind
  intro e
  apply hR.bind (hands_unlisten _)
  intro _
  apply hR.bind (hands_setState _)
  intro _
  exact hR.bind (hR.setFlags _ _ _) fun _ => hR.sendControl env

theorem hands_sendClose (env : Env D H) : Relates (Hands []) (sendClose env) := by
  have hR := hands_bears env
  apply Relates.gets_bind
  intro e
  apply Relates.ite (hR.pure _)
  exact hR.bind (hands_setState _) fun _ => hR.pushFinAck

/-- A close leaves ESTABLISHED if a slot of the ring is free. -/
theorem sendClose_state (hfree : s.e.hasAvailableSegments = true)
    (hok : sendClose env s = .ok ret t) : t.e.state = .finWait1 := by
  unfold sendClose at hok
  rw [bind_gets, hfree, if_neg (by decide)] at hok
  obtain ⟨_, u, hset, hok⟩ := bind_eq_ok.mp hok
  cases hset
  exact ((sends_bears env).pushFinAck.ok hok).state_eq

/-- The scan for acknowledged segments takes nothing in. -/
theorem Connection.heard_eq (e : Connection) (inc : Incoming) :
    (e.heard inc).id = e.id ∧ (e.heard inc).rcvNxt = e.rcvNxt ∧
      (e.heard inc).newdata = false ∧ (e.heard inc).state = e.state := by
  apply @scanned_invariant fun e' => e'.id = e.id ∧ e'.rcvNxt = e.rcvNxt ∧
    e'.newdata = false ∧ e'.state = e.state
  · intro e' h
    unfold noteWindow updateRttEstimation
    dsimp only
    split_ifs <;> exact h
  · intro e' h
    unfold noteAck updateRttEstimation
    split_ifs <;> exact h
  · exact ⟨rfl, rfl, rfl, rfl⟩

/-- A segment that is found acknowledged leaves its slot. -/
theorem Connection.heard_available (e : Connection) (inc : Incoming)
    (hack : (e.heard inc).ackdata = true) : (e.heard inc).hasAvailableSegments = true := by
  have hscan : (e.heard inc).ackdata = true → (e.heard inc).hasAvailableSegments = true := by
    apply @scanned_invariant fun e' => e'.ackdata = true → e'.hasAvailableSegments = true
    · intro e' h hack
      have hcore := core_noteWindow e' inc.window
      rw [hasAvailableSegments, show (e'.noteWindow inc.window).segments = e'.segments from
        congrArg Core.segments hcore]
      exact h ((congrArg Core.ackdata hcore).symm.trans hack)
    · intro e' _ _
      rw [hasAvailableSegments_iff]
      refine ⟨e'.noteAck.segidx, ?_⟩
      simp [clearSegment, setSegment, Connection.core, Segment.cleared, Segment.isFree]
    · intro h
      cases h
  exact hscan hack

end Silence

/-! ## New data in ESTABLISHED -/

/-- What becomes of data that has been taken in: it is handed over, or its immediate
acknowledgement fails before, or the answer to an acknowledgement stops the connection. -/
inductive Handover (data : List UInt8) (s t : Ctx D H) : Prop
  | made (hhands : Hands [data] s t)
  | refused {ret : Status} (hhands : Hands [] s t) (hret : ret ≠ .ok)
      (hack : Meanwhile (.immediateAck s.e.id ret) s t)
  | stopped {alen : Option UInt32} {action : Action} (hhands : Hands [] s t)
      (hacked : s.e.ackdata = true) (haction : action ≠ .continue)
      (hcall : Meanwhile (.callback s.e.id (.onAcked alen) action) s t)
      (hstate : s.e.hasAvailableSegments = true → t.e.state.receives = false)

section Handover

variable {env : Env D H} {inc : Incoming} {s t u : Ctx D H} {ret : Status} {canSend : Bool}
  {data : List UInt8}

/-- What an answer leads to. -/
theorem Answered.hands {cb : Option UInt32 → Callback} {reply : Reply H}
    (h : Answered env cb canSend s reply u) :
    Hands (handed s.e.id [.callback s.e.id (cb (env.offer s.e canSend)) reply.action]) s u ∧
      Meanwhile (.callback s.e.id (cb (env.offer s.e canSend)) reply.action) s u := by
  obtain ⟨appended, writes, hlog, hwrites, happended⟩ := h.log
  have hquiet : ∀ ev ∈ appended ++ writes, ev.handed? s.e.id = none ∧
      ∀ id, ev.creates id = false := by
    intro ev hev
    rcases List.mem_append.mp hev with hev | hev
    · split at happended
      · obtain ⟨bytes, -, rfl⟩ := happended
        rw [List.mem_singleton.mp hev]
        exact ⟨rfl, fun _ => rfl⟩
      · rw [happended] at hev
        cases hev
    · obtain ⟨buf, rfl⟩ := hwrites ev hev
      exact ⟨rfl, fun _ => rfl⟩
  have hlog' : u.w.log = ((appended ++ writes) ++
      [.callback s.e.id (cb (env.offer s.e canSend)) reply.action]) ++ s.w.log := by
    simp [hlog]
  refine ⟨⟨by rw [h.conn], by rw [h.conn], _, hlog', ?_, ?_⟩, _, hlog', by simp⟩
  · rw [handed_append, handed_eq_nil fun ev hev => (hquiet ev hev).1]
    rfl
  · intro ev hev id
    rcases List.mem_append.mp hev with hev | hev
    · exact (hquiet ev hev).2 id
    · rw [List.mem_singleton.mp hev]
      rfl

/-- An answer that stops the processor. -/
theorem follow_hands {next : ConnProgram D H Status} {action : Action}
    (haction : action ≠ .continue) (hok : follow env next action s = .ok ret t) :
    Hands [] s t ∧ (s.e.hasAvailableSegments = true → t.e.state.receives = false) := by
  cases action with
  | abort =>
      refine ⟨(hands_sendAbort env).ok hok, fun _ => ?_⟩
      rw [sendAbort_closed hok]
      rfl
  | close =>
      refine ⟨(hands_sendClose env).ok hok, fun hfree => ?_⟩
      rw [sendClose_state hfree hok]
      rfl
  | «continue» => exact absurd rfl haction

theorem respondNewData_hands {next : ConnProgram D H Status} (hnext : Relates (Hands []) next)
    (hok : respond env (.onNewData data) canSend next s = .ok ret t) : Hands [data] s t := by
  obtain ⟨reply, u, hanswer, hok⟩ := respond_cases hok
  have hhands : Hands [data] s u := by
    simpa [handed, Event.handed?] using hanswer.hands.1
  apply hhands.before
  by_cases haction : reply.action = .continue
  · rw [haction] at hok
    exact hnext.ok hok
  · exact (follow_hands haction hok).1

theorem hands_flush (env : Env D H) (canSend : Bool) : Relates (Hands []) (flush env canSend) :=
  (hands_bears env).flush canSend

theorem notifyNewData_handover (hnew : s.e.newdata = true)
    (hok : notifyNewData env inc canSend (flush env canSend) s = .ok ret t) :
    Handover (inc.bytes inc.urglen inc.datalen) s t := by
  unfold notifyNewData at hok
  rw [bind_gets, if_pos hnew] at hok
  split at hok
  · exact .made (respondNewData_hands (hands_flush env canSend) hok)
  · obtain ⟨ret', v, hack, hok⟩ := bind_eq_ok.mp hok
    have hv : Hands [] s v := ((hands_bears env).sendAck env).ok hack
    rw [bind_record] at hok
    have hx : Hands [] s (v.noted (.immediateAck s.e.id ret')) :=
      hv.before (.noted rfl fun _ => rfl)
    split at hok
    · next hret =>
        cases hok
        obtain ⟨new, hlog, -⟩ := hv.log
        exact .refused hx hret ⟨_ :: new, congrArg (_ :: ·) hlog, List.mem_cons_self⟩
    · exact .made (hx.after (respondNewData_hands (hands_flush env canSend) hok))

/-- What follows the window update when a segment has brought new data. -/
theorem afterUpdate_handover (hnew : s.e.newdata = true)
    (hok : afterUpdate env inc s = .ok ret t) :
    Handover (inc.bytes inc.urglen inc.datalen) s t := by
  unfold afterUpdate at hok
  rw [bind_gets, if_pos (.inr hnew)] at hok
  rcases notifyAcked_cases hok with ⟨-, hok⟩ | ⟨hacked, hok⟩
  · exact notifyNewData_handover hnew hok
  obtain ⟨reply, u, hanswer, hok⟩ := respond_cases hok
  obtain ⟨hhands, hmeanwhile⟩ := hanswer.hands
  have hhands : Hands [] s u := hhands
  have hue := hanswer.conn
  by_cases haction : reply.action = .continue
  · rw [haction] at hok
    have hok : (Program.gets Ctx.e >>= fun e =>
        notifyNewData env inc (s.e.canSend && e.canSend)
          (flush env (s.e.canSend && e.canSend))) u = .ok ret t := hok
    rw [bind_gets] at hok
    have hnew' : u.e.newdata = true := by
      rw [hue]
      exact hnew
    cases notifyNewData_handover hnew' hok with
    | made h => exact .made (hhands.after h)
    | refused h hret hack =>
        rw [hhands.id] at hack
        exact .refused (hhands.after h) hret (hack.after hhands)
    | stopped h _ hstop hcall hstate =>
        rw [hhands.id] at hcall
        refine .stopped (hhands.after h) hacked hstop (hcall.after hhands) fun hfree => hstate ?_
        rw [hue]
        exact hfree
  · obtain ⟨hquiet, hstate⟩ := follow_hands haction hok
    refine .stopped (hhands.after hquiet) hacked haction (hmeanwhile.before hquiet)
      fun hfree => hstate ?_
    rw [hue]
    exact hfree

/-- Without new data nothing is handed over. -/
theorem afterUpdate_silent (hnew : s.e.newdata = false)
    (hok : afterUpdate env inc s = .ok ret t) : Hands [] s t := by
  unfold afterUpdate at hok
  rw [bind_gets] at hok
  split at hok
  swap
  · cases hok
    exact .refl s
  rcases notifyAcked_cases hok with ⟨-, hok⟩ | ⟨-, hok⟩
  · rcases notifyNewData_cases hok with ⟨-, hok⟩ | ⟨hnew', -⟩
    · exact (hands_flush env _).ok hok
    · rw [hnew] at hnew'
      cases hnew'
  obtain ⟨reply, u, hanswer, hok⟩ := respond_cases hok
  have hhands : Hands [] s u := hanswer.hands.1
  apply hhands.after
  by_cases haction : reply.action = .continue
  · rw [haction] at hok
    have hok : (Program.gets Ctx.e >>= fun e =>
        notifyNewData env inc (s.e.canSend && e.canSend)
          (flush env (s.e.canSend && e.canSend))) u = .ok ret t := hok
    rw [bind_gets] at hok
    rcases notifyNewData_cases hok with ⟨-, hok⟩ | ⟨hnew', -⟩
    · exact (hands_flush env _).ok hok
    · rw [hanswer.conn] at hnew'
      rw [show s.e.newdata = true from hnew'] at hnew
      cases hnew
  · exact (follow_hands haction hok).1

end Handover

end Tulips.Tcpv4
