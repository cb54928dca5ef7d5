import Tulips.Machine.Sending

/-!
# Receiving as acts of a slot

Whatever a segment or a tick does to a connection is a path of acts. The cases
follow the functions of the processor, one for each state.
-/

namespace Tulips.Tcpv4

variable {D H : Type} {env : Env D H} {s : Ctx D H} {inc : Incoming} {L : List Label}

/-- The kinds of acts a connection may perform without a segment of the peer. -/
def Label.own : List Label :=
  [.note, .life, .move, .store, .append, .emit, .fin, .resend, .control, .spare, .kill]

/-- The kinds of acts that come with data of the peer. -/
def Label.traffic : List Label := [.data, .rcv] ++ Label.own

/-- The kinds of acts a segment may cause once its acknowledgement has been
taken in. -/
def Label.reaction : List Label := .settle :: Label.traffic

/-- The kinds of acts a segment may cause. -/
def Label.segment : List Label := [.news, .clear] ++ Label.reaction

/-- The kinds of acts a segment may cause while the connection waits for its
FIN to be acknowledged. -/
def Label.closing : List Label := [.note, .life, .move, .settle, .rcv, .control, .spare]

/-- The kinds of acts that follow from an answer of the application. -/
def Label.answer : List Label := [.note, .data, .store, .append, .kill, .fin]

/-- What the traffic in ESTABLISHED may change of a connection, short of a new
segment. -/
def SameButTraffic (e e' : Connection) : Prop :=
  ∃ slen sdat cookie opts, e' = { e with
    slen := slen, sdat := sdat, cookie := cookie, opts := opts }

namespace SameButTraffic

variable {e e' e'' : Connection}

theorem refl : SameButTraffic e e := ⟨_, _, _, _, rfl⟩

theorem trans (h : SameButTraffic e e') (h' : SameButTraffic e' e'') : SameButTraffic e e'' := by
  obtain ⟨_, _, _, _, rfl⟩ := h
  obtain ⟨slen, sdat, cookie, opts, rfl⟩ := h'
  exact ⟨slen, sdat, cookie, opts, rfl⟩

theorem of_callback (h : SameButCookie e e') : SameButTraffic e e' := by
  obtain ⟨cookie, opts, rfl⟩ := h
  exact ⟨_, _, cookie, opts, rfl⟩

theorem state_eq (h : SameButTraffic e e') : e'.state = e.state := by
  obtain ⟨_, _, _, _, rfl⟩ := h
  rfl

theorem segments_eq (h : SameButTraffic e e') : e'.segments = e.segments := by
  obtain ⟨_, _, _, _, rfl⟩ := h
  rfl

theorem available_eq (h : SameButTraffic e e') :
    e'.hasAvailableSegments = e.hasAvailableSegments := by
  rw [Connection.hasAvailableSegments, h.segments_eq]
  rfl

end SameButTraffic

/-! ## Callbacks -/

theorem callback_performs (env : Env D H) (cb : Callback) {α : Type}
    {f : Reply H → ConnProgram D H α} (hlife : cb.isData = false → .life ∈ L)
    (hdata : cb.isData = true → .data ∈ L)
    (hf : ∀ t reply, reply = env.handler s.w.hdl s.e cb → SameButCookie s.e t.e →
      t.w.mem = s.w.mem → Performs env L t (f reply t)) :
    Performs env L s ((callback env cb >>= f) s) := by
  obtain ⟨t, reply, hok, hreply, hsame, hmem, hcalled⟩ := callback_spec env cb s
  cases hcb : cb.isData with
  | false =>
      exact Performs.bind_act (hlife hcb) hok (.life hcb hcalled) (hf t reply hreply hsame hmem)
  | true =>
      exact Performs.bind_act (hdata hcb) hok (.data hcb hcalled) (hf t reply hreply hsame hmem)

/-- Handing over a payload is one act. -/
theorem deliver_spec (env : Env D H) (inc : Incoming) (s : Ctx D H) :
    ∃ t, deliver env inc s = .ok () t ∧ SameButCookie s.e t.e ∧
      Called env.handler (.onNewData inc.payload none) s.slot t.slot := by
  obtain ⟨t, reply, hok, -, hsame, -, hcalled⟩ :=
    callback_spec env (.onNewData inc.payload none) s
  refine ⟨t, ?_, hsame, hcalled⟩
  unfold deliver
  rw [Program.bind_of_ok hok]
  rfl

theorem deliver_performs (env : Env D H) (inc : Incoming) {α : Type}
    {f : Unit → ConnProgram D H α} (hdata : .data ∈ L)
    (hf : ∀ t, SameButCookie s.e t.e → Performs env L t (f () t)) :
    Performs env L s ((deliver env inc >>= f) s) := by
  obtain ⟨t, hok, hsame, hcalled⟩ := deliver_spec env inc s
  exact Performs.bind_act hdata hok (.data rfl hcalled) (hf t hsame)

/-- What a callback puts in the response area. -/
theorem area_performs {α : Type} {c : Prop} [Decidable c] {id : UInt16} {sdat : Option Ptr}
    {slen : Nat} {bytes : List UInt8} {f : Unit → ConnProgram D H α} (hl : .store ∈ L)
    (hopen : s.e.state ≠ .closed) (hid : s.e.id = id) (hsdat : s.e.sdat = sdat)
    (hslen : s.e.slen.toNat = slen) (hf : ∀ u, u.e = s.e → Performs env L u (f () u)) :
    Performs env L s
      ((Program.when c (onWorld (store (some id) sdat (headerLen + slen) bytes)) >>= f) s) := by
  subst hid hsdat hslen
  rw [Program.when]
  split
  · cases hsdat : s.e.sdat with
    | none => exact ⟨s.slot, .refl, ⟨[], rfl⟩, hopen, .inl hsdat⟩
    | some p =>
        obtain ⟨w, hok, -, hwrote⟩ :=
          store_some (some s.e.id) p (headerLen + s.e.slen.toNat) bytes s.w
        refine Performs.bind_act hl (onWorld_ok hok)
          (.store hopen hsdat (.inr ?_) hwrote.stored) (hf _ rfl)
        show p.off + headerLen + s.e.slen.toNat ≤ _
        omega
  · exact hf s rfl

/-- The application's answer: what it put behind the pending data is taken in,
or the connection ends. -/
theorem respond_performs (env : Env D H) {cb : Option UInt32 → Callback} {canSend : Bool}
    {next : ConnProgram D H Status} (hL : ∀ l ∈ Label.answer, l ∈ L)
    (hcb : ∀ alen, (cb alen).isData = true) (hstate : s.e.state = .established)
    (hnext : ∀ t, SameButTraffic s.e t.e → Performs env L t (next t)) :
    Performs env L s (respond env cb canSend next s) := by
  have hopen : s.e.state ≠ .closed := by rw [hstate]; decide
  unfold respond
  rw [Program.bind_gets]
  refine callback_performs env _ (fun h => by rw [hcb] at h; cases h)
    (fun _ => hL _ (by decide)) ?_
  intro t reply _ ⟨cookie, opts, he⟩ _
  have hsame : SameButTraffic s.e t.e := .of_callback ⟨cookie, opts, he⟩
  have htid : t.e.id = s.e.id := by rw [he]
  have htsdat : t.e.sdat = s.e.sdat := by rw [he]
  have htslen : t.e.slen = s.e.slen := by rw [he]
  have htopen : t.e.state ≠ .closed := by rw [hsame.state_eq]; exact hopen
  refine area_performs (hL .store (by decide)) htopen htid htsdat (by rw [htslen]) fun u hu => ?_
  -- The rest of the answer, once the response area holds what it holds.
  cases reply.action with
  | abort => exact sendAbort_performs env (hL _ (by decide)) (hL _ (by decide)) (hu ▸ htopen)
  | close => exact sendClose_performs env (hL _ (by decide)) (by rw [hu, hsame.state_eq, hstate])
  | «continue» =>
      dsimp only
      rw [Program.when]
      split
      · -- What stands in the area counts as pending now.
        simp only [Program.bind_assoc_apply, Program.bind_gets]
        set n := (if env.bound s.e - UInt32.ofNat s.e.slen.toNat < reply.slen then
          env.bound s.e - UInt32.ofNat s.e.slen.toNat else reply.slen).toNat
        refine Performs.bind_act (t :=
          { e := { u.e with slen := u.e.slen + BitVec.ofNat 24 (u.tail n).length }
            w := { u.w with log := .append u.e.id u.e.slen (u.tail n) :: u.w.log } })
          (hL .append (by decide)) rfl
          (.append (by rw [show u.slot.state = u.e.state from rfl, hu, hsame.state_eq, hstate])
            ?_) (hnext _ (hsame.trans ⟨_, u.e.sdat, u.e.cookie, u.e.opts, by rw [hu]⟩))
        intro p hp
        have hp' : u.e.sdat = some p := hp
        simp only [Ctx.tail, hp', BlockMemory.length_read]
        rfl
      · exact hnext _ (hu ▸ hsame)

/-! ## The states -/

theorem modifyConn_performs {α : Type} {g : Connection → Connection}
    {f : Unit → ConnProgram D H α} (hcore : (g s.e).core = s.e.core)
    (hf : Performs env L { s with e := g s.e } (f () { s with e := g s.e })) :
    Performs env L s ((modifyConn g >>= f) s) := by
  refine Performs.bind_same (t := { s with e := g s.e }) rfl ?_ hf
  simp only [Ctx.slot, hcore]

theorem setState_performs {α : Type} {st : State} {f : Unit → ConnProgram D H α}
    (hl : .move ∈ L) (hst : s.e.state.leadsTo st = true)
    (hack : st = .established → s.e.ackdata = true)
    (hf : Performs env L { s with e := { s.e with state := st } }
      (f () { s with e := { s.e with state := st } })) :
    Performs env L s ((setState st >>= f) s) :=
  Performs.bind_act hl rfl (.move (s := s.slot) hst hack) hf

/-- A change of the connection that only moves the next number expected. -/
theorem rcv_performs {α : Type} {g : Connection → Connection} {f : Unit → ConnProgram D H α}
    (hl : .rcv ∈ L) {rcvNxt : UInt32} (hcore : (g s.e).core = { s.e.core with rcvNxt := rcvNxt })
    (hf : Performs env L { s with e := g s.e } (f () { s with e := g s.e })) :
    Performs env L s ((modifyConn g >>= f) s) := by
  refine Performs.bind_act hl rfl ?_ hf
  have hact : Act env.handler .rcv s.slot
      { s.slot with rcvNxt := rcvNxt, log := [] ++ s.slot.log } := .rcv (by simp)
  have hslot : ({ s with e := g s.e } : Ctx D H).slot =
      { s.slot with rcvNxt := rcvNxt, log := [] ++ s.slot.log } := by
    simp only [Ctx.slot, hcore]
    rfl
  rwa [← hslot] at hact

theorem unlisten_performs {α : Type} {port : Port} {f : Unit → ConnProgram D H α}
    (hl : .note ∈ L) (hf : ∀ t, t.e = s.e → Performs env L t (f () t)) :
    Performs env L s ((onWorld (deviceUnlisten env port) >>= f) s) :=
  have hnote : (Event.unlisten port).isNote = true := rfl
  Performs.bind_act hl rfl (.note hnote (.inl rfl)) (hf _ rfl)

theorem record_performs {α : Type} {ev : Event} {f : Unit → ConnProgram D H α}
    (hl : .note ∈ L) (hev : ev.isNote = true) (howner : ev.owner = some s.e.id)
    (hf : ∀ t, t.e = s.e → Performs env L t (f () t)) :
    Performs env L s ((onWorld (record ev) >>= f) s) :=
  Performs.bind_act hl rfl (.note hev (.inr howner)) (hf _ rfl)

theorem flush_performs (env : Env D H) {canSend : Bool} (hL : ∀ l ∈ Label.traffic, l ∈ L)
    (hstate : s.e.state = .established)
    (hcan : canSend = true → s.e.hasAvailableSegments = true) :
    Performs env L s (flush env canSend s) := by
  have hacks : ∀ l ∈ Label.acks, l ∈ L := fun l hl => hL l (by revert l; decide)
  unfold flush
  rw [Program.bind_gets]
  refine Program.Follows.ite (fun h => ?_) fun _ => ?_
  · exact sendNoDelay_performs env tcpPsh (hL _ (by decide)) hstate (hcan h.2)
  · exact Program.Follows.ite
      (fun _ => sendAck_performs env hacks (by rw [hstate]; decide)) fun _ => .pure _ _

theorem notifyNewData_performs (env : Env D H) {inc : Incoming} {canSend : Bool}
    {next : ConnProgram D H Status} (hL : ∀ l ∈ Label.traffic, l ∈ L)
    (hstate : s.e.state = .established)
    (hnext : ∀ t, SameButTraffic s.e t.e → Performs env L t (next t)) :
    Performs env L s (notifyNewData env inc canSend next s) := by
  have hanswer : ∀ l ∈ Label.answer, l ∈ L := fun l hl => hL l (by revert l; decide)
  have hacks : ∀ l ∈ Label.acks, l ∈ L := fun l hl => hL l (by revert l; decide)
  have hopen : s.e.state ≠ .closed := by rw [hstate]; decide
  unfold notifyNewData
  rw [Program.bind_gets]
  refine Program.Follows.ite (fun _ => ?_) fun _ => hnext s .refl
  refine Program.Follows.ite
    (fun _ => respond_performs env hanswer (fun _ => rfl) hstate hnext) fun _ => ?_
  refine Program.Follows.bind (sendAck_performs env hacks hopen) ?_
  intro ret t hok
  obtain ⟨sdat, he⟩ := sendAck_keeps hopen hok
  refine record_performs (hL _ (by decide)) rfl (by rw [he]; rfl) ?_
  intro u hu
  have hsame : SameButTraffic s.e u.e := ⟨_, sdat, _, _, by rw [hu, he]⟩
  refine Program.Follows.ite (fun _ => .pure _ _) fun _ => ?_
  exact respond_performs env hanswer (fun _ => rfl) (by rw [hsame.state_eq, hstate])
    fun v hv => hnext v (hsame.trans hv)

theorem notifyAcked_performs (env : Env D H) {canSend : Bool}
    {next : Bool → ConnProgram D H Status} (hL : ∀ l ∈ Label.traffic, l ∈ L)
    (hstate : s.e.state = .established) (hcan : canSend = true → s.e.hasAvailableSegments = true)
    (hnext : ∀ can t, SameButTraffic s.e t.e → (can = true → s.e.hasAvailableSegments = true) →
      Performs env L t (next can t)) :
    Performs env L s (notifyAcked env canSend next s) := by
  have hanswer : ∀ l ∈ Label.answer, l ∈ L := fun l hl => hL l (by revert l; decide)
  unfold notifyAcked
  rw [Program.bind_gets]
  refine Program.Follows.ite (fun _ => ?_) fun _ => hnext _ s .refl hcan
  refine respond_performs env hanswer (fun _ => rfl) hstate ?_
  intro t ht
  rw [Program.bind_gets]
  refine hnext _ t ht fun h => hcan ?_
  exact (Bool.and_eq_true_iff.mp h).1

theorem processFin_performs (env : Env D H) (inc : Incoming) (hL : ∀ l ∈ Label.traffic, l ∈ L)
    (hstate : s.e.state = .established) : Performs env L s (processFin env inc s) := by
  unfold processFin
  rw [Program.bind_gets]
  refine Program.Follows.ite (fun _ => .pure _ _) fun hout => ?_
  have hfree : s.e.hasAvailableSegments = true := by
    rw [Connection.hasAvailableSegments_iff]
    rw [Connection.hasOutstandingSegments_iff] at hout
    by_contra hnone
    refine hout ⟨0, ?_⟩
    by_contra hzero
    exact hnone ⟨0, Bool.eq_true_of_not_eq_false hzero⟩
  refine rcv_performs (hL _ (by decide)) rfl ?_
  have hfin : ∀ t, SameButTraffic { s.e with rcvNxt := s.e.rcvNxt + inc.plen.toUInt32 + 1 } t.e →
      Performs env L t ((setState .lastAck >>= fun _ => pushFinAck env) t) := by
    intro t ht
    refine pushFinAck_performs env .lastAck (hL _ (by decide)) (.inl ?_) (.inr rfl) ?_
    · rw [ht.state_eq, hstate]
    · rw [ht.available_eq]
      exact hfree
  rw [Program.when]
  split
  · exact deliver_performs env inc (hL _ (by decide)) fun t ht => hfin t (.of_callback ht)
  · exact hfin _ .refl

theorem processEstablished_performs (env : Env D H) (inc : Incoming)
    (hL : ∀ l ∈ Label.traffic, l ∈ L) (hstate : s.e.state = .established) :
    Performs env L s (processEstablished env inc s) := by
  unfold processEstablished
  refine Program.Follows.ite (fun _ => processFin_performs env inc hL hstate) fun _ => ?_
  -- The window and the flags are not part of the slot.
  have hrest : ∀ t : Ctx D H, t.e.state = .established → Performs env L t ((do
      modifyConn fun e => e.updateWindow inc.window
      let e ← .gets Ctx.e
      if e.ackdata = true ∨ e.newdata = true then
        notifyAcked env e.canSend fun canSend =>
          notifyNewData env inc canSend (flush env canSend)
      else pure .ok) t) := by
    intro t ht
    refine modifyConn_performs rfl ?_
    rw [Program.bind_gets]
    refine Program.Follows.ite (fun _ => ?_) fun _ => .pure _ _
    refine notifyAcked_performs env hL ht (fun h => (Bool.and_eq_true_iff.mp h).1) ?_
    intro can u hu hcan
    refine notifyNewData_performs env hL (by rw [hu.state_eq]; exact ht) ?_
    intro v hv
    refine flush_performs env hL ?_ ?_
    · rw [hv.state_eq, hu.state_eq]
      exact ht
    · intro h
      rw [hv.available_eq, hu.available_eq]
      exact hcan h
  rw [Program.when]
  split
  · exact rcv_performs (hL _ (by decide)) rfl (hrest _ hstate)
  · exact hrest s hstate

theorem processSynRcvd_performs (env : Env D H) (inc : Incoming)
    (hL : ∀ l ∈ Label.traffic, l ∈ L) (hstate : s.e.state = .synRcvd) :
    Performs env L s (processSynRcvd env inc s) := by
  have hacks : ∀ l ∈ Label.acks, l ∈ L := fun l hl => hL l (by revert l; decide)
  unfold processSynRcvd
  rw [Program.bind_gets]
  refine Program.Follows.ite (fun hack => ?_) fun _ => .pure _ _
  refine setState_performs (hL _ (by decide)) (by rw [hstate]; rfl) (fun _ => hack) ?_
  refine callback_performs env _ (fun _ => hL _ (by decide)) (fun h => by cases h) ?_
  rintro t _ _ ⟨cookie, opts, he⟩ _
  refine Program.Follows.ite (fun _ => ?_) fun _ => .pure _ _
  refine rcv_performs (hL _ (by decide)) rfl ?_
  refine deliver_performs env inc (hL _ (by decide)) ?_
  rintro u ⟨cookie', opts', hu⟩
  refine sendAck_performs env hacks ?_
  rw [hu]
  simp [Connection.receive, he]

/-- The options of a SYN are not part of the slot. -/
theorem Options.core_parseFrom (options : Bytes) (len fuel c : Nat) (e : Connection) :
    (Options.parseFrom options len fuel c e).core = e.core := by
  induction fuel generalizing c e with
  | zero => rfl
  | succ fuel ih =>
      unfold Options.parseFrom
      split_ifs <;> first | rfl | exact ih _ _

theorem Connection.core_parseOptions (e : Connection) (inc : Incoming) :
    (e.parseOptions inc).core = e.core := by
  unfold Connection.parseOptions
  split
  · exact Options.core_parseFrom _ _ _ _ _
  · rfl

theorem Connection.state_parseOptions (e : Connection) (inc : Incoming) :
    (e.parseOptions inc).state = e.state :=
  congrArg Core.state (e.core_parseOptions inc)

theorem processSynSent_performs (env : Env D H) (inc : Incoming)
    (hL : ∀ l ∈ Label.traffic, l ∈ L) (hstate : s.e.state = .synSent) :
    Performs env L s (processSynSent env inc s) := by
  have hacks : ∀ l ∈ Label.acks, l ∈ L := fun l hl => hL l (by revert l; decide)
  unfold processSynSent
  rw [Program.bind_gets]
  refine Program.Follows.ite (fun hsyn => ?_) fun _ => ?_
  · refine setState_performs (hL _ (by decide)) (by rw [hstate]; rfl) (fun _ => hsyn.1) ?_
    have hsynced : ∀ ev ∈ [Event.synced s.e.id inc.seqno],
        ∃ irs, ev = .synced (s.slot.moved .established).id irs :=
      fun ev hev => ⟨inc.seqno, List.mem_singleton.mp hev⟩
    refine Performs.bind_act (hL .rcv (by decide)) rfl (.rcv hsynced) ?_
    refine rcv_performs (hL _ (by decide)) rfl ?_
    refine modifyConn_performs (Connection.core_parseOptions _ inc) ?_
    refine callback_performs env _ (fun _ => hL _ (by decide)) (fun h => by cases h) ?_
    rintro t _ _ ⟨cookie, opts, he⟩ _
    have hopen : t.e.state ≠ .closed := by
      rw [he]
      exact (Connection.state_parseOptions _ inc).trans_ne (by simp)
    rw [Program.when]
    split
    · simp only [Program.bind_assoc_apply]
      refine modifyConn_performs rfl ?_
      refine deliver_performs env inc (hL _ (by decide)) ?_
      rintro u ⟨_, _, hu⟩
      exact sendAck_performs env hacks (by rw [hu]; exact hopen)
    · exact sendAck_performs env hacks hopen
  · refine callback_performs env _ (fun _ => hL _ (by decide)) (fun h => by cases h) ?_
    rintro t _ _ ⟨_, _, he⟩ _
    exact sendAbort_performs env (hL _ (by decide)) (hL _ (by decide))
      (by rw [he, hstate]; decide)

theorem processLastAck_performs (env : Env D H) (hL : ∀ l ∈ Label.closing, l ∈ L)
    (hstate : s.e.state = .lastAck) : Performs env L s (processLastAck env s) := by
  unfold processLastAck
  rw [Program.bind_gets, Program.when]
  split
  · simp only [Program.bind_assoc_apply]
    refine unlisten_performs (hL _ (by decide)) fun t ht => ?_
    rw [Program.bind_assoc_apply]
    refine setState_performs (hL _ (by decide)) (by rw [ht, hstate]; rfl) (by simp) ?_
    rw [Program.bind_assoc_apply]
    exact callback_performs env _ (fun _ => hL _ (by decide)) (fun h => by cases h)
      fun u _ _ _ _ => .pure _ _
  · exact .pure _ _

/-- Counting the payload that is not handed over. -/
theorem skipPayload_performs (inc : Incoming) {f : Unit → ConnProgram D H Status}
    (hl : .rcv ∈ L)
    (hf : ∀ t rcvNxt, t.e = { s.e with rcvNxt := rcvNxt } → Performs env L t (f () t)) :
    Performs env L s ((skipPayload inc >>= f) s) := by
  unfold skipPayload Program.when
  split
  · exact rcv_performs hl rfl (hf _ _ rfl)
  · exact hf s s.e.rcvNxt rfl

theorem acknowledgeFin_performs (env : Env D H) (hL : ∀ l ∈ Label.closing, l ∈ L)
    (hstate : s.e.state ≠ .closed) : Performs env L s (acknowledgeFin env s) := by
  have hacks : ∀ l ∈ Label.acks, l ∈ L := fun l hl => hL l (by revert l; decide)
  unfold acknowledgeFin
  refine rcv_performs (hL _ (by decide)) rfl ?_
  refine callback_performs env _ (fun _ => hL _ (by decide)) (fun h => by cases h) ?_
  rintro t _ _ ⟨_, _, he⟩ _
  exact sendAck_performs env hacks (by rw [he]; exact hstate)

theorem settle_performs {st : State} {f : Unit → ConnProgram D H Status} (hl : .settle ∈ L)
    (hst : s.e.state.settlesTo st = true) (hack : s.e.state = .finWait2 ∨ s.e.ackdata = true)
    (hf : Performs env L { s with e := { s.e with state := st } }
      (f () { s with e := { s.e with state := st } })) :
    Performs env L s ((setState st >>= f) s) :=
  Performs.bind_act hl rfl (.settle (s := s.slot) hst hack) hf

theorem enterTimeWait_performs {f : Unit → ConnProgram D H Status} (hl : .settle ∈ L)
    (hst : s.e.state.settlesTo .timeWait = true)
    (hack : s.e.state = .finWait2 ∨ s.e.ackdata = true)
    (hf : ∀ t, t.e.state = .timeWait → Performs env L t (f () t)) :
    Performs env L s ((enterTimeWait >>= f) s) := by
  unfold enterTimeWait
  simp only [Program.bind_assoc_apply]
  exact settle_performs hl hst hack (modifyConn_performs rfl (hf _ rfl))

theorem processFinWait1_performs (env : Env D H) (inc : Incoming)
    (hL : ∀ l ∈ Label.closing, l ∈ L) (hstate : s.e.state = .finWait1) :
    Performs env L s (processFinWait1 env inc s) := by
  have hacks : ∀ l ∈ Label.acks, l ∈ L := fun l hl => hL l (by revert l; decide)
  unfold processFinWait1
  refine skipPayload_performs inc (hL _ (by decide)) fun t rcvNxt he => ?_
  have ht : t.e.state = .finWait1 := by rw [he, hstate]
  rw [Program.bind_gets]
  refine Program.Follows.ite (fun _ => ?_) fun _ => ?_
  · split
    · next hack =>
        exact enterTimeWait_performs (hL _ (by decide)) (by rw [ht]; rfl) (.inr hack) fun u hu =>
          acknowledgeFin_performs env hL (by rw [hu]; decide)
    · exact setState_performs (hL _ (by decide)) (by rw [ht]; rfl) (by simp)
        (acknowledgeFin_performs env hL (by simp))
  · refine Program.Follows.ite (fun hack => ?_) fun _ => ?_
    · exact settle_performs (hL _ (by decide)) (by rw [ht]; rfl) (.inr hack) (.pure _ _)
    · exact Program.Follows.ite
        (fun _ => sendAck_performs env hacks (by rw [ht]; decide)) fun _ => .pure _ _

theorem processFinWait2_performs (env : Env D H) (inc : Incoming)
    (hL : ∀ l ∈ Label.closing, l ∈ L) (hstate : s.e.state = .finWait2) :
    Performs env L s (processFinWait2 env inc s) := by
  have hacks : ∀ l ∈ Label.acks, l ∈ L := fun l hl => hL l (by revert l; decide)
  unfold processFinWait2
  refine skipPayload_performs inc (hL _ (by decide)) fun t rcvNxt he => ?_
  have ht : t.e.state = .finWait2 := by rw [he, hstate]
  refine Program.Follows.ite (fun _ => ?_) fun _ => ?_
  · exact enterTimeWait_performs (hL _ (by decide)) (by rw [ht]; rfl) (.inl ht) fun u hu =>
      acknowledgeFin_performs env hL (by rw [hu]; decide)
  · exact Program.Follows.ite
      (fun _ => sendAck_performs env hacks (by rw [ht]; decide)) fun _ => .pure _ _

/-- No segment outstanding means that the whole ring is free. -/
theorem Connection.available_of_not_outstanding {e : Connection}
    (h : e.hasOutstandingSegments ≠ true) : e.hasAvailableSegments = true := by
  rw [Connection.hasAvailableSegments_iff]
  rw [Ne, Connection.hasOutstandingSegments_iff] at h
  refine ⟨0, ?_⟩
  by_contra hzero
  exact h ⟨0, by simpa using hzero⟩

theorem processClose_performs (env : Env D H) (inc : Incoming)
    (hL : ∀ l ∈ Label.traffic, l ∈ L) (hstate : s.e.state = .close) :
    Performs env L s (processClose env inc s) := by
  have hopen : s.e.state ≠ .closed := by rw [hstate]; decide
  unfold processClose
  rw [Program.bind_gets]
  refine Program.Follows.ite (fun _ => .pure _ _) fun hout => ?_
  have hfree := Connection.available_of_not_outstanding hout
  unfold setState modifyConn
  rw [Program.bind_update]
  obtain ⟨k, u, hk, hpush, hslot, -, -⟩ :=
    pushSegment_spec (s := { s with e := { s.e with state := .finWait1 } }) 1 hfree
  rw [Program.bind_of_ok hpush, Program.when]
  split
  · -- The FIN acknowledges the payload, which is counted between push and commit.
    rw [Program.bind_update]
    let r : Slot H := { s.slot with rcvNxt := u.e.rcvNxt + inc.plen.toUInt32 }
    have hrcv : Act env.handler .rcv s.slot r := .rcv (s := s.slot) (List.forall_mem_nil _)
    have hslot' : ({ u with e := u.e.receive inc inc.plen } : Ctx D H).slot =
        (r.moved .finWait1).pushed k 1 := by
      have hcore : u.e.core = _ := congrArg Slot.toCore hslot
      have hhdl : u.w.hdl = _ := congrArg Slot.hdl hslot
      have hmem : u.w.mem = _ := congrArg Slot.mem hslot
      have hlog : u.w.log = _ := congrArg Slot.log hslot
      have hrecv : (u.e.receive inc inc.plen).core =
          { u.e.core with rcvNxt := u.e.rcvNxt + inc.plen.toUInt32 } := rfl
      simp only [Ctx.slot, hrecv, hcore, hhdl, hmem, hlog]
      rfl
    rcases sendFinAck_fin env (r := r) (.inr hstate) (.inl rfl) hk hslot' with
      ⟨hsdat, hrun⟩ | ⟨t, ret, hrun, hact⟩
    · rw [hrun]
      exact Performs.nullPointer ⟨[], congrArg Slot.log hslot⟩ hopen hsdat
    · rw [hrun]
      exact (Relation.ReflTransGen.single ⟨_, hL _ (by decide), hrcv⟩).tail
        ⟨_, hL _ (by decide), hact⟩
  · rcases sendFinAck_fin env (r := s.slot) (.inr hstate) (.inl rfl) hk hslot with
      ⟨hsdat, hrun⟩ | ⟨t, ret, hrun, hact⟩
    · rw [Program.bind_pure_apply, hrun]
      exact Performs.nullPointer ⟨[], congrArg Slot.log hslot⟩ hopen hsdat
    · rw [Program.bind_pure_apply, hrun]
      exact Performs.of_act (hL _ (by decide)) hact

theorem processClosing_performs (hL : ∀ l ∈ Label.closing, l ∈ L)
    (hstate : s.e.state = .closing) : Performs env L s (processClosing s) := by
  unfold processClosing
  rw [Program.bind_gets, Program.when]
  split
  · next hack =>
      exact enterTimeWait_performs (hL _ (by decide)) (by rw [hstate]; rfl) (.inr hack)
        fun _ _ => .pure _ _
  · exact .pure _ _

/-- In the states before the FIN is sent no segment makes the connection wait. -/
theorem processState_early (env : Env D H) (inc : Incoming)
    (hL : ∀ l ∈ Label.traffic, l ∈ L)
    (hstate : s.e.state = .synRcvd ∨ s.e.state = .synSent ∨ s.e.state = .established ∨
      s.e.state = .close) : Performs env L s (processState env inc s) := by
  unfold processState
  rw [Program.bind_gets]
  rcases hstate with hst | hst | hst | hst <;> rw [hst]
  · exact processSynRcvd_performs env inc hL hst
  · exact processSynSent_performs env inc hL hst
  · exact processEstablished_performs env inc hL hst
  · exact processClose_performs env inc hL hst

theorem processState_performs (env : Env D H) (inc : Incoming)
    (hL : ∀ l ∈ Label.reaction, l ∈ L) (hopen : s.e.state ≠ .closed) :
    Performs env L s (processState env inc s) := by
  have htraffic : ∀ l ∈ Label.traffic, l ∈ L := fun l hl => hL l (List.mem_cons_of_mem _ hl)
  have hacks : ∀ l ∈ Label.acks, l ∈ L := fun l hl => hL l (by revert l; decide)
  have hclosing : ∀ l ∈ Label.closing, l ∈ L := fun l hl => hL l (by revert l; decide)
  have hearly := processState_early (s := s) env inc htraffic
  cases hst : s.e.state with
  | synRcvd => exact hearly (.inl hst)
  | synSent => exact hearly (.inr (.inl hst))
  | established => exact hearly (.inr (.inr (.inl hst)))
  | close => exact hearly (.inr (.inr (.inr hst)))
  | closed => exact absurd hst hopen
  | _ =>
      unfold processState
      rw [Program.bind_gets, hst]
      first
        | exact processLastAck_performs env hclosing hst
        | exact processFinWait1_performs env inc hclosing hst
        | exact processFinWait2_performs env inc hclosing hst
        | exact processClosing_performs hclosing hst
        | exact sendAck_performs env hacks hopen
        | exact .pure _ _

/-! ## Segments and ticks -/

theorem Connection.core_noteWindow (e : Connection) (wnd : UInt16) :
    (e.noteWindow wnd).core = e.core := by
  unfold Connection.noteWindow
  dsimp only
  split_ifs <;> rfl

theorem Connection.core_noteAck (e : Connection) :
    e.noteAck.core = { e.core with ackdata := true } := by
  unfold Connection.noteAck
  split
  · next hack =>
      show e.core = { e.core with ackdata := true }
      rw [← hack]
      rfl
  · dsimp only
    split <;> rfl

/-- The scan clears segments, oldest first. -/
theorem ackScan_path (env : Env D H) (w : World D H) (wnd : UInt16) (ackno : UInt32) (n : Nat)
    (e : Connection) (hl : .clear ∈ L) :
    Relation.ReflTransGen (Step env.handler L) (Ctx.slot ⟨e, w⟩)
      (Ctx.slot ⟨(e.ackScan wnd ackno n).1, w⟩) := by
  have hclear : ∀ e : Connection, Relation.ReflTransGen (Step env.handler L) (Ctx.slot ⟨e, w⟩)
      (Ctx.slot ⟨e.noteAck.clearSegment, w⟩) := by
    intro e
    have hslot : (Ctx.slot ⟨e, w⟩ : Slot H).cleared = Ctx.slot ⟨e.noteAck.clearSegment, w⟩ := by
      have hcore : e.noteAck.clearSegment.core =
          { e.core with
            ackdata := true
            segments := Function.update e.core.segments e.core.segidx .cleared
            segidx := e.core.segidx + 1 } := by
        have hnote := Connection.core_noteAck e
        have hsegs : e.noteAck.segments = e.segments := (congrArg Core.segments hnote :)
        have hidx : e.noteAck.segidx = e.segidx := (congrArg Core.segidx hnote :)
        show ({ e.noteAck.core with
          segments := Function.update e.noteAck.segments e.noteAck.segidx .cleared
          segidx := e.noteAck.segidx + 1 } : Core) = _
        rw [hnote, hsegs, hidx]
        rfl
      simp only [Ctx.slot, hcore]
      rfl
    exact .single ⟨_, hl, hslot ▸ .clear⟩
  induction n generalizing e with
  | zero => exact .refl
  | succ n ih =>
      unfold Connection.ackScan
      simp only
      split_ifs
      · simp only [Ctx.slot, Connection.core_noteWindow]
        exact .refl
      all_goals first | exact .refl | exact hclear e | exact (hclear e).trans (ih _)

theorem ackScan_state (wnd : UInt16) (ackno : UInt32) (n : Nat) (e : Connection) :
    (e.ackScan wnd ackno n).1.state = e.state := by
  have hnote : ∀ e : Connection, e.noteAck.clearSegment.state = e.state := fun e =>
    congrArg Core.state (Connection.core_noteAck e)
  induction n generalizing e with
  | zero => rfl
  | succ n ih =>
      unfold Connection.ackScan
      simp only
      split_ifs
      · exact congrArg Core.state (Connection.core_noteWindow e wnd)
      all_goals first | rfl | exact hnote e | exact (ih _).trans (hnote e)

/-- The connection after the scan, and whether a retransmission is asked for. -/
def Connection.scanned (e : Connection) (inc : Incoming) : Connection × Bool :=
  if inc.has tcpAck = true ∧ e.hasOutstandingSegments = true then
    e.ackScan inc.window inc.ackno segmentCount
  else (e, false)

theorem processAck_eq (inc : Incoming) (s : Ctx D H) :
    processAck inc s = .ok (s.e.scanned inc).2 { s with e := (s.e.scanned inc).1 } := by
  unfold processAck Connection.scanned
  rw [Program.bind_gets]
  split
  · generalize s.e.ackScan inc.window inc.ackno segmentCount = scan
    rfl
  · rfl

theorem scanned_state (e : Connection) (inc : Incoming) :
    (e.scanned inc).1.state = e.state := by
  unfold Connection.scanned
  split
  · exact ackScan_state _ _ _ _
  · rfl

theorem scanned_path (env : Env D H) (w : World D H) (inc : Incoming) (e : Connection)
    (hl : .clear ∈ L) :
    Relation.ReflTransGen (Step env.handler L) (Ctx.slot ⟨e, w⟩)
      (Ctx.slot ⟨(e.scanned inc).1, w⟩) := by
  unfold Connection.scanned
  split
  · exact ackScan_path env w _ _ _ e hl
  · exact .refl

theorem processRst_performs (env : Env D H) (hnote : .note ∈ L) (hmove : .move ∈ L)
    (hlife : .life ∈ L) (hopen : s.e.state ≠ .closed) : Performs env L s (processRst env s) := by
  unfold processRst
  rw [Program.bind_gets]
  refine unlisten_performs hnote fun t ht => ?_
  refine setState_performs hmove ?_ (by simp) ?_
  · have hst : t.e.state ≠ .closed := by rw [ht]; exact hopen
    revert hst
    cases t.e.state <;> decide
  · exact callback_performs env _ (fun _ => hlife) (fun h => by cases h)
      fun _ _ _ _ _ => .pure _ _

/-- The kinds of acts caused by a segment that is not looked at any further. -/
def Label.dropped : List Label := [.news, .note, .life, .move, .control, .spare]

theorem processSegment_dropped (env : Env D H) (hL : ∀ l ∈ Label.dropped, l ∈ L)
    (hopen : s.e.state ≠ .closed)
    (hdrop : inc.has tcpRst = true ∨ s.e.outOfSequence inc = true) :
    Performs env L s (processSegment env inc s) := by
  have hacks : ∀ l ∈ Label.acks, l ∈ L := fun l hl => hL l (by revert l; decide)
  unfold processSegment
  refine Performs.bind_act (hL .news (by decide)) rfl (.news (s := s.slot)) ?_
  rw [Program.bind_gets]
  refine Program.Follows.ite (fun _ => ?_) fun hrst => ?_
  · exact processRst_performs env (hL _ (by decide)) (hL _ (by decide)) (hL _ (by decide)) hopen
  · refine Program.Follows.ite (fun _ => sendAck_performs env hacks hopen) fun hseq => ?_
    exact absurd hdrop (not_or.mpr ⟨hrst, hseq⟩)

/-- What a segment does once it has passed the sequence check. -/
theorem processSegment_scanned (hrst : inc.has tcpRst = false)
    (hseq : s.e.outOfSequence inc = false) :
    processSegment env inc s =
      (if (s.e.clearNews.scanned inc).2 then rexmit env else processState env inc)
        { s with e := (s.e.clearNews.scanned inc).1 } := by
  have hrst' : ¬inc.has tcpRst = true := by simp [hrst]
  have hseq' : ¬s.e.clearNews.outOfSequence inc = true := by
    rw [show s.e.clearNews.outOfSequence inc = s.e.outOfSequence inc from rfl, hseq]
    decide
  have hack := processAck_eq inc { s with e := s.e.clearNews }
  unfold processSegment modifyConn
  rw [Program.bind_update, Program.bind_gets, if_neg hrst', if_neg hseq',
    Program.bind_of_ok hack]

/-- After the scan only reactions follow. -/
theorem reaction_performs (env : Env D H) (inc : Incoming) (again : Bool)
    (hL : ∀ l ∈ Label.reaction, l ∈ L) (hopen : s.e.state ≠ .closed) :
    Performs env L s ((if again then rexmit env else processState env inc) s) := by
  refine Program.Follows.ite (fun _ => ?_) fun _ => processState_performs env inc hL hopen
  exact rexmit_performs env (hL _ (by decide)) (hL _ (by decide)) hopen

/-- Up to the end of the scan a segment clears the news and then some of the ring. -/
theorem processSegment_scans (env : Env D H) (inc : Incoming) (hnews : .news ∈ L)
    (hclear : .clear ∈ L) : Relation.ReflTransGen (Step env.handler L) s.slot
      (Ctx.slot ⟨(s.e.clearNews.scanned inc).1, s.w⟩) := by
  have hfirst : Step env.handler L s.slot (Ctx.slot ⟨s.e.clearNews, s.w⟩) :=
    ⟨.news, hnews, .news⟩
  exact .head hfirst (scanned_path env s.w inc s.e.clearNews hclear)

theorem processSegment_performs (env : Env D H) (inc : Incoming)
    (hL : ∀ l ∈ Label.segment, l ∈ L) (hopen : s.e.state ≠ .closed) :
    Performs env L s (processSegment env inc s) := by
  have hreact : ∀ l ∈ Label.reaction, l ∈ L := fun l hl => hL l (List.mem_append_right _ hl)
  have hdropped : ∀ l ∈ Label.dropped, l ∈ L := fun l hl => hL l (by revert l; decide)
  by_cases hdrop : inc.has tcpRst = true ∨ s.e.outOfSequence inc = true
  · exact processSegment_dropped env hdropped hopen hdrop
  · obtain ⟨hrst, hseq⟩ := not_or.mp hdrop
    rw [processSegment_scanned (by simpa using hrst) (by simpa using hseq)]
    have hscan := processSegment_scans env inc (s := s) (hL .news (by decide))
      (hL .clear (by decide))
    have hopen' : (s.e.clearNews.scanned inc).1.state ≠ .closed := by
      rw [scanned_state]
      exact hopen
    exact Program.Follows.after hscan (reaction_performs env inc _ hreact hopen')

theorem processSegment_reacts {ret : Status} {t : Ctx D H} (hopen : s.e.state ≠ .closed)
    (hrst : inc.has tcpRst = false) (hseq : s.e.outOfSequence inc = false)
    (hok : processSegment env inc s = .ok ret t) :
    Relation.ReflTransGen (Step env.handler Label.reaction)
      (Ctx.slot ⟨(s.e.clearNews.scanned inc).1, s.w⟩) t.slot := by
  rw [processSegment_scanned hrst hseq] at hok
  have hopen' : (s.e.clearNews.scanned inc).1.state ≠ .closed := by
    rw [scanned_state]
    exact hopen
  have h := reaction_performs env inc (s.e.clearNews.scanned inc).2 (fun _ h => h) hopen'
    (s := { s with e := (s.e.clearNews.scanned inc).1 })
  rwa [hok] at h

end Tulips.Tcpv4
