import Tulips.Ssl.Endpoint

/-!
# When the delegate is called

The callbacks of a delegate and its bytes wait for the handshake, but for the
acknowledgement that may be responded to: it reaches the delegate whenever
nothing is pending on the write channel.
-/

namespace Tulips.Ssl

open Program

/-! ## Logs -/

/-- The context was ready, unless no bytes were written. -/
def Event.Ready : Event → Prop
  | .onAcked _ state => state = .ready
  | .onNewData _ state _ => state = .ready
  | .write _ state data => state = .ready ∨ data = []

instance : DecidablePred Event.Ready
  | .onAcked _ _ | .onNewData _ _ _ => inferInstanceAs (Decidable (_ = _))
  | .write _ _ _ => inferInstanceAs (Decidable (_ ∨ _))

/-- Everything happened while the context was ready. -/
def Clean (log : List Event) : Prop := ∀ ev ∈ log, ev.Ready

instance (log : List Event) : Decidable (Clean log) :=
  inferInstanceAs (Decidable (∀ ev ∈ log, ev.Ready))

/-- The program records nothing. -/
def Silent {α : Type} (m : SslProgram α) : Prop :=
  ∀ P : List Event → Prop, Keeps (fun w => P w.log) m

/-- The program loses nothing that was recorded. -/
def Grows {α : Type} (m : SslProgram α) : Prop := ∀ ev, Keeps (fun w => ev ∈ w.log) m

section Rules

variable {α β : Type} {m : SslProgram α} {f : α → SslProgram β} {I : World → Prop} {key : Nat}

theorem Silent.grows (h : Silent m) : Grows m := fun ev => h (ev ∈ ·)

theorem Silent.bind (hm : Silent m) (hf : ∀ a, Silent (f a)) : Silent (m >>= f) :=
  fun P => Keeps.bind (hm P) fun a => hf a P

theorem Silent.pure (a : α) : Silent (Pure.pure a : SslProgram α) := fun _ => Keeps.pure a

theorem Silent.ite {c : Prop} [Decidable c] {n : SslProgram α} (hm : Silent m) (hn : Silent n) :
    Silent (if c then m else n) := fun P => Keeps.ite (hm P) (hn P)

theorem Grows.bind (hm : Grows m) (hf : ∀ a, Grows (f a)) : Grows (m >>= f) :=
  fun ev => Keeps.bind (hm ev) fun a => hf a ev

theorem keeps_context : Keeps I (context key) := by
  intro w hw
  unfold context
  cases w.contexts key with
  | none => exact hw
  | some c => exact hw

/-- What is known of the context in a state is known of the one a program finds
there. -/
theorem final_context_bind {f : Context → SslProgram α} {J : World → Prop} {w : World}
    (hw : J w) (h : ∀ c, w.contexts key = some c → J (final (f c w))) :
    J (final ((context key >>= f) w)) := by
  rw [bind_apply]
  unfold context
  cases hc : w.contexts key with
  | none => exact hw
  | some c => exact h c hc

theorem leads_context_bind {f : Context → SslProgram α} {J : World → Prop} {P : Context → Prop}
    (hIJ : ∀ w, I w → J w) (hP : ∀ w c, I w → w.contexts key = some c → P c)
    (h : ∀ c, P c → Leads I J (f c)) : Leads I J (context key >>= f) :=
  fun w hw => final_context_bind (hIJ w hw) fun c hc => h c (hP w c hw hc) w hw

end Rules

/-! ## What is recorded -/

section Recording

variable {key alen : Nat}

theorem silent_setContext (c : Context) : Silent (setContext key c) := fun _ _ hw => hw

theorem silent_openssl : Silent (openssl key) := by
  intro P
  refine Keeps.bind keeps_context fun c => Keeps.bind (Keeps.gets _) fun answers => ?_
  cases answers with
  | nil => exact Keeps.fault _
  | cons answer rest =>
      exact Keeps.bind (Keeps.update fun w hw => hw) fun _ =>
        Keeps.bind (silent_setContext _ P) fun _ => Keeps.pure _

theorem silent_below : Silent below := by
  intro P
  refine Keeps.bind (Keeps.gets _) fun answers => ?_
  cases answers with
  | nil => exact Keeps.fault _
  | cons answer rest => exact Keeps.bind (Keeps.update fun w hw => hw) fun _ => Keeps.pure _

theorem silent_context : Silent (context key) := fun _ => keeps_context

theorem silent_flush : Silent (Context.flush key alen) :=
  silent_context.bind fun _ => .ite (.pure _) ((silent_setContext _).bind fun _ => .pure _)

theorem silent_abortOrClose (r : Action) : Silent (Context.abortOrClose key r alen) := by
  unfold Context.abortOrClose
  refine Silent.ite (.pure _) (Silent.ite (silent_openssl.bind fun first => ?_) (.pure _))
  extract_lets finish
  have hfinish : ∀ e, Silent (finish e) := by
    intro e
    refine Silent.ite (Silent.ite (.pure _) ?_) (.pure _)
    exact silent_context.bind fun c => (silent_setContext _).bind fun _ => silent_flush
  exact Silent.ite (silent_openssl.bind hfinish) ((Silent.pure _).bind hfinish)

theorem silent_readError (answer : Answer) : Silent (Context.readError key answer) := by
  unfold Context.readError
  exact Silent.ite (.pure _) (Silent.ite (silent_openssl.bind fun _ => .pure _) (.pure _))

theorem silent_handshake : Silent (Context.handshake key alen) := by
  refine silent_openssl.bind fun e => .ite (.pure _) (.ite ?_ (.ite silent_flush (.pure _)))
  exact silent_context.bind fun c => (silent_setContext _).bind fun _ => silent_flush

theorem silent_endpoint_flush : Silent (Endpoint.flush key) := by
  refine silent_context.bind fun c => Silent.ite (.pure _) (silent_below.bind fun answer => ?_)
  exact Silent.ite ((silent_setContext _).bind fun _ => .pure _)
    ((silent_setContext _).bind fun _ => .pure _)

theorem silent_close (role : Role) (cookie : Option Nat) : Silent (Endpoint.close role cookie) := by
  cases cookie with
  | none => exact .pure _
  | some key =>
      refine silent_context.bind fun c => Silent.ite (.pure _) (Silent.ite (.pure _) ?_)
      refine (silent_setContext _).bind fun _ => silent_openssl.bind fun e => ?_
      exact Silent.ite (silent_endpoint_flush.bind fun _ => .pure _)
        (Silent.ite (silent_below.bind fun _ => .pure _) (.pure _))

theorem silent_endpoint_handshake : Silent (Endpoint.handshake key) := by
  refine silent_context.bind fun c => ?_
  cases c.state with
  | closed | accept | ready | shutdown => exact .pure _
  | connect =>
      refine silent_openssl.bind fun e => Silent.ite (.pure _) (Silent.ite ?_ ?_)
      · exact silent_context.bind fun c => (silent_setContext _).bind fun _ => .pure _
      · exact Silent.ite (.pure _) (silent_endpoint_flush.bind fun _ => .pure _)

theorem silent_connect (cookie later : Option Nat) : Silent (Endpoint.connect cookie later) := by
  cases cookie with
  | some key => exact silent_endpoint_handshake
  | none =>
      refine silent_below.bind fun answer => Silent.ite (.pure _) ?_
      cases later with
      | none => exact fun P => Keeps.fault _
      | some key => exact silent_endpoint_handshake

theorem silent_abort (cookie : Option Nat) : Silent (Endpoint.abort cookie) := by
  cases cookie with
  | none => exact .pure _
  | some key =>
      exact silent_context.bind fun c =>
        Silent.ite (.pure _) (silent_below.bind fun _ => .pure _)

theorem silent_onClosed (role : Role) (cookie : Option Nat) :
    Silent (Endpoint.onClosed role cookie) := by
  cases cookie with
  | none => exact Silent.ite (.pure _) fun P => Keeps.fault _
  | some key => exact silent_context.bind fun c P => Keeps.update fun w hw => hw

theorem grows_record (ev : Event) : Grows (record ev) := fun _ =>
  Keeps.update fun _ hw => List.mem_cons_of_mem _ hw

theorem keeps_nextReply {I : World → Prop}
    (h : ∀ w replies, I w → I { w with delegate := replies }) : Keeps I nextReply := by
  refine Keeps.bind (Keeps.gets _) fun replies => ?_
  cases replies with
  | nil => exact Keeps.fault _
  | cons reply rest => exact Keeps.bind (Keeps.update fun w => h w rest) fun _ => Keeps.pure _

theorem silent_nextReply : Silent nextReply := fun _ => keeps_nextReply fun _ _ hw => hw

theorem grows_notify (ev : Event) : Grows (notify ev) :=
  (grows_record ev).bind fun _ => silent_nextReply.grows

theorem grows_sslWrite (data : List UInt8) : Grows (sslWrite key data) :=
  silent_context.grows.bind fun _ => (grows_record _).bind fun _ => silent_openssl.grows

theorem grows_ite {α : Type} {c : Prop} [Decidable c] {m n : SslProgram α} (hm : Grows m)
    (hn : Grows n) : Grows (if c then m else n) := fun ev => Keeps.ite (hm ev) (hn ev)

theorem grows_readData (fuel : Nat) : Grows (Context.readData key fuel) := by
  induction fuel with
  | zero => exact fun _ => Keeps.fault _
  | succ fuel ih =>
      refine silent_openssl.grows.bind fun answer =>
        grows_ite (silent_readError answer).grows (silent_context.grows.bind fun c => ?_)
      exact (grows_notify _).bind fun reply => grows_ite (Silent.pure _).grows ih

theorem grows_readDataResponse (fuel acc : Nat) :
    Grows (Context.readDataResponse key alen fuel acc) := by
  induction fuel generalizing acc with
  | zero => exact fun _ => Keeps.fault _
  | succ fuel ih =>
      refine silent_openssl.grows.bind fun answer =>
        grows_ite ((silent_readError answer).grows.bind fun act => ?_)
          (silent_context.grows.bind fun c => ?_)
      · exact grows_ite silent_flush.grows (Silent.pure _).grows
      · refine (grows_notify _).bind fun reply =>
          grows_ite (silent_abortOrClose _).grows ?_
        exact (grows_sslWrite _).bind fun _ => ih _

end Recording

/-! ## While the context is ready -/

section Quiet

variable {key alen : Nat}

/-- Everything happened while its context was ready, and this one is. -/
def Quiet (key : Nat) (w : World) : Prop :=
  Clean w.log ∧ ∀ c, w.contexts key = some c → c.state = .ready

theorem Quiet.clean (w : World) (h : Quiet key w) : Clean w.log := h.1

theorem Clean.quiet {w : World} {c : Context} (hlog : Clean w.log)
    (hc : w.contexts key = some c) (hready : c.state = .ready) : Quiet key w := by
  refine ⟨hlog, fun c' hc' => ?_⟩
  rw [hc] at hc'
  cases hc'
  exact hready

theorem clean_record {ev : Event} (hev : ev.Ready) : Keeps (fun w => Clean w.log) (record ev) :=
  Keeps.update fun _ hw => List.forall_mem_cons.mpr ⟨hev, hw⟩

theorem clean_notify {ev : Event} (hev : ev.Ready) : Keeps (fun w => Clean w.log) (notify ev) :=
  Keeps.bind (clean_record hev) fun _ => silent_nextReply Clean

theorem quiet_record {ev : Event} (hev : ev.Ready) : Keeps (Quiet key) (record ev) :=
  Keeps.update fun _ hw => ⟨List.forall_mem_cons.mpr ⟨hev, hw.1⟩, hw.2⟩

theorem quiet_setContext {c : Context} (hc : c.state = .ready) :
    Keeps (Quiet key) (setContext key c) := by
  refine Keeps.update fun w hw => ⟨hw.1, fun c' hc' => ?_⟩
  simp only [if_pos, Option.some_inj] at hc'
  rw [← hc', hc]

theorem quiet_openssl : Keeps (Quiet key) (openssl key) := by
  refine leads_self.mp (leads_context_bind (fun _ hw => hw) (fun w c hw hc => hw.2 c hc)
    fun c hc => leads_self.mpr ?_)
  refine Keeps.bind (Keeps.gets _) fun answers => ?_
  cases answers with
  | nil => exact Keeps.fault _
  | cons answer rest =>
      refine Keeps.bind (Keeps.update fun w hw => hw) fun _ => ?_
      exact Keeps.bind (quiet_setContext hc) fun _ => Keeps.pure _

theorem quiet_notify {ev : Event} (hev : ev.Ready) : Keeps (Quiet key) (notify ev) :=
  Keeps.bind (quiet_record hev) fun _ => keeps_nextReply fun _ _ hw => hw

theorem quiet_sslWrite (data : List UInt8) : Keeps (Quiet key) (sslWrite key data) := by
  refine leads_self.mp (leads_context_bind (fun _ hw => hw) (fun w c hw hc => hw.2 c hc)
    fun c hc => leads_self.mpr ?_)
  exact Keeps.bind (quiet_record (.inl hc)) fun _ => quiet_openssl

theorem quiet_readError (answer : Answer) :
    Keeps (Quiet key) (Context.readError key answer) := by
  unfold Context.readError
  exact Keeps.ite (Keeps.pure _)
    (Keeps.ite (Keeps.bind quiet_openssl fun _ => Keeps.pure _) (Keeps.pure _))

theorem quiet_readData (fuel : Nat) : Keeps (Quiet key) (Context.readData key fuel) := by
  induction fuel with
  | zero => exact Keeps.fault _
  | succ fuel ih =>
      refine Keeps.bind quiet_openssl fun answer => Keeps.ite (quiet_readError answer) ?_
      refine leads_self.mp (leads_context_bind (fun _ hw => hw) (fun w c hw hc => hw.2 c hc)
        fun c hc => leads_self.mpr ?_)
      exact Keeps.bind (quiet_notify hc) fun reply => Keeps.ite (Keeps.pure _) ih

/-- The responses are written while the context is ready; in the end the delegate
may have closed it. -/
theorem quiet_readDataResponse (fuel acc : Nat) :
    Leads (Quiet key) (fun w => Clean w.log) (Context.readDataResponse key alen fuel acc) := by
  induction fuel generalizing acc with
  | zero => exact fun w hw => hw.1
  | succ fuel ih =>
      refine quiet_openssl.bind_leads (fun answer => Leads.ite ?_ ?_) Quiet.clean
      · refine (quiet_readError answer).bind_leads (fun act => Leads.ite ?_ ?_) Quiet.clean
        · exact (silent_flush Clean).leads Quiet.clean
        · exact (Keeps.pure _).leads Quiet.clean
      · refine leads_context_bind Quiet.clean (fun w c hw hc => hw.2 c hc) fun c hc => ?_
        have hev : (Event.onNewData key c.state answer.data).Ready := hc
        refine (quiet_notify hev).bind_leads (fun reply => Leads.ite ?_ ?_) Quiet.clean
        · exact (silent_abortOrClose _ Clean).leads Quiet.clean
        · exact (quiet_sslWrite _).bind_leads (fun _ => ih _) Quiet.clean

end Quiet

/-! ## Operations -/

section Operations

variable {role : Role}

theorem Silent.discard {α : Type} {m : SslProgram α} (h : Silent m) : Silent (discard m) :=
  fun P => (h P).map _

theorem Grows.discard {α : Type} {m : SslProgram α} (h : Grows m) : Grows (discard m) :=
  fun ev => (h ev).map _

/-- An operation loses nothing that was recorded. -/
theorem grows_exec (op : Op role) : Grows op.exec := by
  cases op with
  | onConnected key => exact (silent_setContext _).grows
  | onAcked key =>
      refine Grows.discard (silent_context.grows.bind fun c => grows_ite (Silent.pure _).grows ?_)
      exact (grows_notify _).bind fun _ => (Silent.pure _).grows
  | onAckedResponse key alen =>
      refine Grows.discard (silent_context.grows.bind fun c =>
        (silent_setContext _).grows.bind fun _ => grows_ite silent_flush.grows ?_)
      refine (grows_notify _).bind fun reply => grows_ite (silent_abortOrClose _).grows ?_
      exact (grows_sslWrite _).bind fun _ => silent_flush.grows
  | onNewData key =>
      refine Grows.discard (silent_context.grows.bind fun c => grows_ite (Silent.pure _).grows ?_)
      exact fun ev => Keeps.bind (Keeps.gets _) fun answers => grows_readData _ ev
  | onNewDataResponse key alen =>
      refine Grows.discard (silent_context.grows.bind fun c => ?_)
      cases c.state with
      | closed => exact (Silent.pure _).grows
      | connect | accept => exact silent_handshake.grows
      | ready =>
          exact fun ev => Keeps.bind (Keeps.gets _) fun answers => grows_readDataResponse _ _ ev
      | shutdown => exact (silent_openssl.bind fun _ => .pure _).grows
  | onClosed cookie => exact (silent_onClosed role cookie).grows
  | send cookie data off =>
      refine Grows.discard ?_
      cases cookie with
      | none => exact (Silent.pure _).grows
      | some key =>
          refine silent_context.grows.bind fun c => grows_ite (Silent.pure _).grows
            (grows_ite (Silent.pure _).grows ?_)
          exact (grows_sslWrite _).bind fun _ =>
            (silent_endpoint_flush.bind fun _ => .pure _).grows
  | close cookie => exact (silent_close role cookie).discard.grows
  | connect cookie later => exact (silent_connect cookie later).discard.grows
  | abort cookie => exact (silent_abort cookie).discard.grows

/-- An acknowledgement that may be responded to finds the context ready, or
something pending on its write channel. -/
def Op.Guarded : Op role → World → Prop
  | .onAckedResponse key _, w => ∀ c, w.contexts key = some c → c.state = .ready ∨ c.bout ≠ []
  | _, _ => True

/-- The delegate hears of the acknowledgement, whatever the state. -/
theorem onAcked_records {key alen : Nat} {w : World} {c : Context}
    (hc : w.contexts key = some c) (hbout : c.bout = []) :
    .onAcked key c.state ∈ (final (Context.onAcked key alen w)).log := by
  obtain ⟨state, bout, blocked⟩ := c
  subst hbout
  let w' : World := { w with
    contexts := fun k => if k = key then some ⟨state, [], false⟩ else w.contexts k
    log := .onAcked key state :: w.log }
  have hrest : Grows (nextReply >>= fun reply =>
      if reply.action ≠ .continue then Context.abortOrClose key reply.action alen
      else do
        let _ ← sslWrite key (reply.response.take alen)
        Context.flush key alen) :=
    silent_nextReply.grows.bind fun reply => grows_ite (silent_abortOrClose _).grows
      ((grows_sslWrite _).bind fun _ => silent_flush.grows)
  have hmem := leads_self.mpr (hrest (.onAcked key state)) w' List.mem_cons_self
  have hrun : context key w = .ok ⟨state, [], blocked⟩ w := by rw [context, hc]
  rw [Context.onAcked, bind_of_ok hrun]
  exact hmem

theorem clean_onAcked (key : Nat) : Keeps (fun w => Clean w.log) (Endpoint.onAcked key) := by
  refine Keeps.bind keeps_context fun c => ?_
  split
  · exact Keeps.pure _
  · next hc =>
      have hev : (Event.onAcked key c.state).Ready := Decidable.not_not.mp hc
      exact Keeps.bind (clean_notify hev) fun _ => Keeps.pure _

/-- The acknowledgement flushes what is pending, or finds the context ready. -/
theorem clean_onAckedResponse {key alen : Nat} {w : World} (hlog : Clean w.log)
    (hguard : ∀ c, w.contexts key = some c → c.state = .ready ∨ c.bout ≠ []) :
    Clean (final (Endpoint.onAckedResponse key alen w)).log := by
  refine final_context_bind (J := fun w => Clean w.log) hlog fun c hc => ?_
  by_cases hbout : c.bout = []
  · have hready : c.state = .ready := (hguard c hc).resolve_right fun h => h hbout
    have hev : (Event.onAcked key c.state).Ready := hready
    have hready' : ({ c with blocked := false } : Context).state = .ready := hready
    rw [if_neg fun h => h hbout]
    refine (quiet_setContext hready').bind_leads (fun _ => ?_) Quiet.clean w
      (hlog.quiet hc hready)
    refine (quiet_notify hev).bind_leads (fun reply => Leads.ite ?_ ?_) Quiet.clean
    · exact (silent_abortOrClose _ Clean).leads Quiet.clean
    · exact ((quiet_sslWrite _).bind_leads
        (fun _ => (silent_flush Clean).leads Quiet.clean) Quiet.clean)
  · rw [if_pos hbout]
    exact leads_self.mpr ((silent_setContext _).bind (fun _ => silent_flush) Clean) w hlog

theorem clean_onNewData {key : Nat} {w : World} (hlog : Clean w.log) :
    Clean (final (Endpoint.onNewData key w)).log := by
  refine final_context_bind (J := fun w => Clean w.log) hlog fun c hc => ?_
  split
  · exact hlog
  · next hstate =>
      have hquiet : Quiet key w := hlog.quiet hc (Decidable.not_not.mp hstate)
      refine Keeps.bind_leads (Keeps.gets World.openssl) (fun answers => ?_) Quiet.clean w hquiet
      exact fun w hw => ((quiet_readData (answers.length + 1)).leads (fun _ h => h) w hw).1

theorem clean_onNewDataResponse {key alen : Nat} {w : World} (hlog : Clean w.log) :
    Clean (final (Endpoint.onNewDataResponse key alen w)).log := by
  refine final_context_bind (J := fun w => Clean w.log) hlog fun c hc => ?_
  have hsilent : ∀ {m : SslProgram (Action × List UInt8)}, Silent m → Clean (final (m w)).log :=
    fun h => leads_self.mpr (h Clean) w hlog
  cases hstate : c.state with
  | closed => exact hlog
  | connect => exact hsilent silent_handshake
  | accept => exact hsilent silent_handshake
  | shutdown => exact hsilent (silent_openssl.bind fun _ => .pure _)
  | ready =>
      refine Keeps.bind_leads (Keeps.gets World.openssl) (fun answers => ?_) Quiet.clean w
        (hlog.quiet hc hstate)
      exact quiet_readDataResponse (answers.length + 1) 0

theorem clean_send {cookie : Option Nat} {data : List UInt8} {off : UInt32} {w : World}
    (hlog : Clean w.log) : Clean (final (Endpoint.send cookie data off w)).log := by
  cases cookie with
  | none => exact hlog
  | some key =>
      refine final_context_bind (J := fun w => Clean w.log) hlog fun c hc => ?_
      split
      · exact hlog
      · next hstate =>
          split
          · exact hlog
          · have hquiet : Quiet key w := hlog.quiet hc (Decidable.not_not.mp hstate)
            refine (quiet_sslWrite data).bind_leads (fun _ => ?_) Quiet.clean w hquiet
            exact ((silent_endpoint_flush.bind fun _ => .pure _) Clean).leads Quiet.clean

/-- What a program ends in does not depend on its value. -/
theorem final_discard {α : Type} (m : SslProgram α) (w : World) :
    final (discard m w) = final (m w) := by
  change final ((m >>= fun _ => pure ()) w) = _
  rw [bind_apply]
  cases m w with
  | ok a w' => rfl
  | error e w' => rfl

/-- A guarded operation does everything while the context is ready. -/
theorem clean_exec {op : Op role} {w : World} (hlog : Clean w.log) (hguard : op.Guarded w) :
    Clean (final (op.exec w)).log := by
  cases op with
  | onConnected key => exact hlog
  | onAcked key =>
      rw [Op.exec, final_discard]
      exact leads_self.mpr (clean_onAcked key) w hlog
  | onAckedResponse key alen =>
      rw [Op.exec, final_discard]
      exact clean_onAckedResponse hlog hguard
  | onNewData key =>
      rw [Op.exec, final_discard]
      exact clean_onNewData hlog
  | onNewDataResponse key alen =>
      rw [Op.exec, final_discard]
      exact clean_onNewDataResponse hlog
  | send cookie data off =>
      rw [Op.exec, final_discard]
      exact clean_send hlog
  | onClosed cookie => exact leads_self.mpr (silent_onClosed role cookie Clean) w hlog
  | close cookie => exact leads_self.mpr ((silent_close role cookie).discard Clean) w hlog
  | connect cookie later =>
      exact leads_self.mpr ((silent_connect cookie later).discard Clean) w hlog
  | abort cookie => exact leads_self.mpr ((silent_abort cookie).discard Clean) w hlog

/-- An operation does everything while the context is ready exactly when it is
guarded. -/
theorem clean_exec_iff {op : Op role} {w : World} (hlog : Clean w.log) :
    Clean (final (op.exec w)).log ↔ op.Guarded w := by
  refine ⟨fun hclean => ?_, clean_exec hlog⟩
  cases op with
  | onAckedResponse key alen =>
      intro c hc
      by_cases hbout : c.bout = []
      · have hmem : .onAcked key c.state ∈ (final (Context.onAcked key alen w)).log :=
          onAcked_records hc hbout
        rw [Op.exec, final_discard] at hclean
        exact .inl (hclean _ hmem)
      · exact .inr hbout
  | onConnected _ | onAcked _ | onNewData _ | onNewDataResponse _ _ | onClosed _ | send _ _ _
  | close _ | connect _ _ | abort _ => trivial

/-- Every acknowledgement of a run that may be responded to is guarded. -/
def Op.AllGuarded : List (Op role) → World → Prop
  | [], _ => True
  | op :: ops, w => op.Guarded w ∧ ∀ w', op.exec w = .ok () w' → AllGuarded ops w'

theorem grows_execAll (ops : List (Op role)) : Grows (Op.execAll ops) := by
  induction ops with
  | nil => exact (Silent.pure _).grows
  | cons op ops ih => exact (grows_exec op).bind fun _ => ih

theorem clean_of_grows {α : Type} {m : SslProgram α} (hm : Grows m) {w : World}
    (hclean : Clean (final (m w)).log) : Clean w.log :=
  fun ev hev => hclean ev (leads_self.mpr (hm ev) w hev)

theorem clean_execAll_iff {ops : List (Op role)} {w : World} (hlog : Clean w.log) :
    Clean (final (Op.execAll ops w)).log ↔ Op.AllGuarded ops w := by
  induction ops generalizing w with
  | nil => exact iff_of_true hlog trivial
  | cons op ops ih =>
      rw [Op.execAll, bind_apply, Op.AllGuarded]
      have hop : Clean (final (op.exec w)).log ↔ op.Guarded w := clean_exec_iff hlog
      cases hexec : op.exec w with
      | error e w' =>
          rw [hexec] at hop
          simpa using hop
      | ok a w' =>
          rw [hexec] at hop
          constructor
          · intro hclean
            have hw' : Clean w'.log := clean_of_grows (grows_execAll ops) hclean
            refine ⟨hop.mp hw', fun v hv => ?_⟩
            cases hv
            exact (ih hw').mp hclean
          · rintro ⟨hguard, hrest⟩
            exact (ih (hop.mpr hguard)).mpr (hrest w' rfl)

end Operations

/-! ## Runs -/

/-- There is no connection yet. -/
def World.initial (openssl : List Answer) (delegate : List Reply) (below : List (Status × Nat)) :
    World :=
  ⟨fun _ => none, openssl, delegate, below, []⟩

/-- The delegate is called and its bytes are written only while the context is
ready, exactly when every acknowledgement that may be responded to finds the
context ready or something pending on its write channel. -/
theorem callbacks_ready (role : Role) (ops : List (Op role)) (openssl : List Answer)
    (delegate : List Reply) (below : List (Status × Nat)) :
    Clean (final (Op.execAll ops (.initial openssl delegate below))).log ↔
      Op.AllGuarded ops (.initial openssl delegate below) :=
  clean_execAll_iff fun _ hev => by cases hev

/-- The client hello is sent and acknowledged: the delegate responds before the
handshake is done. -/
theorem not_callbacks_ready :
    ¬ ∀ (role : Role) (ops : List (Op role)) (openssl : List Answer) (delegate : List Reply)
      (below : List (Status × Nat)),
      Clean (final (Op.execAll ops (.initial openssl delegate below))).log := by
  intro h
  have hclean := h .client [.onConnected 0, .connect (some 0) none, .onAckedResponse 0 1460]
    [⟨-1, .wantRead, [], [22, 3, 1]⟩, ⟨-1, .wantRead, [], []⟩] [⟨.continue, [104, 105]⟩]
    [(.ok, 3)]
  revert hclean
  decide +kernel

end Tulips.Ssl
