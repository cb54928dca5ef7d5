import Tulips.Machine.Traffic

/-!
# What the programs of a connection keep

Most of what the processor does to a connection leaves its terms alone: whom it
is with, its state, and what was agreed on with the peer. A property of a
connection and its history is calm if it depends on no more than that. The
programs below are gone through once, for every calm property.
-/

namespace Tulips.Tcpv4

open Program

variable {D H : Type}

/-! ## Calm properties -/

/-- The part of a connection that its traffic leaves alone. -/
structure Terms where
  id : UInt16
  rethaddr : Ethernet.Address
  ripaddr : Ipv4.Address
  lport : Port
  rport : Port
  state : State
  wndscl : UInt8
  wnd : UInt16
  initialmss : UInt16

def Connection.terms (e : Connection) : Terms where
  id := e.id
  rethaddr := e.rethaddr
  ripaddr := e.ripaddr
  lport := e.lport
  rport := e.rport
  state := e.state
  wndscl := e.wndscl
  wnd := e.wnd
  initialmss := e.initialmss

/-- A property of the terms of a connection and of the ports of the device. -/
structure Calm (I : Ctx D H → Prop) : Prop where
  conn : ∀ {s : Ctx D H} {e : Connection}, e.terms = s.e.terms → I s → I ⟨e, s.w⟩
  world : ∀ {s : Ctx D H} {w : World D H}, Quietly s.w w → I s → I ⟨s.e, w⟩

/-- A calm property that survives a change of state within the life of a connection. -/
structure Steady (I : Ctx D H → Prop) : Prop extends Calm I where
  move : ∀ {s : Ctx D H} {st : State}, st ≠ .closed → st ≠ .synSent → I s →
    I ⟨{ s.e with state := st }, s.w⟩

/-- A steady property that does not depend on the window of the peer. -/
structure Windowless (I : Ctx D H → Prop) : Prop extends Steady I where
  window : ∀ {s : Ctx D H} {wnd : UInt16}, I s → I ⟨{ s.e with wnd := wnd }, s.w⟩

/-- The connection is closed, and the device told to let go of its port. -/
def Ctx.closing (env : Env D H) (s : Ctx D H) : Ctx D H where
  e := { s.e with state := .closed }
  w := { s.w with
    dev := env.device.unlisten s.w.dev s.e.lport
    log := .unlisten s.e.lport :: s.w.log }

/-- What holds of a connection as long as it is open, and what holds of it when
it may have been closed. -/
structure Closes (env : Env D H) (I J : Ctx D H → Prop) : Prop where
  calm : Calm J
  of_open : ∀ {s : Ctx D H}, I s → J s
  alive : ∀ {s : Ctx D H}, J s → s.e.state ≠ .closed → I s
  closing : ∀ {s : Ctx D H}, J s → J (s.closing env)

/-- A closed connection stays so. -/
theorem closed_closes (env : Env D H) :
    Closes env (fun s => s.e.state = .closed) fun s => s.e.state = .closed where
  calm :=
    { conn := fun heq hs => (congrArg Terms.state heq).trans hs
      world := fun _ hs => hs }
  of_open := id
  alive := fun hs _ => hs
  closing := fun _ => rfl

/-- Options only concern what is agreed on. -/
theorem Connection.terms_parseOptions (e : Connection) (inc : Incoming) :
    (e.parseOptions inc).terms = { e.terms with
      wndscl := (e.parseOptions inc).wndscl
      wnd := (e.parseOptions inc).wnd
      initialmss := (e.parseOptions inc).initialmss } := by
  have hcore := e.core_parseOptions inc
  simp only [terms, Terms.mk.injEq, and_true]
  exact ⟨congrArg Core.id hcore, congrArg (fun c => c.peer.rethaddr) hcore,
    congrArg (fun c => c.peer.ripaddr) hcore, congrArg (fun c => c.peer.lport) hcore,
    congrArg (fun c => c.peer.rport) hcore, congrArg Core.state hcore⟩

/-! ## Keeping a property -/

section Changing

variable {I : Ctx D H → Prop}

theorem Connection.terms_of_posture {e e' : Connection} (h : e.posture = e'.posture) :
    e.terms = e'.terms := by
  have hterms : e.posture.terms = e'.posture.terms := congrArg Connection.terms h
  exact hterms

/-- Sending keeps every calm property. -/
theorem Calm.keeps {α : Type} (hI : Calm I) {x : ConnProgram D H α} (hx : Sends x) :
    Keeps I x := by
  apply Relates.keeps hx
  intro s t h hs
  have hconn : I ⟨t.e, s.w⟩ := hI.conn (Connection.terms_of_posture h.posture) hs
  exact hI.world (s := ⟨t.e, s.w⟩) h.quietly hconn

/-- A change of fields that are not among the terms. -/
theorem Calm.modifyConn (hI : Calm I) {f : Connection → Connection}
    (hf : ∀ e, (f e).terms = e.terms) : Keeps I (modifyConn f) := by
  apply Keeps.update
  intro s hs
  exact hI.conn (hf s.e) hs

theorem Calm.modify_bind {α : Type} (hI : Calm I) {f : Connection → Connection}
    {k : Unit → ConnProgram D H α} (hf : ∀ e, (f e).terms = e.terms) (hk : Keeps I (k ())) :
    Keeps I (Tcpv4.modifyConn f >>= k) := Keeps.bind (hI.modifyConn hf) fun _ => hk

theorem Steady.setState (hI : Steady I) {st : State} (hclosed : st ≠ .closed)
    (hsyn : st ≠ .synSent) : Keeps I (setState st) := by
  apply Keeps.update
  intro s hs
  exact hI.move hclosed hsyn hs

theorem Keeps.gets_bind {α β : Type} {g : Ctx D H → β} {f : β → ConnProgram D H α}
    (h : ∀ b, Keeps I (f b)) : Keeps I (.gets g >>= f) := Keeps.bind (Keeps.gets g) h

theorem Steady.sendClose (hI : Steady I) (env : Env D H) : Keeps I (sendClose env) := by
  apply Keeps.gets_bind
  intro e
  apply Keeps.ite (Keeps.pure _)
  apply Keeps.bind (hI.setState (by decide) (by decide))
  intro _
  exact hI.keeps ((sends_bears env).pushFinAck)

end Changing

/-! ## Receiving -/

section Receiving

variable {I : Ctx D H → Prop} (env : Env D H) (inc : Incoming)

namespace Calm

variable (hI : Calm I)

include hI

theorem skipPayload : Keeps I (skipPayload inc) := Keeps.when (hI.modifyConn fun _ => rfl)

theorem acknowledgeFin : Keeps I (acknowledgeFin env) := by
  refine hI.modify_bind (fun _ => rfl) ?_
  apply Keeps.bind (hI.keeps (callback_sends env _))
  intro _
  exact hI.keeps ((sends_bears env).sendAck env)

end Calm

namespace Steady

variable (hI : Steady I)

include hI

theorem processSynRcvd : Keeps I (processSynRcvd env inc) := by
  apply Keeps.gets_bind
  intro e
  apply Keeps.ite _ (Keeps.pure _)
  apply Keeps.bind (hI.setState (by decide) (by decide))
  intro _
  apply Keeps.bind (hI.keeps (callback_sends env _))
  intro _
  apply Keeps.ite _ (Keeps.pure _)
  refine hI.modify_bind (fun _ => rfl) ?_
  apply Keeps.bind (hI.keeps (deliver_sends env inc))
  intro _
  exact hI.keeps ((sends_bears env).sendAck env)

theorem processFin : Keeps I (processFin env inc) := by
  apply Keeps.gets_bind
  intro e
  apply Keeps.ite (Keeps.pure _)
  refine hI.modify_bind (fun _ => rfl) ?_
  apply Keeps.bind (Keeps.when (hI.keeps (deliver_sends env inc)))
  intro _
  apply Keeps.bind (hI.setState (by decide) (by decide))
  intro _
  exact hI.keeps ((sends_bears env).pushFinAck)

theorem enterTimeWait : Keeps I enterTimeWait :=
  Keeps.bind (hI.setState (by decide) (by decide)) fun _ => hI.modifyConn fun _ => rfl

theorem processFinWait1 : Keeps I (processFinWait1 env inc) := by
  apply Keeps.bind (hI.skipPayload inc)
  intro _
  apply Keeps.gets_bind
  intro e
  apply Keeps.ite
  · extract_lets last
    apply Keeps.ite
    · exact Keeps.bind hI.enterTimeWait fun _ => hI.acknowledgeFin env
    · exact Keeps.bind (hI.setState (by decide) (by decide)) fun _ => hI.acknowledgeFin env
  · apply Keeps.ite
    · exact Keeps.bind (hI.setState (by decide) (by decide)) fun _ => Keeps.pure _
    · exact Keeps.ite (hI.keeps ((sends_bears env).sendAck env)) (Keeps.pure _)

theorem processFinWait2 : Keeps I (processFinWait2 env inc) := by
  apply Keeps.bind (hI.skipPayload inc)
  intro _
  apply Keeps.ite
  · exact Keeps.bind hI.enterTimeWait fun _ => hI.acknowledgeFin env
  · exact Keeps.ite (hI.keeps ((sends_bears env).sendAck env)) (Keeps.pure _)

theorem processClose : Keeps I (processClose env inc) := by
  apply Keeps.gets_bind
  intro e
  apply Keeps.ite (Keeps.pure _)
  apply Keeps.bind (hI.setState (by decide) (by decide))
  intro _
  apply Keeps.bind (hI.keeps ((sends_bears env).pushSegment _))
  intro i
  apply Keeps.bind
  · exact Keeps.when (hI.modifyConn fun _ => rfl)
  · intro _
    exact hI.keeps ((sends_bears env).sendFinAck i)

theorem processClosing : Keeps I processClosing :=
  Keeps.gets_bind fun _ => Keeps.bind (Keeps.when hI.enterTimeWait) fun _ => Keeps.pure _

theorem close : Keeps I (close env) := by
  apply Keeps.gets_bind
  intro e
  apply Keeps.ite (Keeps.pure _)
  apply Keeps.ite
  · exact Keeps.bind (hI.setState (by decide) (by decide)) fun _ => Keeps.pure _
  · exact Keeps.bind (hI.keeps ((sends_bears env).setFlags _ _ _)) fun _ => hI.sendClose env

end Steady

/-! ### The scan -/

theorem Windowless.clearSegment (hI : Windowless I) {e : Connection} {w : World D H}
    (h : I ⟨e, w⟩) : I ⟨e.noteAck.clearSegment, w⟩ := by
  refine hI.conn (s := ⟨e, w⟩) ?_ h
  unfold Connection.noteAck
  split
  · rfl
  · dsimp only
    split <;> rfl

theorem Windowless.noteWindow (hI : Windowless I) {e : Connection} {w : World D H}
    (wnd : UInt16) (h : I ⟨e, w⟩) : I ⟨e.noteWindow wnd, w⟩ := by
  unfold Connection.noteWindow
  split
  · refine hI.conn (s := ⟨{ e with wnd := wnd }, w⟩) ?_ (hI.window (s := ⟨e, w⟩) h)
    dsimp only
    split <;> rfl
  · exact h

/-- Only a change of the window can come out of the scan. -/
theorem Windowless.ackScan (hI : Windowless I) (wnd : UInt16) (ackno : UInt32) (k : Nat)
    {e : Connection} {w : World D H} (h : I ⟨e, w⟩) : I ⟨(e.ackScan wnd ackno k).1, w⟩ := by
  induction k generalizing e with
  | zero => exact h
  | succ k ih =>
      have hclear := hI.clearSegment h
      unfold Connection.ackScan
      dsimp only
      generalize (if ackno < e.segment.seq then ackno.toNat + 2 ^ 32 else ackno.toNat) = acklm
      split
      · exact hI.noteWindow wnd h
      split
      · exact h
      split
      · exact hclear
      · exact ih hclear

theorem Windowless.scanned (hI : Windowless I) {e : Connection} {w : World D H} (h : I ⟨e, w⟩) :
    I ⟨(e.scanned inc).1, w⟩ := by
  unfold Connection.scanned
  split
  · exact hI.ackScan _ _ _ h
  · exact h

theorem Windowless.processAck (hI : Windowless I) : Keeps I (processAck inc) := by
  intro s hs
  rw [processAck_eq]
  exact hI.scanned inc hs

end Receiving

/-! ## Programs that may close a connection -/

section Closing

variable {I J : Ctx D H → Prop}

theorem Leads.gets_bind {α β : Type} {g : Ctx D H → β} {f : β → ConnProgram D H α}
    (h : ∀ b, Leads I J (f b)) : Leads I J (.gets g >>= f) := by
  intro s hs
  rw [Program.bind_gets]
  exact h _ s hs

namespace Closes

variable {env : Env D H} (hC : Closes env I J)

include hC

/-- What stays open. -/
theorem of_keeps {α : Type} {x : ConnProgram D H α} (h : Keeps I x) : Leads I J x :=
  fun s hs => hC.of_open (leads_self.mpr h s hs)

theorem bind {α β : Type} {x : ConnProgram D H α} {f : α → ConnProgram D H β} (hx : Keeps I x)
    (hf : ∀ a, Leads I J (f a)) : Leads I J (x >>= f) :=
  Keeps.bind_leads hx hf fun _ hs => hC.of_open hs

theorem modify_bind {α : Type} (hI : Calm I) {f : Connection → Connection}
    {k : Unit → ConnProgram D H α} (hf : ∀ e, (f e).terms = e.terms) (hk : Leads I J (k ())) :
    Leads I J (modifyConn f >>= k) := hC.bind (hI.modifyConn hf) fun _ => hk

omit hC in
/-- What follows the end of a connection. -/
theorem close_bind {α : Type} {f : ConnProgram D H α} {s : Ctx D H} (hs : J (s.closing env))
    (hf : Keeps J f) : J (final ((onWorld (deviceUnlisten env s.e.lport) >>= fun _ =>
      setState .closed >>= fun _ => f) s)) := leads_self.mpr hf _ hs

theorem sendAbort_at {s : Ctx D H} (hs : J (s.closing env)) :
    J (final (Tcpv4.sendAbort env s)) := by
  unfold Tcpv4.sendAbort
  rw [bind_gets]
  apply close_bind hs
  apply Keeps.bind (hC.calm.keeps ((sends_bears env).setFlags _ _ _))
  intro _
  exact hC.calm.keeps ((sends_bears env).sendControl env)

theorem processRst_at {s : Ctx D H} (hs : J (s.closing env)) :
    J (final (Tcpv4.processRst env s)) := by
  unfold Tcpv4.processRst
  rw [bind_gets]
  apply close_bind hs
  exact Keeps.bind (hC.calm.keeps (callback_sends env _)) fun _ => Keeps.pure _

theorem sendAbort_keeps : Keeps J (sendAbort env) := by
  apply leads_self.mp
  intro s hs
  exact hC.sendAbort_at (hC.closing hs)

theorem abort_at {s : Ctx D H} (hs : J (s.closing env)) : J (final (Tcpv4.abort env s)) := by
  unfold Tcpv4.abort
  rw [bind_gets]
  apply close_bind hs
  apply Keeps.bind (hC.calm.keeps (callback_sends env _))
  intro _
  exact Keeps.bind (hC.calm.keeps ((sends_bears env).setFlags _ _ _)) fun _ => hC.sendAbort_keeps

theorem sendAbort : Leads I J (sendAbort env) := by
  intro s hs
  exact hC.sendAbort_at (hC.closing (hC.of_open hs))

theorem processRst : Leads I J (processRst env) := by
  intro s hs
  exact hC.processRst_at (hC.closing (hC.of_open hs))

theorem abort : Keeps J (abort env) := by
  apply leads_self.mp
  intro s hs
  exact hC.abort_at (hC.closing hs)

theorem processLastAck : Leads I J (processLastAck env) := by
  intro s hs
  unfold Tcpv4.processLastAck
  rw [bind_gets]
  refine Leads.bind_keeps (I := fun t => t = s) ?_ (fun _ => Keeps.pure _) s rfl
  rintro t rfl
  unfold Program.when
  split
  · apply close_bind (hC.closing (hC.of_open hs))
    exact Keeps.bind (hC.calm.keeps (callback_sends env _)) fun _ => Keeps.pure ()
  · exact hC.of_open hs

variable (hI : Steady I)

include hI

theorem respond {cb : Option UInt32 → Callback} {canSend : Bool} {next : ConnProgram D H Status}
    (hnext : Leads I J next) : Leads I J (respond env cb canSend next) := by
  apply Leads.gets_bind
  intro e
  apply hC.bind (hI.keeps (callback_sends env _))
  intro reply
  apply hC.bind (Keeps.when (hI.keeps ((sends_bears env).onWorld (store_mute _ _ _ _))))
  intro _
  cases reply.action with
  | abort => exact hC.sendAbort
  | close => exact hC.of_keeps (hI.sendClose env)
  | «continue» =>
      apply hC.bind
      · apply Keeps.when
        exact Keeps.gets_bind fun bytes => hI.keeps (accept_sends bytes)
      · intro _
        exact hnext

theorem notifyNewData (inc : Incoming) {canSend : Bool} {next : ConnProgram D H Status}
    (hnext : Leads I J next) : Leads I J (notifyNewData env inc canSend next) := by
  apply Leads.gets_bind
  intro e
  apply Leads.ite _ hnext
  apply Leads.ite (hC.respond hI hnext)
  apply hC.bind (hI.keeps ((sends_bears env).sendAck env))
  intro ret
  apply hC.bind (hI.keeps ((sends_bears env).record rfl))
  intro _
  exact Leads.ite (hC.of_keeps (Keeps.pure _)) (hC.respond hI hnext)

theorem notifyAcked {canSend : Bool} {next : Bool → ConnProgram D H Status}
    (hnext : ∀ can, Leads I J (next can)) : Leads I J (notifyAcked env canSend next) := by
  apply Leads.gets_bind
  intro e
  apply Leads.ite _ (hnext _)
  apply hC.respond hI
  exact Leads.gets_bind fun e => hnext _

omit hC in
/-- What follows the window update in ESTABLISHED. -/
theorem afterUpdate (hC : Closes env I J) (inc : Incoming) : Leads I J (do
    let e ← .gets Ctx.e
    if e.ackdata = true ∨ e.newdata = true then
      Tcpv4.notifyAcked env e.canSend fun canSend =>
        Tcpv4.notifyNewData env inc canSend (flush env canSend)
    else pure .ok) := by
  apply Leads.gets_bind
  intro e
  apply Leads.ite _ (hC.of_keeps (Keeps.pure _))
  apply hC.notifyAcked hI
  intro can
  exact hC.notifyNewData hI inc (hC.of_keeps (hI.keeps ((sends_bears env).flush can)))

variable (inc : Incoming)

/-- Segments in ESTABLISHED, for a property that does not depend on the window. -/
theorem processEstablished (hW : Windowless I) : Leads I J (processEstablished env inc) := by
  apply Leads.ite (hC.of_keeps (hI.processFin env inc))
  apply hC.bind
  · exact Keeps.when (hI.modifyConn fun _ => rfl)
  · intro _
    apply hC.bind
    · apply Keeps.update
      intro s hs
      exact hI.conn (s := ⟨{ s.e with wnd := inc.window }, s.w⟩) rfl (hW.window hs)
    · intro _
      exact hC.afterUpdate hI inc

omit hI in
/-- The switch over the states, given what the answer to a SYN does. -/
theorem processState (hW : Windowless I)
    (hsyn : ∀ s, I s → s.e.state = .synSent → J (final (processSynSent env inc s))) :
    Leads I J (processState env inc) := by
  intro s hs
  unfold Tcpv4.processState
  rw [bind_gets]
  cases hstate : s.e.state with
  | synRcvd => exact hC.of_keeps (hW.processSynRcvd env inc) s hs
  | synSent => exact hsyn s hs hstate
  | established => exact hC.processEstablished hW.toSteady inc hW s hs
  | lastAck => exact hC.processLastAck s hs
  | finWait1 => exact hC.of_keeps (hW.processFinWait1 env inc) s hs
  | finWait2 => exact hC.of_keeps (hW.processFinWait2 env inc) s hs
  | timeWait => exact hC.of_keeps (hW.keeps ((sends_bears env).sendAck env)) s hs
  | close => exact hC.of_keeps (hW.processClose env inc) s hs
  | closing => exact hC.of_keeps hW.processClosing s hs
  | stopped | closed => exact hC.of_open hs

omit hI in
theorem processSegment (hW : Windowless I)
    (hsyn : ∀ s, I s → s.e.state = .synSent → J (final (processSynSent env inc s))) :
    Leads I J (processSegment env inc) := by
  refine hC.modify_bind hW.toCalm (fun _ => rfl) ?_
  apply Leads.gets_bind
  intro e
  apply Leads.ite hC.processRst
  apply Leads.ite (hC.of_keeps (hW.keeps ((sends_bears env).sendAck env)))
  apply hC.bind (hW.processAck inc)
  intro again
  exact Leads.ite (hC.of_keeps (hW.keeps ((sends_bears env).rexmit))) (hC.processState inc hW hsyn)

omit hI in
/-- The answer to a SYN, for a property that does not depend on what it brings. -/
theorem processSynSent (hI : Steady I)
    (hanswer : ∀ s e, I s → e.terms = { s.e.terms with
      wndscl := e.wndscl, wnd := e.wnd, initialmss := e.initialmss } → I ⟨e, s.w⟩) :
    Leads I J (processSynSent env inc) := by
  apply Leads.gets_bind
  intro e
  apply Leads.ite
  · apply hC.bind (hI.setState (by decide) (by decide))
    intro _
    apply hC.bind (hI.keeps ((sends_bears env).record rfl))
    intro _
    apply hC.bind
    · apply Keeps.update
      intro s hs
      exact hanswer s _ hs rfl
    · intro _
      apply hC.bind
      · apply Keeps.update
        intro s hs
        exact hanswer s _ hs (s.e.terms_parseOptions inc)
      · intro _
        apply hC.of_keeps
        apply Keeps.bind (hI.keeps (callback_sends env _))
        intro _
        apply Keeps.bind
        · apply Keeps.when
          exact hI.modify_bind (fun _ => rfl) (hI.keeps (deliver_sends env inc))
        · intro _
          exact hI.keeps ((sends_bears env).sendAck env)
  · apply hC.bind (hI.keeps (callback_sends env _))
    intro _
    exact hC.sendAbort

/-! ### Ticks -/

omit hI in
theorem tickWaiting (hI : Calm I) : Leads I J (tickWaiting env) := by
  refine hC.modify_bind hI (fun _ => rfl) ?_
  intro s hs
  rw [bind_gets]
  unfold Program.when
  split
  · exact hC.closing (hC.of_open hs)
  · exact hC.of_open hs

theorem tickOutstanding : Leads I J (tickOutstanding env) := by
  refine hC.modify_bind hI.toCalm (fun _ => rfl) ?_
  apply Leads.gets_bind
  intro e
  apply Leads.ite (hC.of_keeps (Keeps.pure _))
  apply Leads.ite
  · apply hC.bind (hI.keeps (callback_sends env _))
    intro _
    exact Keeps.leads (Keeps.map hC.sendAbort_keeps _) fun _ hs => hC.of_open hs
  · apply hC.of_keeps
    exact hI.modify_bind (fun _ => rfl) (Keeps.map (hI.keeps ((sends_bears env).rexmit)) _)

theorem tick : Leads I J (tick env) := by
  apply Leads.gets_bind
  intro e
  apply Leads.ite (hC.of_keeps (Keeps.pure _))
  apply Leads.bind_keeps
  · unfold Program.when
    exact Leads.ite (hC.tickWaiting hI.toCalm) (hC.of_keeps (Keeps.pure _))
  · intro _
    apply leads_self.mp
    intro s hs
    rw [bind_gets]
    split
    · exact hs
    · next hopen =>
        have hI' := hC.alive hs hopen
        split
        · exact hC.tickOutstanding hI s hI'
        · exact hs

end Closes

end Closing

end Tulips.Tcpv4
