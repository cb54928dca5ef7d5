import Tulips.Machine.Answering

/-!
# Attending to a connection

The processor attends to a connection state by state. What it does there is put
together from a few things: it works on buffers, calls the application, changes what
is not the sending side of the connection, and sends what is pending, or a FIN. A
relation that follows each of these follows every program that attends to a
connection, short of a retransmission and of the callback for acknowledged data.
-/

namespace Tulips.Tcpv4

open Program

variable {D H : Type}

/-! ## The sending side -/

/-- What a connection has to send, and what it has sent. -/
structure Outbox where
  id : UInt16
  sndNxt : UInt32
  segidx : Fin segmentCount
  segments : Fin segmentCount → Segment
  slen : BitVec 24
  sdat : Option Ptr

def Connection.outbox (e : Connection) : Outbox where
  id := e.id
  sndNxt := e.sndNxt
  segidx := e.segidx
  segments := e.segments
  slen := e.slen
  sdat := e.sdat

/-- Callbacks that report neither acknowledged data nor a departure. -/
def Callback.isOther : Callback → Bool
  | .onAcked _ | .onSent => false
  | _ => true

/-- Bytes behind the pending ones count as pending. -/
def Ctx.accepted (s : Ctx D H) (bytes : List UInt8) : Ctx D H where
  e := { s.e with slen := s.e.slen + BitVec.ofNat 24 bytes.length }
  w := { s.w with log := .append s.e.id s.e.slen bytes :: s.w.log }

/-- The device has been told to let go of a port. -/
def Ctx.unlistened (env : Env D H) (s : Ctx D H) (port : Port) : Ctx D H :=
  { s with w := { s.w with
      dev := env.device.unlisten s.w.dev port
      log := .unlisten port :: s.w.log } }

theorem Connection.outbox_received (e : Connection) (rcvNxt : UInt32) (wnd : UInt16) :
    { e with rcvNxt := rcvNxt, wnd := wnd }.outbox = e.outbox := rfl

theorem Connection.outbox_parseOptions (e : Connection) (inc : Incoming) :
    (e.parseOptions inc).outbox = e.outbox := by
  have hcore := e.core_parseOptions inc
  simp only [outbox, Outbox.mk.injEq]
  exact ⟨congrArg Core.id hcore, congrArg Core.sndNxt hcore, congrArg Core.segidx hcore,
    congrArg Core.segments hcore, congrArg Core.slen hcore, congrArg Core.sdat hcore⟩

/-- A relation that follows what attending to a connection is put together from. -/
structure Attends (env : Env D H) (R : Ctx D H → Ctx D H → Prop) : Prop extends Controls R where
  told : ∀ (s : Ctx D H) {cb : Callback}, cb.isOther = true → R s (s.called env cb)
  conn : ∀ {s : Ctx D H} {e : Connection}, e.outbox = s.e.outbox → R s ⟨e, s.w⟩
  unlistened : ∀ (s : Ctx D H) (port : Port), R s (s.unlistened env port)
  accepted : ∀ (s : Ctx D H) {bytes : List UInt8}, bytes.length ≤ (env.room s.e).toNat →
    R s (s.accepted bytes)
  emit : ∀ {s t : Ctx D H} {ret : Status}, s.e.hasPendingSendData = true →
    sendNoDelay env tcpPsh s = .ok ret t → R s t
  /-- A FIN; in CLOSE something is received in between. -/
  fin : ∀ (c : Prop) [Decidable c] {f : Connection → Connection},
    (∀ e, (f e).outbox = e.outbox) → Returns R (do
      let i ← pushSegment 1
      Program.when c (modifyConn f)
      sendFinAck env i)

theorem Connection.outbox_updated (e : Connection) (inc : Incoming) :
    (e.updated inc).outbox = e.outbox := by
  unfold updated
  split <;> rfl

theorem Connection.ackdata_updated (e : Connection) (inc : Incoming) :
    (e.updated inc).ackdata = e.ackdata := by
  unfold updated
  split <;> rfl

theorem tickWaiting_outbox {env : Env D H} {s t : Ctx D H} (hok : tickWaiting env s = .ok () t) :
    t.e.outbox = s.e.outbox := by
  unfold tickWaiting modifyConn at hok
  rw [bind_update, bind_gets] at hok
  rcases when_eq_ok.mp hok with ⟨-, hok⟩ | ⟨-, rfl⟩
  · cases hok
    rfl
  · rfl

namespace Attends

variable {env : Env D H} {R : Ctx D H → Ctx D H → Prop} {inc : Incoming} (hR : Attends env R)

include hR

theorem modifyConn {f : Connection → Connection} (hf : ∀ e, (f e).outbox = e.outbox) :
    Returns R (modifyConn f) := by
  intro s _ t hok
  cases hok
  exact hR.conn (hf s.e)

theorem parseOptions (inc : Incoming) :
    Returns R (Tcpv4.modifyConn fun e => e.parseOptions inc : ConnProgram D H Unit) :=
  hR.modifyConn fun e => e.outbox_parseOptions inc

theorem setState (st : State) : Returns R (setState st) := hR.modifyConn fun _ => rfl

theorem callback {cb : Callback} (hcb : cb.isOther = true) : Returns R (callback env cb) := by
  intro s _ t hok
  cases hok
  exact hR.told s hcb

theorem unlisten (port : Port) : Returns R (onWorld (deviceUnlisten env port)) := by
  intro s _ t hok
  cases hok
  exact hR.unlistened s port

theorem skip {α : Type} (a : α) : Returns R (Pure.pure a : ConnProgram D H α) :=
  (hR.pure a).returns

theorem deliver : Returns R (deliver env inc) :=
  hR.seq (hR.callback rfl) fun _ => hR.skip ()

theorem acknowledge : Returns R (sendAck env) := (hR.sendAck env).returns

/-! ### Ending a connection -/

theorem pushFinAck : Returns R (pushFinAck env) := by
  have hfin := hR.fin False (f := id) fun _ => rfl
  exact hfin

theorem sendAbort : Returns R (sendAbort env) := by
  apply Returns.gets_bind
  intro e
  apply hR.seq (hR.unlisten _)
  intro _
  apply hR.seq (hR.setState _)
  intro _
  exact hR.seq (hR.setFlags _ _ _).returns fun _ => (hR.sendControl env).returns

theorem sendClose : Returns R (sendClose env) := by
  apply Returns.gets_bind
  intro e
  apply Returns.ite (hR.skip _)
  exact hR.seq (hR.setState _) fun _ => hR.pushFinAck

theorem processRst : Returns R (processRst env) := by
  apply Returns.gets_bind
  intro e
  apply hR.seq (hR.unlisten _)
  intro _
  apply hR.seq (hR.setState _)
  intro _
  exact hR.seq (hR.callback rfl) fun _ => hR.skip _

theorem abort : Returns R (abort env) := by
  apply Returns.gets_bind
  intro e
  apply hR.seq (hR.unlisten _)
  intro _
  apply hR.seq (hR.setState _)
  intro _
  apply hR.seq (hR.callback rfl)
  intro _
  exact hR.seq (hR.setFlags _ _ _).returns fun _ => hR.sendAbort

theorem close : Returns R (close env) := by
  apply Returns.gets_bind
  intro e
  apply Returns.ite (hR.skip _)
  apply Returns.ite
  · exact hR.seq (hR.setState _) fun _ => hR.skip _
  · exact hR.seq (hR.setFlags _ _ _).returns fun _ => hR.sendClose

/-! ### Answers of the application -/

theorem flush (canSend : Bool) : Returns R (flush env canSend) := by
  intro s ret t hok
  unfold Tcpv4.flush at hok
  rw [bind_gets] at hok
  by_cases hpending : s.e.hasPendingSendData = true ∧ canSend = true
  · rw [if_pos hpending] at hok
    exact hR.emit hpending.1 hok
  · rw [if_neg hpending] at hok
    exact Returns.ite hR.acknowledge (hR.skip _) hok

/-- A callback is made, and what it answers is taken in. -/
theorem respond_after {cb : Option UInt32 → Callback} {canSend : Bool}
    {next : ConnProgram D H Status} (hnext : Returns R next) {s t : Ctx D H} {ret : Status}
    (hok : respond env cb canSend next s = .ok ret t) :
    R (s.called env (cb (env.offer s.e canSend))) t := by
  unfold respond at hok
  rw [bind_gets, bind_of_ok (callback_eq env _ s)] at hok
  obtain ⟨_, u, hstore, hok⟩ := bind_eq_ok.mp hok
  have hue : u.e = (s.called env (cb (env.offer s.e canSend))).e := (stored_cases hstore).1
  apply hR.trans ((hR.when (hR.onWorld (store_mute _ _ _ _))).ok hstore)
  generalize env.handler s.w.hdl s.e _ = reply at hok
  cases haction : reply.action with
  | abort =>
      rw [haction] at hok
      exact hR.sendAbort hok
  | close =>
      rw [haction] at hok
      exact hR.sendClose hok
  | «continue» =>
      rw [haction] at hok
      obtain ⟨_, v, haccept, hok⟩ := bind_eq_ok.mp hok
      apply hR.trans _ (hnext hok)
      rcases when_eq_ok.mp haccept with ⟨-, haccept⟩ | ⟨-, rfl⟩
      · cases haccept
        -- No more is taken in than there is room for.
        apply hR.accepted
        have hroom : env.room u.e = env.room s.e := by rw [hue]; rfl
        rw [length_tail, hroom]
        split
        · exact Nat.le_refl _
        · next hle => exact UInt32.le_iff_toNat_le.mp (UInt32.not_lt.mp hle)
      · exact hR.refl _

theorem respond {cb : Option UInt32 → Callback} {canSend : Bool}
    {next : ConnProgram D H Status} (hcb : ∀ alen, (cb alen).isOther = true)
    (hnext : Returns R next) : Returns R (respond env cb canSend next) :=
  fun s _ _ hok => hR.trans (hR.told s (hcb _)) (hR.respond_after hnext hok)

theorem notifyNewData {canSend : Bool} {next : ConnProgram D H Status} (hnext : Returns R next) :
    Returns R (notifyNewData env inc canSend next) := by
  apply Returns.gets_bind
  intro e
  apply Returns.ite _ hnext
  apply Returns.ite (hR.respond (fun _ => rfl) hnext)
  apply hR.seq hR.acknowledge
  intro ret
  apply hR.seq (hR.record rfl).returns
  intro _
  exact Returns.ite (hR.skip _) (hR.respond (fun _ => rfl) hnext)

/-! ### The states -/

theorem processSynRcvd : Returns R (processSynRcvd env inc) := by
  apply Returns.gets_bind
  intro e
  apply Returns.ite _ (hR.skip _)
  apply hR.seq (hR.setState _)
  intro _
  apply hR.seq (hR.callback rfl)
  intro _
  apply Returns.ite _ (hR.skip _)
  apply hR.seq
  · exact hR.modifyConn fun _ => rfl
  intro _
  exact hR.seq hR.deliver fun _ => hR.acknowledge

theorem processSynSent : Returns R (processSynSent env inc) := by
  apply Returns.gets_bind
  intro e
  apply Returns.ite
  · apply hR.seq (hR.setState _)
    intro _
    apply hR.seq (hR.record rfl).returns
    intro _
    apply hR.seq (hR.modifyConn fun e => e.outbox_received _ _)
    intro _
    apply hR.seq (hR.parseOptions inc)
    intro _
    apply hR.seq (hR.callback rfl)
    intro _
    apply hR.seq _ fun _ => hR.acknowledge
    apply hR.seqWhen
    apply hR.seq
    · exact hR.modifyConn fun _ => rfl
    · exact fun _ => hR.deliver
  · exact hR.seq (hR.callback rfl) fun _ => hR.sendAbort

theorem processFin : Returns R (processFin env inc) := by
  apply Returns.gets_bind
  intro e
  apply Returns.ite (hR.skip _)
  apply hR.seq
  · exact hR.modifyConn fun _ => rfl
  intro _
  apply hR.seq (hR.seqWhen hR.deliver)
  intro _
  exact hR.seq (hR.setState _) fun _ => hR.pushFinAck

theorem processLastAck : Returns R (processLastAck env) := by
  apply Returns.gets_bind
  intro e
  apply hR.seq _ fun _ => hR.skip _
  apply hR.seqWhen
  apply hR.seq (hR.unlisten _)
  intro _
  apply hR.seq (hR.setState _)
  intro _
  exact hR.seq (hR.callback rfl) fun _ => hR.skip _

theorem skipPayload : Returns R (skipPayload inc : ConnProgram D H Unit) :=
  hR.seqWhen (hR.modifyConn fun _ => rfl)

theorem enterTimeWait : Returns R (enterTimeWait : ConnProgram D H Unit) :=
  hR.seq (hR.setState _) fun _ => hR.modifyConn fun _ => rfl

theorem acknowledgeFin : Returns R (acknowledgeFin env) := by
  apply hR.seq
  · exact hR.modifyConn fun _ => rfl
  intro _
  exact hR.seq (hR.callback rfl) fun _ => hR.acknowledge

theorem processFinWait1 : Returns R (processFinWait1 env inc) := by
  apply hR.seq hR.skipPayload
  intro _
  apply Returns.gets_bind
  intro e
  apply Returns.ite
  · dsimp only
    apply Returns.ite
    · exact hR.seq hR.enterTimeWait fun _ => hR.acknowledgeFin
    · exact hR.seq (hR.setState _) fun _ => hR.acknowledgeFin
  · apply Returns.ite
    · exact hR.seq (hR.setState _) fun _ => hR.skip _
    · exact Returns.ite hR.acknowledge (hR.skip _)

theorem processFinWait2 : Returns R (processFinWait2 env inc) := by
  apply hR.seq hR.skipPayload
  intro _
  apply Returns.ite
  · exact hR.seq hR.enterTimeWait fun _ => hR.acknowledgeFin
  · exact Returns.ite hR.acknowledge (hR.skip _)

theorem processClose : Returns R (processClose env inc) := by
  apply Returns.gets_bind
  intro e
  apply Returns.ite (hR.skip _)
  apply hR.seq (hR.setState _)
  intro _
  have hreceive : ∀ e : Connection, (e.receive inc inc.plen).outbox = e.outbox := fun _ => rfl
  exact hR.fin (0 < inc.plen) hreceive

theorem processClosing : Returns R (processClosing : ConnProgram D H Status) := by
  apply Returns.gets_bind
  intro e
  exact hR.seq (hR.seqWhen hR.enterTimeWait) fun _ => hR.skip _

/-- New data is handed over, and what is pending is sent. -/
theorem finish (canSend : Bool) :
    Returns R (Tcpv4.notifyNewData env inc canSend (Tcpv4.flush env canSend)) :=
  hR.notifyNewData (hR.flush canSend)

variable {s t : Ctx D H} {ret : Status}

theorem afterUpdate (hack : s.e.ackdata = false)
    (hok : afterUpdate env inc s = .ok ret t) : R s t := by
  unfold Tcpv4.afterUpdate at hok
  rw [bind_gets] at hok
  split at hok
  · rcases notifyAcked_cases hok with ⟨-, hok⟩ | ⟨hacked, -⟩
    · exact hR.finish _ hok
    · simp [hack] at hacked
  · cases hok
    exact hR.refl s

/-- With the news of an acknowledgement, the callback comes first. -/
theorem afterUpdate_acked (hack : s.e.ackdata = true)
    (hok : Tcpv4.afterUpdate env inc s = .ok ret t) :
    R (s.called env (.onAcked (env.offer s.e s.e.canSend))) t := by
  unfold Tcpv4.afterUpdate at hok
  rw [bind_gets, if_pos (.inl hack)] at hok
  rcases notifyAcked_cases hok with ⟨hacked, -⟩ | ⟨-, hok⟩
  · simp [hack] at hacked
  · apply hR.respond_after _ hok
    exact Returns.gets_bind fun _ => hR.finish _

theorem updated (s : Ctx D H) (inc : Incoming) : R s { s with e := s.e.updated inc } :=
  hR.conn (s.e.outbox_updated inc)

/-- Short of the callback for acknowledged data, the relation follows every state. -/
theorem processState (hquiet : s.e.state = .established → inc.has tcpFin = false →
    s.e.ackdata = false) (hok : processState env inc s = .ok ret t) : R s t := by
  unfold Tcpv4.processState at hok
  rw [bind_gets] at hok
  cases hstate : s.e.state <;> rw [hstate] at hok
  case established =>
    rcases processEstablished_cases hok with ⟨-, hok⟩ | ⟨hfin, hok⟩
    · exact hR.processFin hok
    · apply hR.trans (hR.updated s inc)
      refine hR.afterUpdate ?_ hok
      exact (s.e.ackdata_updated inc).trans (hquiet hstate hfin)
  case synRcvd => exact hR.processSynRcvd hok
  case synSent => exact hR.processSynSent hok
  case lastAck => exact hR.processLastAck hok
  case finWait1 => exact hR.processFinWait1 hok
  case finWait2 => exact hR.processFinWait2 hok
  case timeWait => exact hR.acknowledge hok
  case close => exact hR.processClose hok
  case closing => exact hR.processClosing hok
  all_goals exact hR.skip _ hok

/-! ### Ticks -/

theorem tickWaiting : Returns R (tickWaiting env) := by
  apply hR.seq
  · exact hR.modifyConn fun _ => rfl
  intro _
  apply Returns.gets_bind
  intro e
  exact hR.seqWhen (hR.seq (hR.unlisten _) fun _ => hR.setState _)

/-- Short of a retransmission, the relation follows a tick. -/
theorem tick {again : Option Status} (hresend : ∀ {u v : Ctx D H} {ret : Status},
    u.e.outbox = s.e.outbox → u.e.hasOutstandingSegments = true → rexmit env u = .ok ret v → R u v)
    (hok : tick env s = .ok again t) : R s t := by
  unfold Tcpv4.tick at hok
  rw [bind_gets] at hok
  split at hok
  · cases hok
    exact hR.refl s
  obtain ⟨_, u, hwait, hok⟩ := bind_eq_ok.mp hok
  have hbox : u.e.outbox = s.e.outbox := by
    rcases when_eq_ok.mp hwait with ⟨-, hwait⟩ | ⟨-, hsame⟩
    · exact tickWaiting_outbox hwait
    · rw [hsame]
  apply hR.trans (hR.seqWhen hR.tickWaiting hwait)
  rw [bind_gets] at hok
  split_ifs at hok with hclosed hout
  · cases hok
    exact hR.refl _
  swap
  · cases hok
    exact hR.refl _
  unfold tickOutstanding Tcpv4.modifyConn at hok
  rw [bind_update, bind_gets] at hok
  have htimer : R u ⟨{ u.e with timer := u.e.timer - 1 }, u.w⟩ := hR.conn rfl
  apply hR.trans htimer
  split_ifs at hok with hrest hexhausted
  · cases hok
    exact hR.refl _
  · refine hR.seq (hR.callback rfl) (fun _ => ?_) hok
    exact hR.seq hR.sendAbort fun _ => hR.skip _
  · obtain ⟨_, v, hcount, hok⟩ := bind_eq_ok.mp hok
    cases hcount
    obtain ⟨ret, hrexmit, -⟩ := map_eq_ok.mp hok
    refine hR.trans ?_ (hresend ?_ ?_ hrexmit)
    · exact hR.conn rfl
    · exact hbox
    · exact hout

end Attends

end Tulips.Tcpv4
