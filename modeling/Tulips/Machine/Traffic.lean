import Tulips.Machine.Filters
import Tulips.Machine.Visits

/-!
# Traffic

What the sending side of the processor leaves alone. A program of the world is
mute if it neither touches the ports of the device nor opens a connection. A
program of a connection only sends if it does no more than that, and changes no
more of the connection than its ring, its send buffer and what belongs to the
application.
-/

namespace Tulips.Tcpv4

open Program

variable {D H : Type}

/-! ## The world -/

/-- The ports of the device have not been touched, and no connection opened. -/
def Quietly (w w' : World D H) : Prop :=
  ∃ new, w'.log = new ++ w.log ∧ ∀ ev ∈ new, ev.isQuiet = true

/-- Events that concern neither the ports of the device nor the application, and
report no segment of the ring. -/
def Event.isPlain : Event → Bool
  | .prepare _ _ | .write _ _ | .commit _ _ _ _ _ | .synced _ _ | .rexmit _ _ _ _ _
  | .control _ _ _ | .refill _ _ _ _ _ | .immediateAck _ _ => true
  | _ => false

/-- Only the buffers and the producers have been worked on. -/
structure Plainly (w w' : World D H) : Prop where
  hdl : w'.hdl = w.hdl
  log : ∃ new, w'.log = new ++ w.log ∧ ∀ ev ∈ new, ev.isPlain = true

theorem Event.isPlain.isQuiet {ev : Event} (h : ev.isPlain = true) : ev.isQuiet = true := by
  cases ev with
  | listen | unlisten | create => cases h
  | _ => rfl

theorem Plainly.quietly {w w' : World D H} (h : Plainly w w') : Quietly w w' := by
  obtain ⟨new, hlog, hnew⟩ := h.log
  exact ⟨new, hlog, fun ev hev => Event.isPlain.isQuiet (hnew ev hev)⟩

theorem Plainly.refl (w : World D H) : Plainly w w := ⟨rfl, [], rfl, by simp⟩

theorem Plainly.trans {w₁ w₂ w₃ : World D H} (h : Plainly w₁ w₂) (h' : Plainly w₂ w₃) :
    Plainly w₁ w₃ := by
  obtain ⟨new, hlog, hnew⟩ := h.log
  obtain ⟨new', hlog', hnew'⟩ := h'.log
  refine ⟨h'.hdl.trans h.hdl, new' ++ new, by rw [hlog', hlog, List.append_assoc], ?_⟩
  intro ev hev
  rcases List.mem_append.mp hev with h | h
  · exact hnew' ev h
  · exact hnew ev h

theorem Plainly.logged {w w' : World D H} (ev : Event) (hev : ev.isPlain = true)
    (hhdl : w'.hdl = w.hdl) (hlog : w'.log = ev :: w.log) : Plainly w w' :=
  ⟨hhdl, [ev], hlog, by simpa using hev⟩

theorem Quietly.filters_eq {w w' : World D H} (h : Quietly w w') :
    filters w'.log = filters w.log := by
  obtain ⟨new, hlog, hnew⟩ := h
  rw [hlog, filters_append_of_none fun ev hev => Event.isQuiet.isFilter (hnew ev hev)]

theorem Quietly.refl (w : World D H) : Quietly w w := ⟨[], rfl, by simp⟩

theorem Quietly.trans {w₁ w₂ w₃ : World D H} (h : Quietly w₁ w₂) (h' : Quietly w₂ w₃) :
    Quietly w₁ w₃ := by
  obtain ⟨new, hlog, hnew⟩ := h
  obtain ⟨new', hlog', hnew'⟩ := h'
  refine ⟨new' ++ new, by rw [hlog', hlog, List.append_assoc], fun ev hev => ?_⟩
  rcases List.mem_append.mp hev with h | h
  · exact hnew' ev h
  · exact hnew ev h

theorem Quietly.logged {w w' : World D H} (ev : Event) (hev : ev.isQuiet = true)
    (hlog : w'.log = ev :: w.log) : Quietly w w' :=
  ⟨[ev], hlog, by simpa using hev⟩

section World

/-- The program only works on the buffers and the producers. -/
def Mute {α : Type} (x : WorldProgram D H α) : Prop := Relates Plainly x

theorem Mute.quietly {α : Type} {x : WorldProgram D H α} (hx : Mute x) (w : World D H) :
    Quietly w (final (x w)) := (hx w).quietly

theorem plainly_walk : Walk (Plainly (D := D) (H := H)) := ⟨.refl, .trans⟩

theorem setProtocol_mute (proto : UInt8) :
    Mute (Ipv4Producer.setProtocol proto : WorldProgram D H Unit) :=
  Relates.update fun _ => ⟨rfl, [], rfl, by simp⟩

theorem Ipv4Producer.setDestination_mute (addr : Ipv4.Address) :
    Mute (setDestination addr : WorldProgram D H Unit) :=
  Relates.update fun _ => ⟨rfl, [], rfl, by simp⟩

theorem EthernetProducer.setDestination_mute (addr : Ethernet.Address) :
    Mute (setDestination addr : WorldProgram D H Unit) :=
  Relates.update fun _ => ⟨rfl, [], rfl, by simp⟩

theorem record_mute {ev : Event} (hev : ev.isPlain = true) :
    Mute (record ev : WorldProgram D H Unit) := fun _ => .logged ev hev rfl rfl

theorem store_mute (who : Option UInt16) (p : Option Ptr) (off : Nat) (bytes : List UInt8) :
    Mute (store who p off bytes : WorldProgram D H Unit) := by
  intro w
  cases p with
  | none => exact .refl w
  | some p => exact .logged (.write who p.buf) rfl rfl rfl

theorem modifyHeader_mute (who : Option UInt16) (p : Option Ptr) (f : Header → Header) :
    Mute (modifyHeader who p f : WorldProgram D H Unit) := by
  apply plainly_walk.bind
  · intro w
    cases p <;> exact .refl w
  · intro hdr
    exact store_mute who p 0 _

variable (env : Env D H)

theorem devicePrepare_mute (who : Option UInt16) :
    Mute (EthernetProducer.devicePrepare env who) := by
  intro w
  unfold EthernetProducer.devicePrepare
  rw [bind_gets]
  cases env.device.prepare w.dev with
  | mk answer dev =>
      cases answer with
      | error ret => exact .logged (.prepare who none) rfl rfl rfl
      | ok given => exact .logged (.prepare who (some given.1)) rfl rfl rfl

theorem prepare_mute (who : Option UInt16) : Mute (Ipv4Producer.prepare env who) := by
  apply plainly_walk.bind
  · exact Relates.update fun _ => ⟨rfl, [], rfl, by simp⟩
  · intro _
    apply plainly_walk.bind
    · apply plainly_walk.bind (devicePrepare_mute env who)
      intro answer
      cases answer with
      | error ret => exact plainly_walk.pure _
      | ok buf =>
          apply plainly_walk.bind (plainly_walk.gets _)
          intro eth
          exact plainly_walk.bind (store_mute _ _ _ _) fun _ => plainly_walk.pure _
    · intro answer
      cases answer with
      | error ret => exact plainly_walk.pure _
      | ok p =>
          apply plainly_walk.bind
          · exact Relates.update fun _ => ⟨rfl, [], rfl, by simp⟩
          · intro _
            apply plainly_walk.bind (plainly_walk.gets _)
            intro ip
            exact plainly_walk.bind (store_mute _ _ _ _) fun _ => plainly_walk.pure _

theorem commit_mute (who : Option UInt16) (len : UInt32) (p : Ptr) (mss : UInt16) :
    Mute (Ipv4Producer.commit env who len p mss) := by
  apply plainly_walk.bind (store_mute _ _ _ _)
  intro _
  apply plainly_walk.bind
  · apply plainly_walk.when
    exact plainly_walk.bind (plainly_walk.gets _) fun _ => store_mute _ _ _ _
  · intro _ w
    exact .logged (.commit who p.buf _ mss _) rfl rfl rfl

theorem sendFrame_mute (who : Option UInt16) (dst : Ipv4.Address) (len : UInt32) (mss : UInt16)
    (p : Option Ptr) : Mute (sendFrame env who dst len mss p) := by
  apply plainly_walk.bind (modifyHeader_mute _ _ _)
  intro _
  cases p with
  | none => exact fun w => .refl w
  | some p =>
      apply plainly_walk.bind
      · apply plainly_walk.when
        exact plainly_walk.bind (plainly_walk.gets _) fun _ => modifyHeader_mute _ _ _
      · intro _
        exact commit_mute env _ _ _ _

end World

/-! ## Sending -/

/-- A connection without what sending changes in it: its ring and its send buffer,
and what belongs to the application. -/
def Connection.posture (e : Connection) : Connection :=
  { e with
    sndNxt := 0
    slen := 0
    sdat := none
    opts := 0
    cookie := none
    segments := fun _ => .cleared }

/-- The world after an event. -/
def Ctx.noted (s : Ctx D H) (ev : Event) : Ctx D H :=
  { s with w := { s.w with log := ev :: s.w.log } }

/-- A callback has been made. -/
def Ctx.called (env : Env D H) (cb : Callback) (s : Ctx D H) : Ctx D H :=
  let reply := env.handler s.w.hdl s.e cb
  { e := { s.e with cookie := reply.cookie, opts := reply.opts }
    w := { s.w with hdl := reply.hdl, log := .callback s.e.id cb reply.action :: s.w.log } }

/-- A relation that follows what sending without a segment of the ring does. -/
structure Controls (R : Ctx D H → Ctx D H → Prop) : Prop extends Walk R where
  world : ∀ {s : Ctx D H} {w : World D H}, Plainly s.w w → R s ⟨s.e, w⟩
  buffer : ∀ (s : Ctx D H) (buf : Nat),
    R s { s with e := { s.e with sdat := some ⟨buf, tcpOffset⟩ } }

/-- A relation that also follows what becomes of a segment that has gone out. -/
structure Counts (env : Env D H) (R : Ctx D H → Ctx D H → Prop) : Prop extends Controls R where
  sent : ∀ s, R s (s.called env .onSent)
  counted : ∀ (s : Ctx D H) (n : UInt32), R s { s with e := { s.e with sndNxt := n } }

/-- A relation that follows whatever sending does to a connection. -/
structure Bears (env : Env D H) (R : Ctx D H → Ctx D H → Prop) : Prop extends Counts env R where
  transmit : ∀ (s : Ctx D H) (seq len : UInt32) (again : Bool) (ret : Status),
    R s (s.noted (.transmit s.e.id s.e.state seq len again ret))
  segment : ∀ (s : Ctx D H) (i : Fin segmentCount) (seg : Segment),
    R s { s with e := s.e.setSegment i seg }
  reset : ∀ s : Ctx D H, R s { s with e := s.e.resetSendBuffer }

theorem onWorld_conn {α : Type} (x : WorldProgram D H α) (s : Ctx D H) :
    (final (onWorld x s)).e = s.e := by
  unfold onWorld zoom
  cases x s.w <;> rfl

theorem onWorld_conn_of_ok {α : Type} {x : WorldProgram D H α} {s t : Ctx D H} {a : α}
    (hok : onWorld x s = .ok a t) : t.e = s.e := by
  have hconn := onWorld_conn x s
  rwa [hok] at hconn

namespace Controls

variable {R : Ctx D H → Ctx D H → Prop} (hR : Controls R)

include hR

theorem onWorld {α : Type} {x : WorldProgram D H α} (hx : Mute x) : Relates R (onWorld x) := by
  intro s
  have hw := hx s.w
  unfold Tcpv4.onWorld zoom
  cases hrun : x s.w with
  | ok a w =>
      rw [hrun] at hw
      exact hR.world hw
  | error e w =>
      rw [hrun] at hw
      exact hR.world hw

theorem record {ev : Event} (hev : ev.isPlain = true) :
    Relates R (Tcpv4.onWorld (Tcpv4.record ev) : ConnProgram D H Unit) :=
  hR.onWorld (record_mute hev)

theorem fillHeader (env : Env D H) (seqno : UInt32) (p : Option Ptr) :
    Relates R (fillHeader env seqno p) :=
  Relates.gets_bind fun _ => hR.onWorld (modifyHeader_mute _ _ _)

theorem refill (env : Env D H) (first : Bool) : Relates R (refill env first) := by
  apply Relates.gets_bind
  intro e
  apply hR.bind (hR.onWorld (setProtocol_mute _))
  intro _
  apply hR.bind (hR.onWorld (Ipv4Producer.setDestination_mute _))
  intro _
  apply hR.bind (hR.onWorld (EthernetProducer.setDestination_mute _))
  intro _ s
  have hprepare := hR.onWorld (prepare_mute env (some e.id))
  obtain ⟨w, -, ⟨ret, hok, -⟩ | ⟨buf, writes, hok, -⟩⟩ := prepare_cases env (some e.id) s.w
  · rw [bind_of_ok (onWorld_ok hok)]
    apply hR.trans (hprepare.ok (onWorld_ok hok))
    exact hR.bind (hR.record rfl) (fun _ => hR.pure _) _
  · rw [bind_of_ok (onWorld_ok hok)]
    apply hR.trans (hprepare.ok (onWorld_ok hok))
    refine hR.bind (hR.record rfl) (fun _ => ?_) _
    exact Relates.update_bind hR.toWalk (fun s => hR.buffer s buf) (hR.pure _)

theorem sendControl (env : Env D H) : Relates R (sendControl env) := by
  apply Relates.gets_bind
  intro e
  apply hR.bind (hR.record rfl)
  intro _
  apply hR.bind (hR.fillHeader env _ _)
  intro _
  apply hR.bind (hR.onWorld (sendFrame_mute env _ _ _ _ _))
  intro ret
  exact Relates.ite (hR.pure _) (hR.refill env _)

theorem setFlags (p : Option Ptr) (flags : UInt8) (offset : Option (Fin 16)) :
    Relates R (setFlags p flags offset : ConnProgram D H Unit) :=
  Relates.gets_bind fun _ => hR.onWorld (modifyHeader_mute _ _ _)

theorem orFlags (p : Option Ptr) (flags : UInt8) (offset : Fin 16) :
    Relates R (orFlags p flags offset : ConnProgram D H Unit) :=
  Relates.gets_bind fun _ => hR.onWorld (modifyHeader_mute _ _ _)

theorem sendAck (env : Env D H) : Relates R (sendAck env) := by
  apply Relates.gets_bind
  intro e
  apply Relates.ite
  · apply hR.bind (hR.onWorld (devicePrepare_mute env _))
    intro answer
    cases answer with
    | error ret => exact hR.pure _
    | ok buf => exact hR.bind (hR.setFlags _ _ _) fun _ => hR.sendControl env
  · exact hR.bind (hR.setFlags _ _ _) fun _ => hR.sendControl env

end Controls

/-- What follows the note of a segment that has gone out. -/
theorem Counts.aftermath {env : Env D H} {R : Ctx D H → Ctx D H → Prop} (hR : Counts env R)
    (seg : Segment) (again : Bool) : Relates R (do
      Program.when (again = false) do
        Program.when (env.config.latencyMonitor = true) do
          let h ← Tcpv4.onWorld (loadHeader seg.dat)
          Program.when (h.has tcpPsh = true) do
            let _ ← callback env .onSent
            pure ()
        modifyConn fun e => { e with sndNxt := e.sndNxt + seg.len }
      Tcpv4.refill env (!again) : ConnProgram D H Status) := by
  apply hR.bind
  · apply hR.when
    apply hR.bind
    · apply hR.when
      apply hR.bind
      · apply hR.onWorld
        intro w
        cases seg.dat <;> exact .refl w
      · intro _
        apply hR.when
        exact hR.bind hR.sent fun _ => hR.pure _
    · intro _
      exact Relates.update fun s => hR.counted s _
  · intro _
    exact hR.refill env _

namespace Bears

variable {env : Env D H} {R : Ctx D H → Ctx D H → Prop} (hR : Bears env R)

include hR

theorem sendSegment (len : UInt32) (i : Fin segmentCount) : Relates R (sendSegment env len i) := by
  intro s
  unfold Tcpv4.sendSegment
  rw [bind_gets]
  apply hR.bind_at (hR.fillHeader env _ _ s)
  intro _ u hu
  have hu : u.e = s.e := onWorld_conn_of_ok hu
  apply hR.bind_at (hR.onWorld (sendFrame_mute env _ _ _ _ _) u)
  intro ret v hv
  have hv : v.e = s.e := (onWorld_conn_of_ok hv).trans hu
  rw [← hv]
  -- Only now the segment is noted, with the state it was sent in.
  refine hR.bind_at (hR.transmit v _ _ _ ret) fun _ x _ => ?_
  exact Relates.ite (hR.pure _) (hR.aftermath _ _) x

theorem sendSyn (i : Fin segmentCount) : Relates R (sendSyn env i) := by
  apply Relates.gets_bind
  intro e
  apply hR.bind (hR.orFlags _ _ _)
  intro _
  apply hR.bind (hR.onWorld (store_mute _ _ _ _))
  intro _
  exact hR.sendSegment _ i

theorem sendSynAck (i : Fin segmentCount) : Relates R (sendSynAck env i) :=
  Relates.gets_bind fun _ => hR.bind (hR.setFlags _ _ _) fun _ => hR.sendSyn i

theorem sendFinAck (i : Fin segmentCount) : Relates R (sendFinAck env i) := by
  apply Relates.gets_bind
  intro e
  apply hR.bind (hR.setFlags _ _ _)
  intro _
  apply Relates.gets_bind
  intro e
  exact hR.bind (hR.orFlags _ _ _) fun _ => hR.sendSegment _ i

theorem sendData (i : Fin segmentCount) (flags : UInt8) : Relates R (sendData env i flags) :=
  Relates.gets_bind fun _ => hR.bind (hR.setFlags _ _ _) fun _ => hR.sendSegment _ i

theorem pushSegment (len : UInt32) :
    Relates R (pushSegment len : ConnProgram D H (Fin segmentCount)) := by
  apply Relates.gets_bind
  intro e
  cases e.nextAvailableSegment with
  | none => exact hR.fault _
  | some k =>
      refine Relates.update_bind hR.toWalk (fun s => ?_) (hR.pure k)
      exact hR.trans (hR.segment s k _) (hR.reset _)

theorem pushSyn (outdata : Ptr) :
    Relates R (pushSyn outdata : ConnProgram D H (Fin segmentCount)) := by
  apply Relates.gets_bind
  intro e
  cases e.nextAvailableSegment with
  | none => exact hR.fault _
  | some k => exact Relates.update_bind hR.toWalk (fun s => hR.segment s k _) (hR.pure k)

theorem sendNoDelay (flag : UInt8) : Relates R (sendNoDelay env flag) :=
  Relates.gets_bind fun _ => hR.bind (hR.pushSegment _) fun i => hR.sendData i flag

theorem sendNagle (bound : UInt32) : Relates R (sendNagle env bound) := by
  apply Relates.gets_bind
  intro e
  apply Relates.ite (hR.sendNoDelay _)
  exact Relates.ite (hR.pure _) (hR.sendNoDelay _)

theorem pushFinAck : Relates R (pushFinAck env) :=
  hR.bind (hR.pushSegment 1) fun i => hR.sendFinAck i

theorem swapSegment : Relates R (swapSegment : ConnProgram D H Unit) := by
  apply Relates.gets_bind
  intro s
  apply hR.bind
  · apply hR.when
    cases s.e.segment.dat with
    | none => exact hR.fault _
    | some p => exact hR.onWorld (store_mute _ _ _ _)
  · intro _
    refine Relates.update fun t => ?_
    exact hR.trans (hR.segment t _ _) (hR.reset _)

theorem rexmit : Relates R (rexmit env) := by
  apply Relates.gets_bind
  intro s
  apply hR.bind (hR.record rfl)
  intro _
  cases s.e.state with
  | synRcvd => exact hR.bind hR.swapSegment fun _ => hR.sendSynAck _
  | synSent =>
      apply hR.bind hR.swapSegment
      intro _
      exact hR.bind (hR.setFlags _ _ _) fun _ => hR.sendSyn _
  | established => exact hR.bind hR.swapSegment fun _ => hR.sendData _ _
  | finWait1 | closing | lastAck =>
      exact hR.bind hR.swapSegment fun _ => hR.sendFinAck _
  | close | finWait2 | timeWait | stopped | closed => exact hR.pure _

theorem flush (canSend : Bool) : Relates R (flush env canSend) := by
  apply Relates.gets_bind
  intro e
  apply Relates.ite (hR.sendNoDelay _)
  exact Relates.ite (hR.sendAck env) (hR.pure _)

end Bears

/-! ### What sending leaves alone -/

/-- No more than sending does has happened. -/
structure Undisturbed (s t : Ctx D H) : Prop where
  posture : t.e.posture = s.e.posture
  quietly : Quietly s.w t.w

/-- The program does no more to a connection than sending does. -/
def Sends {α : Type} (x : ConnProgram D H α) : Prop := Relates Undisturbed x

theorem undisturbed_walk : Walk (Undisturbed (D := D) (H := H)) where
  refl := fun s => ⟨rfl, .refl s.w⟩
  trans := fun h h' => ⟨h'.posture.trans h.posture, h.quietly.trans h'.quietly⟩

theorem Undisturbed.called (env : Env D H) (cb : Callback) (s : Ctx D H) :
    Undisturbed s (s.called env cb) := ⟨rfl, .logged _ rfl rfl⟩

theorem Undisturbed.state_eq {s t : Ctx D H} (h : Undisturbed s t) : t.e.state = s.e.state := by
  have hstate : t.e.posture.state = s.e.posture.state := congrArg Connection.state h.posture
  exact hstate

theorem sends_bears (env : Env D H) : Bears env Undisturbed where
  toWalk := undisturbed_walk
  world := fun hw => ⟨rfl, hw.quietly⟩
  buffer := fun s _ => ⟨rfl, .refl s.w⟩
  transmit := fun _ _ _ _ _ => ⟨rfl, .logged _ rfl rfl⟩
  sent := Undisturbed.called env .onSent
  counted := fun s _ => ⟨rfl, .refl s.w⟩
  segment := fun s _ _ => ⟨rfl, .refl s.w⟩
  reset := fun s => ⟨rfl, .refl s.w⟩

section Sending

variable (env : Env D H)

theorem callback_sends (cb : Callback) : Sends (callback env cb) := Undisturbed.called env cb

theorem accept_sends (bytes : List UInt8) : Sends (accept bytes : ConnProgram D H Unit) :=
  fun _ => ⟨rfl, .logged _ rfl rfl⟩

theorem deliver_sends (inc : Incoming) : Sends (deliver env inc) :=
  undisturbed_walk.bind (callback_sends env _) fun _ => undisturbed_walk.pure ()

include env in
theorem copyPayload_sends (data : Bytes) (off slen : UInt32) :
    Sends (copyPayload data off slen : ConnProgram D H Unit) := by
  apply Relates.gets_bind
  intro e
  apply undisturbed_walk.bind ((sends_bears env).onWorld (store_mute _ _ _ _))
  intro _
  exact accept_sends _

theorem send_sends (len : UInt32) (data : Option Bytes) (off : UInt32) :
    Sends (send env len data off) := by
  apply Relates.gets_bind
  intro e
  apply Relates.ite (undisturbed_walk.pure _)
  apply Relates.ite (undisturbed_walk.pure _)
  cases data with
  | none => exact undisturbed_walk.pure _
  | some data =>
      apply Relates.ite (undisturbed_walk.pure _)
      apply Relates.ite (undisturbed_walk.pure _)
      apply undisturbed_walk.bind (undisturbed_walk.when (copyPayload_sends env data off _))
      intro _
      apply Relates.ite (undisturbed_walk.pure _)
      apply Relates.ite
      · exact undisturbed_walk.bind ((sends_bears env).sendNoDelay _) fun _ =>
          undisturbed_walk.pure _
      · exact undisturbed_walk.bind ((sends_bears env).sendNagle _) fun _ =>
          undisturbed_walk.pure _

end Sending

end Tulips.Tcpv4
