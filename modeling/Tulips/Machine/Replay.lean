import Tulips.Lib.Turns
import Tulips.Stack.Host

/-!
# Replaying the device

The history records every call of the device with its answer, so it can be
replayed: it leads the device from the state it was built in to its present one.
Every program of the stack keeps it that way.
-/

namespace Tulips.Tcpv4

variable {D H : Type} {n : Nat}

/-- A call of the device. -/
def Event.isDevice : Event → Bool
  | .prepare _ _ | .commit _ _ _ _ _ | .listen _ _ | .unlisten _ => true
  | _ => false

/-- The calls of a history lead the device from its first state to another. -/
inductive Replays (dev : Device D) (first : D) : D → List Event → Prop
  | start : Replays dev first first []
  | prepared {d : D} {log : List Event} {who : Option UInt16} {buf : Nat} {content : Bytes}
      (h : Replays dev first d log) (hret : (dev.prepare d).1 = .ok (buf, content)) :
      Replays dev first (dev.prepare d).2 (.prepare who (some buf) :: log)
  | refused {d : D} {log : List Event} {who : Option UInt16} {ret : Failure}
      (h : Replays dev first d log) (hret : (dev.prepare d).1 = .error ret) :
      Replays dev first (dev.prepare d).2 (.prepare who none :: log)
  | committed {d : D} {log : List Event} {who : Option UInt16} {buf : Nat} {frame : List UInt8}
      {mss : UInt16} (h : Replays dev first d log) :
      Replays dev first (dev.commit d buf frame mss).2
        (.commit who buf frame mss (dev.commit d buf frame mss).1 :: log)
  | listened {d : D} {log : List Event} {port : Port} (h : Replays dev first d log) :
      Replays dev first (dev.listen d port).2 (.listen port (dev.listen d port).1 :: log)
  | unlistened {d : D} {log : List Event} {port : Port} (h : Replays dev first d log) :
      Replays dev first (dev.unlisten d port) (.unlisten port :: log)
  | noted {d : D} {log : List Event} {ev : Event} (h : Replays dev first d log)
      (hev : ev.isDevice = false) : Replays dev first d (ev :: log)

section Walk

variable (env : Env D H) (first : D)

/-- The history of a world replays its device. -/
def Tracked (w : World D H) : Prop := Replays env.device first w.dev w.log

abbrev WorldTracks {α : Type} (m : WorldProgram D H α) : Prop :=
  Program.Keeps (Tracked env first) m

abbrev ConnTracks {α : Type} (m : ConnProgram D H α) : Prop :=
  Program.Keeps (fun s => Tracked env first s.w) m

abbrev ProcTracks {α : Type} (m : ProcProgram D H n α) : Prop :=
  Program.Keeps (fun p => Tracked env first p.w) m

variable {env first} {α : Type} {who : Option UInt16} {i : Fin segmentCount}

/-! ## The world -/

theorem record_tracks {ev : Event} (hev : ev.isDevice = false) :
    WorldTracks env first (record ev) := .update fun _ hw => .noted hw hev

theorem store_tracks (p : Option Ptr) (off : Nat) (bytes : List UInt8) :
    WorldTracks env first (store who p off bytes) := by
  cases p with
  | none => exact .fault _
  | some p => exact .update fun _ hw => .noted hw rfl

theorem loadHeader_tracks (p : Option Ptr) : WorldTracks env first (loadHeader p) := by
  cases p with
  | none => exact .fault _
  | some p => exact .gets _

theorem modifyHeader_tracks (p : Option Ptr) (f : Header → Header) :
    WorldTracks env first (modifyHeader who p f) :=
  .bind (loadHeader_tracks p) fun _ => store_tracks p 0 _

theorem deviceUnlisten_tracks (port : Port) : WorldTracks env first (deviceUnlisten env port) :=
  fun _ hw => .unlistened hw

theorem EthernetProducer.devicePrepare_tracks :
    WorldTracks env first (EthernetProducer.devicePrepare env who) := by
  intro w hw
  simp only [EthernetProducer.devicePrepare, Program.bind_gets]
  cases hret : (env.device.prepare w.dev).1 with
  | error ret => exact .refused hw hret
  | ok answer => exact .prepared hw hret

theorem EthernetProducer.prepare_tracks :
    WorldTracks env first (EthernetProducer.prepare env who) := by
  refine .bind devicePrepare_tracks fun ret => ?_
  cases ret with
  | error ret => exact .pure _
  | ok buf => exact .bind (.gets _) fun _ => .bind (store_tracks _ _ _) fun _ => .pure _

theorem EthernetProducer.commit_tracks (len : UInt32) (p : Ptr) (mss : UInt16) :
    WorldTracks env first (EthernetProducer.commit env who len p mss) :=
  fun _ hw => .committed hw

theorem Ipv4Producer.prepare_tracks :
    WorldTracks env first (Ipv4Producer.prepare env who) := by
  refine .bind (.update fun _ hw => hw) fun _ =>
    .bind EthernetProducer.prepare_tracks fun ret => ?_
  cases ret with
  | error ret => exact .pure _
  | ok p =>
      exact .bind (.update fun _ hw => hw) fun _ =>
        .bind (.gets _) fun _ => .bind (store_tracks _ _ _) fun _ => .pure _

theorem Ipv4Producer.commit_tracks (len : UInt32) (buf : Ptr) (mss : UInt16) :
    WorldTracks env first (Ipv4Producer.commit env who len buf mss) :=
  .bind (store_tracks _ _ _) fun _ =>
    .bind (.when (.bind (.gets _) fun _ => store_tracks _ _ _)) fun _ =>
      EthernetProducer.commit_tracks _ _ _

theorem sendFrame_tracks (dst : Ipv4.Address) (len : UInt32) (mss : UInt16)
    (outdata : Option Ptr) : WorldTracks env first (sendFrame env who dst len mss outdata) := by
  refine .bind (modifyHeader_tracks _ _) fun _ => ?_
  cases outdata with
  | none => exact .fault _
  | some p =>
      exact .bind (.when (.bind (.gets _) fun _ => modifyHeader_tracks _ _)) fun _ =>
        Ipv4Producer.commit_tracks _ _ _

/-! ## Sending -/

theorem onWorld_tracks {m : WorldProgram D H α} (h : WorldTracks env first m) :
    ConnTracks env first (onWorld m) :=
  .zoom (fun _ hs => hs) (fun _ _ _ ht => ht) h

theorem modifyConn_tracks (f : Connection → Connection) :
    ConnTracks (H := H) env first (modifyConn f) := .update fun _ hs => hs

theorem callback_tracks (cb : Callback) : ConnTracks env first (callback env cb) :=
  .bind (.gets _) fun _ => .bind (.update fun _ hs => .noted hs rfl) fun _ => .pure _

theorem fillHeader_tracks (seqno : UInt32) (outdata : Option Ptr) :
    ConnTracks env first (fillHeader env seqno outdata) :=
  .bind (.gets _) fun _ => onWorld_tracks (modifyHeader_tracks _ _)

theorem refill_tracks (again : Bool) : ConnTracks env first (refill env again) := by
  refine .bind (.gets _) fun e => .bind (onWorld_tracks (.update fun _ hw => hw)) fun _ =>
    .bind (onWorld_tracks (.update fun _ hw => hw)) fun _ =>
    .bind (onWorld_tracks (.update fun _ hw => hw)) fun _ =>
    .bind (onWorld_tracks Ipv4Producer.prepare_tracks) fun ret => ?_
  cases ret with
  | error ret => exact .bind (onWorld_tracks (record_tracks rfl)) fun _ => .pure _
  | ok p =>
      exact .bind (onWorld_tracks (record_tracks rfl)) fun _ =>
        .bind (modifyConn_tracks _) fun _ => .pure _

theorem sendControl_tracks : ConnTracks env first (sendControl env) :=
  .bind (.gets _) fun _ => .bind (onWorld_tracks (record_tracks rfl)) fun _ =>
    .bind (fillHeader_tracks _ _) fun _ =>
    .bind (onWorld_tracks (sendFrame_tracks _ _ _ _)) fun _ => .ite (.pure _) (refill_tracks _)

theorem sendSegment_tracks (len : UInt32) : ConnTracks env first (sendSegment env len i) := by
  refine .bind (.gets _) fun e => .bind (fillHeader_tracks _ _) fun _ =>
    .bind (onWorld_tracks (sendFrame_tracks _ _ _ _)) fun ret =>
    .bind (onWorld_tracks (record_tracks rfl)) fun _ => .ite (.pure _) ?_
  refine .bind (.when (.bind (.when ?_) fun _ => modifyConn_tracks _)) fun _ => refill_tracks _
  exact .bind (onWorld_tracks (loadHeader_tracks _)) fun _ =>
    .when (.bind (callback_tracks _) fun _ => .pure _)

theorem setFlags_tracks (outdata : Option Ptr) (flags : UInt8) (offset : Option (Fin 16)) :
    ConnTracks (H := H) env first (setFlags outdata flags offset) :=
  .bind (.gets _) fun _ => onWorld_tracks (modifyHeader_tracks _ _)

theorem orFlags_tracks (outdata : Option Ptr) (flags : UInt8) (offset : Fin 16) :
    ConnTracks (H := H) env first (orFlags outdata flags offset) :=
  .bind (.gets _) fun _ => onWorld_tracks (modifyHeader_tracks _ _)

theorem sendSyn_tracks : ConnTracks env first (sendSyn env i) :=
  .bind (.gets _) fun _ => .bind (orFlags_tracks _ _ _) fun _ =>
    .bind (onWorld_tracks (store_tracks _ _ _)) fun _ => sendSegment_tracks _

theorem sendSynAck_tracks : ConnTracks env first (sendSynAck env i) :=
  .bind (.gets _) fun _ => .bind (setFlags_tracks _ _ _) fun _ => sendSyn_tracks

theorem sendFinAck_tracks : ConnTracks env first (sendFinAck env i) :=
  .bind (.gets _) fun _ => .bind (setFlags_tracks _ _ _) fun _ =>
    .bind (.gets _) fun _ => .bind (orFlags_tracks _ _ _) fun _ => sendSegment_tracks _

theorem sendData_tracks (flags : UInt8) : ConnTracks env first (sendData env i flags) :=
  .bind (.gets _) fun _ => .bind (setFlags_tracks _ _ _) fun _ => sendSegment_tracks _

theorem pushSegment_tracks (len : UInt32) :
    ConnTracks (H := H) env first (pushSegment len) := by
  refine .bind (.gets _) fun e => ?_
  cases e.nextAvailableSegment with
  | none => exact .fault _
  | some i => exact .bind (modifyConn_tracks _) fun _ => .pure _

theorem sendNoDelay_tracks (flag : UInt8) : ConnTracks env first (sendNoDelay env flag) :=
  .bind (.gets _) fun _ => .bind (pushSegment_tracks _) fun _ => sendData_tracks _

theorem sendAbort_tracks : ConnTracks env first (sendAbort env) :=
  .bind (.gets _) fun _ => .bind (onWorld_tracks (deviceUnlisten_tracks _)) fun _ =>
    .bind (modifyConn_tracks _) fun _ => .bind (setFlags_tracks _ _ _) fun _ =>
    sendControl_tracks

theorem pushFinAck_tracks : ConnTracks env first (pushFinAck env) :=
  .bind (pushSegment_tracks _) fun _ => sendFinAck_tracks

theorem sendClose_tracks : ConnTracks env first (sendClose env) :=
  .bind (.gets _) fun _ => .ite (.pure _) (.bind (modifyConn_tracks _) fun _ => pushFinAck_tracks)

theorem sendAck_tracks : ConnTracks env first (sendAck env) := by
  refine .bind (.gets _) fun e =>
    .ite ?_ (.bind (setFlags_tracks _ _ _) fun _ => sendControl_tracks)
  refine .bind (onWorld_tracks EthernetProducer.devicePrepare_tracks) fun ret => ?_
  cases ret with
  | error ret => exact .pure _
  | ok buf => exact .bind (setFlags_tracks _ _ _) fun _ => sendControl_tracks

theorem swapSegment_tracks : ConnTracks (D := D) (H := H) env first swapSegment := by
  refine .bind (.gets _) fun s => .bind (.when ?_) fun _ => modifyConn_tracks _
  cases s.e.segment.dat with
  | none => exact .fault _
  | some dat => exact onWorld_tracks (store_tracks _ _ _)

theorem rexmit_tracks : ConnTracks env first (rexmit env) := by
  refine .bind (.gets _) fun s => .bind (onWorld_tracks (record_tracks rfl)) fun _ => ?_
  cases s.e.state with
  | synRcvd => exact .bind swapSegment_tracks fun _ => sendSynAck_tracks
  | synSent =>
      exact .bind swapSegment_tracks fun _ => .bind (setFlags_tracks _ _ _) fun _ =>
        sendSyn_tracks
  | established => exact .bind swapSegment_tracks fun _ => sendData_tracks _
  | finWait1 | closing | lastAck => exact .bind swapSegment_tracks fun _ => sendFinAck_tracks
  | close | finWait2 | timeWait | stopped | closed => exact .pure _

/-! ## Receiving -/

theorem accept_tracks (bytes : List UInt8) : ConnTracks (H := H) env first (accept bytes) :=
  .bind (.gets _) fun _ => .bind (onWorld_tracks (record_tracks rfl)) fun _ => modifyConn_tracks _

theorem respond_tracks (cb : Option UInt32 → Callback) (canSend : Bool)
    {next : ConnProgram D H Status} (hnext : ConnTracks env first next) :
    ConnTracks env first (respond env cb canSend next) := by
  refine .bind (.gets _) fun e => .bind (callback_tracks _) fun reply =>
    .bind (.when (onWorld_tracks (store_tracks _ _ _))) fun _ => ?_
  cases reply.action with
  | abort => exact sendAbort_tracks
  | close => exact sendClose_tracks
  | «continue» =>
      exact .bind (.when (.bind (.gets _) fun _ => accept_tracks _)) fun _ => hnext

theorem deliver_tracks (inc : Incoming) : ConnTracks env first (deliver env inc) :=
  .bind (callback_tracks _) fun _ => .pure _

theorem processSynRcvd_tracks (inc : Incoming) :
    ConnTracks env first (processSynRcvd env inc) := by
  refine .bind (.gets _) fun _ => .ite ?_ (.pure _)
  refine .bind (modifyConn_tracks _) fun _ => .bind (callback_tracks _) fun _ => .ite ?_ (.pure _)
  exact .bind (modifyConn_tracks _) fun _ => .bind (deliver_tracks inc) fun _ => sendAck_tracks

theorem processSynSent_tracks (inc : Incoming) :
    ConnTracks env first (processSynSent env inc) := by
  refine .bind (.gets _) fun _ => .ite ?_ (.bind (callback_tracks _) fun _ => sendAbort_tracks)
  refine .bind (modifyConn_tracks _) fun _ => .bind (onWorld_tracks (record_tracks rfl)) fun _ =>
    .bind (modifyConn_tracks _) fun _ => .bind (modifyConn_tracks _) fun _ =>
    .bind (callback_tracks _) fun _ => .bind (.when ?_) fun _ => sendAck_tracks
  exact .bind (modifyConn_tracks _) fun _ => deliver_tracks inc

theorem processFin_tracks (inc : Incoming) : ConnTracks env first (processFin env inc) :=
  .bind (.gets _) fun _ => .ite (.pure _) <| .bind (modifyConn_tracks _) fun _ =>
    .bind (.when (deliver_tracks inc)) fun _ => .bind (modifyConn_tracks _) fun _ =>
    pushFinAck_tracks

theorem flush_tracks (canSend : Bool) : ConnTracks env first (flush env canSend) :=
  .bind (.gets _) fun _ => .ite (sendNoDelay_tracks _) (.ite sendAck_tracks (.pure _))

theorem notifyNewData_tracks (inc : Incoming) (canSend : Bool)
    {next : ConnProgram D H Status} (hnext : ConnTracks env first next) :
    ConnTracks env first (notifyNewData env inc canSend next) := by
  refine .bind (.gets _) fun e => .ite (.ite (respond_tracks _ _ hnext) ?_) hnext
  exact .bind sendAck_tracks fun ret => .bind (onWorld_tracks (record_tracks rfl)) fun _ =>
    .ite (.pure _) (respond_tracks _ _ hnext)

theorem notifyAcked_tracks (canSend : Bool) {next : Bool → ConnProgram D H Status}
    (hnext : ∀ canSend, ConnTracks env first (next canSend)) :
    ConnTracks env first (notifyAcked env canSend next) :=
  .bind (.gets _) fun _ =>
    .ite (respond_tracks _ _ (.bind (.gets _) fun _ => hnext _)) (hnext _)

theorem processEstablished_tracks (inc : Incoming) :
    ConnTracks env first (processEstablished env inc) :=
  .ite (processFin_tracks inc) <| .bind (.when (modifyConn_tracks _)) fun _ =>
    .bind (modifyConn_tracks _) fun _ => .bind (.gets _) fun _ =>
    .ite (notifyAcked_tracks _ fun _ => notifyNewData_tracks inc _ (flush_tracks _)) (.pure _)

theorem processLastAck_tracks : ConnTracks env first (processLastAck env) := by
  refine .bind (.gets _) fun _ => .bind (.when ?_) fun _ => .pure _
  exact .bind (onWorld_tracks (deviceUnlisten_tracks _)) fun _ =>
    .bind (modifyConn_tracks _) fun _ => .bind (callback_tracks _) fun _ => .pure _

theorem skipPayload_tracks (inc : Incoming) : ConnTracks (H := H) env first (skipPayload inc) :=
  .when (modifyConn_tracks _)

theorem enterTimeWait_tracks : ConnTracks (D := D) (H := H) env first enterTimeWait :=
  .bind (modifyConn_tracks _) fun _ => modifyConn_tracks _

theorem acknowledgeFin_tracks : ConnTracks env first (acknowledgeFin env) :=
  .bind (modifyConn_tracks _) fun _ => .bind (callback_tracks _) fun _ => sendAck_tracks

theorem processFinWait1_tracks (inc : Incoming) :
    ConnTracks env first (processFinWait1 env inc) := by
  refine .bind (skipPayload_tracks inc) fun _ => .bind (.gets _) fun e => .ite ?_ ?_
  · cases e.ackdata with
    | true => exact .bind enterTimeWait_tracks fun _ => acknowledgeFin_tracks
    | false => exact .bind (modifyConn_tracks _) fun _ => acknowledgeFin_tracks
  · exact .ite (.bind (modifyConn_tracks _) fun _ => .pure _) (.ite sendAck_tracks (.pure _))

theorem processFinWait2_tracks (inc : Incoming) :
    ConnTracks env first (processFinWait2 env inc) :=
  .bind (skipPayload_tracks inc) fun _ =>
    .ite (.bind enterTimeWait_tracks fun _ => acknowledgeFin_tracks) (.ite sendAck_tracks (.pure _))

theorem processClose_tracks (inc : Incoming) : ConnTracks env first (processClose env inc) :=
  .bind (.gets _) fun _ => .ite (.pure _) <| .bind (modifyConn_tracks _) fun _ =>
    .bind (pushSegment_tracks _) fun _ => .bind (.when (modifyConn_tracks _)) fun _ =>
    sendFinAck_tracks

theorem processClosing_tracks : ConnTracks (D := D) (H := H) env first processClosing :=
  .bind (.gets _) fun _ => .bind (.when enterTimeWait_tracks) fun _ => .pure _

theorem processState_tracks (inc : Incoming) : ConnTracks env first (processState env inc) := by
  refine .bind (.gets _) fun e => ?_
  cases e.state with
  | synRcvd => exact processSynRcvd_tracks inc
  | synSent => exact processSynSent_tracks inc
  | established => exact processEstablished_tracks inc
  | lastAck => exact processLastAck_tracks
  | finWait1 => exact processFinWait1_tracks inc
  | finWait2 => exact processFinWait2_tracks inc
  | timeWait => exact sendAck_tracks
  | close => exact processClose_tracks inc
  | closing => exact processClosing_tracks
  | stopped | closed => exact .pure _

theorem processAck_tracks (inc : Incoming) : ConnTracks (H := H) env first (processAck inc) :=
  .bind (.gets _) fun _ => .ite (.bind (modifyConn_tracks _) fun _ => .pure _) (.pure _)

theorem processRst_tracks : ConnTracks env first (processRst env) :=
  .bind (.gets _) fun _ => .bind (onWorld_tracks (deviceUnlisten_tracks _)) fun _ =>
    .bind (modifyConn_tracks _) fun _ => .bind (callback_tracks _) fun _ => .pure _

theorem processSegment_tracks (inc : Incoming) :
    ConnTracks env first (processSegment env inc) := by
  refine .bind (modifyConn_tracks _) fun _ => .bind (.gets _) fun _ =>
    .ite processRst_tracks (.ite sendAck_tracks ?_)
  exact .bind (processAck_tracks inc) fun _ => .ite rexmit_tracks (processState_tracks inc)

/-! ## Timers -/

theorem pushSyn_tracks (outdata : Ptr) : ConnTracks (H := H) env first (pushSyn outdata) := by
  refine .bind (.gets _) fun e => ?_
  cases e.nextAvailableSegment with
  | none => exact .fault _
  | some i => exact .bind (modifyConn_tracks _) fun _ => .pure _

theorem openSynRcvd_tracks (inc : Incoming) (iss : UInt32) (outdata : Ptr) :
    ConnTracks env first (openSynRcvd env inc iss outdata) :=
  .bind (.gets _) fun _ => .bind (onWorld_tracks (record_tracks rfl)) fun _ =>
    .bind (onWorld_tracks (record_tracks rfl)) fun _ => .bind (modifyConn_tracks _) fun _ =>
    .bind (pushSyn_tracks outdata) fun _ => .bind (modifyConn_tracks _) fun _ => sendSynAck_tracks

namespace Processor

theorem world_tracks {m : WorldProgram D H α} (h : WorldTracks env first m) :
    ProcTracks (n := n) env first (world m) :=
  .zoom (fun _ hp => hp) (fun _ _ _ hw => hw) h

theorem onConn_tracks {i : Fin n} {m : ConnProgram D H α} (h : ConnTracks env first m) :
    ProcTracks env first (onConn i m) :=
  .zoom (fun _ hp => hp) (fun _ _ _ hs => hs) h

theorem prepareTo_tracks (rhwaddr : Ethernet.Address) (ripaddr : Ipv4.Address) :
    WorldTracks env first (prepareTo env rhwaddr ripaddr) :=
  .bind (.update fun _ hw => hw) fun _ => .bind (.update fun _ hw => hw) fun _ =>
    .bind (.update fun _ hw => hw) fun _ => Ipv4Producer.prepare_tracks

theorem reset_tracks (inc : Incoming) : WorldTracks env first (reset env inc) := by
  refine .bind (prepareTo_tracks _ _) fun ret => ?_
  cases ret with
  | error ret => exact .pure _
  | ok outdata =>
      exact .ite (.pure _) (.bind (modifyHeader_tracks _ _) fun _ => sendFrame_tracks _ _ _ _)

theorem acceptSyn_tracks (inc : Incoming) :
    ProcTracks (n := n) env first (acceptSyn env inc) := by
  refine .bind (.gets _) fun p => ?_
  cases p.vacant with
  | none => exact .pure _
  | some i =>
      refine .bind (world_tracks (prepareTo_tracks _ _)) fun ret => ?_
      cases ret with
      | error ret => exact .pure _
      | ok outdata => exact onConn_tracks (openSynRcvd_tracks _ _ _)

theorem process_tracks (inc : Incoming) : ProcTracks (n := n) env first (process env inc) := by
  refine .bind (.gets _) fun p => .ite (.pure _) ?_
  cases p.demux inc with
  | some i => exact onConn_tracks (processSegment_tracks inc)
  | none =>
      exact .ite (world_tracks (reset_tracks inc))
        (.ite (acceptSyn_tracks inc) (world_tracks (reset_tracks inc)))

end Processor

end Walk

end Tulips.Tcpv4
