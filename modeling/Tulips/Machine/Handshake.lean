import Tulips.Machine.Departures

/-!
# The first segments

What leaves when a connection is opened on either side: the SYN or its answer,
with its flags and options, from the buffer that was prepared for it.
-/

namespace Tulips.Tcpv4

variable {D H : Type} {env : Env D H}

/-- The window a SYN announces, unscaled. -/
def Env.synWindow (env : Env D H) (dev : D) : UInt16 :=
  Utils.cap ((env.device.receiveBuffersAvailable dev).toUInt32 <<<
    env.device.receiveBufferLengthLog2.toUInt32)

/-- The frame of a SYN, or of the answer to one. -/
structure IsSyn (env : Env D H) (dev : D) (initialmss : UInt16) (flags : UInt8)
    (frame : List UInt8) : Prop where
  length : frame.length = tcpOffset + 28
  flags : (Frame.header frame).flags = flags
  offset : (Frame.header frame).offset = 7
  wnd : (Frame.header frame).wnd = htons (env.synWindow dev)
  options : frame.drop (tcpOffset + headerLen) = synOptions env initialmss

section Opening

variable {s : Ctx D H}

theorem isSyn_of_frame {seqno : UInt32} {hdr : Header} {frame : List UInt8} {flags : UInt8}
    (hlength : frame.length = tcpOffset + 28)
    (hheader : ∃ chksum, Frame.header frame = { s.filled env seqno
      { hdr with flags := flags, offset := 7 } with chksum := chksum })
    (hoptions : frame.drop (tcpOffset + headerLen) = synOptions env s.e.initialmss)
    (hstate : s.e.state ≠ .stopped) (hsyn : flags &&& tcpSyn ≠ 0) :
    IsSyn env s.w.dev s.e.initialmss flags frame := by
  obtain ⟨chksum, hheader⟩ := hheader
  refine ⟨hlength, ?_, ?_, ?_, hoptions⟩
  · rw [hheader]
    rfl
  · rw [hheader]
    rfl
  · rw [hheader]
    simp only [Ctx.filled, windowField, hstate, if_false, hsyn, ne_eq, not_false_iff, if_true]
    rfl

/-- The ring of a connection whose SYN has been put in its slot. -/
theorem pushSyn_some {k : Fin segmentCount} (outdata : Ptr)
    (hfree : s.e.nextAvailableSegment = some k) :
    pushSyn outdata s = .ok k
      { s with e := s.e.setSegment k ⟨1, s.e.sndNxt, some outdata⟩ } := by
  unfold pushSyn
  rw [Program.bind_gets, hfree]
  rfl

theorem pushSyn_none (outdata : Ptr) (hfree : s.e.nextAvailableSegment = none) :
    pushSyn outdata s = .error .noSegment s := by
  unfold pushSyn
  rw [Program.bind_gets, hfree]
  rfl

/-- A ring without a free slot has none from any index on. -/
theorem nextAvailableSegment_eq_none {e : Connection} (hfull : e.hasAvailableSegments = false) :
    e.nextAvailableSegment = none := by
  cases hnext : e.nextAvailableSegment with
  | none => rfl
  | some k =>
      have hfree : (e.segments k).isFree = true := Ring.free_of_firstFree hnext
      have havail : e.hasAvailableSegments = true :=
        e.hasAvailableSegments_iff.mpr ⟨k, hfree⟩
      rw [hfull] at havail
      cases havail

/-- The connection a client opens. -/
def Connection.synSent (e : Connection) (initialmss : UInt16) (rhwaddr : Ethernet.Address)
    (ripaddr : Ipv4.Address) (lport rport : Port) (iss : UInt32) : Connection :=
  { e.start initialmss with
    rethaddr := rhwaddr
    ripaddr := ripaddr
    lport := htons lport
    rport := htons rport
    rcvNxt := 0
    sndNxt := iss
    state := .synSent
    wnd := 0
    nrtx := 1
    sv := 16
    cookie := none }

variable (env) (rhwaddr : Ethernet.Address) (ripaddr : Ipv4.Address) (lport rport : Port)
  (iss : UInt32)

theorem openSynSent_full (buf : Nat) (hfull : s.e.hasAvailableSegments = false) :
    ∃ t, openSynSent env rhwaddr ripaddr lport rport iss ⟨buf, tcpOffset⟩ s =
      .error .noSegment t := by
  let e₁ := s.e.synSent env.initialMss rhwaddr ripaddr lport rport iss
  have hnone : e₁.nextAvailableSegment = none := nextAvailableSegment_eq_none hfull
  let ev : Event := .create s.e.id iss buf s.e.hasOutstandingSegments
  let s₁ : Ctx D H := ⟨e₁, { s.w with log := ev :: s.w.log }⟩
  have hpush := pushSyn_none (s := s₁) ⟨buf, tcpOffset⟩ hnone
  refine ⟨s₁, ?_⟩
  have hrun : openSynSent env rhwaddr ripaddr lport rport iss ⟨buf, tcpOffset⟩ s =
      (pushSyn ⟨buf, tcpOffset⟩ >>= fun i => setFlags (some ⟨buf, tcpOffset⟩) 0 none >>= fun _ =>
        sendSyn env i) s₁ := rfl
  rw [hrun]
  exact Program.bind_of_error hpush

/-- A client's connection starts with a SYN. -/
theorem openSynSent_departs (buf : Nat) (havail : s.e.hasAvailableSegments = true) :
    ∃ t frame, let served := env.device.serve s.w.dev buf frame env.initialMss
      openSynSent env rhwaddr ripaddr lport rport iss ⟨buf, tcpOffset⟩ s =
        .ok served.status t ∧
      commits t.w.log = .commit (some s.e.id) buf frame env.initialMss
        (env.device.commit s.w.dev buf frame env.initialMss).1 :: commits s.w.log ∧
      t.e.state = .synSent ∧ IsSyn env s.w.dev env.initialMss tcpSyn frame := by
  let e₁ := s.e.synSent env.initialMss rhwaddr ripaddr lport rport iss
  let ev : Event := .create s.e.id iss buf s.e.hasOutstandingSegments
  let s₁ : Ctx D H := ⟨e₁, { s.w with log := ev :: s.w.log }⟩
  let outdata : Ptr := ⟨buf, tcpOffset⟩
  have hfree : e₁.core.hasFree := s.e.hasAvailableSegments_iff.mp havail
  obtain ⟨k, hk⟩ := Core.nextFree_isSome hfree
  let s₂ : Ctx D H := { s₁ with e := e₁.setSegment k ⟨1, iss, some outdata⟩ }
  have hpush : pushSyn outdata s₁ = .ok k s₂ := pushSyn_some outdata hk
  have hdat : (s₂.e.segments k).dat = some outdata :=
    congrArg Segment.dat (Function.update_self k _ e₁.segments)
  obtain ⟨w, hok, hhdr, hlaid⟩ := modifyHeader_laid (some s₂.e.id) outdata
    (fun h => { h with flags := 0, offset := none.getD h.offset }) s₂.w
  obtain ⟨t, ret, frame, hsend, hdeparts, hframe⟩ :=
    sendSyn_departs env (s := { s₂ with w := w }) hdat
  have hdeparts := hdeparts.of_laid hlaid
  obtain ⟨hheader, hoptions⟩ := hframe (Nat.le_refl _)
  refine ⟨t, frame, ?_, ?_, ?_, ?_⟩
  · have hset : setFlags (some outdata) 0 none s₂ = .ok () { s₂ with w := w } := onWorld_ok hok
    have hrun : openSynSent env rhwaddr ripaddr lport rport iss outdata s =
        (pushSyn outdata >>= fun i => setFlags (some outdata) 0 none >>= fun _ =>
          sendSyn env i) s₁ := rfl
    rw [hrun, Program.bind_of_ok hpush, Program.bind_of_ok hset, hsend, hdeparts.status]
    rfl
  · exact hdeparts.commits.trans (congrArg _ (commits_cons rfl _))
  · obtain ⟨sdat, cookie, opts, he⟩ := hdeparts.conn
    rw [he]
    rfl
  · rw [Ctx.filled_congr env hlaid.dev, hhdr, show (0 : UInt8) ||| tcpSyn = tcpSyn from rfl]
      at hheader
    exact isSyn_of_frame (s := s₂) (hdeparts.length (by decide)) hheader hoptions
      State.noConfusion (by decide)

end Opening

end Tulips.Tcpv4
