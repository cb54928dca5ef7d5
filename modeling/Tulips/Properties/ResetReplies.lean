import Tulips.Machine.Addresses
import Tulips.Machine.Testbed

/-!
# Replies to segments nobody waits for

A segment that is for no connection and opens none is answered with a reset, unless
it is one itself. The reset puts the acknowledgement number of the segment where the
sender expects it, but it never acknowledges anything: its only flag is RST.
-/

namespace Tulips.Tcpv4.Processor

variable {D H : Type} {n : Nat} {env : Env D H}

/-! ## The reply that is due -/

/-- How many sequence numbers a segment takes. -/
def seglen (inc : Incoming) : UInt32 :=
  inc.plen.toUInt32 + (if inc.has tcpSyn then 1 else 0) + (if inc.has tcpFin then 1 else 0)

/-- The segment is for no connection, and it is no SYN for a port the processor
listens on. -/
def Unmatched (p : Processor D H n) (inc : Incoming) : Prop :=
  p.demux inc = none ∧ ¬(inc.ctlIs tcpSyn = true ∧ inc.hdr.destport ∈ p.listenports)

/-- A frame that tells the sender of a segment, in the numbers it goes by, that there
is no connection. -/
structure Refuses (inc : Incoming) (frame : List UInt8) : Prop where
  addressed : Addressed (Frame.bytes frame) inc.ethSrc inc.ipSrc Ipv4.protoTcp
  srcport : (Frame.header frame).srcport = inc.hdr.destport
  destport : (Frame.header frame).destport = inc.hdr.srcport
  reset : (Frame.header frame).has tcpRst = true
  answers : inc.has tcpAck = true → Frame.seqno frame = inc.ackno
  acknowledges : inc.has tcpAck = false → (Frame.header frame).has tcpAck = true ∧
    ntohl (Frame.header frame).ackno = inc.seqno + seglen inc

/-- The processor answers a segment with nothing if it is a reset, and else with
exactly one frame, the reset that is due. -/
def RepliesTo (env : Env D H) (p : Processor D H n) (inc : Incoming) : Prop :=
  ∃ ret q, process env inc p = .ok ret q ∧
    if inc.has tcpRst then commits q.w.log = commits p.w.log
    else ∃ buf frame mss served,
      commits q.w.log = .commit none buf frame mss served :: commits p.w.log ∧ Refuses inc frame

/-! ## The reply that is sent -/

/-- The header of a reset. -/
structure IsReset (inc : Incoming) (frame : List UInt8) : Prop where
  addressed : Addressed (Frame.bytes frame) inc.ethSrc inc.ipSrc Ipv4.protoTcp
  srcport : (Frame.header frame).srcport = inc.hdr.destport
  destport : (Frame.header frame).destport = inc.hdr.srcport
  flags : (Frame.header frame).flags = tcpRst
  seqno : (Frame.header frame).seqno = inc.hdr.ackno

theorem IsReset.refuses_iff {inc : Incoming} {frame : List UInt8} (h : IsReset inc frame) :
    Refuses inc frame ↔ inc.has tcpAck = true := by
  constructor
  · intro hrefuses
    by_contra hack
    have hflag := (hrefuses.acknowledges (by simpa using hack)).1
    rw [Header.has, h.flags] at hflag
    revert hflag
    decide
  · intro hack
    refine ⟨h.addressed, h.srcport, h.destport, ?_, fun _ => ?_, fun hno => ?_⟩
    · rw [Header.has, h.flags]
      decide
    · rw [Frame.seqno, h.seqno, Incoming.ackno]
    · rw [hack] at hno
      cases hno

/-- The header of a reset is put in, and the frame is handed over. -/
theorem sendReset_departs (env : Env D H) (inc : Incoming) {buf : Nat} {w : World D H}
    (haddressed : Addressed (w.mem buf) inc.ethSrc inc.ipSrc Ipv4.protoTcp) :
    ∃ ret w' frame, (do
        modifyHeader none (some ⟨buf, tcpOffset⟩) fun h =>
          { h with
            flags := tcpRst
            offset := 5
            seqno := inc.hdr.ackno
            ackno := htonl (inc.seqno + 1)
            srcport := inc.hdr.destport
            destport := inc.hdr.srcport }
        sendFrame env none inc.ipSrc (UInt32.ofNat headerLen) env.initialMss
          (some ⟨buf, tcpOffset⟩) : WorldProgram D H Status) w = .ok ret w' ∧
      commits w'.log = .commit none buf frame env.initialMss ret :: commits w.log ∧
      IsReset inc frame := by
  obtain ⟨w₁, h₁, hhdr, hlaid⟩ := modifyHeader_laid none ⟨buf, tcpOffset⟩ (fun h =>
    { h with
      flags := tcpRst
      offset := 5
      seqno := inc.hdr.ackno
      ackno := htonl (inc.seqno + 1)
      srcport := inc.hdr.destport
      destport := inc.hdr.srcport }) w
  obtain ⟨w₂, frame, h₂, -, hcommit, -, -, hframe⟩ := sendFrame_departs env none inc.ipSrc
    (UInt32.ofNat headerLen) env.initialMss ⟨buf, tcpOffset⟩ w₁
  obtain ⟨chksum, hheader⟩ := (hframe (Nat.le_refl _) (by decide) (by decide)).header
  rw [hhdr] at hheader
  obtain ⟨-, frame', rest, hlog, hbytes⟩ := sendFrame_addressed h₂ rfl (by decide)
  -- The frame at the head of the history is the one that was committed.
  have hsame : frame' = frame := by
    rw [hlog, commits_cons_commit] at hcommit
    exact (Event.commit.inj (List.cons.inj hcommit).1).2.2.1
  refine ⟨_, w₂, frame, (Program.bind_of_ok h₁).trans h₂, ?_, ?_⟩
  · rw [hcommit, hlaid.commits_eq]
  · refine ⟨haddressed.congr fun i hi => ?_, ?_, ?_, ?_, ?_⟩
    · rw [← hsame, hbytes i hi, modifyHeader_addressing h₁ rfl i hi]
    all_goals rw [hheader]

/-- What `Processor::reset` does, by what the device answers and what the segment is. -/
theorem reset_cases (env : Env D H) (inc : Incoming) (w : World D H) :
    ∃ ret w', reset env inc w = .ok ret w' ∧
      match (env.device.prepare w.dev).1 with
      | .error _ => commits w'.log = commits w.log
      | .ok (buf, _) =>
          if inc.has tcpRst then commits w'.log = commits w.log
          else ∃ frame, commits w'.log = .commit none buf frame env.initialMss ret ::
            commits w.log ∧ IsReset inc frame := by
  let w₀ : World D H := { w with
    ip4to := { w.ip4to with proto := Ipv4.protoTcp, destAddress := inc.ipSrc }
    ethto := { w.ethto with destAddress := inc.ethSrc } }
  have hprepare : prepareTo env inc.ethSrc inc.ipSrc w = Ipv4Producer.prepare env none w₀ := rfl
  rcases prepare_departs env none w₀ with
    ⟨failure, w₁, hdev, h₁, hcommits, -⟩ | ⟨buf, content, w₁, hdev, h₁, hcommits, -⟩
  · rw [show (env.device.prepare w.dev).1 = .error failure from hdev]
    rw [← hprepare] at h₁
    exact ⟨failure.val, w₁, Program.bind_of_ok h₁, hcommits⟩
  · have haddressed : Addressed (w₁.mem buf) inc.ethSrc inc.ipSrc Ipv4.protoTcp :=
      (prepare_addressed h₁).2
    rw [show (env.device.prepare w.dev).1 = .ok (buf, content) from hdev]
    rw [← hprepare] at h₁
    unfold reset
    rw [Program.bind_of_ok h₁]
    by_cases hrst : inc.has tcpRst = true
    · simp only [hrst, if_true]
      exact ⟨.ok, w₁, rfl, hcommits⟩
    · obtain ⟨ret, w₂, frame, h₂, hcommit, hreset⟩ := sendReset_departs env inc haddressed
      simp only [hrst]
      refine ⟨ret, w₂, h₂, frame, ?_, hreset⟩
      rw [hcommit, hcommits]

/-- A segment nobody waits for goes to `Processor::reset`. -/
theorem process_unmatched {p : Processor D H n} {inc : Incoming} (h : p.Unmatched inc)
    (hsum : tcpChecksum inc.ipSrc inc.ipDst inc.len inc.data = 0xffff) :
    process env inc p = world (reset env inc) p := by
  obtain ⟨hdemux, hsyn⟩ := h
  unfold process
  rw [Program.bind_gets, if_neg (by simp [hsum]), id_eq, hdemux]
  simp only
  by_cases hctl : inc.ctlIs tcpSyn = false
  · rw [if_pos hctl]
  · rw [if_neg hctl, if_neg fun hport => hsyn ⟨by simpa using hctl, hport⟩]

/-- A segment nobody waits for is answered as it should be exactly if it is a reset,
or carries an acknowledgement and the device has a buffer for the answer. -/
theorem repliesTo_iff (env : Env D H) {p : Processor D H n} {inc : Incoming}
    (h : p.Unmatched inc)
    (hsum : tcpChecksum inc.ipSrc inc.ipDst inc.len inc.data = 0xffff) :
    p.RepliesTo env inc ↔ inc.has tcpRst = true ∨ inc.has tcpAck = true ∧
      ∃ buf content, (env.device.prepare p.w.dev).1 = .ok (buf, content) := by
  obtain ⟨ret, w', hrun, hcases⟩ := reset_cases env inc p.w
  have hprocess : process env inc p = .ok ret { p with w := w' } := by
    rw [process_unmatched h hsum]
    exact Program.zoom_of_ok hrun
  have hreplies : p.RepliesTo env inc ↔ if inc.has tcpRst then commits w'.log = commits p.w.log
      else ∃ buf frame mss served,
        commits w'.log = .commit none buf frame mss served :: commits p.w.log ∧
          Refuses inc frame := by
    constructor
    · rintro ⟨ret', q, hok, hanswer⟩
      rw [hprocess] at hok
      cases hok
      exact hanswer
    · intro hanswer
      exact ⟨ret, _, hprocess, hanswer⟩
  rw [hreplies]
  match hdev : (env.device.prepare p.w.dev).1 with
  | .error failure =>
      rw [hdev] at hcases
      have hnothing : commits w'.log = commits p.w.log := hcases
      by_cases hrst : inc.has tcpRst = true <;> simp [hrst, hnothing]
  | .ok (buf, content) =>
      rw [hdev] at hcases
      by_cases hrst : inc.has tcpRst = true
      · simp only [hrst, if_true] at hcases
        simp [hrst, hcases]
      · simp only [hrst] at hcases
        obtain ⟨frame, hcommits, hreset⟩ := hcases
        have hiff := hreset.refuses_iff
        simp only [hrst, hcommits, List.cons.injEq, Event.commit.injEq, and_true, true_and]
        constructor
        · rintro ⟨_, frame', _, _, ⟨-, rfl, -, -⟩, hrefuses⟩
          exact .inr ⟨hiff.mp hrefuses, buf, content, rfl⟩
        · rintro (hrst' | ⟨hack, -⟩)
          · exact absurd hrst' (by simp)
          · exact ⟨buf, frame, _, _, ⟨rfl, rfl, rfl, rfl⟩, hiff.mpr hack⟩

/-- A stray acknowledgement. -/
theorem repliesTo_iff_ack :
    let inc := Testbed.incoming { Testbed.header 5000 tcpAck 7 9 with chksum := 60822 } []
    (Testbed.start 1 .empty []).RepliesTo Testbed.env inc ↔ inc.has tcpRst = true ∨
      inc.has tcpAck = true ∧
        ∃ buf content, (Testbed.env.device.prepare .empty).1 = .ok (buf, content) :=
  repliesTo_iff Testbed.env ⟨by decide, by decide⟩ (by decide +kernel)

/-- The reset that answers a SYN acknowledges nothing. -/
theorem not_repliesTo : ¬ ∀ (p : Processor Testbed.Script Testbed.Answers 1) (inc : Incoming),
    p.Unmatched inc → tcpChecksum inc.ipSrc inc.ipDst inc.len inc.data = 0xffff →
      p.RepliesTo Testbed.env inc := by
  intro hall
  let p := Testbed.start 1 .empty []
  let inc := Testbed.incoming { Testbed.header 5000 tcpSyn 7 0 with chksum := 1175 } []
  have hunmatched : p.Unmatched inc := ⟨by decide, by decide⟩
  have hsum : tcpChecksum inc.ipSrc inc.ipDst inc.len inc.data = 0xffff := by decide +kernel
  obtain ⟨ret, w', hrun, hcases⟩ := reset_cases Testbed.env inc p.w
  have hprocess : process Testbed.env inc p = .ok ret { p with w := w' } := by
    rw [process_unmatched hunmatched hsum]
    exact Program.zoom_of_ok hrun
  have hdev : (Testbed.env.device.prepare p.w.dev).1 = .ok (0, fun _ => 0) := rfl
  have hno : inc.has tcpRst = false := by decide
  simp only [hdev, hno] at hcases
  obtain ⟨frame, hsent, hreset⟩ := hcases
  obtain ⟨_, q, hok, hanswer⟩ := hall p inc hunmatched hsum
  rw [hprocess] at hok
  cases hok
  simp only [hno] at hanswer
  obtain ⟨_, frame', _, _, hsent', hrefuses⟩ := hanswer
  rw [show commits w'.log = _ from hsent] at hsent'
  obtain rfl := (Event.commit.inj (List.cons.inj hsent').1).2.2.1
  exact absurd (hreset.refuses_iff.mp hrefuses) (by decide)

end Tulips.Tcpv4.Processor
