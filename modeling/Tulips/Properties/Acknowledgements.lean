import Tulips.Machine.Departures
import Tulips.Machine.Placement
import Tulips.Machine.Testbed

/-!
# Acknowledgements

An acknowledgement is one bare segment that leaves what is pending alone, as
long as nothing is pending: it leaves from the send buffer, whatever stands in
it, and the send buffer is replaced.
-/

namespace Tulips.Tcpv4

variable {D H : Type}

/-- The frame is a bare acknowledgement of a connection. -/
structure IsAck (e : Connection) (frame : List UInt8) : Prop where
  length : frame.length = tcpOffset + headerLen
  flags : (Frame.header frame).flags = tcpAck
  offset : (Frame.header frame).offset = 5
  seqno : ntohl (Frame.header frame).seqno = e.sndNxt
  ackno : ntohl (Frame.header frame).ackno = e.rcvNxt

/-- One acknowledgement has been committed, and what was pending still is. -/
structure Acknowledged (s t : Ctx D H) : Prop where
  frame : ∃ buf frame, commits t.w.log =
    .commit (some s.e.id) buf frame s.e.mss .ok :: commits s.w.log ∧ IsAck s.e frame
  slen : t.e.slen = s.e.slen
  pending : t.pending = s.pending

section Ack

variable {env : Env D H} {s t : Ctx D H} {p : Ptr}

/-- Setting the flags of an acknowledgement in the send buffer. -/
theorem setAck_laid (p : Ptr) (s : Ctx D H) :
    ∃ w, setFlags (some p) tcpAck (some 5) s = .ok () { s with w := w } ∧
      (w.headerAt p).flags = tcpAck ∧ (w.headerAt p).offset = 5 ∧
      Laid (some s.e.id) p p.off (p.off + headerLen) s.w w := by
  obtain ⟨w, hok, hhdr, hlaid⟩ := modifyHeader_laid (some s.e.id) p
    (fun h => { h with flags := tcpAck, offset := (some 5).getD h.offset }) s.w
  refine ⟨w, onWorld_ok hok, ?_, ?_, hlaid⟩
  · rw [hhdr]
  · rw [hhdr]
    rfl

/-- With nothing pending, the acknowledgement is what it should be. -/
theorem acknowledged_of_empty (hsdat : s.e.sdat = some p) (hoff : tcpOffset ≤ p.off)
    (hslen : s.e.slen = 0) (hok : sendAck env s = .ok .ok t) : Acknowledged s t := by
  obtain ⟨w, hset, hflags, hoffset, hlaid⟩ := setAck_laid p s
  let s₁ : Ctx D H := { s with w := w }
  obtain ⟨t', frame, hsend, hcommits, he, hout, hframe⟩ := sendControl_departs env (s := s₁) hsdat
  have hrun : sendAck env s = sendControl env s₁ := by
    have hnone : s.e.hasPendingSendData = false := by simp [Connection.hasPendingSendData, hslen]
    unfold sendAck
    rw [Program.bind_gets, hnone, if_neg (by decide), hsdat, Program.bind_of_ok hset]
  rw [hrun, hsend] at hok
  obtain ⟨hstatus, rfl⟩ := EStateM.Result.ok.inj hok
  have htaken := Service.status_eq_ok.mp hstatus
  rw [Device.commit_of_serve, htaken] at hcommits
  obtain ⟨dev, buf, content, -, hsdat', -⟩ := hout htaken
  refine ⟨⟨p.buf, frame, hcommits.trans (by rw [hlaid.commits_eq]; rfl), ?_⟩, ?_, ?_⟩
  · obtain ⟨hlength, ⟨chksum, hheader⟩, -⟩ := hframe hoff
    refine ⟨hlength, ?_, ?_, ?_, ?_⟩ <;> rw [hheader]
    · exact hflags
    · exact hoffset
    · exact ntohl_htonl _
    · exact ntohl_htonl _
  · rw [he]
  · have hslen' : t'.e.slen = 0 := by
      rw [he]
      exact hslen
    rw [Ctx.pending_of_some hsdat, Ctx.pending_of_some hsdat', hslen, hslen']
    rfl

/-- The device takes every frame, and hands out one buffer full of one byte. -/
def Device.filling (device : Device D) (buf : Nat) (byte : UInt8) : Device D :=
  { device with
    prepare := fun dev => (.ok (buf, fun _ => byte), dev)
    commit := fun dev _ _ _ => (.ok, dev) }

variable (env) in
/-- What is pending goes with the send buffer. -/
theorem not_acknowledged (hsdat : s.e.sdat = some p) (hslen : s.e.slen ≠ 0) :
    ∃ device t, sendAck { env with device := device } s = .ok .ok t ∧ ¬ Acknowledged s t := by
  let byte := s.w.mem p.buf (p.off + headerLen)
  let env' : Env D H := { env with device := env.device.filling (p.buf + 1) (byte + 1) }
  obtain ⟨ret, w, hprepare, -⟩ | ⟨buf, content, w, hprepare, hdev, -, -, -⟩ :=
    devicePrepare_departs env' (some s.e.id) s.w
  · cases hprepare
  obtain ⟨w', hset, -, -, -⟩ := setAck_laid ⟨buf, 0⟩ ({ s with w := w } : Ctx D H)
  obtain ⟨t, frame, hsend, -, he, hout, -⟩ :=
    sendControl_departs env' (s := { s with w := w' }) hsdat
  have htaken : env'.device.serve w'.dev p.buf frame s.e.mss = .taken := rfl
  refine ⟨env'.device, t, ?_, fun hack => ?_⟩
  · have hpending : s.e.hasPendingSendData = true := by
      simpa [Connection.hasPendingSendData] using hslen
    change sendAck env' s = _
    unfold sendAck
    rw [Program.bind_gets, if_pos hpending, Program.bind_of_ok (onWorld_ok hdev)]
    simp only
    rw [Program.bind_of_ok hset, hsend]
    rw [htaken]
    rfl
  · obtain ⟨dev, buf', content', hprepare', hsdat', hcontent⟩ := hout htaken
    obtain ⟨rfl, rfl⟩ : buf' = p.buf + 1 ∧ content' = fun _ => byte + 1 := by
      cases hprepare'
      exact ⟨rfl, rfl⟩
    have hpending := hack.pending
    rw [Ctx.pending_of_some hsdat, Ctx.pending_of_some hsdat', hack.slen] at hpending
    have hlt : 0 < s.e.slen.toNat := by
      rw [Nat.pos_iff_ne_zero]
      exact fun h => hslen (BitVec.eq_of_toNat_eq h)
    have hfirst := congrArg (fun bytes => bytes[0]?) hpending
    simp only [BlockMemory.getElem?_read hlt, Option.some_inj, Nat.add_zero] at hfirst
    rw [hcontent _ (by omega)] at hfirst
    have : byte + 1 ≠ byte := by
      simp
    exact this hfirst

/-- An acknowledgement is one bare segment that leaves what is pending alone,
with every device, exactly when nothing is pending. -/
theorem sendAck_acknowledges_iff (hsdat : s.e.sdat = some p) (hoff : tcpOffset ≤ p.off) :
    (∀ device t, sendAck { env with device := device } s = .ok .ok t → Acknowledged s t) ↔
      s.e.hasPendingSendData = false := by
  constructor
  · intro h
    by_contra hpending
    have hslen : s.e.slen ≠ 0 := by simpa [Connection.hasPendingSendData] using hpending
    obtain ⟨device, t, hok, hnot⟩ := not_acknowledged env hsdat hslen
    exact hnot (h device t hok)
  · intro hnone device t hok
    have hslen : s.e.slen = 0 := by simpa [Connection.hasPendingSendData] using hnone
    exact acknowledged_of_empty hsdat hoff hslen hok

end Ack

/-- The send buffers of a reached processor have room for the lower headers. -/
theorem Processor.Reachable.sdat_off {n : Nat} {env : Env D H} {q : Processor D H n}
    (hq : Reachable env q) {i : Fin n} {p : Ptr} (hsdat : (q.conns i).sdat = some p) :
    tcpOffset ≤ p.off :=
  Nat.le_of_eq ((hq.placed i).sdat p hsdat).symm

section Runs

open Testbed

/-- Four bytes are in flight, and three more wait for their acknowledgement. -/
def waitingRun : List Processor.Op :=
  [connectFrom 5000, segment 5000 (tcpSyn ||| tcpAck) 100 1 [],
    .send 0 4 (some fun i => UInt8.ofNat (i + 1)) 0,
    .send 0 3 (some fun i => UInt8.ofNat (i + 1)) 0]

theorem sendAck_acknowledges_iff_waiting :
    ∃ q : Processor Script Answers 1, Processor.Reachable env q ∧ (q.conns 0).slen = 3 ∧
      ¬ ∀ device t, sendAck { env with device := device } (q.ctx 0) = .ok .ok t →
        Acknowledged (q.ctx 0) t := by
  obtain ⟨q, -, hq, hslen, hsdat⟩ := reaches 1 .empty [] waitingRun
    (fun q => (q.conns 0).slen = 3 ∧ (q.conns 0).sdat = some ⟨3, tcpOffset⟩)
    (by decide) (by decide +kernel)
  refine ⟨q, hq, hslen, fun h => ?_⟩
  have hnone := (sendAck_acknowledges_iff hsdat (hq.sdat_off hsdat)).mp h
  simp [Connection.hasPendingSendData, Processor.ctx, hslen] at hnone

/-- The three bytes that wait go out behind the header of the acknowledgement's
frame, and what stands in the next buffer is pending instead. -/
theorem not_sendAck_acknowledges : ¬ ∀ (D H : Type) (n : Nat) (env : Env D H)
    (q : Processor D H n), Processor.Reachable env q →
    ∀ i t, sendAck env (q.ctx i) = .ok .ok t → Acknowledged (q.ctx i) t := by
  intro hall
  obtain ⟨q, -, hq, hlost⟩ := reaches 1 .empty [] waitingRun
    (fun q => Program.Passes (sendAck env) (q.ctx 0) fun ret t =>
      ret = .ok ∧ ¬ t.pending = (q.ctx 0).pending)
    (by decide) (by decide +kernel)
  obtain ⟨ret, t, hok, rfl, hne⟩ := hlost.exists
  exact hne (hall _ _ _ _ q hq 0 t hok).pending

end Runs

end Tulips.Tcpv4
