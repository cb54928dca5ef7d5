import Tulips.Machine.Sending

/-!
# Departures

The exact course of a transmission: the frame the device is handed, how it
serves the frame, and what the connection is left with.
-/

namespace Tulips.Tcpv4

variable {D H : Type}

/-! ## Service -/

/-- How a device serves a frame: it takes it and hands out the next buffer, it
refuses it, or there is no next buffer. -/
inductive Service
  | taken
  | refused (ret : Failure)
  | unreplaced (ret : Failure)

/-- What the sender gets to see. -/
def Service.status : Service → Status
  | .taken => .ok
  | .refused ret | .unreplaced ret => ret.val

/-- Whether the frame has been sent. -/
def Service.sent : Service → Bool
  | .taken | .unreplaced _ => true
  | .refused _ => false

theorem Service.status_eq_ok {served : Service} : served.status = .ok ↔ served = .taken := by
  cases served with
  | taken => simp [status]
  | refused ret => simp [status, ret.property]
  | unreplaced ret => simp [status, ret.property]

def Device.serve (device : Device D) (dev : D) (buf : Nat) (frame : List UInt8) (mss : UInt16) :
    Service :=
  let answer := device.commit dev buf frame mss
  if h : answer.1 = .ok then
    match (device.prepare answer.2).1 with
    | .error ret => .unreplaced ret
    | .ok _ => .taken
  else .refused ⟨answer.1, h⟩

theorem Device.serve_of_refused {device : Device D} {dev : D} {buf : Nat} {frame : List UInt8}
    {mss : UInt16} (h : (device.commit dev buf frame mss).1 ≠ .ok) :
    device.serve dev buf frame mss = .refused ⟨_, h⟩ := by
  rw [serve, dif_neg h]

theorem Device.serve_of_sent {device : Device D} {dev : D} {buf : Nat} {frame : List UInt8}
    {mss : UInt16} (h : (device.commit dev buf frame mss).1 = .ok) :
    device.serve dev buf frame mss =
      match (device.prepare (device.commit dev buf frame mss).2).1 with
      | .error ret => .unreplaced ret
      | .ok _ => .taken := by
  rw [serve, dif_pos h]

/-- What the device answered to the frame itself. -/
theorem Device.commit_of_serve (device : Device D) (dev : D) (buf : Nat) (frame : List UInt8)
    (mss : UInt16) : (device.commit dev buf frame mss).1 =
      match device.serve dev buf frame mss with
      | .refused ret => ret.val
      | .taken | .unreplaced _ => .ok := by
  by_cases h : (device.commit dev buf frame mss).1 = .ok
  · rw [serve_of_sent h, h]
    cases (device.prepare (device.commit dev buf frame mss).2).1 <;> rfl
  · rw [serve_of_refused h]

/-! ## What is handed over -/

def Event.isCommit : Event → Bool
  | .commit _ _ _ _ _ => true
  | _ => false

/-- The frames the device was handed. -/
def commits (log : List Event) : List Event := log.filter Event.isCommit

theorem commits_append_of_none {new log : List Event} (h : ∀ ev ∈ new, ev.isCommit = false) :
    commits (new ++ log) = commits log := by
  rw [commits, List.filter_append, List.filter_eq_nil_iff.mpr (by simpa using h), List.nil_append,
    commits]

@[simp] theorem commits_cons_commit (who : Option UInt16) (buf : Nat) (frame : List UInt8)
    (mss : UInt16) (ret : Status) (log : List Event) :
    commits (.commit who buf frame mss ret :: log) =
      .commit who buf frame mss ret :: commits log := rfl

theorem commits_cons {ev : Event} (h : ev.isCommit = false) (log : List Event) :
    commits (ev :: log) = commits log := by
  simp [commits, h]

/-- The frame of a segment of `len` bytes at `p`: its header, up to the checksum,
and the bytes that were behind it. -/
structure IsFrame (mem : BlockMemory) (p : Ptr) (len : Nat) (hdr : Header) (frame : List UInt8) :
    Prop where
  length : frame.length = tcpOffset + len
  header : ∃ chksum, Frame.header frame = { hdr with chksum := chksum }
  rest : ∀ k, headerLen ≤ k → k ≤ len →
    frame.drop (tcpOffset + k) = mem.read p.buf (p.off + k) (len - k)

/-- Bytes have been stored and nothing else has happened. -/
structure Laid (who : Option UInt16) (p : Ptr) (lo hi : Nat) (w w' : World D H) : Prop extends
    Wrote who p lo hi w w' where
  dev : w'.dev = w.dev

namespace Laid

variable {who : Option UInt16} {p : Ptr} {lo hi lo' hi' : Nat} {w₁ w₂ w₃ : World D H}

theorem refl : Laid who p lo hi w₁ w₁ := ⟨.refl, rfl⟩

theorem trans (h₁ : Laid who p lo hi w₁ w₂) (h₂ : Laid who p lo hi w₂ w₃) :
    Laid who p lo hi w₁ w₃ :=
  ⟨h₁.toWrote.trans h₂.toWrote, h₂.dev.trans h₁.dev⟩

theorem mono (h : Laid who p lo hi w₁ w₂) (hlo : lo' ≤ lo) (hhi : hi ≤ hi') :
    Laid who p lo' hi' w₁ w₂ :=
  ⟨h.toWrote.mono hlo hhi, h.dev⟩

theorem commits_eq (h : Laid who p lo hi w₁ w₂) : commits w₂.log = commits w₁.log := by
  obtain ⟨writes, hlog, hwrites⟩ := h.log
  rw [hlog, commits_append_of_none fun ev hev => by rw [hwrites ev hev]; rfl]

end Laid

theorem store_laid (who : Option UInt16) (p : Ptr) (off : Nat) (bytes : List UInt8)
    (w : World D H) :
    ∃ w', store who (some p) off bytes w = .ok () w' ∧
      w'.mem = w.mem.write p.buf (p.off + off) bytes ∧
      Laid who p (p.off + off) (p.off + off + bytes.length) w w' :=
  ⟨_, rfl, rfl, ⟨rfl, ⟨[_], rfl, by simp⟩, BlockMemory.write_sameOutside⟩, rfl⟩

theorem modifyHeader_laid (who : Option UInt16) (p : Ptr) (f : Header → Header)
    (w : World D H) :
    ∃ w', modifyHeader who (some p) f w = .ok () w' ∧
      w'.headerAt p = f (w.headerAt p) ∧ Laid who p p.off (p.off + headerLen) w w' := by
  obtain ⟨w', hok, hhdr, hwrote⟩ := modifyHeader_some who p f w
  refine ⟨w', hok, hhdr, hwrote, ?_⟩
  cases hok
  rfl

/-- The IPv4 producer stores around the length and the checksum of its header,
and the frame is handed over. -/
theorem Ipv4Producer.commit_departs (env : Env D H) (who : Option UInt16) (len : UInt32) (p : Ptr)
    (mss : UInt16) (w : World D H) :
    ∃ w' w₁ frame, Ipv4Producer.commit env who len p mss w =
        .ok (env.device.commit w.dev p.buf frame mss).1 w' ∧
      Laid who p (p.off - Ipv4.headerLen) (p.off - Ipv4.headerLen + 12) w w₁ ∧
      w' = { w₁ with
        dev := (env.device.commit w.dev p.buf frame mss).2
        log := .commit who p.buf frame mss (env.device.commit w.dev p.buf frame mss).1 :: w₁.log } ∧
      frame = w₁.mem.read p.buf (p.off - Ipv4.headerLen - Ethernet.headerLen)
        ((len + UInt32.ofNat Ipv4.headerLen).toNat + Ethernet.headerLen) := by
  let ip : Ptr := ⟨p.buf, p.off - Ipv4.headerLen⟩
  obtain ⟨w₁, h₁, _, hw₁⟩ := store_laid who ip 2
    (store16 (htons (len + UInt32.ofNat Ipv4.headerLen).toUInt16)) w
  obtain ⟨w₂, h₂, hw₂⟩ : ∃ w₂,
      (Program.when (env.config.hwChecksum = false) do
        let sum ← Program.gets fun w : World D H => Ipv4.checksum (w.mem.bytesFrom ip.buf ip.off)
        store who (some ip) 10 (store16 (~~~sum)) : WorldProgram D H Unit) w₁ = .ok () w₂ ∧
      Laid who ip (ip.off + 10) (ip.off + 12) w₁ w₂ := by
    unfold Program.when
    split
    · obtain ⟨w₂, h₂, _, hw₂⟩ := store_laid who ip 10
        (store16 (~~~(Ipv4.checksum (w₁.mem.bytesFrom ip.buf ip.off)))) w₁
      exact ⟨w₂, h₂, hw₂⟩
    · exact ⟨w₁, rfl, .refl⟩
  have hdev : w₂.dev = w.dev := hw₂.dev.trans hw₁.dev
  have hlaid : Laid who p (p.off - Ipv4.headerLen) (p.off - Ipv4.headerLen + 12) w w₂ := by
    have hmono : ∀ {lo hi : Nat} {v v' : World D H}, Laid who ip lo hi v v' →
        ip.off ≤ lo → hi ≤ ip.off + 12 →
        Laid who p (p.off - Ipv4.headerLen) (p.off - Ipv4.headerLen + 12) v v' :=
      fun h hlo hhi => ⟨⟨h.hdl, h.log, h.mem.mono hlo hhi⟩, h.dev⟩
    exact (hmono hw₁ (by omega) (by simp [store16])).trans (hmono hw₂ (by omega) (by omega))
  refine ⟨_, w₂, _, ?_, hlaid, rfl, rfl⟩
  unfold Ipv4Producer.commit
  rw [Program.bind_of_ok h₁, Program.bind_of_ok h₂, ← hdev]
  rfl

/-- `Processor::send(dst, len, mss, outdata)` hands over the frame at its pointer,
with the checksum put in. -/
theorem sendFrame_departs (env : Env D H) (who : Option UInt16) (dst : Ipv4.Address) (len : UInt32)
    (mss : UInt16) (p : Ptr) (w : World D H) :
    ∃ w' frame, sendFrame env who dst len mss (some p) w =
        .ok (env.device.commit w.dev p.buf frame mss).1 w' ∧
      w'.dev = (env.device.commit w.dev p.buf frame mss).2 ∧
      commits w'.log =
        .commit who p.buf frame mss (env.device.commit w.dev p.buf frame mss).1 ::
          commits w.log ∧
      BlockMemory.SameOutside p.buf (p.off - tcpOffset) (p.off + headerLen) w.mem w'.mem ∧
      (len.toNat + tcpOffset < 2 ^ 32 → frame.length = tcpOffset + len.toNat) ∧
      (tcpOffset ≤ p.off → headerLen ≤ len.toNat → len.toNat + tcpOffset < 2 ^ 32 →
        IsFrame w.mem p len.toNat { w.headerAt p with urgp := 0, reserved := 0 } frame) := by
  obtain ⟨w₁, h₁, hhdr₁, hw₁⟩ := modifyHeader_laid who p
    (fun h => { h with urgp := 0, chksum := 0, reserved := 0 }) w
  -- The TCP checksum, when the device does not compute it.
  obtain ⟨w₂, h₂, ⟨chksum, hhdr₂⟩, hw₂⟩ : ∃ w₂,
      (Program.when (env.config.hwChecksum = false) do
        let csum ← Program.gets fun w : World D H =>
          tcpChecksum env.hostIp dst len.toUInt16 (w.mem.bytesFrom p.buf p.off)
        modifyHeader who (some p) fun h => { h with chksum := ~~~csum } :
          WorldProgram D H Unit) w₁ = .ok () w₂ ∧
      (∃ chksum, w₂.headerAt p = { w₁.headerAt p with chksum := chksum }) ∧
      Laid who p p.off (p.off + headerLen) w₁ w₂ := by
    unfold Program.when
    split
    · obtain ⟨w₂, h₂, hhdr₂, hw₂⟩ := modifyHeader_laid who p (fun h => { h with chksum :=
        ~~~(tcpChecksum env.hostIp dst len.toUInt16 (w₁.mem.bytesFrom p.buf p.off)) }) w₁
      exact ⟨w₂, h₂, ⟨_, hhdr₂⟩, hw₂⟩
    · exact ⟨w₁, rfl, ⟨_, rfl⟩, .refl⟩
  obtain ⟨w', w₃, frame, h₃, hw₃, hw', hframe⟩ := Ipv4Producer.commit_departs env who len p mss w₂
  have hdev : w₂.dev = w.dev := hw₂.dev.trans hw₁.dev
  rw [hdev] at h₃ hw'
  have hlaid : Laid who p (p.off - tcpOffset) (p.off + headerLen) w w₃ := by
    refine ((hw₁.mono ?_ ?_).trans (hw₂.mono ?_ ?_)).trans (hw₃.mono ?_ ?_) <;>
      simp only [tcpOffset, Ethernet.headerLen, Ipv4.headerLen, headerLen] <;> omega
  have hread : len.toNat + tcpOffset < 2 ^ 32 →
      frame = w₃.mem.read p.buf (p.off - tcpOffset) (tcpOffset + len.toNat) := by
    intro hfit
    have hadd : (len + UInt32.ofNat Ipv4.headerLen).toNat = len.toNat + Ipv4.headerLen := by
      simp only [tcpOffset, Ethernet.headerLen, Ipv4.headerLen] at *
      rw [UInt32.toNat_add, UInt32.toNat_ofNat']
      omega
    rw [hframe, hadd]
    simp only [tcpOffset, Ethernet.headerLen, Ipv4.headerLen]
    congr 1
    omega
  have hlength : len.toNat + tcpOffset < 2 ^ 32 → frame.length = tcpOffset + len.toNat := by
    intro hfit
    rw [hread hfit, BlockMemory.length_read]
  refine ⟨w', frame, ?_, ?_, ?_, ?_, hlength, fun hoff hmin hfit => ?_⟩
  · unfold sendFrame
    rw [Program.bind_of_ok h₁]
    simp only
    rw [Program.bind_of_ok h₂, h₃]
  · rw [hw']
  · rw [hw', commits_cons_commit, hlaid.commits_eq]
  · rw [hw']
    exact hlaid.mem
  · have hread := hread hfit
    refine ⟨hlength hfit, ⟨chksum, ?_⟩, fun k hk hk' => ?_⟩
    · -- The IPv4 header ends where the TCP header starts.
      have h₃₂ : w₃.headerAt p = w₂.headerAt p := World.headerAt_congr hw₃.toWrote fun _ => by
        simp only [tcpOffset, Ethernet.headerLen, Ipv4.headerLen] at *
        omega
      rw [(frame_eq hread hoff).1 hmin, h₃₂, hhdr₂, hhdr₁]
    · rw [(frame_eq hread hoff).2 k hk']
      exact hlaid.mem.read_eq fun _ => .inr (by omega)

/-! ## The next buffer -/

/-- What is known of a connection that got, or did not get, its next buffer. -/
def Refreshed (answer : Except Failure (Nat × Bytes)) (s t : Ctx D H) : Prop :=
  commits t.w.log = commits s.w.log ∧
    match answer with
    | .error _ => t.e = s.e ∧ t.w.mem = s.w.mem
    | .ok (buf, content) =>
        t.e = { s.e with sdat := some ⟨buf, tcpOffset⟩ } ∧
          BlockMemory.SameOff buf s.w.mem t.w.mem ∧
          ∀ i, tcpOffset ≤ i → t.w.mem buf i = content i

theorem devicePrepare_departs (env : Env D H) (who : Option UInt16) (w : World D H) :
    (∃ ret w', (env.device.prepare w.dev).1 = .error ret ∧
        EthernetProducer.devicePrepare env who w = .ok (.error ret) w' ∧
        commits w'.log = commits w.log ∧ w'.mem = w.mem) ∨
      ∃ buf content w', (env.device.prepare w.dev).1 = .ok (buf, content) ∧
        EthernetProducer.devicePrepare env who w = .ok (.ok buf) w' ∧
        commits w'.log = commits w.log ∧ w'.mem = w.mem.fill buf content ∧
        w'.dev = (env.device.prepare w.dev).2 := by
  unfold EthernetProducer.devicePrepare
  rw [Program.bind_gets]
  rcases h : env.device.prepare w.dev with ⟨ret | ⟨buf, content⟩, dev⟩
  · exact .inl ⟨ret, _, rfl, rfl, commits_cons rfl _, rfl⟩
  · exact .inr ⟨buf, content, _, rfl, rfl, commits_cons rfl _, rfl, rfl⟩

theorem prepare_departs (env : Env D H) (who : Option UInt16) (w : World D H) :
    (∃ ret w', (env.device.prepare w.dev).1 = .error ret ∧
        Ipv4Producer.prepare env who w = .ok (.error ret) w' ∧
        commits w'.log = commits w.log ∧ w'.mem = w.mem) ∨
      ∃ buf content w', (env.device.prepare w.dev).1 = .ok (buf, content) ∧
        Ipv4Producer.prepare env who w = .ok (.ok ⟨buf, tcpOffset⟩) w' ∧
        commits w'.log = commits w.log ∧ BlockMemory.SameOff buf w.mem w'.mem ∧
        (∀ i, tcpOffset ≤ i → w'.mem buf i = content i) ∧
        w'.dev = (env.device.prepare w.dev).2 := by
  unfold Ipv4Producer.prepare EthernetProducer.prepare EthernetProducer.setType
  rw [Program.bind_update]
  let w₀ : World D H := { w with ethto := { w.ethto with type := Ethernet.ethtypeIp } }
  rcases devicePrepare_departs env who w₀ with
    ⟨ret, w₁, hret, h₁, hcommits, hmem⟩ | ⟨buf, content, w₁, hbuf, h₁, hcommits, hmem, hdev⟩
  · refine .inl ⟨ret, w₁, hret, ?_, hcommits, hmem⟩
    rw [Program.bind_assoc_apply, Program.bind_of_ok h₁]
    rfl
  · obtain ⟨w₂, h₂, _, hw₂⟩ := store_laid who ⟨buf, 0⟩ 0
      (Ethernet.headerBytes w₁.ethto.destAddress env.hostMac w₁.ethto.type) w₁
    let w₃ : World D H := { w₂ with ip4to := { w₂.ip4to with ipid := w₂.ip4to.ipid + 1 } }
    obtain ⟨w₄, h₄, _, hw₄⟩ := store_laid who ⟨buf, Ethernet.headerLen⟩ 0
      (Ipv4.headerBytes w₃.ip4to.ipid w₃.ip4to.proto env.hostIp w₃.ip4to.destAddress) w₃
    refine .inr ⟨buf, content, w₄, hbuf, ?_, ?_, ?_, fun i hi => ?_, ?_⟩
    · rw [Program.bind_assoc_apply, Program.bind_of_ok h₁]
      simp only [Program.bind_assoc_apply, Program.bind_gets]
      rw [Program.bind_of_ok h₂]
      simp only [Program.bind_pure_apply, Program.bind_update, Program.bind_gets]
      rw [Program.bind_of_ok h₄]
      rfl
    · exact (hw₄.commits_eq.trans hw₂.commits_eq).trans hcommits
    -- The buffer takes the content of the device, then the two headers are laid over it.
    · have hfill : BlockMemory.SameOff buf w.mem w₁.mem := by
        rw [hmem]
        exact BlockMemory.fill_sameOff
      exact (hfill.trans hw₂.mem.sameOff).trans hw₄.mem.sameOff
    · -- Both headers end where the TCP header starts.
      have hlen₂ : (Ethernet.headerBytes w₁.ethto.destAddress env.hostMac w₁.ethto.type).length =
          Ethernet.headerLen := by simp [Ethernet.headerBytes, Ethernet.headerLen, store16]
      have hlen₄ : (Ipv4.headerBytes w₃.ip4to.ipid w₃.ip4to.proto env.hostIp
          w₃.ip4to.destAddress).length = Ipv4.headerLen := rfl
      simp only [tcpOffset] at hi
      have h₄ : w₄.mem buf i = w₃.mem buf i := hw₄.mem buf i fun _ => .inr (by
        rw [hlen₄]
        simpa using hi)
      have h₂ : w₂.mem buf i = w₁.mem buf i := hw₂.mem buf i fun _ => .inr (by
        rw [hlen₂]
        simp only [Nat.zero_add]
        omega)
      rw [h₄, show w₃.mem buf i = w₂.mem buf i from rfl, h₂, hmem, BlockMemory.fill, if_pos rfl]
    · rw [hw₄.dev, show w₃.dev = w₂.dev from rfl, hw₂.dev, hdev]

theorem refill_departs (env : Env D H) (first : Bool) (s : Ctx D H) :
    ∃ t, refill env first s =
        .ok (match (env.device.prepare s.w.dev).1 with
          | .error ret => ret.val
          | .ok _ => .ok) t ∧
      Refreshed (env.device.prepare s.w.dev).1 s t := by
  let w₀ : World D H := { s.w with
    ip4to := { s.w.ip4to with proto := Ipv4.protoTcp, destAddress := s.e.ripaddr }
    ethto := { s.w.ethto with destAddress := s.e.rethaddr } }
  rcases prepare_departs env (some s.e.id) w₀ with
    ⟨ret, w, hret, hok, hcommits, hmem⟩ | ⟨buf, content, w, hbuf, hok, hcommits, hmem, hcontent, -⟩
  · refine ⟨⟨s.e, { w with log := .refill s.e.id s.e.state first none false :: w.log }⟩, ?_, ?_⟩
    · rw [show (env.device.prepare s.w.dev).1 = .error ret from hret]
      unfold refill
      simp only [onWorld, Ipv4Producer.setProtocol, Ipv4Producer.setDestination,
        EthernetProducer.setDestination, record, Program.bind_apply, Program.zoom,
        Program.gets_apply, Program.update_apply]
      rw [show Ipv4Producer.prepare env (some s.e.id) _ = _ from hok]
      rfl
    · rw [show (env.device.prepare s.w.dev).1 = .error ret from hret]
      exact ⟨(commits_cons rfl _).trans hcommits, rfl, hmem⟩
  · let ev : Event := .refill s.e.id s.e.state first (some buf) (s.e.refersTo buf)
    refine ⟨⟨{ s.e with sdat := some ⟨buf, tcpOffset⟩ }, { w with log := ev :: w.log }⟩, ?_, ?_⟩
    · rw [show (env.device.prepare s.w.dev).1 = .ok (buf, content) from hbuf]
      unfold refill
      simp only [onWorld, Ipv4Producer.setProtocol, Ipv4Producer.setDestination,
        EthernetProducer.setDestination, record, modifyConn, Program.bind_apply, Program.zoom,
        Program.gets_apply, Program.update_apply]
      rw [show Ipv4Producer.prepare env (some s.e.id) _ = _ from hok]
      rfl
    · rw [show (env.device.prepare s.w.dev).1 = .ok (buf, content) from hbuf]
      exact ⟨(commits_cons rfl _).trans hcommits, rfl, hmem, hcontent⟩

/-! ## Segments of a connection -/

/-- The payload that waits in the send buffer. -/
def Ctx.pending (s : Ctx D H) : List UInt8 :=
  match s.e.sdat with
  | none => []
  | some p => s.w.mem.read p.buf (p.off + headerLen) s.e.slen.toNat

theorem Ctx.pending_of_some {s : Ctx D H} {p : Ptr} (h : s.e.sdat = some p) :
    s.pending = s.w.mem.read p.buf (p.off + headerLen) s.e.slen.toNat := by
  rw [Ctx.pending, h]

theorem Ctx.pending_of_empty {s : Ctx D H} (h : s.e.slen = 0) : s.pending = [] := by
  unfold Ctx.pending
  cases s.e.sdat with
  | none => rfl
  | some p =>
      rw [h]
      rfl

/-- The header of a segment that leaves with the given sequence number. -/
def Ctx.filled (env : Env D H) (s : Ctx D H) (seqno : UInt32) (hdr : Header) : Header :=
  { hdr with
    ackno := htonl s.e.rcvNxt
    seqno := htonl seqno
    srcport := s.e.lport
    destport := s.e.rport
    wnd := windowField env s.w s.e.state hdr.flags
    urgp := 0
    reserved := 0 }

/-- A frame of a connection. -/
def Ctx.commitOf (s : Ctx D H) (p : Ptr) (frame : List UInt8) (ret : Status) : Event :=
  .commit (some s.e.id) p.buf frame s.e.mss ret

/-- The header is filled in and the frame handed over. -/
theorem sendFilled_departs (env : Env D H) (seqno len : UInt32) (p : Ptr) (s : Ctx D H) :
    ∃ w₁ w₂ frame, fillHeader env seqno (some p) s = .ok () { s with w := w₁ } ∧
      onWorld (sendFrame env (some s.e.id) s.e.ripaddr len s.e.mss (some p))
        { s with w := w₁ } =
          .ok (env.device.commit s.w.dev p.buf frame s.e.mss).1 { s with w := w₂ } ∧
      w₂.dev = (env.device.commit s.w.dev p.buf frame s.e.mss).2 ∧
      commits w₂.log =
        s.commitOf p frame (env.device.commit s.w.dev p.buf frame s.e.mss).1 ::
          commits s.w.log ∧
      (len.toNat + tcpOffset < 2 ^ 32 → frame.length = tcpOffset + len.toNat) ∧
      (tcpOffset ≤ p.off → headerLen ≤ len.toNat → len.toNat + tcpOffset < 2 ^ 32 →
        IsFrame s.w.mem p len.toNat (s.filled env seqno (s.w.headerAt p)) frame) := by
  obtain ⟨w₁, hok, hhdr, hw₁⟩ := modifyHeader_laid (some s.e.id) p (fun h =>
    { h with
      ackno := htonl s.e.rcvNxt
      seqno := htonl seqno
      srcport := s.e.lport
      destport := s.e.rport
      wnd := windowField env s.w s.e.state h.flags }) s.w
  obtain ⟨w₂, frame, hsend, hdev, hcommits, -, hlength, hframe⟩ :=
    sendFrame_departs env (some s.e.id) s.e.ripaddr len s.e.mss p w₁
  rw [hw₁.dev] at hsend hdev hcommits
  refine ⟨w₁, w₂, frame, onWorld_ok hok, onWorld_ok hsend, hdev, ?_, hlength,
    fun hoff hmin hfit => ?_⟩
  · rw [hcommits, hw₁.commits_eq]
    rfl
  · obtain ⟨hlength, ⟨chksum, hheader⟩, hrest⟩ := hframe hoff hmin hfit
    refine ⟨hlength, ⟨chksum, ?_⟩, fun k hk hk' => ?_⟩
    · rw [hheader, hhdr]
      rfl
    · rw [hrest k hk hk']
      exact hw₁.mem.read_eq fun _ => .inr (by omega)

/-- A frame that was taken leaves a send buffer as the device has handed it out. -/
def HandedOut (env : Env D H) (t : Ctx D H) : Prop :=
  ∃ dev buf content, (env.device.prepare dev).1 = .ok (buf, content) ∧
    t.e.sdat = some ⟨buf, tcpOffset⟩ ∧ ∀ i, tcpOffset ≤ i → t.w.mem buf i = content i

/-- A device that has taken a frame is asked for the next buffer. -/
theorem refill_served (env : Env D H) (first : Bool) {u : Ctx D H} {dev : D} {buf : Nat}
    {frame : List UInt8} {mss : UInt16} (hret : (env.device.commit dev buf frame mss).1 = .ok)
    (hdev : u.w.dev = (env.device.commit dev buf frame mss).2) :
    ∃ t, refill env first u = .ok (env.device.serve dev buf frame mss).status t ∧
      commits t.w.log = commits u.w.log ∧ t.e = { u.e with sdat := t.e.sdat } ∧
      (env.device.serve dev buf frame mss = .taken → HandedOut env t) := by
  obtain ⟨t, hok, hcommits, hanswer⟩ := refill_departs env first u
  rw [Device.serve_of_sent hret, ← hdev]
  cases hprepare : (env.device.prepare u.w.dev).1 with
  | error ret =>
      rw [hprepare] at hok hanswer
      exact ⟨t, hok, hcommits, by rw [hanswer.1], fun h => by cases h⟩
  | ok next =>
      obtain ⟨buf, content⟩ := next
      rw [hprepare] at hok hanswer
      obtain ⟨he, -, hcontent⟩ := hanswer
      refine ⟨t, hok, hcommits, by rw [he],
        fun _ => ⟨u.w.dev, buf, content, hprepare, ?_, hcontent⟩⟩
      rw [he]

/-- `Processor::send(Connection&)` -/
theorem sendControl_departs (env : Env D H) {s : Ctx D H} {p : Ptr} (hsdat : s.e.sdat = some p) :
    ∃ t frame, let served := env.device.serve s.w.dev p.buf frame s.e.mss
      sendControl env s = .ok served.status t ∧
      commits t.w.log =
        s.commitOf p frame (env.device.commit s.w.dev p.buf frame s.e.mss).1 ::
          commits s.w.log ∧
      t.e = { s.e with sdat := t.e.sdat } ∧ (served = .taken → HandedOut env t) ∧
      (tcpOffset ≤ p.off →
        IsFrame s.w.mem p headerLen (s.filled env s.e.sndNxt (s.w.headerAt p)) frame) := by
  let s₁ : Ctx D H :=
    { s with w := { s.w with log := .control s.e.id s.e.state s.e.slen :: s.w.log } }
  obtain ⟨w₁, w₂, frame, hfill, hsend, hdev, hcommits, -, hframe⟩ :=
    sendFilled_departs env s.e.sndNxt (UInt32.ofNat headerLen) p s₁
  have hrun : sendControl env s =
      (if (env.device.commit s.w.dev p.buf frame s.e.mss).1 ≠ .ok
        then pure (env.device.commit s.w.dev p.buf frame s.e.mss).1
        else refill env false : ConnProgram D H Status) { s with w := w₂ } := by
    unfold sendControl
    rw [Program.bind_gets, bind_record, hsdat, Program.bind_of_ok hfill,
      Program.bind_of_ok hsend]
  have hframe' := fun hoff => hframe hoff (Nat.le_refl _) (by decide)
  by_cases hret : (env.device.commit s.w.dev p.buf frame s.e.mss).1 = .ok
  · obtain ⟨t, hok, hagain, he, hout⟩ :=
      refill_served env false (u := { s with w := w₂ }) hret hdev
    refine ⟨t, frame, ?_, hagain.trans hcommits, he, hout, hframe'⟩
    rw [hrun, if_neg (not_not.mpr hret), hok]
  · refine ⟨{ s with w := w₂ }, frame, ?_, hcommits, rfl, fun h => ?_, hframe'⟩
    · rw [hrun, if_pos hret, Device.serve_of_refused hret]
      rfl
    · rw [Device.serve_of_refused hret] at h
      cases h

/-- The report of a departure leaves the device and the frames alone. -/
theorem counted_departs (env : Env D H) (i : Fin segmentCount) {p : Ptr} {s : Ctx D H}
    (hdat : (s.e.segments i).dat = some p) (len : UInt32) :
    ∃ t, (do
        Program.when (env.config.latencyMonitor = true) do
          let h ← onWorld (loadHeader (s.e.segments i).dat)
          Program.when (h.has tcpPsh = true) do
            let _ ← callback env .onSent
            pure ()
        modifyConn fun e => { e with sndNxt := e.sndNxt + len } : ConnProgram D H Unit) s =
          .ok () t ∧
      (∃ cookie opts, t.e = { s.e with
        sndNxt := s.e.sndNxt + len, cookie := cookie, opts := opts }) ∧
      t.w.dev = s.w.dev ∧ commits t.w.log = commits s.w.log := by
  unfold Program.when
  split
  · rw [hdat]
    simp only [Program.bind_assoc_apply, bind_loadHeader]
    split
    · exact ⟨_, rfl, ⟨_, _, rfl⟩, rfl, commits_cons rfl _⟩
    · exact ⟨_, rfl, ⟨_, _, rfl⟩, rfl, rfl⟩
  · exact ⟨_, rfl, ⟨_, _, rfl⟩, rfl, rfl⟩

/-- The course of the segment in slot `i`, up to the state it ends in. -/
structure Departs (env : Env D H) (i : Fin segmentCount) (p : Ptr) (s : Ctx D H) (len : UInt32)
    (frame : List UInt8) (ret : Status) (t : Ctx D H) : Prop where
  status : ret = (env.device.serve s.w.dev p.buf frame s.e.mss).status
  commits : commits t.w.log =
    s.commitOf p frame (env.device.commit s.w.dev p.buf frame s.e.mss).1 :: commits s.w.log
  conn : ∃ sdat cookie opts, t.e = { s.e with
    sndNxt := if (env.device.serve s.w.dev p.buf frame s.e.mss).sent = true ∧
        (s.e.segments i).seq = s.e.sndNxt
      then s.e.sndNxt + (s.e.segments i).len else s.e.sndNxt
    sdat := sdat, cookie := cookie, opts := opts }
  out : env.device.serve s.w.dev p.buf frame s.e.mss = .taken → HandedOut env t
  length : len.toNat + tcpOffset < 2 ^ 32 → frame.length = tcpOffset + len.toNat

/-- `Processor::send(Connection&, len, Segment&)` -/
theorem sendSegment_departs (env : Env D H) {i : Fin segmentCount} {p : Ptr} {s : Ctx D H}
    (hdat : (s.e.segments i).dat = some p) (len : UInt32) :
    ∃ t ret frame, sendSegment env len i s = .ok ret t ∧ Departs env i p s len frame ret t ∧
      (tcpOffset ≤ p.off → headerLen ≤ len.toNat → len.toNat + tcpOffset < 2 ^ 32 →
        IsFrame s.w.mem p len.toNat
          (s.filled env (s.e.segments i).seq (s.w.headerAt p)) frame) := by
  obtain ⟨w₁, w₂, frame, hfill, hsend, hdev, hcommits, hlength, hframe⟩ :=
    sendFilled_departs env (s.e.segments i).seq len p s
  let seg := s.e.segments i
  let again := seg.seq != s.e.sndNxt
  let ret := (env.device.commit s.w.dev p.buf frame s.e.mss).1
  let s₂ : Ctx D H := { s with w := { w₂ with
    log := .transmit s.e.id s.e.state seg.seq seg.len again ret :: w₂.log } }
  by_cases hret : ret = .ok
  · obtain ⟨u, hcount, ⟨cookie, opts, hu⟩, hdev₂, hcommits₂⟩ : ∃ u,
        (Program.when (again = false) do
          Program.when (env.config.latencyMonitor = true) do
            let h ← onWorld (loadHeader seg.dat)
            Program.when (h.has tcpPsh = true) do
              let _ ← callback env .onSent
              pure ()
          modifyConn fun e => { e with sndNxt := e.sndNxt + seg.len } :
            ConnProgram D H Unit) s₂ = .ok () u ∧
        (∃ cookie opts, u.e = { s.e with
          sndNxt := if seg.seq = s.e.sndNxt then s.e.sndNxt + seg.len else s.e.sndNxt
          cookie := cookie, opts := opts }) ∧
        u.w.dev = w₂.dev ∧ commits u.w.log = commits w₂.log := by
      -- Only a segment sent for the first time is counted and reported.
      by_cases hseq : seg.seq = s.e.sndNxt
      · have hagain : again = false := by simp [again, hseq]
        obtain ⟨u, hrun, hu, hdev, hlog⟩ := counted_departs env i (s := s₂) hdat seg.len
        rw [hagain, if_pos hseq]
        exact ⟨u, hrun, hu, hdev, hlog.trans (commits_cons rfl _)⟩
      · have hagain : again = true := by simp [again, hseq]
        rw [hagain, if_neg hseq]
        exact ⟨s₂, rfl, ⟨_, _, rfl⟩, rfl, commits_cons rfl _⟩
    obtain ⟨t, hok, hagain, he, hout⟩ :=
      refill_served env (!again) (u := u) hret (hdev₂.trans hdev)
    refine ⟨t, _, frame, ?_, ⟨rfl, (hagain.trans hcommits₂).trans hcommits,
      ⟨t.e.sdat, cookie, opts, ?_⟩, hout, hlength⟩, hframe⟩
    · unfold sendSegment
      rw [Program.bind_gets, hdat, Program.bind_of_ok hfill, Program.bind_of_ok hsend,
        bind_record, if_neg (not_not.mpr hret), ← hdat, Program.bind_of_ok hcount, hok]
    · have hsent : (env.device.serve s.w.dev p.buf frame s.e.mss).sent = true := by
        rw [Device.serve_of_sent hret]
        split <;> rfl
      rw [he, hu]
      simp only [hsent, true_and]
      rfl
  · refine ⟨s₂, _, frame, ?_, ⟨rfl, (commits_cons rfl _).trans hcommits,
      ⟨s.e.sdat, s.e.cookie, s.e.opts, ?_⟩, fun h => ?_, hlength⟩, hframe⟩
    · unfold sendSegment
      rw [Program.bind_gets, hdat, Program.bind_of_ok hfill, Program.bind_of_ok hsend,
        bind_record, if_pos hret, Device.serve_of_refused hret]
      rfl
    · rw [Device.serve_of_refused hret]
      rfl
    · rw [Device.serve_of_refused hret] at h
      cases h

/-! ## Segments of each kind -/

theorem IsFrame.of_laid {who : Option UInt16} {p : Ptr} {w w' : World D H} {len : Nat}
    {hdr : Header} {frame : List UInt8} (h : IsFrame w'.mem p len hdr frame)
    (hlaid : Laid who p p.off (p.off + headerLen) w w') : IsFrame w.mem p len hdr frame := by
  refine ⟨h.length, h.header, fun k hk hk' => ?_⟩
  rw [h.rest k hk hk']
  exact hlaid.mem.read_eq fun _ => .inr (by omega)

theorem Ctx.filled_congr (env : Env D H) {s : Ctx D H} {w : World D H} (hdev : w.dev = s.w.dev)
    (seqno : UInt32) (hdr : Header) :
    ({ s with w := w } : Ctx D H).filled env seqno hdr = s.filled env seqno hdr := by
  unfold Ctx.filled windowField
  rw [hdev]

section Kinds

variable {env : Env D H} {i : Fin segmentCount} {p : Ptr} {s : Ctx D H}

/-- Stores to its header come before the course of a segment. -/
theorem Departs.of_laid {len : UInt32} {frame : List UInt8} {ret : Status} {t : Ctx D H}
    {w : World D H} {lo hi : Nat} (h : Departs env i p { s with w := w } len frame ret t)
    (hlaid : Laid (some s.e.id) p lo hi s.w w) : Departs env i p s len frame ret t := by
  obtain ⟨hstatus, hcommits, hconn, hout, hlength⟩ := h
  rw [hlaid.dev] at hstatus hcommits hconn hout
  refine ⟨hstatus, ?_, hconn, hout, hlength⟩
  rw [hcommits, hlaid.commits_eq]
  rfl

/-- The segment leaves after stores to its header. -/
theorem sendSegment_laid (hdat : (s.e.segments i).dat = some p) (len : UInt32)
    {w : World D H} {lo hi : Nat} (hlaid : Laid (some s.e.id) p lo hi s.w w) :
    ∃ t ret frame, sendSegment env len i { s with w := w } = .ok ret t ∧
      Departs env i p s len frame ret t ∧
      (tcpOffset ≤ p.off → headerLen ≤ len.toNat → len.toNat + tcpOffset < 2 ^ 32 →
        IsFrame w.mem p len.toNat
          (s.filled env (s.e.segments i).seq (w.headerAt p)) frame) := by
  obtain ⟨t, ret, frame, hok, hdeparts, hframe⟩ :=
    sendSegment_departs env (s := { s with w := w }) hdat len
  refine ⟨t, ret, frame, hok, hdeparts.of_laid hlaid, ?_⟩
  rwa [Ctx.filled_congr env hlaid.dev] at hframe

/-- A data segment. -/
theorem sendData_departs (env : Env D H) (hdat : (s.e.segments i).dat = some p) (flags : UInt8) :
    ∃ t ret frame, sendData env i flags s = .ok ret t ∧
      Departs env i p s ((s.e.segments i).len + UInt32.ofNat headerLen) frame ret t ∧
      (tcpOffset ≤ p.off → (s.e.segments i).len.toNat + headerLen + tcpOffset < 2 ^ 32 →
        IsFrame s.w.mem p ((s.e.segments i).len.toNat + headerLen)
          (s.filled env (s.e.segments i).seq
            { s.w.headerAt p with flags := flags ||| tcpAck, offset := 5 }) frame) := by
  obtain ⟨w, hok, hhdr, hlaid⟩ := modifyHeader_laid (some s.e.id) p
    (fun h => { h with flags := flags ||| tcpAck, offset := (some 5).getD h.offset }) s.w
  obtain ⟨t, ret, frame, hsend, hdeparts, hframe⟩ :=
    sendSegment_laid hdat ((s.e.segments i).len + UInt32.ofNat headerLen) hlaid
  refine ⟨t, ret, frame, ?_, hdeparts, fun hoff hfit => ?_⟩
  · have hset : setFlags (some p) (flags ||| tcpAck) (some 5) s = .ok () { s with w := w } :=
      onWorld_ok hok
    unfold sendData
    rw [Program.bind_gets, hdat, Program.bind_of_ok hset, hsend]
  · have hlen : ((s.e.segments i).len + UInt32.ofNat headerLen).toNat =
        (s.e.segments i).len.toNat + headerLen := by
      simp only [tcpOffset, Ethernet.headerLen, Ipv4.headerLen, headerLen] at *
      rw [UInt32.toNat_add, UInt32.toNat_ofNat']
      omega
    rw [hlen] at hframe
    have hframe := hframe hoff (Nat.le_add_left _ _) hfit
    rw [hhdr] at hframe
    exact hframe.of_laid hlaid

/-- A segment with FIN has no data. -/
theorem sendFinAck_departs (env : Env D H) (hdat : (s.e.segments i).dat = some p) :
    ∃ t ret frame, sendFinAck env i s = .ok ret t ∧
      Departs env i p s (UInt32.ofNat headerLen) frame ret t ∧
      (tcpOffset ≤ p.off → IsFrame s.w.mem p headerLen
        (s.filled env (s.e.segments i).seq
          { s.w.headerAt p with flags := tcpAck ||| tcpFin, offset := 5 }) frame) := by
  obtain ⟨w, hset, hhdr, hlaid⟩ := modifyHeader_laid (some s.e.id) p
    (fun h => { h with flags := tcpAck, offset := Option.getD none h.offset }) s.w
  obtain ⟨w₁, hor, hhdr₁, hlaid₁⟩ := modifyHeader_laid (some s.e.id) p
    (fun h => { h with flags := h.flags ||| tcpFin, offset := 5 }) w
  have hboth := hlaid.trans hlaid₁
  obtain ⟨t, ret, frame, hsend, hdeparts, hframe⟩ :=
    sendSegment_laid hdat (UInt32.ofNat headerLen) hboth
  refine ⟨t, ret, frame, ?_, hdeparts, fun hoff => ?_⟩
  · have hack : setFlags (some p) tcpAck none s = .ok () { s with w := w } := onWorld_ok hset
    have hfin : orFlags (some p) tcpFin 5 { s with w := w } = .ok () { s with w := w₁ } :=
      onWorld_ok (s := { s with w := w }) hor
    unfold sendFinAck sendFin
    rw [Program.bind_gets, hdat, Program.bind_of_ok hack, Program.bind_gets]
    change (orFlags (s.e.segments i).dat tcpFin 5 >>= _) { s with w := w } = _
    rw [hdat, Program.bind_of_ok hfin, hsend]
  · have hframe := hframe hoff (by decide) (by decide)
    rw [hhdr₁, hhdr] at hframe
    exact hframe.of_laid hboth

/-- A segment with SYN: its options follow the header. -/
theorem sendSyn_departs (env : Env D H) (hdat : (s.e.segments i).dat = some p) :
    ∃ t ret frame, sendSyn env i s = .ok ret t ∧ Departs env i p s 28 frame ret t ∧
      (tcpOffset ≤ p.off →
        (∃ chksum, Frame.header frame = { s.filled env (s.e.segments i).seq
          { s.w.headerAt p with flags := (s.w.headerAt p).flags ||| tcpSyn, offset := 7 } with
            chksum := chksum }) ∧
        frame.drop (tcpOffset + headerLen) = synOptions env s.e.initialmss) := by
  obtain ⟨w, hok, hhdr, hlaid⟩ := modifyHeader_laid (some s.e.id) p
    (fun h => { h with flags := h.flags ||| tcpSyn, offset := 7 }) s.w
  obtain ⟨w₁, hstore, hmem, hlaid₁⟩ := store_laid (some s.e.id) p headerLen
    (synOptions env s.e.initialmss) w
  have hlen : (synOptions env s.e.initialmss).length = 8 := rfl
  have hboth : Laid (some s.e.id) p p.off (p.off + 28) s.w w₁ := by
    refine (hlaid.mono (Nat.le_refl _) ?_).trans (hlaid₁.mono ?_ ?_) <;>
      simp only [hlen, headerLen] <;> omega
  obtain ⟨t, ret, frame, hsend, hdeparts, hframe⟩ := sendSegment_laid hdat 28 hboth
  refine ⟨t, ret, frame, ?_, hdeparts, fun hoff => ?_⟩
  · have hor : orFlags (some p) tcpSyn 7 s = .ok () { s with w := w } := onWorld_ok hok
    unfold sendSyn
    rw [Program.bind_gets, hdat, Program.bind_of_ok hor, Program.bind_of_ok (onWorld_ok hstore)]
    exact hsend
  · obtain ⟨-, hheader, hrest⟩ := hframe hoff (by decide) (by decide)
    -- The options stand behind the header.
    have hkept : w₁.headerAt p = w.headerAt p :=
      World.headerAt_congr hlaid₁.toWrote fun _ => .inl (Nat.le_refl _)
    rw [hkept, hhdr] at hheader
    refine ⟨hheader, ?_⟩
    rw [hrest headerLen (Nat.le_refl _) (by decide), hmem]
    exact BlockMemory.read_write

theorem pushSegment_some {k : Fin segmentCount} (len : UInt32)
    (hfree : s.e.nextAvailableSegment = some k) :
    pushSegment len s = .ok k
      { s with e := (s.e.setSegment k ⟨len, s.e.sndNxt, s.e.sdat⟩).resetSendBuffer } := by
  unfold pushSegment
  rw [Program.bind_gets, hfree]
  rfl

/-- A segment is only sent from a send buffer. -/
theorem sendNoDelay_none (env : Env D H) (flag : UInt8) {k : Fin segmentCount}
    (hfree : s.e.nextAvailableSegment = some k) (hsdat : s.e.sdat = none) :
    ∃ t, sendNoDelay env flag s = .error .nullPointer t := by
  let seg : Segment := ⟨UInt32.ofNat s.e.slen.toNat, s.e.sndNxt, s.e.sdat⟩
  let s₁ : Ctx D H := { s with e := (s.e.setSegment k seg).resetSendBuffer }
  have hpush : pushSegment (UInt32.ofNat s.e.slen.toNat) s = .ok k s₁ := pushSegment_some _ hfree
  have hseg : s₁.e.segments k = seg := Function.update_self ..
  refine ⟨s₁, ?_⟩
  unfold sendNoDelay
  rw [Program.bind_gets, Program.bind_of_ok hpush]
  exact (sendKind_none env (by rw [hseg, ← hsdat])).1 flag

/-- `Processor::sendNoDelay`: what is pending becomes a segment and leaves. -/
theorem sendNoDelay_departs (env : Env D H) (flag : UInt8) (hsdat : s.e.sdat = some p)
    {k : Fin segmentCount} (hfree : s.e.nextAvailableSegment = some k) :
    ∃ t frame, let served := env.device.serve s.w.dev p.buf frame s.e.mss
      sendNoDelay env flag s = .ok served.status t ∧
      commits t.w.log =
        s.commitOf p frame (env.device.commit s.w.dev p.buf frame s.e.mss).1 ::
          commits s.w.log ∧
      t.e.slen = 0 ∧
      t.e.segments = Function.update s.e.segments k
        ⟨UInt32.ofNat s.e.slen.toNat, s.e.sndNxt, some p⟩ ∧
      t.e.sndNxt = (if served.sent = true
        then s.e.sndNxt + UInt32.ofNat s.e.slen.toNat else s.e.sndNxt) ∧
      frame.length = tcpOffset + headerLen + s.e.slen.toNat := by
  let seg : Segment := ⟨UInt32.ofNat s.e.slen.toNat, s.e.sndNxt, s.e.sdat⟩
  let s₁ : Ctx D H := { s with e := (s.e.setSegment k seg).resetSendBuffer }
  have hpush : pushSegment (UInt32.ofNat s.e.slen.toNat) s = .ok k s₁ := pushSegment_some _ hfree
  have hseg : s₁.e.segments k = seg := Function.update_self ..
  have hdat : (s₁.e.segments k).dat = some p := by rw [hseg, ← hsdat]
  obtain ⟨t, ret, frame, hok, hdeparts, -⟩ := sendData_departs env hdat flag
  obtain ⟨sdat, cookie, opts, he⟩ := hdeparts.conn
  have hlen : ((s₁.e.segments k).len + UInt32.ofNat headerLen).toNat =
      headerLen + s.e.slen.toNat := by
    have hlt := s.e.slen.isLt
    simp only [hseg, seg, headerLen]
    rw [UInt32.toNat_add, UInt32.toNat_ofNat', UInt32.toNat_ofNat']
    omega
  refine ⟨t, frame, ?_, hdeparts.commits, ?_, ?_, ?_, ?_⟩
  · unfold sendNoDelay
    rw [Program.bind_gets, Program.bind_of_ok hpush, hok, hdeparts.status]
    rfl
  · rw [he]
    rfl
  · rw [he, ← hsdat]
    rfl
  · have hseq : seg.seq = s₁.e.sndNxt := rfl
    rw [he]
    simp only [hseg, hseq, and_true]
    rfl
  · rw [hdeparts.length ?_, hlen, Nat.add_assoc]
    have hlt := s.e.slen.isLt
    rw [hlen]
    simp only [tcpOffset, Ethernet.headerLen, Ipv4.headerLen, headerLen]
    omega

end Kinds

end Tulips.Tcpv4
