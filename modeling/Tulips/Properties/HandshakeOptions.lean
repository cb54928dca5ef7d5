import Tulips.Machine.Handshake
import Tulips.Machine.Lifetime
import Tulips.Machine.Placement
import Tulips.Machine.Testbed

/-!
# Agreeing on options

What a SYN announces in its options and its window is read back by the other
side as it was meant: both ends get the smaller of the two MSS values, and each
gets the scale and the window of its peer.
-/

namespace Tulips.Tcpv4

variable {D H D' H' : Type}

/-! ## Frames on the way -/

/-- The segment is the one a frame carries; what follows the frame is arbitrary. -/
structure Incoming.Carries (inc : Incoming) (frame : List UInt8) : Prop where
  length : frame.length = tcpOffset + inc.len.toNat
  data : ∀ k < inc.len.toNat, inc.data k = frame.getD (tcpOffset + k) 0

section Reading

variable {env : Env D H} {dev : D} {m : UInt16} {flags : UInt8} {frame : List UInt8}
  {inc : Incoming}

theorem Incoming.Carries.hdr_eq (hinc : inc.Carries frame) (hlen : headerLen ≤ inc.len.toNat) :
    inc.hdr = Frame.header frame := by
  apply Header.load_congr
  intro k hk
  exact hinc.data k (Nat.lt_of_lt_of_le hk hlen)

/-- The options of a SYN as the parser gets them. -/
theorem IsSyn.options_eq (h : IsSyn env dev m flags frame) (hinc : inc.Carries frame) {k : Nat}
    (hk : k < 8) : inc.data (headerLen + k) = (synOptions env m).getD k 0 := by
  have hlen : inc.len.toNat = 28 := by
    have := hinc.length
    rw [h.length] at this
    omega
  rw [hinc.data _ (by rw [hlen, headerLen]; omega), ← h.options, List.getD_eq_getElem?_getD,
    List.getD_eq_getElem?_getD, List.getElem?_drop, Nat.add_assoc]

section Parser

variable {options : Bytes} {len fuel c : Nat} {e : Connection}

theorem Options.parseFrom_end (h : options c = optEnd) :
    parseFrom options len (fuel + 1) c e = e := by
  rw [parseFrom, if_pos h, ite_self]

theorem Options.parseFrom_mss (hc : c < len) (hkind : options c = optMss)
    (hlen : options (c + 1) = optMssLen) : parseFrom options len (fuel + 1) c e =
      parseFrom options len fuel (c + 4) (applyMss e (ntohs (load16 options (c + 2)))) := by
  have hend : options c ≠ optEnd := by rw [hkind]; decide
  have hnoop : options c ≠ optNoop := by rw [hkind]; decide
  rw [parseFrom, if_neg (Nat.not_le.mpr hc), if_neg hend, if_neg hnoop, if_pos ⟨hkind, hlen⟩]

theorem Options.parseFrom_wsc (hc : c < len) (hkind : options c = optWsc)
    (hlen : options (c + 1) = optWscLen) : parseFrom options len (fuel + 1) c e =
      parseFrom options len fuel (c + 3) (applyWsc e (options (c + 2))) := by
  have hend : options c ≠ optEnd := by rw [hkind]; decide
  have hnoop : options c ≠ optNoop := by rw [hkind]; decide
  have hmss : ¬(options c = optMss ∧ options (c + 1) = optMssLen) := by
    rw [hkind]
    exact fun h => absurd h.1 (by decide)
  rw [parseFrom, if_neg (Nat.not_le.mpr hc), if_neg hend, if_neg hnoop, if_neg hmss,
    if_pos ⟨hkind, hlen⟩]

end Parser

/-- The parser takes the scale and the MSS of a SYN. -/
theorem IsSyn.parse_eq (h : IsSyn env dev m flags frame) (hinc : inc.Carries frame)
    (e : Connection) : e.parseOptions inc =
      Options.applyMss (Options.applyWsc e env.device.receiveBufferLengthLog2) m := by
  have hlen : inc.len.toNat = 28 := by
    have := hinc.length
    rw [h.length] at this
    omega
  have hoffset : inc.hdr.offset = 7 := by
    rw [hinc.hdr_eq (by rw [hlen]; decide), h.offset]
  have hoptlen : inc.optlen = 8 := by
    rw [Incoming.optlen, hoffset]
    rfl
  obtain ⟨options, hoptions⟩ : ∃ options : Bytes, options = fun k => inc.data (headerLen + k) :=
    ⟨_, rfl⟩
  have hopt : ∀ k < 8, options k = (synOptions env m).getD k 0 := by
    intro k hk
    rw [hoptions]
    exact h.options_eq hinc hk
  have hscale : options 2 = env.device.receiveBufferLengthLog2 := hopt 2 (by decide)
  have hmss : load16 options 5 = htons m := load16_eq (hopt 5 (by decide)) (hopt 6 (by decide))
  unfold Connection.parseOptions
  rw [if_pos (by rw [hoffset]; decide), hoptlen, Options.parse, ← hoptions,
    show (8 : UInt16).toNat = 5 + 1 + 1 + 1 from rfl,
    Options.parseFrom_wsc (by decide) (hopt 0 (by decide)) (hopt 1 (by decide)),
    Options.parseFrom_mss (by decide) (hopt 3 (by decide)) (hopt 4 (by decide)),
    Options.parseFrom_end (hopt 7 (by decide)), hscale, hmss, ntohs_htons]

/-! ## Windows -/

/-- A window in the scale of a peer whose buffers are not too long. -/
theorem Connection.windowOf_toNat {e : Connection} (hl : e.wndscl ≤ 14) (wnd : UInt16) :
    (e.windowOf wnd).toNat = wnd.toNat * 2 ^ e.wndscl.toNat := by
  have hl' : e.wndscl.toNat ≤ 14 := hl
  have hwnd := wnd.toNat_lt
  have hpow : 2 ^ e.wndscl.toNat ≤ 2 ^ 14 := Nat.pow_le_pow_right (by decide) hl'
  have hlt : wnd.toNat * 2 ^ e.wndscl.toNat < 2 ^ 32 :=
    calc wnd.toNat * 2 ^ e.wndscl.toNat ≤ 2 ^ 16 * 2 ^ 14 :=
          Nat.mul_le_mul (Nat.le_of_lt hwnd) hpow
      _ < 2 ^ 32 := by decide
  rw [windowOf, UInt32.toNat_shiftLeft, UInt16.toNat_toUInt32, UInt8.toNat_toUInt32,
    Nat.mod_eq_of_lt (by omega : e.wndscl.toNat < 32), Nat.shiftLeft_eq, Nat.mod_eq_of_lt hlt]

/-- What a SYN announces is no more than the buffers can take. -/
theorem Env.synWindow_le (hl : env.device.receiveBufferLengthLog2 ≤ 14) (dev : D) :
    (env.synWindow dev).toNat ≤ (env.device.receiveBuffersAvailable dev).toNat *
      2 ^ env.device.receiveBufferLengthLog2.toNat := by
  have hl' : env.device.receiveBufferLengthLog2.toNat ≤ 14 := hl
  refine (Utils.cap_le _).trans ?_
  rw [UInt32.toNat_shiftLeft, UInt16.toNat_toUInt32, UInt8.toNat_toUInt32, Nat.shiftLeft_eq,
    Nat.mod_eq_of_lt (by omega : env.device.receiveBufferLengthLog2.toNat < 32)]
  exact Nat.mod_le _ _

/-- What two sides have agreed on: the MSS, the scale of the peer, and a window
that `n` buffers of the peer can take. -/
structure Agreed (m : Nat) (l : UInt8) (n : UInt16) (e : Connection) : Prop where
  initialmss : e.initialmss.toNat = m
  wndscl : e.wndscl = l
  window : e.window.toNat ≤ n.toNat * 2 ^ l.toNat

/-- A connection that takes up a SYN agrees with its sender. -/
theorem IsSyn.agreed (h : IsSyn env dev m flags frame) (hinc : inc.Carries frame)
    (hl : env.device.receiveBufferLengthLog2 ≤ 14) {m' : UInt16} {e' : Connection}
    (htakes : e'.TakesUp m' inc) :
    Agreed (min m'.toNat m.toNat) env.device.receiveBufferLengthLog2
      (env.device.receiveBuffersAvailable dev) e' := by
  obtain ⟨e, hmss, hwnd, hsettled⟩ := htakes
  rw [h.parse_eq hinc] at hsettled
  have hscale : (Options.applyWsc e env.device.receiveBufferLengthLog2).wndscl =
      env.device.receiveBufferLengthLog2 :=
    if_neg (UInt8.not_lt.mpr hl)
  have hlen : headerLen ≤ inc.len.toNat := by
    have := hinc.length
    rw [h.length] at this
    rw [headerLen]
    omega
  have hwindow : e.wnd = env.synWindow dev := by
    rw [hwnd, Incoming.window, hinc.hdr_eq hlen, h.wnd, ntohs_htons]
  have hwndscl : e'.wndscl = env.device.receiveBufferLengthLog2 := hsettled.2.trans hscale
  refine ⟨?_, hwndscl, ?_⟩
  · rw [hsettled.1]
    simp only [Options.applyMss, Options.applyWsc, hmss]
    split
    · next hlt => exact (Nat.min_eq_left (Nat.le_of_lt hlt)).symm
    · next hle => exact (Nat.min_eq_right (Nat.le_of_not_lt hle)).symm
  · have hshift : e'.wnd =
        e.wnd >>> (Options.applyWsc e env.device.receiveBufferLengthLog2).wndscl.toUInt16 :=
      hsettled.3
    rw [hscale, hwindow] at hshift
    have hl' : env.device.receiveBufferLengthLog2.toNat ≤ 14 := hl
    rw [Connection.window, Connection.windowOf_toNat (by rw [hwndscl]; exact hl), hwndscl, hshift,
      UInt16.toNat_shiftRight, UInt8.toNat_toUInt16,
      Nat.mod_eq_of_lt (by omega : env.device.receiveBufferLengthLog2.toNat < 16),
      Nat.shiftRight_eq_div_pow]
    exact (Nat.div_mul_le_self _ _).trans (env.synWindow_le hl dev)

end Reading

/-! ## Later segments -/

/-- The segment is for a connection in ESTABLISHED and gets as far as the update
of its window. -/
structure Processor.Updates {n : Nat} (env : Env D H) (p : Processor D H n) (i : Fin n)
    (inc : Incoming) : Prop where
  intact : ¬(env.config.disableChecksumCheck = false ∧
    tcpChecksum inc.ipSrc inc.ipDst inc.len inc.data ≠ 0xffff)
  demux : p.demux inc = some i
  established : (p.conns i).state = .established
  noRst : inc.has tcpRst = false
  noFin : inc.has tcpFin = false
  inSequence : (p.conns i).outOfSequence inc = false
  fresh : ((p.conns i).clearNews.scanned inc).2 = false

section Updating

open Program

variable {env : Env D H} {s t : Ctx D H} {inc : Incoming} {ret : Status} {m : UInt16} {l : UInt8}

theorem processSegment_updates (hstate : s.e.state = .established) (hrst : inc.has tcpRst = false)
    (hfin : inc.has tcpFin = false) (hseq : s.e.outOfSequence inc = false)
    (hfresh : (s.e.clearNews.scanned inc).2 = false) (hs : s.e.Fixed m l True)
    (hok : processSegment env inc s = .ok ret t) : t.e.Settled m l inc.window True := by
  have hnews : s.e.clearNews.Fixed m l True := by
    obtain ⟨wnd, hs⟩ := hs
    exact ⟨wnd, hs.1, hs.2, hs.3, hs.4⟩
  have hscanned := Connection.scanned_fixed inc s.w hnews
  rw [processSegment_scanned hrst hseq, hfresh] at hok
  unfold processState at hok
  rw [if_neg (by decide), bind_gets, scanned_state, show s.e.clearNews.state = _ from hstate]
    at hok
  have hfin' : ¬inc.has tcpFin = true := by simp [hfin]
  unfold processEstablished at hok
  simp only [hfin'] at hok
  obtain ⟨_, s₁, hreceive, hok⟩ := bind_eq_ok.mp hok
  obtain ⟨_, s₂, hupdate, hok⟩ := bind_eq_ok.mp hok
  have hs₁ : s₁.e.Fixed m l True := by
    refine Keeps.ok (I := Ctx.Fixed m l True) ?_ hreceive hscanned
    exact Keeps.when (Ctx.fixed_windowless.modifyConn fun _ => rfl)
  obtain ⟨_, hs₁⟩ := hs₁
  cases hupdate
  exact (afterUpdate_settled env inc).ok hok ⟨hs₁.1, hs₁.2, rfl, hs₁.4⟩

end Updating

namespace Processor

variable {n : Nat} {env : Env D H} {p q r : Processor D H n} {i : Fin n} {inc : Incoming}
  {ret : Status} {m : UInt16} {l : UInt8}

/-- As long as the connection lasts, a segment that updates its window sets it to
what the segment announces, in the given scale. -/
def KeepsScale (env : Env D H) (l : UInt8) (i : Fin n) (p : Processor D H n) : Prop :=
  ∀ q r inc ret, Lasts env i p q → Updates env q i inc → process env inc q = .ok ret r →
    (r.conns i).window.toNat = inc.window.toNat * 2 ^ l.toNat

theorem keepsScale_of_fixed (hl : l ≤ 14) (hp : (p.conns i).Fixed m l True) :
    KeepsScale env l i p := by
  intro q r inc ret hlasts hupdates hok
  have hq := hlasts.fixed trivial hp
  unfold process at hok
  rw [Program.bind_gets_id, if_neg hupdates.intact, hupdates.demux] at hok
  obtain ⟨t, hrun, rfl⟩ := Program.zoom_eq_ok.mp hok
  have ht := processSegment_updates hupdates.established hupdates.noRst hupdates.noFin
    hupdates.inSequence hupdates.fresh (s := q.ctx i) hq hrun
  rw [setCtx_conns_self, Connection.window, Connection.windowOf_toNat (by rw [ht.2]; exact hl),
    ht.2, ht.3]

end Processor

/-! ## The handshake -/

/-- The MTU leaves room for the headers and no more than 16 bits, and the
receive buffers are not too long to be announced. -/
structure Env.Suitable (env : Env D H) : Prop where
  overhead : 40 ≤ env.device.mtu.toNat
  fits : env.device.mtu.toNat - 40 < 2 ^ 16
  scale : env.device.receiveBufferLengthLog2 ≤ 14

theorem Env.Suitable.initialMss_toNat {env : Env D H} (h : env.Suitable) :
    env.initialMss.toNat = env.device.mtu.toNat - 40 := by
  have hover := h.overhead
  have hfits := h.fits
  rw [initialMss, UInt16.toNat_sub, UInt32.toNat_toUInt16]
  show (2 ^ 16 - 40 + env.device.mtu.toNat % 2 ^ 16) % 2 ^ 16 = _
  omega

/-- A SYN, or the answer to one, that `sendSyn` has handed to the device while
`n` buffers were available: of the connection only its state and its MSS matter. -/
inductive Announced (env : Env D H) (e : Connection) : UInt16 → List UInt8 → Prop
  | sent {s t : Ctx D H} {i : Fin segmentCount} {p : Ptr} {frame : List UInt8}
      {ret ret' : Status} (hstate : s.e.state = e.state) (hmss : s.e.initialmss = e.initialmss)
      (hdat : (s.e.segments i).dat = some p) (hoff : p.off = tcpOffset)
      (hrun : sendSyn env i s = .ok ret t)
      (hcommit : commits t.w.log =
        .commit (some s.e.id) p.buf frame s.e.mss ret' :: commits s.w.log) :
      Announced env e (env.device.receiveBuffersAvailable s.w.dev) frame

theorem or_syn_ne (flags : UInt8) : (flags ||| tcpSyn) &&& tcpSyn ≠ 0 := by
  intro h
  have hbit := congrArg (fun x : UInt8 => x.toNat.testBit 1) h
  simp [tcpSyn, UInt8.toNat_and, UInt8.toNat_or] at hbit
  exact absurd (hbit (.inr (by decide))) (by decide)

theorem Announced.isSyn {env : Env D H} {e : Connection} {n : UInt16} {frame : List UInt8}
    (h : Announced env e n frame) (hstate : e.state ≠ .stopped) :
    ∃ dev flags, IsSyn env dev e.initialmss flags frame ∧
      n = env.device.receiveBuffersAvailable dev := by
  cases h with
  | @sent s t i p _ ret ret' hsame hmss hdat hoff hrun hcommit =>
      obtain ⟨t', ret'', frame', hsend, hdeparts, hframe⟩ := sendSyn_departs env hdat
      rw [hrun] at hsend
      obtain ⟨rfl, rfl⟩ := EStateM.Result.ok.inj hsend
      obtain ⟨hheader, hoptions⟩ := hframe (Nat.le_of_eq hoff.symm)
      have hcommits := hdeparts.commits
      rw [hcommit] at hcommits
      injection (List.cons.inj hcommits).1 with _ _ heq
      subst heq
      refine ⟨s.w.dev, (s.w.headerAt p).flags ||| tcpSyn, ?_, rfl⟩
      rw [← hmss]
      exact isSyn_of_frame (hdeparts.length (by decide)) hheader hoptions
        (by rw [hsame]; exact hstate) (or_syn_ne _)

namespace Processor

/-- The segment opens connection `j`. -/
structure AnswersSyn {n : Nat} (env : Env D H) (inc : Incoming) (j : Fin n)
    (p q : Processor D H n) : Prop where
  demux : p.demux inc = none
  run : ∃ ret, process env inc p = .ok ret q
  opened : q.conns j ≠ p.conns j

/-- The segment is the answer connection `i` has waited for. -/
structure Completes {n : Nat} (env : Env D H) (inc : Incoming) (i : Fin n)
    (p q : Processor D H n) : Prop where
  waiting : (p.conns i).state = .synSent
  demux : p.demux inc = some i
  run : ∃ ret, process env inc p = .ok ret q
  established : (q.conns i).state = .established

theorem AnswersSyn.takesUp {n : Nat} {env : Env D H} {inc : Incoming} {j : Fin n}
    {p q : Processor D H n} (h : AnswersSyn env inc j p q) :
    (q.conns j).TakesUp env.initialMss inc := by
  obtain ⟨ret, hrun⟩ := h.run
  cases process_visit (i := j) hrun with
  | skip hconn => exact absurd hconn h.opened
  | segment hdemux =>
      rw [h.demux] at hdemux
      cases hdemux
  | accept _ _ _ _ hopen hconns =>
      rw [hconns, Function.update_self]
      exact openSynRcvd_takesUp hopen

theorem Completes.takesUp {n : Nat} {env : Env D H} {inc : Incoming} {i : Fin n}
    {p q : Processor D H n} (h : Completes env inc i p q) (hp : Reachable env p) :
    (q.conns i).TakesUp env.initialMss inc := by
  obtain ⟨ret, hrun⟩ := h.run
  have hest := h.established
  cases process_visit (i := i) hrun with
  | skip hconn =>
      rw [hconn, h.waiting] at hest
      cases hest
  | segment _ hsegment =>
      rw [setCtx_conns_self] at hest ⊢
      rcases processSegment_synSent (s := p.ctx i) h.waiting hsegment with ⟨hne, -⟩ | htakes
      · exact absurd hest hne
      · rw [← hp.synSent_initialmss i h.waiting]
        exact htakes
  | accept hdemux =>
      rw [h.demux] at hdemux
      cases hdemux

/-- The handshake: a SYN of one endpoint opens a connection at the other, whose
answer completes the first. Both then agree, and keep the scale of the peer. -/
theorem handshake_options {k k' : Nat} {env : Env D H} {env' : Env D' H'} (hA : env.Suitable)
    (hB : env'.Suitable) {p : Processor D H k} {i : Fin k} (hp : Reachable env p)
    (hwaiting : (p.conns i).state = .synSent) {n : UInt16} {syn : List UInt8}
    (hsyn : Announced env (p.conns i) n syn) {inc : Incoming} (hinc : inc.Carries syn)
    {q q' : Processor D' H' k'} {j : Fin k'} (haccepts : AnswersSyn env' inc j q q') :
    Agreed (min (env.device.mtu.toNat - 40) (env'.device.mtu.toNat - 40))
        env.device.receiveBufferLengthLog2 n (q'.conns j) ∧
      KeepsScale env' env.device.receiveBufferLengthLog2 j q' ∧
      ∀ r, Lasts env' j q' r → (r.conns j).state = .synRcvd →
        ∀ n' answer, Announced env' (r.conns j) n' answer →
        ∀ inc', inc'.Carries answer → ∀ (p₁ p₂ : Processor D H k) i₁, Reachable env p₁ →
        Completes env inc' i₁ p₁ p₂ →
        Agreed (min (env.device.mtu.toNat - 40) (env'.device.mtu.toNat - 40))
            env'.device.receiveBufferLengthLog2 n' (p₂.conns i₁) ∧
          KeepsScale env env'.device.receiveBufferLengthLog2 i₁ p₂ := by
  obtain ⟨dev, flags, hissyn, rfl⟩ := hsyn.isSyn (by rw [hwaiting]; decide)
  have htakes := haccepts.takesUp
  have hagreed := hissyn.agreed hinc hA.scale htakes
  rw [hp.synSent_initialmss i hwaiting, hA.initialMss_toNat, hB.initialMss_toNat, Nat.min_comm]
    at hagreed
  have hfixed : (q'.conns j).Fixed (q'.conns j).initialmss
      env.device.receiveBufferLengthLog2 True := by
    obtain ⟨_, -, -, hsettled⟩ := htakes
    exact ⟨_, rfl, hagreed.wndscl, rfl, hsettled.4⟩
  refine ⟨hagreed, keepsScale_of_fixed hA.scale hfixed, ?_⟩
  intro r hlasts hstate n' answer hanswer inc' hinc' p₁ p₂ i₁ hp₁ hcompletes
  obtain ⟨dev', flags', hissyn', rfl⟩ := hanswer.isSyn (by rw [hstate]; decide)
  have htakes' := hcompletes.takesUp hp₁
  have hagreed' := hissyn'.agreed hinc' hB.scale htakes'
  obtain ⟨_, hr⟩ := hlasts.fixed trivial hfixed
  rw [hr.1, hagreed.initialmss, hA.initialMss_toNat, ← Nat.min_assoc, Nat.min_self] at hagreed'
  obtain ⟨_, -, -, hsettled'⟩ := htakes'
  have hfixed' : (p₂.conns i₁).Fixed (p₂.conns i₁).initialmss
      env'.device.receiveBufferLengthLog2 True :=
    ⟨_, rfl, hagreed'.wndscl, rfl, hsettled'.4⟩
  exact ⟨hagreed', keepsScale_of_fixed hB.scale hfixed'⟩

/-! ## A SYN for a listener -/

section Listener

open Testbed

theorem suitable_testbed : Testbed.env.Suitable :=
  ⟨by decide, by decide, by decide⟩

/-- A connection to port 80 about to send its SYN. -/
def dialling : Ctx Script Answers where
  e := { Connection.initial 0 with
    state := .synSent
    lport := htons 5000
    rport := htons 80
    initialmss := 1460
    segments := fun _ => ⟨1, 0, some ⟨0, tcpOffset⟩⟩ }
  w := World.initial .empty []

def syn : List UInt8 :=
  match sendSyn Testbed.env 0 dialling with
  | .ok _ t => (commits t.w.log).flatMap fun
      | .commit _ _ frame _ _ => frame
      | _ => []
  | .error _ _ => []

def synIncoming : Incoming where
  ethSrc := .zero
  ipSrc := peer
  ipDst := Testbed.env.hostIp
  len := 28
  data := fun k => syn.getD (tcpOffset + k) 0

theorem handshake_options_listening : ∃ q' : Processor Script Answers 1,
    (q'.conns 0).state = .synRcvd ∧ Agreed 1460 11 16 (q'.conns 0) := by
  obtain ⟨p, -, hp, hwaiting, hmss⟩ := reaches 1 .empty [] [connectFrom 5000]
    (fun p => (p.conns 0).state = .synSent ∧ (p.conns 0).initialmss = 1460)
    (by decide) (by decide +kernel)
  have hsend : Program.Passes (sendSyn Testbed.env 0) dialling fun _ t =>
      commits t.w.log = [.commit (some 0) 0 syn 0 .ok] := by decide +kernel
  obtain ⟨ret, t, hrun, hcommit⟩ := hsend.exists
  have hsyn : Announced Testbed.env (p.conns 0) 16 syn :=
    .sent (s := dialling) hwaiting.symm hmss.symm rfl rfl hrun hcommit
  have hinc : synIncoming.Carries syn := ⟨by decide +kernel, fun _ _ => rfl⟩
  obtain ⟨q, -, -, hdemux, hprocess⟩ := reaches 1 .empty [] [.listen 80]
    (fun q => q.demux synIncoming = none ∧
      Program.Passes (process Testbed.env synIncoming) q fun _ q' =>
        (q.conns 0).state = .closed ∧ (q'.conns 0).state = .synRcvd)
    (by decide) (by decide +kernel)
  obtain ⟨ret', q', haccept, hclosed, hrcvd⟩ := hprocess.exists
  have hopened : q'.conns 0 ≠ q.conns 0 := by
    intro h
    rw [h, hclosed] at hrcvd
    cases hrcvd
  exact ⟨q', hrcvd, (handshake_options suitable_testbed suitable_testbed hp hwaiting hsyn hinc
    ⟨hdemux, ⟨ret', haccept⟩, hopened⟩).1⟩

end Listener

end Processor

end Tulips.Tcpv4
