import Tulips.Machine.Departures
import Tulips.Machine.Frames
import Mathlib.Data.List.GetD

/-!
# Whom a frame is for

A buffer gets its addresses when it is prepared, from the producers as they are set
then. Committing it changes the length and the checksum of the IPv4 header and the
TCP header, so that the frame has the addresses the buffer got.
-/

namespace Tulips.Tcpv4

variable {D H : Type}

/-! ## Addresses -/

/-- The Ethernet and the IPv4 header at the start of some bytes are for these
addresses and this protocol. -/
structure Addressed (data : Bytes) (mac : Ethernet.Address) (ip : Ipv4.Address) (proto : UInt8) :
    Prop where
  mac : Ethernet.Address.load data 0 = mac
  type : ntohs (load16 data 12) = Ethernet.ethtypeIp
  proto : data (Ethernet.headerLen + 9) = proto
  ip : Ipv4.Address.load data (Ethernet.headerLen + 16) = ip

/-- The bytes of a frame. -/
def Frame.bytes (frame : List UInt8) : Bytes := fun i => frame.getD i 0

/-- The offsets at which the addresses are. -/
def addressing (i : Nat) : Prop :=
  i < Ethernet.headerLen ∨ i = Ethernet.headerLen + 9 ∨
    Ethernet.headerLen + 16 ≤ i ∧ i < tcpOffset

theorem Addressed.congr {data other : Bytes} {mac : Ethernet.Address} {ip : Ipv4.Address}
    {proto : UInt8} (h : Addressed data mac ip proto) (heq : ∀ i, addressing i → other i = data i) :
    Addressed other mac ip proto := by
  have hmac : ∀ i < Ethernet.headerLen, other (0 + i) = data (0 + i) := by
    intro i hi
    rw [Nat.zero_add]
    exact heq i (.inl hi)
  refine ⟨?_, ?_, ?_, ?_⟩
  · rw [Ethernet.Address.load_congr fun i hi => hmac i (Nat.lt_trans hi (by decide)), h.mac]
  · rw [load16_congr fun i hi => heq _ (.inl (by simp only [Ethernet.headerLen]; omega)), h.type]
  · rw [heq _ (.inr (.inl rfl)), h.proto]
  · have hip : ∀ i < 4, other (Ethernet.headerLen + 16 + i) =
        data (Ethernet.headerLen + 16 + i) := by
      intro i hi
      apply heq
      simp only [addressing, tcpOffset, Ethernet.headerLen, Ipv4.headerLen]
      omega
    rw [Ipv4.Address.load_congr hip, h.ip]

/-- What the two producers store. -/
theorem addressed_headerBytes {data : Bytes} {mac src : Ethernet.Address} {ipid : UInt16}
    {proto : UInt8} {ipSrc ip : Ipv4.Address}
    (heth : ∀ i < Ethernet.headerLen,
      data i = (Ethernet.headerBytes mac src Ethernet.ethtypeIp).getD i 0)
    (hip : ∀ i < Ipv4.headerLen,
      data (Ethernet.headerLen + i) = (Ipv4.headerBytes ipid proto ipSrc ip).getD i 0) :
    Addressed data mac ip proto := by
  obtain ⟨dest⟩ := mac
  refine ⟨?_, ?_, hip 9 (by decide), ?_⟩
  · unfold Ethernet.Address.load
    congr 1
    apply Vector.ext
    intro i hi
    have hlen : i < dest.toList.length := by simpa using hi
    rw [Vector.getElem_ofFn]
    simp only [Nat.zero_add]
    rw [heth i (Nat.lt_trans hi (by decide)), Ethernet.headerBytes, List.append_assoc,
      List.getD_append _ _ _ _ hlen, List.getD_eq_getElem _ _ hlen, Vector.getElem_toList]
  · have hbytes : ∀ k, (Ethernet.headerBytes ⟨dest⟩ src Ethernet.ethtypeIp).getD (12 + k) 0 =
        (store16 (htons Ethernet.ethtypeIp)).getD k 0 := by
      intro k
      rw [Ethernet.headerBytes, List.getD_append_right _ _ _ _ (by simp)]
      simp
    have hload : load16 data 12 = htons Ethernet.ethtypeIp := by
      apply load16_eq
      · rw [heth 12 (by decide)]
        exact hbytes 0
      · rw [heth 13 (by decide)]
        exact hbytes 1
    rw [hload, ntohs_htons]
  · obtain ⟨a⟩ := ip
    unfold Ipv4.Address.load
    congr 1
    exact load32_eq (hip 16 (by decide)) (hip 17 (by decide)) (hip 18 (by decide))
      (hip 19 (by decide))

/-! ## Preparing -/

/-- A prepared buffer is for whom the producers are set to. -/
theorem prepare_addressed {env : Env D H} {who : Option UInt16} {w w' : World D H} {p : Ptr}
    (h : Ipv4Producer.prepare env who w = .ok (.ok p) w') :
    p.off = tcpOffset ∧
      Addressed (w'.mem p.buf) w.ethto.destAddress w.ip4to.destAddress w.ip4to.proto := by
  unfold Ipv4Producer.prepare EthernetProducer.prepare EthernetProducer.setType
    EthernetProducer.devicePrepare at h
  rw [Program.bind_update, Program.bind_assoc_apply, Program.bind_assoc_apply,
    Program.bind_gets] at h
  rcases hdev : env.device.prepare w.dev with ⟨ret | ⟨buf, content⟩, dev⟩
  · rw [hdev] at h
    cases h
  · rw [hdev] at h
    cases h
    let mem := (w.mem.fill buf content).write buf 0
      (Ethernet.headerBytes w.ethto.destAddress env.hostMac Ethernet.ethtypeIp)
    let ip := Ipv4.headerBytes (w.ip4to.ipid + 1) w.ip4to.proto env.hostIp w.ip4to.destAddress
    have hlower : ∀ i < Ethernet.headerLen, mem.write buf Ethernet.headerLen ip buf i =
        (Ethernet.headerBytes w.ethto.destAddress env.hostMac Ethernet.ethtypeIp).getD i 0 := by
      intro i hi
      rw [BlockMemory.write_sameOutside buf i fun _ => .inl hi]
      have hi' := hi
      rw [← Ethernet.length_headerBytes w.ethto.destAddress env.hostMac Ethernet.ethtypeIp] at hi'
      have hread := @BlockMemory.write_apply_of_lt (w.mem.fill buf content) buf 0 i _ hi'
      rwa [Nat.zero_add] at hread
    have hupper : ∀ i < Ipv4.headerLen, mem.write buf Ethernet.headerLen ip buf
        (Ethernet.headerLen + i) = ip.getD i 0 := by
      intro i hi
      rw [← Ipv4.length_headerBytes (w.ip4to.ipid + 1) w.ip4to.proto env.hostIp
        w.ip4to.destAddress] at hi
      exact BlockMemory.write_apply_of_lt hi
    exact ⟨rfl, addressed_headerBytes hlower hupper⟩

/-! ## Committing -/

theorem store_sameOutside {who : Option UInt16} {p : Ptr} {off : Nat} {bytes : List UInt8}
    {w w' : World D H} (h : store who (some p) off bytes w = .ok () w') :
    BlockMemory.SameOutside p.buf (p.off + off) (p.off + off + bytes.length) w.mem w'.mem := by
  cases h
  exact BlockMemory.write_sameOutside

/-- Committing a packet leaves its addresses alone. -/
theorem Ipv4Producer.commit_addressing {env : Env D H} {who : Option UInt16} {len : UInt32}
    {p : Ptr} {mss : UInt16} {w w' : World D H} {ret : Status}
    (h : Ipv4Producer.commit env who len p mss w = .ok ret w') (hoff : p.off = tcpOffset) :
    ∀ i, addressing i → w'.mem p.buf i = w.mem p.buf i := by
  intro i hi
  have hip : p.off - Ipv4.headerLen = Ethernet.headerLen := by
    rw [hoff]
    rfl
  have hout : ∀ k, k = 2 ∨ k = 10 →
      i < Ethernet.headerLen + k ∨ Ethernet.headerLen + k + 2 ≤ i := by
    intro k hk
    simp only [addressing, tcpOffset, Ethernet.headerLen, Ipv4.headerLen] at hi ⊢
    omega
  obtain ⟨_, w₁, h₁, h⟩ := Program.bind_eq_ok.mp h
  obtain ⟨_, w₂, h₂, h⟩ := Program.bind_eq_ok.mp h
  have hlast : w'.mem = w₂.mem := by
    cases h
    rfl
  have hfirst : w₁.mem p.buf i = w.mem p.buf i := by
    apply store_sameOutside h₁
    intro _
    rw [show (⟨p.buf, p.off - Ipv4.headerLen⟩ : Ptr).off = Ethernet.headerLen from hip]
    exact hout 2 (.inl rfl)
  have hsecond : w₂.mem p.buf i = w₁.mem p.buf i := by
    rcases Program.when_eq_ok.mp h₂ with ⟨-, hrun⟩ | ⟨-, rfl⟩
    · rw [Program.bind_gets] at hrun
      apply store_sameOutside hrun
      intro _
      rw [show (⟨p.buf, p.off - Ipv4.headerLen⟩ : Ptr).off = Ethernet.headerLen from hip]
      exact hout 10 (.inr rfl)
    · rfl
  rw [hlast, hsecond, hfirst]

theorem modifyHeader_addressing {who : Option UInt16} {p : Ptr} {f : Header → Header}
    {w w' : World D H} (h : modifyHeader who (some p) f w = .ok () w') (hoff : p.off = tcpOffset) :
    ∀ i, addressing i → w'.mem p.buf i = w.mem p.buf i := by
  intro i hi
  obtain ⟨w₁, h₁, -, hlaid⟩ := modifyHeader_laid who p f w
  rw [h₁] at h
  cases h
  apply hlaid.mem
  intro _
  simp only [addressing, tcpOffset, Ethernet.headerLen, Ipv4.headerLen] at hi hoff
  omega

/-- A frame has the addresses of its buffer, which keeps them. -/
theorem sendFrame_addressed {env : Env D H} {who : Option UInt16} {dst : Ipv4.Address}
    {len : UInt32} {mss : UInt16} {p : Ptr} {w w' : World D H} {ret : Status}
    (h : sendFrame env who dst len mss (some p) w = .ok ret w') (hoff : p.off = tcpOffset)
    (hfit : len.toNat + tcpOffset < 2 ^ 32) :
    (∀ i, addressing i → w'.mem p.buf i = w.mem p.buf i) ∧
      ∃ frame rest, w'.log = .commit who p.buf frame mss ret :: rest ∧
        ∀ i, addressing i → Frame.bytes frame i = w.mem p.buf i := by
  have hkept : ∀ i, addressing i → w'.mem p.buf i = w.mem p.buf i := by
    obtain ⟨_, w₁, h₁, hrest⟩ := Program.bind_eq_ok.mp h
    obtain ⟨_, w₂, h₂, hcommit⟩ := Program.bind_eq_ok.mp hrest
    intro i hi
    have hsum : w₂.mem p.buf i = w₁.mem p.buf i := by
      rcases Program.when_eq_ok.mp h₂ with ⟨-, hrun⟩ | ⟨-, rfl⟩
      · rw [Program.bind_gets] at hrun
        exact modifyHeader_addressing hrun hoff i hi
      · rfl
    rw [Ipv4Producer.commit_addressing hcommit hoff i hi, hsum,
      modifyHeader_addressing h₁ hoff i hi]
  obtain ⟨w₁, w₂, ret', frame, h₁, -, -, hmem, hlog, -, hframe⟩ :=
    sendFrame_some env who dst len mss p w
  rw [h₁] at h
  cases h
  refine ⟨hkept, frame, w₂.log, hlog, fun i hi => ?_⟩
  have hlt : i < tcpOffset := by
    simp only [addressing, tcpOffset, Ethernet.headerLen, Ipv4.headerLen] at hi ⊢
    omega
  rw [← hkept i hi, Frame.bytes, hframe hfit, List.getD_eq_getElem?_getD,
    BlockMemory.getElem?_read (Nat.lt_of_lt_of_le hlt (Nat.le_add_right _ _)), Option.getD_some,
    hmem, hoff, Nat.sub_self, Nat.zero_add]

end Tulips.Tcpv4
