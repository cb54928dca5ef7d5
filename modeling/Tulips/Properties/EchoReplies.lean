import Tulips.Stack.Checksums
import Tulips.Machine.Testbed
import Tulips.Machine.Addresses

/-!
# Echo replies

An echo request is answered with a frame whose ICMP message is the header of the
request under another type. Its checksum is patched rather than computed anew.
-/

namespace Tulips.Icmpv4

open Tcpv4 (World WorldProgram EthernetProducer Ipv4Producer store commits tcpOffset
  Event commits_cons_commit store_laid Laid prepare_departs Addressed prepare_addressed
  addressing store_sameOutside)

open Processor (replyTo)

variable {D H : Type}

/-! ## Replies -/

/-- The bytes of a message, as a pointer to it sees them. -/
def asBytes (msg : List UInt8) : Bytes := fun i => msg.getD i 0

/-- The IPv4 payload of a frame. -/
def messageOf (frame : List UInt8) : List UInt8 := frame.drop tcpOffset

/-- The message is the answer to the echo request of `len` bytes. -/
structure Echoes (data : Bytes) (len : UInt16) (msg : List UInt8) : Prop where
  type : (Header.load (asBytes msg)).type = echoReply
  icode : (Header.load (asBytes msg)).icode = (Header.load data).icode
  id : (Header.load (asBytes msg)).id = (Header.load data).id
  seqno : (Header.load (asBytes msg)).seqno = (Header.load data).seqno
  length : msg.length = len.toNat
  payload : ∀ i, headerLen ≤ i → i < len.toNat → asBytes msg i = data i
  checksum : Utils.checksum 0 (asBytes msg) len = 0xffff

/-- The request is answered with one frame, and with the right one. -/
def Processor.Replies (env : Net D H) (icmp : Processor) (ethSrc : Ethernet.Address)
    (ipSrc : Ipv4.Address) (data : Bytes) (len : UInt16) (w : World D H) : Prop :=
  ∃ ret w' buf frame mss, icmp.process env ethSrc ipSrc data w = .ok (ret, icmp) w' ∧
    commits w'.log = .commit none buf frame mss ret :: commits w.log ∧
    Echoes data len (messageOf frame)

/-! ## The patched checksum -/

section Checksum

variable {data : Bytes}

theorem htons_modEq (x : UInt16) : (htons x).toNat ≡ 256 * x.toNat [MOD 2 ^ 16 - 1] := by
  have hx := x.toNat_lt
  have hswap : (htons x).toNat = x.toNat % 256 * 256 + x.toNat / 256 := by
    rw [htons, UInt16.toNat_ofNat']
    omega
  rw [hswap, Nat.modEq_iff_dvd' (by omega)]
  exact ⟨x.toNat / 256, by omega⟩

/-- The words of a header. -/
def Header.sum (h : Header) : Nat :=
  256 * h.type.toNat + h.icode.toNat + (htons h.icmpchksum).toNat + (htons h.id).toNat +
    (htons h.seqno).toNat

theorem words_header (data : Bytes) :
    Utils.words data headerLen 0 = (Header.load data).sum := by
  have htype := Utils.word_eq data 0
  rw [Utils.word_toNat, Nat.zero_add] at htype
  simp only [headerLen, Utils.words, Utils.word_eq, Header.sum, Header.load, Nat.zero_add,
    Nat.reduceAdd]
  omega

/-- The patch adds the type that is taken out of the header. -/
theorem replyTo_icmpchksum_modEq (h : Header) :
    (replyTo h).icmpchksum.toNat ≡ h.icmpchksum.toNat + 8 [MOD 2 ^ 16 - 1] := by
  have hlt := h.icmpchksum.toNat_lt
  have hbound : htons ((0xffff : UInt16) - echo.toUInt16 <<< 8) = 0xfff7 := by decide
  have htype : htons (echo.toUInt16 <<< 8) = 8 := by decide
  simp only [replyTo, hbound, htype, ge_iff_le, UInt16.le_iff_toNat_le]
  have hle : (0xfff7 : UInt16).toNat = 65527 := rfl
  split
  · next hcarry =>
      rw [hle] at hcarry
      have hsum : (h.icmpchksum + (8 + 1)).toNat = h.icmpchksum.toNat + 9 - 65536 := by
        rw [UInt16.toNat_add, show (8 + 1 : UInt16).toNat = 9 from rfl]
        omega
      rw [hsum, Nat.modEq_iff_dvd' (by omega)]
      exact ⟨1, by omega⟩
  · next hcarry =>
      rw [hle] at hcarry
      have hsum : (h.icmpchksum + 8).toNat = h.icmpchksum.toNat + 8 := by
        rw [UInt16.toNat_add, show (8 : UInt16).toNat = 8 from rfl]
        omega
      rw [hsum]

theorem replyTo_sum_modEq {h : Header} (htype : h.type = echo) :
    (replyTo h).sum ≡ h.sum [MOD 2 ^ 16 - 1] := by
  have hpatch : (htons (replyTo h).icmpchksum).toNat ≡
      256 * 8 + (htons h.icmpchksum).toNat [MOD 2 ^ 16 - 1] := by
    calc (htons (replyTo h).icmpchksum).toNat
        ≡ 256 * (replyTo h).icmpchksum.toNat [MOD 2 ^ 16 - 1] := htons_modEq _
      _ ≡ 256 * (h.icmpchksum.toNat + 8) [MOD 2 ^ 16 - 1] :=
          (replyTo_icmpchksum_modEq h).mul_left _
      _ = 256 * 8 + 256 * h.icmpchksum.toNat := by omega
      _ ≡ 256 * 8 + (htons h.icmpchksum).toNat [MOD 2 ^ 16 - 1] :=
          (htons_modEq _).symm.add_left _
  have hsum : (replyTo h).sum = (htons (replyTo h).icmpchksum).toNat +
      (h.icode.toNat + (htons h.id).toNat + (htons h.seqno).toNat) := by
    simp only [Header.sum, replyTo, echoReply, UInt8.toNat_zero]
    omega
  have hsum' : h.sum = 256 * 8 + (htons h.icmpchksum).toNat +
      (h.icode.toNat + (htons h.id).toNat + (htons h.seqno).toNat) := by
    rw [Header.sum, htype, show echo.toNat = 8 from rfl]
    omega
  rw [hsum, hsum']
  exact hpatch.add_right _

theorem htons_eq_zero {x : UInt16} : (htons x).toNat = 0 ↔ x = 0 := by
  constructor
  · intro h
    exact htons_injective (UInt16.toNat_inj.mp h)
  · rintro rfl
    rfl

/-- All words of the reply are zero if those of the request that do not depend on
its type are: its checksum is then the complement of the type. -/
theorem replyTo_sum_eq_zero {h : Header} (htype : h.type = echo) (hsum : 2 ^ 16 - 1 ∣ h.sum) :
    (replyTo h).sum = 0 ↔ h.icode = 0 ∧ h.id = 0 ∧ h.seqno = 0 := by
  have hkept : (replyTo h).sum = h.icode.toNat + (htons (replyTo h).icmpchksum).toNat +
      (htons h.id).toNat + (htons h.seqno).toNat := by
    simp only [Header.sum, replyTo, echoReply, UInt8.toNat_zero]
    omega
  constructor
  · intro hzero
    refine ⟨UInt8.toNat_inj.mp ?_, htons_eq_zero.mp ?_, htons_eq_zero.mp ?_⟩ <;>
      · try rw [UInt8.toNat_zero]
        omega
  · rintro ⟨hcode, hid, hseq⟩
    have hchk : (htons h.icmpchksum).toNat = 63487 := by
      have hlt := (htons h.icmpchksum).toNat_lt
      obtain ⟨k, hk⟩ := hsum
      rw [Header.sum, htype, hcode, hid, hseq, show echo.toNat = 8 from rfl,
        show (htons 0).toNat = 0 from rfl, UInt8.toNat_zero] at hk
      omega
    have hraw : h.icmpchksum = 0xfff7 := htons_injective (UInt16.toNat_inj.mp hchk)
    have hpatch : (replyTo h).icmpchksum = 0 := by
      simp only [replyTo, hraw]
      decide
    rw [hkept, hcode, hid, hseq, hpatch]
    rfl

end Checksum

/-! ## The frame -/

theorem Header.length_bytes (h : Header) : h.bytes.length = headerLen := rfl

/-- A header is read back from the bytes it was written as. -/
theorem Header.load_bytes (h : Header) : Header.load (asBytes h.bytes) = h := by
  have hchk : load16 (asBytes h.bytes) 2 = h.icmpchksum := load16_eq rfl rfl
  have hid : load16 (asBytes h.bytes) 4 = h.id := load16_eq rfl rfl
  have hseq : load16 (asBytes h.bytes) 6 = h.seqno := load16_eq rfl rfl
  rw [Header.load, hchk, hid, hseq]
  rfl

/-- A message of the size of a header is laid into a buffer and departs in a frame
to where the producers are set. -/
theorem message_departs (env : Net D H) {w : World D H} {buf : Nat} {content : Bytes}
    {msg : List UInt8} (hlen : msg.length = headerLen)
    (hbuf : (env.device.prepare w.dev).1 = .ok (buf, content)) :
    ∃ ret w₁ w₂ w' frame, Ipv4Producer.prepare env.toEnv none w = .ok (.ok ⟨buf, tcpOffset⟩) w₁ ∧
      store none (some ⟨buf, tcpOffset⟩) 0 msg w₁ = .ok () w₂ ∧
      Ipv4Producer.commit env.toEnv none (UInt32.ofNat headerLen) ⟨buf, tcpOffset⟩ 0 w₂ =
        .ok ret w' ∧
      commits w'.log = .commit none buf frame 0 ret :: commits w.log ∧ messageOf frame = msg ∧
      Addressed (Tcpv4.Frame.bytes frame) w.ethto.destAddress w.ip4to.destAddress
        w.ip4to.proto := by
  obtain ⟨ret, w₁, hret, -⟩ | ⟨buf', content', w₁, hbuf', h₁, hcommits₁, -⟩ :=
    prepare_departs env.toEnv none w
  · rw [hbuf] at hret
    cases hret
  rw [hbuf] at hbuf'
  cases hbuf'
  obtain ⟨w₂, h₂, hmem, hw₂⟩ := store_laid none ⟨buf, tcpOffset⟩ 0 msg w₁
  obtain ⟨w₃, w₄, frame, h₃, hw₄, hw₃, hframe⟩ := Ipv4Producer.commit_departs env.toEnv none
    (UInt32.ofNat headerLen) ⟨buf, tcpOffset⟩ 0 w₂
  have hread : frame = w₄.mem.read buf 0 (tcpOffset + headerLen) := hframe
  refine ⟨(env.device.commit w₂.dev buf frame 0).1, w₁, w₂, w₃, frame, h₁, h₂, h₃, ?_, ?_, ?_⟩
  · rw [hw₃, commits_cons_commit, hw₄.commits_eq, hw₂.commits_eq, hcommits₁]
  · -- The headers in front of the message end where it starts.
    have hkept : w₄.mem.read buf tcpOffset headerLen = w₂.mem.read buf tcpOffset headerLen :=
      hw₄.mem.read_eq fun _ => .inr (by simp [tcpOffset, Ipv4.headerLen, Ethernet.headerLen])
    rw [messageOf, hread, BlockMemory.drop_read (by omega), Nat.zero_add, Nat.add_sub_cancel_left,
      hkept, hmem, ← hlen]
    exact BlockMemory.read_write
  · refine (prepare_addressed h₁).2.congr fun i hi => ?_
    have hlt : i < tcpOffset := by
      simp only [addressing, tcpOffset, Ethernet.headerLen, Ipv4.headerLen] at hi ⊢
      omega
    have hcommit : w₃.mem buf i = w₂.mem buf i := Ipv4Producer.commit_addressing h₃ rfl i hi
    have hstore : w₂.mem buf i = w₁.mem buf i := by
      apply store_sameOutside h₂
      exact fun _ => .inl hlt
    rw [← hstore, ← hcommit, Tcpv4.Frame.bytes, hread, List.getD_eq_getElem?_getD,
      BlockMemory.getElem?_read (Nat.lt_of_lt_of_le hlt (Nat.le_add_right _ _)),
      Option.getD_some, Nat.zero_add, hw₃]

namespace Processor

/-- The frame that answers a request: the ICMP message in it is the patched header
and nothing else. -/
theorem process_replies (env : Net D H) (icmp : Processor) (ethSrc : Ethernet.Address)
    (ipSrc : Ipv4.Address) (data : Bytes) {w : World D H} {buf : Nat} {content : Bytes}
    (htype : (Header.load data).type = echo)
    (hbuf : (env.device.prepare w.dev).1 = .ok (buf, content)) :
    ∃ ret w' frame, icmp.process env ethSrc ipSrc data w = .ok (ret, icmp) w' ∧
      commits w'.log = .commit none buf frame 0 ret :: commits w.log ∧
      messageOf frame = (replyTo (Header.load data)).bytes := by
  let w₀ : World D H := { w with
    ip4to := { w.ip4to with proto := Ipv4.protoIcmp, destAddress := ipSrc }
    ethto := { w.ethto with destAddress := ethSrc } }
  have hbuf₀ : (env.device.prepare w₀.dev).1 = .ok (buf, content) := hbuf
  obtain ⟨ret, w₁, w₂, w', frame, h₁, h₂, h₃, hcommits, hmsg, -⟩ :=
    message_departs env (replyTo (Header.load data)).length_bytes hbuf₀
  refine ⟨ret, w', frame, ?_, hcommits, hmsg⟩
  have hreply : (Header.load data).type ≠ echoReply := by
    rw [htype]
    decide
  unfold process
  rw [if_neg (by simp [htype]), if_neg hreply]
  unfold Ipv4Producer.setProtocol Ipv4Producer.setDestination EthernetProducer.setDestination
  simp only [Program.bind_update]
  rw [Program.bind_of_ok h₁]
  simp only
  rw [Program.bind_of_ok h₂, Program.bind_of_ok h₃]
  rfl

/-- The patched header as an answer. -/
theorem replyTo_echoes {data : Bytes} {len : UInt16} (htype : (Header.load data).type = echo)
    (hsum : Utils.checksum 0 data len = 0xffff) :
    Echoes data len (replyTo (Header.load data)).bytes ↔
      len.toNat = headerLen ∧ ¬((Header.load data).icode = 0 ∧ (Header.load data).id = 0 ∧
        (Header.load data).seqno = 0) := by
  have hload := Header.load_bytes (replyTo (Header.load data))
  have hreply : len.toNat = headerLen →
      (Utils.checksum 0 (asBytes (replyTo (Header.load data)).bytes) len = 0xffff ↔
        2 ^ 16 - 1 ∣ (replyTo (Header.load data)).sum ∧ (replyTo (Header.load data)).sum ≠ 0) := by
    intro hlen
    rw [Utils.checksum, Utils.checksumFrom_eq_ffff, hlen, words_header, hload]
  have hrequest : len.toNat = headerLen → 2 ^ 16 - 1 ∣ (Header.load data).sum := by
    intro hlen
    rw [Utils.checksum, Utils.checksumFrom_eq_ffff, hlen, words_header] at hsum
    exact hsum.1
  constructor
  · intro h
    have hlen : len.toNat = headerLen := h.length.symm
    refine ⟨hlen, fun hzero => ?_⟩
    exact ((hreply hlen).mp h.checksum).2
      ((replyTo_sum_eq_zero htype (hrequest hlen)).mpr hzero)
  · rintro ⟨hlen, hzero⟩
    have hdvd : 2 ^ 16 - 1 ∣ (replyTo (Header.load data)).sum :=
      Nat.modEq_zero_iff_dvd.mp ((replyTo_sum_modEq htype).trans
        (Nat.modEq_zero_iff_dvd.mpr (hrequest hlen)))
    exact {
      type := by rw [hload]; rfl
      icode := by rw [hload]; rfl
      id := by rw [hload]; rfl
      seqno := by rw [hload]; rfl
      length := hlen.symm
      payload := fun i hi hi' => by omega
      checksum := (hreply hlen).mpr
        ⟨hdvd, fun h => hzero ((replyTo_sum_eq_zero htype (hrequest hlen)).mp h)⟩ }

/-- A request whose checksum is valid is answered correctly exactly if it has no
payload and its code, identifier and sequence number are not all zero. -/
theorem replies_iff (env : Net D H) (icmp : Processor) (ethSrc : Ethernet.Address)
    (ipSrc : Ipv4.Address) {data : Bytes} {len : UInt16} {w : World D H} {buf : Nat}
    {content : Bytes} (htype : (Header.load data).type = echo)
    (hsum : Utils.checksum 0 data len = 0xffff)
    (hbuf : (env.device.prepare w.dev).1 = .ok (buf, content)) :
    icmp.Replies env ethSrc ipSrc data len w ↔
      len.toNat = headerLen ∧ ¬((Header.load data).icode = 0 ∧ (Header.load data).id = 0 ∧
        (Header.load data).seqno = 0) := by
  obtain ⟨ret, w', frame, hrun, hcommits, hmsg⟩ :=
    process_replies env icmp ethSrc ipSrc data htype hbuf
  rw [← replyTo_echoes htype hsum, ← hmsg]
  constructor
  · rintro ⟨ret', w'', buf', frame', mss, hrun', hcommits', hechoes⟩
    rw [hrun] at hrun'
    cases hrun'
    rw [hcommits] at hcommits'
    cases hcommits'
    exact hechoes
  · intro hechoes
    exact ⟨ret, w', buf, frame, 0, hrun, hcommits, hechoes⟩

/-- The first request of a host without a payload. -/
def ping : List UInt8 := [8, 0, 0xf7, 0xfd, 0, 1, 0, 1]

/-- A request with one byte of payload. -/
def pingWithPayload : List UInt8 := [8, 0, 0xf7, 0xfc, 0, 1, 0, 1, 0, 1]

/-- A request without payload is answered. -/
theorem replies_iff_ping :
    let data := asBytes ping
    Replies (Tcpv4.Testbed.net Tcpv4.Testbed.device) initial .zero Tcpv4.Testbed.peer data 8
        (.initial Tcpv4.Testbed.Script.empty []) ↔
      (8 : UInt16).toNat = headerLen ∧ ¬((Header.load data).icode = 0 ∧
        (Header.load data).id = 0 ∧ (Header.load data).seqno = 0) :=
  replies_iff _ _ _ _ (by decide) (by decide) rfl

/-- The answer to a request with a payload lacks it. -/
theorem not_replies : ¬ ∀ (D H : Type) (env : Net D H) (icmp : Processor)
    (ethSrc : Ethernet.Address) (ipSrc : Ipv4.Address) (data : Bytes) (len : UInt16)
    (w : World D H) (buf : Nat) (content : Bytes), (Header.load data).type = echo →
    Utils.checksum 0 data len = 0xffff → (env.device.prepare w.dev).1 = .ok (buf, content) →
    icmp.Replies env ethSrc ipSrc data len w := by
  intro hall
  obtain ⟨ret, w', buf, frame, mss, hrun, hcommits, hechoes⟩ := hall _ _
    (Tcpv4.Testbed.net Tcpv4.Testbed.device) initial .zero Tcpv4.Testbed.peer
    (asBytes pingWithPayload) 10 (.initial Tcpv4.Testbed.Script.empty []) 0 _ (by decide)
    (by decide) rfl
  obtain ⟨ret', w'', frame', hrun', hcommits', hmsg⟩ := process_replies
    (Tcpv4.Testbed.net Tcpv4.Testbed.device) initial .zero Tcpv4.Testbed.peer
    (asBytes pingWithPayload) (w := .initial Tcpv4.Testbed.Script.empty []) (by decide) rfl
  rw [hrun] at hrun'
  cases hrun'
  rw [hcommits] at hcommits'
  cases hcommits'
  have hlength := hechoes.length
  rw [hmsg, Header.length_bytes] at hlength
  exact absurd hlength (by decide)

end Processor

end Tulips.Icmpv4
