import Tulips.Stack.Checksums

/-!
# The checksum kernel

`utils::checksum` adds up 16-bit words with end-around carry, one word after the
other. This is the ones' complement sum of all of them, whatever the seed.
-/

namespace Tulips.Utils

open OnesComplement

/-- The sum of the big-endian words of a byte string, the last one filled up with a
zero byte. -/
def wordSum : List UInt8 → Nat
  | [] => 0
  | [hi] => 256 * hi.toNat
  | hi :: lo :: rest => 256 * hi.toNat + lo.toNat + wordSum rest

/-- `utils::checksum` of a byte string. -/
def checksumOf (seed : UInt16) (bytes : List UInt8) : UInt16 :=
  checksum seed (fun i => bytes.getD i 0) (UInt16.ofNat bytes.length)

theorem wordSum_eq_zero {bytes : List UInt8} : wordSum bytes = 0 ↔ ∀ b ∈ bytes, b = 0 := by
  have hzero : ∀ b : UInt8, b.toNat = 0 ↔ b = 0 := fun b => by simp [← UInt8.toNat_inj]
  induction bytes using wordSum.induct with
  | case1 => simp [wordSum]
  | case2 hi => simp [wordSum, hzero]
  | case3 hi lo rest ih =>
      simp only [wordSum, Nat.add_eq_zero_iff, List.forall_mem_cons, ih, hzero]
      simp [hzero, and_assoc]

theorem wordSum_append {bytes more : List UInt8} (h : bytes.length % 2 = 0) :
    wordSum (bytes ++ more) = wordSum bytes + wordSum more := by
  induction bytes using wordSum.induct with
  | case1 => simp [wordSum]
  | case2 hi => simp at h
  | case3 hi lo rest ih =>
      have hrest : rest.length % 2 = 0 := by
        simp only [List.length_cons] at h
        omega
      simp only [List.cons_append, wordSum, ih hrest]
      omega

/-- The words the loop reads are those of the bytes it runs over. -/
theorem words_eq_wordSum (data : Bytes) (n off : Nat) :
    words data n off = wordSum ((List.range n).map fun i => data (off + i)) := by
  induction n, off using words.induct with
  | case1 off => rfl
  | case2 off => simp [words, wordSum]
  | case3 n off ih =>
      rw [words, ih, List.range_succ_eq_map, List.range_succ_eq_map, word_toNat]
      simp only [List.map_cons, List.map_map, wordSum, Nat.add_zero]
      congr 3
      funext i
      exact congrArg data (by simp; omega)

theorem checksumOf_toNat (seed : UInt16) {bytes : List UInt8} (hlen : bytes.length < 2 ^ 16) :
    (checksumOf seed bytes).toNat = wrap 0xffff (seed.toNat + wordSum bytes) := by
  have hbytes : (List.range bytes.length).map (fun i => bytes.getD (0 + i) 0) = bytes := by
    apply List.ext_getElem
    · simp
    · intro i hi hi'
      simp [hi']
  rw [checksumOf, checksum, checksumFrom_eq_wrap, UInt16.toNat_ofNat', Nat.mod_eq_of_lt hlen,
    words_eq_wordSum, hbytes]

/-- The checksum of a byte string is its ones' complement sum: it is congruent to
the seed plus the words, zero only if all are zero, and can be computed in parts. -/
theorem checksum_onesComplement (seed : UInt16) (bytes : List UInt8)
    (hlen : bytes.length < 2 ^ 16) :
    (checksumOf seed bytes).toNat = wrap 0xffff (seed.toNat + wordSum bytes) ∧
      (checksumOf seed bytes).toNat ≡ seed.toNat + wordSum bytes [MOD 0xffff] ∧
      (checksumOf seed bytes = 0 ↔ seed = 0 ∧ ∀ b ∈ bytes, b = 0) ∧
      ∀ more : List UInt8, bytes.length % 2 = 0 → bytes.length + more.length < 2 ^ 16 →
        checksumOf (checksumOf seed bytes) more = checksumOf seed (bytes ++ more) := by
  have hsum := checksumOf_toNat seed hlen
  refine ⟨hsum, ?_, ?_, fun more heven hmore => ?_⟩
  · rw [hsum]
    exact wrap_modEq _ _
  · rw [← UInt16.toNat_inj, hsum, UInt16.toNat_zero, wrap_eq_zero, Nat.add_eq_zero_iff,
      wordSum_eq_zero, ← UInt16.toNat_inj, UInt16.toNat_zero]
  · have happend : (bytes ++ more).length < 2 ^ 16 := by rwa [List.length_append]
    apply UInt16.toNat_inj.mp
    rw [checksumOf_toNat _ (by omega), hsum, checksumOf_toNat _ happend, wrap_wrap_add (by decide),
      wordSum_append heven, Nat.add_assoc]

theorem checksum_onesComplement_carry :
    checksumOf (checksumOf 0xffff [0x80, 0x01]) [0x7f, 0xff, 0x01] =
      checksumOf 0xffff [0x80, 0x01, 0x7f, 0xff, 0x01] :=
  (checksum_onesComplement 0xffff [0x80, 0x01] (by decide)).2.2.2 [0x7f, 0xff, 0x01] (by decide)
    (by decide)

end Tulips.Utils
