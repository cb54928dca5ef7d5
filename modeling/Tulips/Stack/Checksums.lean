import Tulips.Lib.OnesComplement
import Tulips.Stack.Headers

/-!
# What a checksum says

The ones' complement sum of a run of bytes is the sum of its 16-bit words modulo
`2^16 - 1`, where both `0` and `0xffff` stand for zero: it is `0` if all bytes
are, and a multiple of the modulus is `0xffff` otherwise.
-/

namespace Tulips.Utils

open OnesComplement

variable {data : Bytes} {n off : Nat} {sum t : UInt16}

theorem carryAdd_toNat (sum t : UInt16) : (carryAdd sum t).toNat =
    if 2 ^ 16 ≤ sum.toNat + t.toNat then sum.toNat + t.toNat - (2 ^ 16 - 1)
    else sum.toNat + t.toNat := by
  have hsum := sum.toNat_lt
  have ht := t.toNat_lt
  unfold carryAdd
  simp only [UInt16.lt_iff_toNat_lt, UInt16.toNat_add]
  split
  · rw [if_pos (by omega)]
    simp only [UInt16.toNat_add, UInt16.toNat_one]
    omega
  · rw [if_neg (by omega), UInt16.toNat_add]
    omega

/-- One step of the sum adds with end-around carry. -/
theorem carryAdd_eq_wrap (sum t : UInt16) :
    (carryAdd sum t).toNat = wrap 0xffff (sum.toNat + t.toNat) := by
  have hsum := sum.toNat_lt
  have ht := t.toNat_lt
  rw [carryAdd_toNat, ← carry_eq_wrap (by omega) (by omega)]
  split <;> split <;> omega

/-- A byte in the high half of a word. -/
theorem highByte_toNat (b : UInt8) : (b.toUInt16 <<< 8).toNat = 256 * b.toNat := by
  have hb := b.toNat_lt
  have hshift : UInt16.toNat 8 % 16 = 8 := rfl
  rw [UInt16.toNat_shiftLeft, UInt8.toNat_toUInt16, Nat.shiftLeft_eq, hshift]
  omega

theorem word_toNat (data : Bytes) (off : Nat) :
    (word data off).toNat = 256 * (data off).toNat + (data (off + 1)).toNat := by
  have hhigh := (data off).toNat_lt
  have hlow := (data (off + 1)).toNat_lt
  rw [word, UInt16.toNat_add, highByte_toNat, UInt8.toNat_toUInt16]
  omega

/-- A word of the checksum is the field loaded there, turned around. -/
theorem word_eq (data : Bytes) (off : Nat) :
    (word data off).toNat = (htons (load16 data off)).toNat := by
  have hhigh := (data off).toNat_lt
  have hlow := (data (off + 1)).toNat_lt
  have hload : (load16 data off).toNat = (data off).toNat + 2 ^ 8 * (data (off + 1)).toNat := by
    rw [load16, UInt16.toNat_ofNat', Nat.mod_eq_of_lt (by omega)]
  rw [word_toNat, htons, hload, UInt16.toNat_ofNat', Nat.mod_eq_of_lt (by omega)]
  omega

/-- The sum of the 16-bit words of `n` bytes, the last one filled up with a zero byte. -/
def words (data : Bytes) : Nat → Nat → Nat
  | 0, _ => 0
  | 1, off => 256 * (data off).toNat
  | n + 2, off => (word data off).toNat + words data n (off + 2)

/-- The loop keeps the ones' complement sum of what it has read. -/
theorem checksumFrom_eq_wrap (data : Bytes) (n off : Nat) (sum : UInt16) :
    (checksumFrom data n off sum).toNat = wrap 0xffff (sum.toNat + words data n off) := by
  induction n, off, sum using checksumFrom.induct data with
  | case1 off sum =>
      have hsum := sum.toNat_lt
      rw [checksumFrom, words, Nat.add_zero, wrap_of_le (by omega)]
  | case2 off sum => rw [checksumFrom, words, ← highByte_toNat, carryAdd_eq_wrap]
  | case3 n off sum ih =>
      rw [checksumFrom, words, ih, carryAdd_eq_wrap, wrap_wrap_add (by decide), Nat.add_assoc]

theorem checksumFrom_modEq : (checksumFrom data n off sum).toNat ≡
    sum.toNat + words data n off [MOD 2 ^ 16 - 1] := by
  rw [checksumFrom_eq_wrap]
  exact wrap_modEq _ _

/-- Zero bytes add nothing, and nothing but zero bytes leaves a sum at `0`. -/
theorem checksumFrom_eq_zero :
    checksumFrom data n off sum = 0 ↔ sum = 0 ∧ words data n off = 0 := by
  rw [← UInt16.toNat_inj, checksumFrom_eq_wrap, UInt16.toNat_zero, wrap_eq_zero,
    Nat.add_eq_zero_iff, ← UInt16.toNat_zero, UInt16.toNat_inj]

/-- A run of bytes sums up to `0xffff` if its words do modulo `2^16 - 1` and it is
not all zero. -/
theorem checksumFrom_eq_ffff : checksumFrom data n off 0 = 0xffff ↔
    2 ^ 16 - 1 ∣ words data n off ∧ words data n off ≠ 0 := by
  have hmod : (checksumFrom data n off 0).toNat ≡ words data n off [MOD 2 ^ 16 - 1] := by
    have hsum := @checksumFrom_modEq data n off 0
    rwa [UInt16.toNat_zero, Nat.zero_add] at hsum
  have hlt := (checksumFrom data n off 0).toNat_lt
  rw [← Nat.modEq_zero_iff_dvd]
  constructor
  · intro hsum
    rw [hsum] at hmod
    refine ⟨hmod.symm, fun hwords => ?_⟩
    have hnone : checksumFrom data n off 0 = 0 := checksumFrom_eq_zero.mpr ⟨rfl, hwords⟩
    rw [hsum] at hnone
    cases hnone
  · rintro ⟨hwords, hne⟩
    have hsum : checksumFrom data n off 0 ≠ 0 := fun h => hne (checksumFrom_eq_zero.mp h).2
    have hpos : (checksumFrom data n off 0).toNat ≠ 0 := fun h => hsum (UInt16.toNat_inj.mp h)
    have hdvd := (Nat.modEq_zero_iff_dvd).mp (hmod.trans hwords)
    obtain ⟨k, hk⟩ := hdvd
    apply UInt16.toNat_inj.mp
    show _ = 65535
    omega

end Tulips.Utils
