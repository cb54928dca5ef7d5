import Mathlib.Data.Nat.ModEq
import Mathlib.Tactic.Common

/-!
# Counters that only go up

A count is kept in a 64-bit word and reduced modulo a number of slots. Two
counts at most `d` apart, where `d` fits a word, tell their distance, and less
than `d` apart their slots.
-/

namespace Counter

variable {x y : Nat} {d : UInt64}

/-- Different counts less than `n` apart have different slots out of `n`. -/
theorem mod_ne {n : Nat} (h : x < y) (hy : y < x + n) : x % n ≠ y % n := by
  intro heq
  have hdvd : n ∣ y - x := (Nat.modEq_iff_dvd' h.le).mp heq
  have := Nat.le_of_dvd (by omega) hdvd
  omega

/-- Words at most `d` apart tell their distance. -/
theorem sub_toNat (hxy : x ≤ y) (hy : y ≤ x + d.toNat) :
    (UInt64.ofNat y - UInt64.ofNat x).toNat = y - x := by
  have hlt := d.toNat_lt
  rw [← UInt64.ofNat_sub hxy, UInt64.toNat_ofNat', Nat.mod_eq_of_lt (by omega)]

theorem ofNat_inj (hxy : x ≤ y) (hy : y ≤ x + d.toNat) :
    UInt64.ofNat x = UInt64.ofNat y ↔ x = y := by
  constructor
  · intro heq
    have hzero := sub_toNat hxy hy
    rw [heq, UInt64.sub_self] at hzero
    have : 0 = y - x := hzero
    omega
  · rintro rfl
    rfl

/-- The distance is `d` as a word when the counts are `d` apart. -/
theorem sub_beq (hxy : x ≤ y) (hy : y ≤ x + d.toNat) :
    (UInt64.ofNat y - UInt64.ofNat x == d) = true ↔ y = x + d.toNat := by
  rw [beq_iff_eq, ← UInt64.toNat_inj, sub_toNat hxy hy]
  omega

/-- The slot of a count is the one of its word, as long as the word has not
started over or does so at a multiple of the slots. -/
theorem mod_toNat (h : x < 2 ^ 64 ∨ d.toNat ∣ 2 ^ 64) :
    (UInt64.ofNat x % d).toNat = x % d.toNat := by
  rw [UInt64.toNat_mod, UInt64.toNat_ofNat']
  rcases h with hlt | hdvd
  · rw [Nat.mod_eq_of_lt hlt]
  · exact Nat.mod_mod_of_dvd x hdvd

end Counter
