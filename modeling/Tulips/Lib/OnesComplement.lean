import Mathlib.Data.Nat.ModEq
import Mathlib.Tactic.Common

/-!
# Ones' complement sums

In ones' complement arithmetic a number is only known modulo `m = 2 ^ w - 1`, and
zero has two representatives, `0` and `m`. A sum with end-around carry is `0` only
if nothing but zeros has been added: it is the representative below.
-/

namespace OnesComplement

/-- The representative of `n` among `0, ..., m` that is `0` only for `0`. -/
def wrap (m n : Nat) : Nat := if n = 0 then 0 else (n - 1) % m + 1

variable {m n k x : Nat}

@[simp] theorem wrap_zero (m : Nat) : wrap m 0 = 0 := rfl

@[simp] theorem wrap_eq_zero : wrap m n = 0 ↔ n = 0 := by
  unfold wrap
  split <;> simp_all

theorem wrap_le (hm : 0 < m) : wrap m n ≤ m := by
  unfold wrap
  split
  · exact Nat.zero_le m
  · exact Nat.mod_lt _ hm

theorem wrap_modEq (m n : Nat) : wrap m n ≡ n [MOD m] := by
  unfold wrap
  split
  · next h => rw [h]
  · next h =>
      have hmod := (Nat.mod_modEq (n - 1) m).add_right 1
      rwa [Nat.sub_add_cancel (Nat.pos_of_ne_zero h)] at hmod

theorem wrap_of_le (h : n ≤ m) : wrap m n = n := by
  unfold wrap
  split
  · next hzero => rw [hzero]
  · next hne => rw [Nat.mod_eq_of_lt (by omega), Nat.sub_add_cancel (by omega)]

/-- The residue and whether it is zero determine the representative. -/
theorem eq_wrap (hle : x ≤ m) (hmod : x ≡ n [MOD m]) (hzero : x = 0 ↔ n = 0) :
    x = wrap m n := by
  by_cases hn : n = 0
  · rw [hn, wrap_zero]
    exact hzero.mpr hn
  · have hx : x ≠ 0 := fun h => hn (hzero.mp h)
    have hpred : x - 1 ≡ n - 1 [MOD m] := by
      apply Nat.ModEq.add_right_cancel' 1
      rwa [Nat.sub_add_cancel (Nat.pos_of_ne_zero hx), Nat.sub_add_cancel (Nat.pos_of_ne_zero hn)]
    rw [wrap, if_neg hn, ← hpred, Nat.mod_eq_of_lt (by omega),
      Nat.sub_add_cancel (Nat.pos_of_ne_zero hx)]

/-- What has been reduced can be added to. -/
theorem wrap_wrap_add (hm : 0 < m) : wrap m (wrap m n + k) = wrap m (n + k) := by
  apply eq_wrap (wrap_le hm)
  · exact (wrap_modEq m _).trans ((wrap_modEq m n).add_right k)
  · simp

/-- Adding two representatives with end-around carry. -/
theorem carry_eq_wrap (hx : x ≤ m) (hn : n ≤ m) :
    (if m < x + n then x + n - m else x + n) = wrap m (x + n) := by
  split
  · next hcarry =>
      apply eq_wrap (by omega)
      · rw [Nat.modEq_iff_dvd' (by omega)]
        exact ⟨1, by omega⟩
      · omega
  · next hfits => exact (wrap_of_le (by omega)).symm

end OnesComplement
