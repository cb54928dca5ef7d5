import Mathlib.Data.List.Range
import Mathlib.Data.Nat.ModEq
import Mathlib.Logic.Function.Basic
import Mathlib.Tactic.Common

/-!
# Circular memory

A memory of `size` cells whose addresses are taken modulo `size`, as two
mappings of the same pages side by side provide it. A range that starts in the
first mapping may run into the second one and comes out whole.
-/

namespace CircularMemory

variable {α : Type} {size : Nat}

/-- The `n` cells from an address on. -/
def load (size : Nat) (m : Nat → α) (a n : Nat) : List α :=
  (List.range n).map fun i => m ((a + i) % size)

/-- Overwrite the cells from an address on. -/
def store (size : Nat) (m : Nat → α) (a : Nat) : List α → Nat → α
  | [] => m
  | x :: l => store size (Function.update m (a % size) x) (a + 1) l

@[simp] theorem length_load (m : Nat → α) (a n : Nat) : (load size m a n).length = n := by
  simp [load]

theorem load_mod (m : Nat → α) (a n : Nat) : load size m (a % size) n = load size m a n := by
  simp [load]

theorem store_congr {a b : Nat} (h : a ≡ b [MOD size]) (m : Nat → α) (l : List α) :
    store size m a l = store size m b l := by
  induction l generalizing m a b with
  | nil => rfl
  | cons x l ih =>
      have hab : a % size = b % size := h
      simp only [store, hab]
      exact ih (h.add_right 1) _

theorem load_add (m : Nat → α) (a n k : Nat) :
    load size m a (n + k) = load size m a n ++ load size m (a + n) k := by
  simp [load, List.range_add, Nat.add_assoc]

theorem take_load (m : Nat → α) (a : Nat) {n k : Nat} (h : k ≤ n) :
    (load size m a n).take k = load size m a k := by
  obtain ⟨j, rfl⟩ := Nat.exists_eq_add_of_le h
  rw [load_add, List.take_append_of_le_length (by simp), List.take_of_length_le (by simp)]

theorem drop_load (m : Nat → α) (a : Nat) {n k : Nat} (h : k ≤ n) :
    (load size m a n).drop k = load size m (a + k) (n - k) := by
  obtain ⟨j, rfl⟩ := Nat.exists_eq_add_of_le h
  have hsub : k + j - k = j := by omega
  rw [load_add, List.drop_append_of_le_length (by simp), List.drop_of_length_le (by simp), hsub,
    List.nil_append]

/-- Addresses less than one turn apart are different cells. -/
theorem mod_ne {a i : Nat} (hi : 0 < i) (hsize : i < size) : a % size ≠ (a + i) % size := by
  intro h
  have hdvd : size ∣ a + i - a := (Nat.modEq_iff_dvd' (by omega)).mp h
  have := Nat.le_of_dvd (by omega) hdvd
  omega

/-- A cell no byte is stored to keeps its content. -/
theorem store_of_ne (m : Nat → α) (a : Nat) (l : List α) {j : Nat}
    (h : ∀ i < l.length, j ≠ (a + i) % size) : store size m a l j = m j := by
  induction l generalizing m a with
  | nil => rfl
  | cons x l ih =>
      have hfirst : j ≠ a % size := h 0 (by simp)
      rw [store, ih _ _ fun i hi => ?_, Function.update_of_ne hfirst]
      have := h (i + 1) (by simpa using hi)
      rwa [Nat.add_assoc, Nat.add_comm 1 i]

/-- What is stored in at most one turn can be loaded again. -/
theorem load_store_self (m : Nat → α) (a : Nat) {l : List α} (h : l.length ≤ size) :
    load size (store size m a l) a l.length = l := by
  induction l generalizing m a with
  | nil => rfl
  | cons x l ih =>
      have hlen : l.length + 1 ≤ size := h
      have hkeep : store size (Function.update m (a % size) x) (a + 1) l (a % size) = x := by
        rw [store_of_ne, Function.update_self]
        intro i hi
        have := mod_ne (a := a) (i := i + 1) (by omega) (by omega : i + 1 < size)
        rwa [Nat.add_assoc, Nat.add_comm 1 i]
      have hhead : load size (store size m a (x :: l)) a 1 = [x] := by
        simp only [load, store, List.range_one, List.map_singleton, Nat.add_zero, hkeep]
      rw [List.length_cons, Nat.add_comm, load_add, hhead]
      exact congrArg (x :: ·) (ih _ (a + 1) (by omega))

/-- The cells before the stored ones keep their content within one turn. -/
theorem load_store_before (m : Nat → α) (a n : Nat) {l : List α} (h : n + l.length ≤ size) :
    load size (store size m (a + n) l) a n = load size m a n := by
  refine List.map_congr_left fun i hi => store_of_ne _ _ _ fun k hk => ?_
  have hi' : i < n := List.mem_range.mp hi
  have hne := mod_ne (a := a + i) (i := n + k - i) (by omega) (by omega : n + k - i < size)
  have haddr : a + i + (n + k - i) = a + n + k := by omega
  rwa [haddr] at hne

end CircularMemory
