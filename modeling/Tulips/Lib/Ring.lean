import Mathlib.Algebra.Group.Fin.Basic
import Mathlib.Data.List.FinRange
import Mathlib.Data.List.Range
import Mathlib.Data.Nat.ModEq
import Mathlib.Tactic.Common

/-!
# Slots arranged in a ring

A ring of `n` slots is read as a list from a starting slot on. Overwriting a
slot is a list update, and moving the start one slot on moves the head of the
list to its end. A queue kept in consecutive slots is then a prefix of that
list.
-/

namespace Ring

variable {α : Type} {n : Nat} [NeZero n]

/-- The slots of a ring as a list, from the slot `s` on. -/
def rotated (f : Fin n → α) (s : Fin n) : List α :=
  (List.range n).map fun j => f (s + Fin.ofNat n j)

/-- The first slot from `s` on whose content satisfies `free`. -/
def firstFree (free : α → Bool) (f : Fin n → α) (s : Fin n) : Option (Fin n) :=
  ((List.range n).find? fun j => free (f (s + Fin.ofNat n j))).map fun j => s + Fin.ofNat n j

@[simp] theorem length_rotated (f : Fin n → α) (s : Fin n) : (rotated f s).length = n := by
  simp [rotated]

theorem getElem?_rotated (f : Fin n → α) (s : Fin n) {j : Nat} (hj : j < n) :
    (rotated f s)[j]? = some (f (s + Fin.ofNat n j)) := by
  simp [rotated, hj]

theorem mem_rotated (f : Fin n → α) (s i : Fin n) : f i ∈ rotated f s := by
  refine List.mem_map.mpr ⟨(i - s).val, List.mem_range.mpr (i - s).isLt, ?_⟩
  congr 1
  rw [Fin.ofNat_val_eq_self]
  exact add_sub_cancel s i

theorem exists_of_mem_rotated {f : Fin n → α} {s : Fin n} {x : α} (h : x ∈ rotated f s) :
    ∃ i, f i = x := by
  obtain ⟨j, _, hj⟩ := List.mem_map.mp h
  exact ⟨_, hj⟩

/-- Moving the start one slot on sends the head of the list to its end. -/
theorem rotated_succ (f : Fin n → α) (s : Fin n) :
    rotated f (s + 1) = (rotated f s).tail ++ [f s] := by
  let g : Nat → α := fun j => f (s + Fin.ofNat n j)
  have hshift : rotated f (s + 1) = (List.range n).map (fun j => g (j + 1)) := by
    apply List.map_congr_left
    intro j _
    simp only [g]
    congr 1
    rw [add_assoc]
    congr 1
    apply Fin.ext
    simp [Fin.ofNat, Fin.val_add, Nat.add_comm]
  have hlast : g n = f s := by
    simp only [g]
    congr 1
    have hzero : Fin.ofNat n n = 0 := by apply Fin.ext; simp [Fin.ofNat]
    rw [hzero, add_zero]
  have hlong : g 0 :: (List.range n).map (fun j => g (j + 1)) = rotated f s ++ [f s] := by
    have hcons : (List.range (n + 1)).map g = g 0 :: (List.range n).map (fun j => g (j + 1)) := by
      rw [List.range_succ_eq_map, List.map_cons, List.map_map]
      rfl
    have hsnoc : (List.range (n + 1)).map g = rotated f s ++ [f s] := by
      rw [List.range_succ, List.map_append, List.map_singleton, hlast]
      rfl
    rw [← hcons, hsnoc]
  have hne : rotated f s ≠ [] := by
    intro hnil
    have := length_rotated f s
    rw [hnil] at this
    exact NeZero.ne n this.symm
  rw [hshift]
  have htail := congrArg List.tail hlong
  rw [List.tail_cons, List.tail_append_of_ne_nil hne] at htail
  exact htail

/-- The list starts with the slot it is read from. -/
theorem rotated_eq_cons (f : Fin n → α) (s : Fin n) :
    rotated f s = f s :: (rotated f s).tail := by
  have hpos : 0 < n := Nat.pos_of_ne_zero (NeZero.ne n)
  have hhead := getElem?_rotated f s hpos
  have hzero : Fin.ofNat n 0 = 0 := by apply Fin.ext; simp [Fin.ofNat]
  rw [hzero, add_zero] at hhead
  cases h : rotated f s with
  | nil => rw [h] at hhead; simp at hhead
  | cons x l => rw [h] at hhead; simpa using hhead

/-- A free slot is found wherever the search starts. -/
theorem firstFree_isSome {free : α → Bool} {f : Fin n → α} {s i : Fin n} (hi : free (f i) = true) :
    ∃ k, firstFree free f s = some k := by
  have hat : free (f (s + Fin.ofNat n (i - s).val)) = true := by
    rw [Fin.ofNat_val_eq_self, add_sub_cancel]
    exact hi
  unfold firstFree
  cases hfind : (List.range n).find? fun j => free (f (s + Fin.ofNat n j)) with
  | some j => exact ⟨_, rfl⟩
  | none =>
      have := List.find?_eq_none.mp hfind (i - s).val (List.mem_range.mpr (i - s).isLt)
      exact absurd hat this

/-- What the search finds is free. -/
theorem free_of_firstFree {free : α → Bool} {f : Fin n → α} {s k : Fin n}
    (h : firstFree free f s = some k) : free (f k) = true := by
  unfold firstFree at h
  obtain ⟨j, hfind, rfl⟩ := Option.map_eq_some_iff.mp h
  exact List.find?_some (p := fun j => free (f (s + Fin.ofNat n j))) hfind

theorem offset_injective (s : Fin n) {j k : Nat} (hj : j < n) (hk : k < n)
    (h : s + Fin.ofNat n j = s + Fin.ofNat n k) : j = k := by
  have heq := congrArg Fin.val (add_left_cancel h)
  simpa [Fin.ofNat, Nat.mod_eq_of_lt hj, Nat.mod_eq_of_lt hk] using heq

/-- Overwriting the slot `j` places after the start is a list update. -/
theorem rotated_update (f : Fin n → α) (s : Fin n) {j : Nat} (hj : j < n) (x : α) :
    rotated (Function.update f (s + Fin.ofNat n j) x) s = (rotated f s).set j x := by
  apply List.ext_getElem?
  intro k
  by_cases hk : k < n
  · rw [getElem?_rotated _ _ hk, List.getElem?_set]
    by_cases hjk : j = k
    · subst hjk
      simp [hj]
    · have hne : s + Fin.ofNat n k ≠ s + Fin.ofNat n j :=
        fun h => hjk (offset_injective s hk hj h).symm
      rw [Function.update_of_ne hne, if_neg hjk, getElem?_rotated _ _ hk]
  · rw [List.getElem?_eq_none (by simpa using hk), List.getElem?_eq_none (by simpa using hk)]

/-- Overwriting the first slot replaces the head of the list. -/
theorem rotated_update_self (f : Fin n → α) (s : Fin n) (x : α) :
    rotated (Function.update f s x) s = x :: (rotated f s).tail := by
  have hpos : 0 < n := Nat.pos_of_ne_zero (NeZero.ne n)
  have hzero : Fin.ofNat n 0 = 0 := by apply Fin.ext; simp [Fin.ofNat]
  have h := rotated_update f s hpos x
  rw [hzero, add_zero] at h
  rw [h, rotated_eq_cons f s]
  rfl

/-- The first free slot is the one right after the queue that precedes it. -/
theorem firstFree_of_rotated {free : α → Bool} {f : Fin n → α} {s : Fin n} {used rest : List α}
    {x : α} (hsplit : rotated f s = used ++ x :: rest) (hused : ∀ y ∈ used, free y = false)
    (hx : free x = true) : firstFree free f s = some (s + Fin.ofNat n used.length) := by
  have hlen : used.length < n := by
    have := congrArg List.length hsplit
    simp at this
    omega
  have hat : ∀ j < n, (used ++ x :: rest)[j]? = some (f (s + Fin.ofNat n j)) := by
    intro j hj
    rw [← hsplit, getElem?_rotated _ _ hj]
  unfold firstFree
  have hfind : (List.range n).find? (fun j => free (f (s + Fin.ofNat n j))) =
      some used.length := by
    rw [List.find?_range_eq_some]
    refine ⟨?_, List.mem_range.mpr hlen, ?_⟩
    · have := hat used.length hlen
      rw [List.getElem?_append_right (Nat.le_refl _), Nat.sub_self] at this
      have heq : x = f (s + Fin.ofNat n used.length) := by simpa using this
      rw [← heq, hx]
    · intro j hj
      have := hat j (by omega)
      rw [List.getElem?_append_left hj, List.getElem?_eq_getElem hj] at this
      have heq : used[j] = f (s + Fin.ofNat n j) := by simpa using this
      rw [← heq, hused _ (List.getElem_mem hj)]
      rfl
  rw [hfind]
  rfl

end Ring
