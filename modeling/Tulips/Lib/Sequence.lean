import Mathlib.Algebra.BigOperators.Group.List.Basic
import Mathlib.Data.Nat.ModEq
import Mathlib.Tactic.Common

/-!
# Sequence numbers modulo 2^32

Spans of a sequence space that follow one another, the amount they cover, and
the effect of a cumulative acknowledgement on them. Positions are compared by
their distance from the oldest one, so nothing below depends on where the
numbers wrap.
-/

namespace Sequence

variable {α : Type} (seq len : α → UInt32)

/-- `x` lies in the half-open window `(a, b]`, going up from `a`. -/
def InWindow (a x b : UInt32) : Prop :=
  0 < (x - a).toNat ∧ (x - a).toNat ≤ (b - a).toNat

instance (a x b : UInt32) : Decidable (InWindow a x b) :=
  inferInstanceAs (Decidable (_ ∧ _))

/-- The spans follow one another from `a` to `b`. -/
def Consecutive : UInt32 → List α → UInt32 → Prop
  | a, [], b => a = b
  | a, x :: l, b => seq x = a ∧ Consecutive (a + len x) l b

/-- The amount the spans cover. -/
def total (l : List α) : Nat := (l.map fun x => (len x).toNat).sum

@[simp] theorem total_nil : total len ([] : List α) = 0 := rfl

@[simp] theorem total_cons (x : α) (l : List α) :
    total len (x :: l) = (len x).toNat + total len l := by
  simp [total]

@[simp] theorem total_append (l₁ l₂ : List α) :
    total len (l₁ ++ l₂) = total len l₁ + total len l₂ := by
  simp [total]

theorem total_le_mul {bound : Nat} {l : List α} (h : ∀ x ∈ l, (len x).toNat ≤ bound) :
    total len l ≤ l.length * bound := by
  induction l with
  | nil => simp
  | cons x l ih =>
      have hx := h x (by simp)
      have hl := ih fun y hy => h y (by simp [hy])
      rw [total_cons, List.length_cons, Nat.succ_mul]
      omega

variable {seq len}

theorem Consecutive.append {a b c : UInt32} {l₁ l₂ : List α} (h₁ : Consecutive seq len a l₁ b)
    (h₂ : Consecutive seq len b l₂ c) : Consecutive seq len a (l₁ ++ l₂) c := by
  induction l₁ generalizing a with
  | nil => cases h₁; exact h₂
  | cons x l ih => exact ⟨h₁.1, ih h₁.2⟩

theorem Consecutive.split {a c : UInt32} {l₁ l₂ : List α}
    (h : Consecutive seq len a (l₁ ++ l₂) c) :
    ∃ b, Consecutive seq len a l₁ b ∧ Consecutive seq len b l₂ c := by
  induction l₁ generalizing a with
  | nil => exact ⟨a, rfl, h⟩
  | cons x l ih =>
      obtain ⟨b, hl, hr⟩ := ih h.2
      exact ⟨b, ⟨h.1, hl⟩, hr⟩

/-- The spans end as far after their start as they cover. -/
theorem Consecutive.end_eq {a b : UInt32} {l : List α} (h : Consecutive seq len a l b) :
    b = a + UInt32.ofNat (total len l) := by
  induction l generalizing a with
  | nil => cases h; simp
  | cons x l ih =>
      rw [ih h.2, total_cons, UInt32.ofNat_add, UInt32.ofNat_toNat, UInt32.add_assoc]

/-- Spans that cover less than the whole space measure the distance they span. -/
theorem Consecutive.distance {a b : UInt32} {l : List α} (h : Consecutive seq len a l b)
    (hfit : total len l < 2 ^ 32) : (b - a).toNat = total len l := by
  have hend := h.end_eq
  have hsub : b - a = UInt32.ofNat (total len l) := by grind
  rw [hsub, UInt32.toNat_ofNat', Nat.mod_eq_of_lt hfit]

theorem Consecutive.seq_head {a b : UInt32} {x : α} {l : List α}
    (h : Consecutive seq len a (x :: l) b) : seq x = a := h.1

/-- A span starts as far from the oldest position as the spans before it cover. -/
theorem Consecutive.offset {a b : UInt32} {l : List α} {y : α} (h : Consecutive seq len a l b)
    (hfit : total len l < 2 ^ 32) (hy : y ∈ l) :
    ∃ l₁ l₂, l = l₁ ++ y :: l₂ ∧ (seq y - a).toNat = total len l₁ := by
  obtain ⟨l₁, l₂, rfl⟩ := List.append_of_mem hy
  obtain ⟨c, h₁, h₂⟩ := h.split
  rw [total_append] at hfit
  refine ⟨l₁, l₂, rfl, ?_⟩
  rw [h₂.1]
  exact h₁.distance (by omega)

/-- Measured from the second span on, a later span has moved up by the first. -/
theorem Consecutive.offset_cons {a b : UInt32} {x y : α} {l : List α}
    (h : Consecutive seq len a (x :: l) b) (hfit : total len (x :: l) < 2 ^ 32) (hy : y ∈ l) :
    (seq y - a).toNat = (len x).toNat + (seq y - (a + len x)).toNat := by
  rw [total_cons] at hfit
  obtain ⟨l₁, l₂, rfl, hoff⟩ := h.2.offset (by omega) hy
  have hfirst : Consecutive seq len a (x :: l₁) (seq y) := by
    rw [← List.cons_append] at h
    obtain ⟨c, h₁, h₂⟩ := h.split
    rw [h₂.1]
    exact h₁
  rw [total_append] at hfit
  rw [hoff, hfirst.distance (by rw [total_cons]; omega), total_cons]

/-! ## Cumulative acknowledgements -/

variable (seq len)

/-- `x` starts no later than `ackno` and ends there or earlier. -/
def Covers (a ackno : UInt32) (x : α) : Prop :=
  (seq x - a).toNat ≤ (ackno - a).toNat ∧ (len x).toNat ≤ (ackno - seq x).toNat

variable {seq len}

theorem sub_toNat_of_le {a x y : UInt32} (h : (x - a).toNat ≤ (y - a).toNat) :
    (y - x).toNat = (y - a).toNat - (x - a).toNat := by
  have heq : y - x = (y - a) - (x - a) := by grind
  rw [heq, UInt32.toNat_sub_of_le _ _ h]

theorem sub_add_toNat {a x l : UInt32} (h : l.toNat ≤ (x - a).toNat) :
    (x - (a + l)).toNat = (x - a).toNat - l.toNat := by
  have heq : x - (a + l) = (x - a) - l := by grind
  rw [heq, UInt32.toNat_sub_of_le _ _ h]

/-- In distances from the oldest position, the end of the span is no further
than the acknowledgement. -/
theorem covers_iff {a ackno : UInt32} {x : α} : Covers seq len a ackno x ↔
    (seq x - a).toNat + (len x).toNat ≤ (ackno - a).toNat := by
  constructor
  · rintro ⟨hstart, hend⟩
    rw [sub_toNat_of_le hstart] at hend
    omega
  · intro h
    have hstart : (seq x - a).toNat ≤ (ackno - a).toNat := by omega
    refine ⟨hstart, ?_⟩
    rw [sub_toNat_of_le hstart]
    omega

/-- Once the first span is covered, the others can be judged without it. -/
theorem Consecutive.covers_tail {a b ackno : UInt32} {x y : α} {l : List α}
    (h : Consecutive seq len a (x :: l) b) (hfit : total len (x :: l) < 2 ^ 32)
    (hx : (len x).toNat ≤ (ackno - a).toNat) (hy : y ∈ l) :
    Covers seq len a ackno y ↔ Covers seq len (a + len x) ackno y := by
  rw [covers_iff, covers_iff, h.offset_cons hfit hy, sub_add_toNat hx]
  omega

/-- What does not reach the end of the first span covers none. -/
theorem Consecutive.not_covers {a b ackno : UInt32} {x y : α} {l : List α}
    (h : Consecutive seq len a (x :: l) b) (hfit : total len (x :: l) < 2 ^ 32)
    (hx : (ackno - a).toNat < (len x).toNat) (hy : y ∈ x :: l) :
    ¬Covers seq len a ackno y := by
  rw [covers_iff]
  rcases List.mem_cons.mp hy with rfl | hy
  · omega
  · rw [h.offset_cons hfit hy]
    omega

end Sequence
