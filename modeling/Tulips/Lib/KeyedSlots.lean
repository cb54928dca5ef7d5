import Mathlib.Data.List.Basic

/-!
# Slots with keys

A list of slots, each in use under a key or not in use, is a table when no key is
used twice. Overwriting a slot keeps it a table when it is the one of the new
key, or when no slot has that key.
-/

namespace KeyedSlots

variable {E K : Type} (key : E → Option K)

/-- No two slots have the same key. -/
def Unique (t : List E) : Prop :=
  ∀ (i j : Nat) a b k, t[i]? = some a → t[j]? = some b → key a = some k → key b = some k → i = j

variable {key} {t : List E} {a b e : E} {k : K} {i : Nat}

/-- What is in a slot that is not overwritten was there before. -/
theorem getElem?_set_cases {j : Nat} (h : (t.set i e)[j]? = some a) :
    (j = i ∧ a = e) ∨ (j ≠ i ∧ t[j]? = some a) := by
  rw [List.getElem?_set] at h
  split_ifs at h with hij hlt
  · exact .inl ⟨hij.symm, (Option.some_inj.mp h).symm⟩
  · exact .inr ⟨fun hji => hij hji.symm, h⟩

theorem Unique.set (h : Unique key t)
    (honly : ∀ (j : Nat) a k, t[j]? = some a → key a = some k → key e = some k → j = i) :
    Unique key (t.set i e) := by
  intro m n a b k hm hn hak hbk
  rcases getElem?_set_cases hm with ⟨rfl, rfl⟩ | ⟨-, hm'⟩
  · rcases getElem?_set_cases hn with ⟨rfl, -⟩ | ⟨-, hn'⟩
    · rfl
    · exact (honly n b k hn' hbk hak).symm
  · rcases getElem?_set_cases hn with ⟨rfl, rfl⟩ | ⟨-, hn'⟩
    · exact honly m a k hm' hak hbk
    · exact h m n a b k hm' hn' hak hbk

/-- Slots may go out of use. -/
theorem Unique.map (h : Unique key t) {f : E → E}
    (hf : ∀ e k, key (f e) = some k → key e = some k) : Unique key (t.map f) := by
  intro i j a b k hi hj hak hbk
  rw [List.getElem?_map] at hi hj
  obtain ⟨a', hi', rfl⟩ := Option.map_eq_some_iff.mp hi
  obtain ⟨b', hj', rfl⟩ := Option.map_eq_some_iff.mp hj
  exact h i j a' b' k hi' hj' (hf a' k hak) (hf b' k hbk)

end KeyedSlots
