import Mathlib.Data.List.Basic

/-!
# Ledgers

A ledger records, newest entry first, who takes a resource, drops it or passes
it on. It tells who holds what; when a resource is only ever taken while nobody
holds it, and passed on by a party that does, it has one holder at most.
-/

namespace Ledger

variable {ω β : Type}

inductive Entry (ω β : Type)
  | take (who : ω) (b : β)
  | drop (who : ω) (b : β)
  | pass (who whom : ω) (b : β)

/-- A party holds a resource. -/
def Holds (who : ω) (b : β) : List (Entry ω β) → Prop
  | [] => False
  | .take a x :: l => a = who ∧ x = b ∨ Holds who b l
  | .drop a x :: l => ¬(a = who ∧ x = b) ∧ Holds who b l
  | .pass a c x :: l => c = who ∧ x = b ∨ ¬(a = who ∧ x = b) ∧ Holds who b l

/-- The entry changes what a party holds. -/
def Entry.Involves (who : ω) : Entry ω β → Prop
  | .take a _ | .drop a _ => a = who
  | .pass a c _ => a = who ∨ c = who

def Entry.resource : Entry ω β → β
  | .take _ b | .drop _ b | .pass _ _ b => b

/-- Free resources are taken, held ones are passed on. -/
def Exclusive : List (Entry ω β) → Prop
  | [] => True
  | .take _ x :: l => (∀ who, ¬Holds who x l) ∧ Exclusive l
  | .drop _ _ :: l => Exclusive l
  | .pass a _ x :: l => Holds a x l ∧ Exclusive l

variable {who whom : ω} {b : β} {e : Entry ω β} {l new : List (Entry ω β)}

theorem holds_cons_of_not_involves (h : ¬e.Involves who) :
    Holds who b (e :: l) ↔ Holds who b l := by
  cases e with
  | take a x => exact ⟨fun hb => hb.resolve_left fun hax => h hax.1, .inr⟩
  | drop a x => exact ⟨And.right, fun hb => ⟨fun hax => h hax.1, hb⟩⟩
  | pass a c x =>
      constructor
      · rintro (hcx | hb)
        · exact absurd (.inr hcx.1) h
        · exact hb.2
      · exact fun hb => .inr ⟨fun hax => h (.inl hax.1), hb⟩

/-- What a party holds does not depend on the entries of others. -/
theorem holds_append_of_not_involves (h : ∀ e ∈ new, ¬e.Involves who) :
    Holds who b (new ++ l) ↔ Holds who b l := by
  induction new with
  | nil => rfl
  | cons e new ih =>
      rw [List.cons_append, holds_cons_of_not_involves (h e List.mem_cons_self)]
      exact ih fun e he => h e (List.mem_cons_of_mem _ he)

theorem Holds.entered (h : Holds who b l) : b ∈ l.map Entry.resource := by
  induction l with
  | nil => exact h.elim
  | cons e l ih =>
      cases e with
      | take a x =>
          rcases h with ⟨-, hx⟩ | h
          · exact hx ▸ List.mem_cons_self
          · exact List.mem_cons_of_mem _ (ih h)
      | drop a x => exact List.mem_cons_of_mem _ (ih h.2)
      | pass a c x =>
          rcases h with ⟨-, hx⟩ | h
          · exact hx ▸ List.mem_cons_self
          · exact List.mem_cons_of_mem _ (ih h.2)

/-- A resource has one holder at most. -/
theorem Exclusive.unique (h : Exclusive l) (hwho : Holds who b l) (hwhom : Holds whom b l) :
    who = whom := by
  induction l generalizing who whom with
  | nil => exact hwho.elim
  | cons e l ih =>
      cases e with
      | take a x =>
          obtain ⟨hfree, h⟩ := h
          rcases hwho with ⟨hwho, hx⟩ | hwho <;> rcases hwhom with ⟨hwhom, hx'⟩ | hwhom
          · exact hwho.symm.trans hwhom
          · exact absurd (hx ▸ hwhom) (hfree _)
          · exact absurd (hx' ▸ hwho) (hfree _)
          · exact ih h hwho hwhom
      | drop a x => exact ih h hwho.2 hwhom.2
      | pass a c x =>
          obtain ⟨hheld, h⟩ := h
          rcases hwho with ⟨hwho, hx⟩ | ⟨hnot, hwho⟩ <;>
            rcases hwhom with ⟨hwhom, hx'⟩ | ⟨hnot', hwhom⟩
          · exact hwho.symm.trans hwhom
          · exact absurd ⟨ih h (hx ▸ hheld) hwhom, hx⟩ hnot'
          · exact absurd ⟨ih h (hx' ▸ hheld) hwho, hx'⟩ hnot
          · exact ih h hwho hwhom

/-! ## Computing the holders -/

section Holders

variable [DecidableEq ω] [DecidableEq β]

/-- Those who hold a resource. -/
def holders (b : β) : List (Entry ω β) → List ω
  | [] => []
  | .take a x :: l => if x = b then a :: holders b l else holders b l
  | .drop a x :: l => if x = b then (holders b l).filter (· ≠ a) else holders b l
  | .pass a c x :: l => if x = b then c :: (holders b l).filter (· ≠ a) else holders b l

theorem mem_holders : who ∈ holders b l ↔ Holds who b l := by
  induction l with
  | nil => simp [holders, Holds]
  | cons e l ih =>
      cases e with
      | take a x =>
          by_cases hx : x = b
          · subst hx
            simp [holders, Holds, ih, eq_comm]
          · simp [holders, Holds, hx, ih]
      | drop a x =>
          by_cases hx : x = b
          · subst hx
            simp [holders, Holds, ih, eq_comm (a := who), and_comm (a := Holds who x l)]
          · simp [holders, Holds, hx, ih]
      | pass a c x =>
          by_cases hx : x = b
          · subst hx
            simp [holders, Holds, ih, eq_comm (a := who), and_comm (a := Holds who x l)]
          · simp [holders, Holds, hx, ih]

instance : Decidable (Holds who b l) := decidable_of_iff _ mem_holders

theorem holders_eq_nil : holders b l = [] ↔ ∀ who, ¬Holds (ω := ω) who b l := by
  simp [List.eq_nil_iff_forall_not_mem, mem_holders]

/-- Whether a party holds anything can be computed: only what has been entered can
be held. -/
instance : Decidable (∀ b, ¬Holds who b l) :=
  decidable_of_iff (∀ b ∈ l.map Entry.resource, ¬Holds who b l)
    ⟨fun h b hb => h b hb.entered hb, fun h b _ => h b⟩

end Holders

end Ledger
