import Mathlib.Data.List.Basic

/-!
# Histories

A history lists what has happened, newest first. A condition on an event and on
what came before it may hold all along a history.
-/

namespace History

variable {α : Type} {P Q : List α → α → Prop} {g log : List α}

/-- Every event meets the condition, given what came before it. -/
def Always (P : List α → α → Prop) : List α → Prop
  | [] => True
  | ev :: log => P log ev ∧ Always P log

theorem Always.suffix (h : Always P (g ++ log)) : Always P log := by
  induction g with
  | nil => exact h
  | cons ev g ih => exact ih h.2

theorem Always.at {ev : α} (h : Always P (g ++ ev :: log)) : P log ev :=
  (Always.suffix h).1

/-- New events that meet the condition whatever came before them. -/
theorem Always.append (hnew : ∀ ev ∈ g, ∀ log, P log ev) (h : Always P log) :
    Always P (g ++ log) := by
  induction g with
  | nil => exact h
  | cons ev g ih =>
      exact ⟨hnew ev List.mem_cons_self _, ih fun ev hev => hnew ev (List.mem_cons_of_mem _ hev)⟩

/-- Whether a condition holds all along can be computed. -/
instance Always.decide [∀ log ev, Decidable (P log ev)] : DecidablePred (Always P)
  | [] => isTrue trivial
  | ev :: log =>
      have := Always.decide log
      inferInstanceAs (Decidable (P log ev ∧ Always P log))

end History
