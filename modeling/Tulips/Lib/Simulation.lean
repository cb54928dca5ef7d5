/-!
# Runs of a specification

A specification says which operations a component may be given and what it may
answer. Components are run on a list of operations; a relation between their
states and those of the specification that every operation preserves makes each
of their runs one of the specification.
-/

namespace Simulation

/-- What may be asked in a state, and what may be answered and come next. -/
structure Spec (A Op Out : Type) where
  Allows : A → Op → Prop
  Step : A → Op → Out → A → Prop

namespace Spec

variable {A C Op Out : Type} (spec : Spec A Op Out) (exec : C → Op → Out × C)

/-- As long as the operations are allowed, the answers of the component are
answers of the specification. -/
def Admits : C → A → List Op → Prop
  | _, _, [] => True
  | c, a, op :: ops => spec.Allows a op →
      ∃ a', spec.Step a op (exec c op).1 a' ∧ Admits (exec c op).2 a' ops

variable {spec exec} {R : C → A → Prop}

/-- A relation preserved by every allowed operation is preserved in runs. -/
theorem admits_of_simulation (hstep : ∀ c a op, R c a → spec.Allows a op →
      ∃ a', spec.Step a op (exec c op).1 a' ∧ R (exec c op).2 a')
    {c : C} {a : A} (h : R c a) (ops : List Op) : spec.Admits exec c a ops := by
  induction ops generalizing c a with
  | nil => trivial
  | cons op ops ih =>
      intro hallows
      obtain ⟨a', hanswer, hnext⟩ := hstep c a op h hallows
      exact ⟨a', hanswer, ih hnext⟩

end Spec

end Simulation
