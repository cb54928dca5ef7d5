import Mathlib.Data.List.Basic
import Mathlib.Tactic.Common

/-!
# Resources handed out in turn

A stock of resources is handed out from its front, and what is returned goes to
its end. The line of a history is the stock followed by all that was returned;
its places are handed out one after the other, each once. Histories list what
has happened newest first.
-/

namespace Turns

variable {β : Type}

inductive Turn (β : Type)
  /-- A resource is handed out. -/
  | take (b : β)
  /-- A resource is returned. -/
  | give (b : β)
  deriving DecidableEq

/-- How many resources have been handed out. -/
def takes : List (Turn β) → Nat
  | [] => 0
  | .take _ :: h => takes h + 1
  | .give _ :: h => takes h

/-- What has been returned, in order. -/
def given : List (Turn β) → List β
  | [] => []
  | .take _ :: h => given h
  | .give b :: h => given h ++ [b]

def line (stock : List β) (h : List (Turn β)) : List β := stock ++ given h

/-- The part of the line that has not been handed out. -/
def rest (stock : List β) (h : List (Turn β)) : List β := (line stock h).drop (takes h)

/-- Whatever was handed out was next in the line. -/
def InTurn (stock : List β) : List (Turn β) → Prop
  | [] => True
  | .take b :: h => (line stock h)[takes h]? = some b ∧ InTurn stock h
  | .give _ :: h => InTurn stock h

/-- No more is ever returned than was handed out. -/
def Balanced : List (Turn β) → Prop
  | [] => True
  | .take _ :: h => Balanced h
  | .give _ :: h => (given h).length < takes h ∧ Balanced h

instance Balanced.decide : (h : List (Turn β)) → Decidable (Balanced h)
  | [] => .isTrue trivial
  | .take _ :: h => Balanced.decide h
  | .give _ :: h =>
      have := Balanced.decide h
      inferInstanceAs (Decidable ((given h).length < takes h ∧ Balanced h))

variable {stock : List β} {h g : List (Turn β)} {b : β} {k : Nat}

@[simp] theorem takes_append : takes (g ++ h) = takes g + takes h := by
  induction g with
  | nil => simp [takes]
  | cons t g ih =>
      cases t with
      | take b => simp only [List.cons_append, takes, ih]; omega
      | give b => exact ih

/-- Handing out the front of the rest is in turn. -/
theorem InTurn.take {r : List β} (hturn : InTurn stock h) (hrest : rest stock h = b :: r) :
    InTurn stock (.take b :: h) ∧ rest stock (.take b :: h) = r := by
  have hdrop : (line stock h).drop (takes h) = b :: r := hrest
  have hfront : (line stock h)[takes h]? = some b := by
    have hzero : ((line stock h).drop (takes h))[0]? = some b := by rw [hdrop]; rfl
    rwa [List.getElem?_drop, Nat.add_zero] at hzero
  refine ⟨⟨hfront, hturn⟩, ?_⟩
  show (line stock h).drop (takes h + 1) = r
  rw [← List.drop_drop, hdrop]
  rfl

theorem Balanced.suffix (hbal : Balanced (g ++ h)) : Balanced h := by
  induction g with
  | nil => exact hbal
  | cons t g ih =>
      cases t with
      | take b => exact ih hbal
      | give b => exact ih hbal.2

end Turns
