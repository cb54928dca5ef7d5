import Mathlib.Data.List.Infix
import Mathlib.Data.Nat.ModEq
import Mathlib.Tactic.Common

/-!
# Streams in pieces

A stream goes out in pieces, each some consecutive elements from an offset on. A
receiver that only takes the piece at its own position ends up with a beginning of the
stream, however the pieces are lost, repeated and put out of order on the way. Offsets
may be known modulo the size of a number space, as long as no piece is a whole space
away from the receiver.
-/

namespace Pieces

variable {α : Type} {stream got body : List α} {off : Nat}

/-- The elements stand in the stream, from an offset on. -/
def At (stream : List α) (off : Nat) (body : List α) : Prop := body <+: stream.drop off

/-- A piece at the end of a beginning continues it. -/
theorem At.continues (hgot : got <+: stream) (h : At stream got.length body) :
    got ++ body <+: stream := by
  obtain ⟨rest, rfl⟩ := hgot
  rw [At, List.drop_left] at h
  exact List.prefix_append_right_inj got |>.mpr h

/-- Two offsets that agree modulo a space, less than the space apart. -/
theorem offset_eq {space a b : Nat} (h : a % space = b % space) (hab : a < b + space)
    (hba : b < a + space) : a = b := by
  wlog hle : a ≤ b generalizing a b
  · exact (this h.symm hba hab (Nat.le_of_not_le hle)).symm
  obtain ⟨k, rfl⟩ := Nat.exists_eq_add_of_le hle
  have hk : k % space = 0 := by
    have hmod : (a + k) ≡ a + 0 [MOD space] := h.symm
    exact Nat.ModEq.add_left_cancel' a hmod
  rw [Nat.mod_eq_of_lt (by omega)] at hk
  rw [hk, Nat.add_zero]

end Pieces
