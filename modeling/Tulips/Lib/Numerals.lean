import Mathlib.Tactic.Common

/-!
# Numerals

Numbers written with the digits of a base up to 16, the most significant first, and
a reader that takes as many digits as there are.
-/

namespace Numerals

/-- The value of a digit. -/
def digit? (base : Nat) (c : Char) : Option Nat :=
  let v :=
    if '0' ≤ c ∧ c ≤ '9' then c.toNat - '0'.toNat
    else if 'a' ≤ c ∧ c ≤ 'f' then c.toNat - 'a'.toNat + 10
    else if 'A' ≤ c ∧ c ≤ 'F' then c.toNat - 'A'.toNat + 10
    else base
  if v < base then some v else none

/-- The number that digits stand for. -/
def value (base : Nat) (ds : List Nat) : Nat := ds.foldl (fun n d => base * n + d) 0

/-- The number a text spells, if it consists of digits and there are any. -/
def numeral? (base : Nat) (s : List Char) : Option Nat :=
  if s = [] then none else (s.mapM (digit? base)).map (value base)

/-- Read digits, as long as there are any, behind a number already read. -/
def scan (base : Nat) : List Char → Nat → Nat
  | [], n => n
  | c :: s, n =>
      match digit? base c with
      | none => n
      | some d => scan base s (base * n + d)

variable {base : Nat} {s : List Char} {n : Nat}

/-- Digits are read to the end. -/
theorem scan_of_digits {ds : List Nat} (h : s.mapM (digit? base) = some ds) (n : Nat) :
    scan base s n = ds.foldl (fun n d => base * n + d) n := by
  induction s generalizing ds n with
  | nil =>
      cases h
      rfl
  | cons c s ih =>
      rw [List.mapM_cons] at h
      obtain ⟨d, hd, h⟩ := Option.bind_eq_some_iff.mp h
      obtain ⟨ds', hds, h⟩ := Option.bind_eq_some_iff.mp h
      cases h
      rw [scan, hd, List.foldl_cons]
      exact ih hds _

theorem scan_of_numeral (h : numeral? base s = some n) : scan base s 0 = n := by
  unfold numeral? at h
  split at h
  · cases h
  · obtain ⟨ds, hds, rfl⟩ := Option.map_eq_some_iff.mp h
    exact scan_of_digits hds 0

theorem ne_nil_of_numeral (h : numeral? base s = some n) : s ≠ [] := by
  rintro rfl
  cases h

/-- A numeral has nothing but digits. -/
theorem digits_of_numeral (h : numeral? base s = some n) :
    ∀ c ∈ s, (digit? base c).isSome = true := by
  unfold numeral? at h
  split at h
  · cases h
  · obtain ⟨ds, hds, -⟩ := Option.map_eq_some_iff.mp h
    clear h
    induction s generalizing ds with
    | nil => simp
    | cons c s ih =>
        rw [List.mapM_cons] at hds
        obtain ⟨d, hd, hrest⟩ := Option.bind_eq_some_iff.mp hds
        obtain ⟨ds', hds', -⟩ := Option.bind_eq_some_iff.mp hrest
        intro c' hc'
        rcases List.mem_cons.mp hc' with rfl | hc'
        · simp [hd]
        · by_cases hs : s = []
          · rw [hs] at hc'
            cases hc'
          · exact ih hs ds' hds' c' hc'

end Numerals
