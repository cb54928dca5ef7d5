import Mathlib.Data.List.Basic

/-!
# Byte streams read in pieces

A byte stream between a writer and a reader that does not block. How many bytes a
call finds, or takes, is up to a script: a read that finds none is to be tried
again, any other returns a prefix of what is left, at most as long as it was
asked for. Nothing is lost or reordered, and writes may fail.
-/

/-- The bytes that are written and not yet read, what the next reads find, and
what the next writes take, unless they fail. -/
structure BytePipe where
  content : List UInt8
  reads : List Nat
  writes : List (Option Nat)

namespace BytePipe

/-- What a read returns; `never` is the end of the script. -/
inductive Found
  | never
  | again
  | bytes (data : List UInt8)

/-- The bytes a read returns. -/
def Found.data : Found → List UInt8
  | .bytes data => data
  | .never | .again => []

/-- Read at most `n` bytes. -/
def read (p : BytePipe) (n : Nat) : Found × BytePipe :=
  if n = 0 then (.bytes [], p)
  else match p.reads with
    | [] => (.never, p)
    | k :: reads =>
        match p.content.take (min k n) with
        | [] => (.again, { p with reads := reads })
        | data => (.bytes data, { p with
            content := p.content.drop (min k n)
            reads := reads })

/-- What a write returns. -/
inductive Taken
  | never
  | failed
  | bytes (n : Nat)

/-- Write as many bytes as are taken. -/
def write (p : BytePipe) (data : List UInt8) : Taken × BytePipe :=
  match p.writes with
  | [] => (.never, p)
  | none :: writes => (.failed, { p with writes := writes })
  | some k :: writes =>
      let ret := min k data.length
      (.bytes ret, { p with content := p.content ++ data.take ret, writes := writes })

/-- Read until there is something. -/
def await (n : Nat) : Nat → BytePipe → Found × BytePipe
  | 0, p => (.never, p)
  | fuel + 1, p =>
      match p.read n with
      | (.again, p') => await n fuel p'
      | result => result

variable {p : BytePipe} {n : Nat}

theorem read_zero (p : BytePipe) : p.read 0 = (.bytes [], p) := if_pos rfl

theorem read_end (hn : n ≠ 0) (h : p.reads = []) : p.read n = (.never, p) := by
  rw [read, if_neg hn, h]

/-- A read that finds nothing is to be tried again. -/
theorem read_again {k : Nat} {reads : List Nat} (hn : n ≠ 0) (h : p.reads = k :: reads)
    (hnone : k = 0 ∨ p.content = []) : p.read n = (.again, { p with reads := reads }) := by
  have htake : p.content.take (min k n) = [] := by
    rcases hnone with rfl | hnone
    · rw [Nat.zero_min, List.take_zero]
    · rw [hnone, List.take_nil]
  rw [read, if_neg hn, h]
  simp only [htake]

/-- Any other read returns a prefix of what is left. -/
theorem read_bytes {k : Nat} {reads : List Nat} (hn : n ≠ 0) (h : p.reads = k :: reads)
    (hk : k ≠ 0) (hcontent : p.content ≠ []) : p.read n = (.bytes (p.content.take (min k n)),
      { p with content := p.content.drop (min k n), reads := reads }) := by
  have htake : p.content.take (min k n) ≠ [] := by
    rw [Ne, List.take_eq_nil_iff, not_or]
    exact ⟨by omega, hcontent⟩
  rw [read, if_neg hn, h]
  dsimp only
  cases hdata : p.content.take (min k n) with
  | nil => exact absurd hdata htake
  | cons byte data => rfl

/-- What a read returns is taken from the front of the stream. -/
theorem read_split (p : BytePipe) (n : Nat) :
    (p.read n).1.data ++ (p.read n).2.content = p.content ∧ (p.read n).1.data.length ≤ n := by
  by_cases hn : n = 0
  · rw [hn, read_zero]
    exact ⟨rfl, Nat.le_refl _⟩
  · cases hreads : p.reads with
    | nil =>
        rw [read_end hn hreads]
        exact ⟨rfl, Nat.zero_le _⟩
    | cons k reads =>
        by_cases hnone : k = 0 ∨ p.content = []
        · rw [read_again hn hreads hnone]
          exact ⟨rfl, Nat.zero_le _⟩
        · obtain ⟨hk, hcontent⟩ := not_or.mp hnone
          rw [read_bytes hn hreads hk hcontent]
          refine ⟨List.take_append_drop _ _, ?_⟩
          exact Nat.le_trans (List.length_take_le _ _) (Nat.min_le_right _ _)

theorem await_split (p : BytePipe) (n fuel : Nat) :
    (p.await n fuel).1.data ++ (p.await n fuel).2.content = p.content ∧
      (p.await n fuel).1.data.length ≤ n := by
  induction fuel generalizing p with
  | zero => exact ⟨rfl, Nat.zero_le _⟩
  | succ fuel ih =>
      have hread := p.read_split n
      rw [await]
      split
      · rename_i p' hagain
        rw [hagain] at hread
        have hsame : p'.content = p.content := hread.1
        rw [← hsame]
        exact ih p'
      · exact hread

/-- Waiting for bytes of a stream that is not empty ends with the first read that
finds some, or with the script. -/
theorem await_cases {fuel : Nat} (hn : n ≠ 0) (hcontent : p.content ≠ [])
    (hfuel : p.reads.length < fuel) :
    ((∀ k ∈ p.reads, k = 0) ∧ p.await n fuel = (.never, { p with reads := [] })) ∨
      ∃ z k reads, p.reads = List.replicate z 0 ++ k :: reads ∧ k ≠ 0 ∧
        p.await n fuel = (.bytes (p.content.take (min k n)),
          { p with content := p.content.drop (min k n), reads := reads }) := by
  induction fuel generalizing p with
  | zero => exact absurd hfuel (Nat.not_lt_zero _)
  | succ fuel ih =>
      cases hreads : p.reads with
      | nil =>
          have hawait : p.await n (fuel + 1) = (.never, p) := by
            rw [await, read_end hn hreads]
          rw [hawait, ← hreads]
          exact .inl ⟨by simp [hreads], rfl⟩
      | cons k reads =>
          by_cases hk : k = 0
          · have hawait : p.await n (fuel + 1) = await n fuel { p with reads := reads } := by
              rw [await, read_again hn hreads (.inl hk)]
            have hfuel' : reads.length < fuel := by
              rw [hreads, List.length_cons] at hfuel
              omega
            rw [hawait]
            rcases ih (p := { p with reads := reads }) hcontent hfuel' with
              ⟨hzero, hnever⟩ | ⟨z, j, rest, hsplit, hj, hdata⟩
            · refine .inl ⟨?_, hnever⟩
              rintro x (_ | ⟨_, hx⟩)
              · exact hk
              · exact hzero x hx
            · refine .inr ⟨z + 1, j, rest, ?_, hj, hdata⟩
              rw [List.replicate_succ, List.cons_append, ← hsplit, hk]
          · refine .inr ⟨0, k, reads, rfl, hk, ?_⟩
            rw [await, read_bytes hn hreads hk hcontent]

end BytePipe
