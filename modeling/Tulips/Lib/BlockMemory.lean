import Mathlib.Data.List.Range
import Mathlib.Tactic.Common

/-!
# Memory made of numbered blocks

A memory is a family of blocks, each an unbounded run of bytes. Writes are
described by what they leave alone, so that a caller who knows the range a
routine writes to can carry everything else across it.
-/

/-- The byte at each offset of each numbered block. -/
abbrev BlockMemory := Nat → Nat → UInt8

namespace BlockMemory

variable {m m₁ m₂ m₃ : BlockMemory} {b b' : Nat} {off lo hi i n k : Nat} {bytes : List UInt8}

/-- The bytes of a block from an offset on. -/
def bytesFrom (m : BlockMemory) (b off : Nat) : Nat → UInt8 := fun i => m b (off + i)

/-- The `n` bytes of a block at an offset. -/
def read (m : BlockMemory) (b off n : Nat) : List UInt8 :=
  (List.range n).map fun i => m b (off + i)

/-- Replace the bytes of a block at an offset. -/
def write (m : BlockMemory) (b off : Nat) (bytes : List UInt8) : BlockMemory := fun b' i =>
  if b' = b ∧ off ≤ i ∧ i < off + bytes.length then bytes.getD (i - off) 0 else m b' i

/-- Replace the whole content of a block. -/
def fill (m : BlockMemory) (b : Nat) (content : Nat → UInt8) : BlockMemory := fun b' i =>
  if b' = b then content i else m b' i

/-- Two memories agree except on the offsets `lo ≤ i < hi` of block `b`. -/
def SameOutside (b lo hi : Nat) (m₁ m₂ : BlockMemory) : Prop :=
  ∀ b' i, (b' = b → i < lo ∨ hi ≤ i) → m₂ b' i = m₁ b' i

/-- Two memories agree except on block `b`. -/
def SameOff (b : Nat) (m₁ m₂ : BlockMemory) : Prop :=
  ∀ b' i, b' ≠ b → m₂ b' i = m₁ b' i

@[simp] theorem length_read : (m.read b off n).length = n := by
  simp [read]

@[simp] theorem read_zero : m.read b off 0 = [] := rfl

theorem getElem?_read (h : i < n) : (m.read b off n)[i]? = some (m b (off + i)) := by
  simp [read, h]

theorem read_congr (h : ∀ i < n, m₂ b (off + i) = m₁ b (off + i)) :
    m₂.read b off n = m₁.read b off n :=
  List.map_congr_left fun i hi => h i (List.mem_range.mp hi)

/-- Reads that agree, agree byte by byte. -/
theorem apply_of_read_eq {off' : Nat} (h : m₁.read b off n = m₂.read b' off' n) (hi : i < n) :
    m₁ b (off + i) = m₂ b' (off' + i) := by
  have hat := congrArg (fun l => l[i]?) h
  simpa only [getElem?_read hi, Option.some_inj] using hat

theorem read_add : m.read b off (n + k) = m.read b off n ++ m.read b (off + n) k := by
  simp [read, List.range_add, Function.comp_def, Nat.add_assoc]

theorem drop_read (h : k ≤ n) : (m.read b off n).drop k = m.read b (off + k) (n - k) := by
  obtain ⟨d, rfl⟩ := Nat.exists_eq_add_of_le h
  simp [read_add]

theorem write_apply_of_lt (h : i < bytes.length) :
    m.write b off bytes b (off + i) = bytes.getD i 0 := by
  simp [write, h]

/-- Reading back what was just written. -/
@[simp] theorem read_write : (m.write b off bytes).read b off bytes.length = bytes := by
  apply List.ext_getElem?
  intro i
  by_cases hi : i < bytes.length
  · rw [getElem?_read hi, write_apply_of_lt hi, List.getD_eq_getElem?_getD,
      List.getElem?_eq_getElem hi]
    rfl
  · rw [List.getElem?_eq_none (by simpa using hi), List.getElem?_eq_none (by simpa using hi)]

theorem write_sameOutside : SameOutside b off (off + bytes.length) m (m.write b off bytes) := by
  intro b' i hout
  unfold write
  rw [if_neg]
  rintro ⟨rfl, hlo, hhi⟩
  have := hout rfl
  omega

theorem fill_sameOff {content : Nat → UInt8} : SameOff b m (m.fill b content) := by
  intro b' i hne
  simp [fill, hne]

namespace SameOutside

theorem refl : SameOutside b lo hi m m := fun _ _ _ => rfl

theorem trans (h₁ : SameOutside b lo hi m₁ m₂) (h₂ : SameOutside b lo hi m₂ m₃) :
    SameOutside b lo hi m₁ m₃ := fun b' i h => (h₂ b' i h).trans (h₁ b' i h)

theorem mono {lo' hi' : Nat} (h : SameOutside b lo hi m₁ m₂) (hlo : lo' ≤ lo) (hhi : hi ≤ hi') :
    SameOutside b lo' hi' m₁ m₂ :=
  fun b' i hout => h b' i fun hb => by have := hout hb; omega

theorem sameOff (h : SameOutside b lo hi m₁ m₂) : SameOff b m₁ m₂ :=
  fun b' i hne => h b' i fun hb => absurd hb hne

/-- A read outside the range sees the old bytes. -/
theorem read_eq (h : SameOutside b lo hi m₁ m₂) (hout : b' = b → off + n ≤ lo ∨ hi ≤ off) :
    m₂.read b' off n = m₁.read b' off n :=
  read_congr fun i hi' => h b' (off + i) fun hb => by have := hout hb; omega

end SameOutside

namespace SameOff

theorem trans (h₁ : SameOff b m₁ m₂) (h₂ : SameOff b m₂ m₃) : SameOff b m₁ m₃ :=
  fun b' i h => (h₂ b' i h).trans (h₁ b' i h)

end SameOff

end BlockMemory
