import Tulips.Lib.Counter
import Mathlib.Logic.Function.Basic

/-!
# The lock-free FIFO

A FIFO of `depth` slots with counters for what has been prepared, written and
read. The counters only ever go up; the remainder by the depth is the slot.
-/

namespace Tulips

structure Fifo (α : Type) where
  depth : UInt64
  prepareCount : UInt64
  writeCount : UInt64
  readCount : UInt64
  slots : Nat → α

namespace Fifo

inductive Error
  | ok
  | alreadyAllocated
  | invalidDepth
  | invalidDataLen
  | mallocFailed
  | empty
  | full
  | noSpaceLeft
  | noPendingPush
  deriving DecidableEq

variable {α : Type}

/-- A new FIFO, its slots cleared. -/
def create (depth : UInt64) (cleared : α) : Fifo α := ⟨depth, 0, 0, 0, fun _ => cleared⟩

def empty (f : Fifo α) : Bool := f.readCount == f.writeCount

def full (f : Fifo α) : Bool := f.writeCount - f.readCount == f.depth

def mustPrepare (f : Fifo α) : Bool := f.prepareCount == f.writeCount

def mustCommit (f : Fifo α) : Bool := f.prepareCount - f.readCount == f.depth

/-- The slot a counter stands for. -/
def index (f : Fifo α) (count : UInt64) : Nat := (count % f.depth).toNat

/-- The slot to be read next. -/
def front (f : Fifo α) : Error × Option Nat :=
  if f.empty then (.empty, none) else (.ok, some (f.index f.readCount))

def push (f : Fifo α) (data : α) : Error × Fifo α :=
  if f.full then (.full, f)
  else (.ok, { f with
    slots := Function.update f.slots (f.index f.writeCount) data
    writeCount := f.writeCount + 1 })

def pop (f : Fifo α) : Error × Fifo α :=
  if f.empty then (.empty, f) else (.ok, { f with readCount := f.readCount + 1 })

/-- Reserve the next slot; its pointer is only set when there is one. -/
def prepare (f : Fifo α) : Error × Option Nat × Fifo α :=
  if f.mustCommit then (.noSpaceLeft, none, f)
  else (.ok, some (f.index f.prepareCount), { f with prepareCount := f.prepareCount + 1 })

def commit (f : Fifo α) : Error × Fifo α :=
  if f.mustPrepare then (.noPendingPush, f)
  else (.ok, { f with writeCount := f.writeCount + 1 })

/-! ## Counts -/

section Counts

variable {f : Fifo α} {r w p : Nat}

theorem empty_iff (hr : f.readCount = .ofNat r) (hw : f.writeCount = .ofNat w) (hle : r ≤ w)
    (hroom : w ≤ r + f.depth.toNat) : f.empty = true ↔ r = w := by
  rw [empty, hr, hw, beq_iff_eq]
  exact Counter.ofNat_inj hle hroom

theorem full_iff (hr : f.readCount = .ofNat r) (hw : f.writeCount = .ofNat w) (hle : r ≤ w)
    (hroom : w ≤ r + f.depth.toNat) : f.full = true ↔ w = r + f.depth.toNat := by
  rw [full, hr, hw]
  exact Counter.sub_beq hle hroom

theorem mustPrepare_iff (hw : f.writeCount = .ofNat w) (hp : f.prepareCount = .ofNat p)
    (hle : w ≤ p) (hroom : p ≤ w + f.depth.toNat) : f.mustPrepare = true ↔ p = w := by
  rw [mustPrepare, hw, hp, beq_iff_eq, eq_comm, Counter.ofNat_inj hle hroom, eq_comm]

theorem mustCommit_iff (hr : f.readCount = .ofNat r) (hp : f.prepareCount = .ofNat p)
    (hle : r ≤ p) (hroom : p ≤ r + f.depth.toNat) :
    f.mustCommit = true ↔ p = r + f.depth.toNat := by
  rw [mustCommit, hr, hp]
  exact Counter.sub_beq hle hroom

@[simp] theorem depth_prepare : f.prepare.2.2.depth = f.depth := by
  unfold prepare
  split <;> rfl

@[simp] theorem depth_commit : f.commit.2.depth = f.depth := by
  unfold commit
  split <;> rfl

@[simp] theorem depth_pop : f.pop.2.depth = f.depth := by
  unfold pop
  split <;> rfl

/-- A FIFO has counted `r` elements read, `w` written and `p` prepared. -/
structure Counted (f : Fifo α) (r w p : Nat) : Prop where
  readCount : f.readCount = UInt64.ofNat r
  writeCount : f.writeCount = UInt64.ofNat w
  prepareCount : f.prepareCount = UInt64.ofNat p
  written : r ≤ w
  prepared : w ≤ p
  room : p ≤ r + f.depth.toNat

namespace Counted

theorem create (depth : UInt64) (cleared : α) : (Fifo.create depth cleared).Counted 0 0 0 :=
  ⟨rfl, rfl, rfl, Nat.le_refl 0, Nat.le_refl 0, Nat.zero_le _⟩

theorem empty_iff (h : f.Counted r w p) : f.empty = true ↔ r = w :=
  Fifo.empty_iff h.readCount h.writeCount h.written (h.prepared.trans h.room)

theorem mustCommit_iff (h : f.Counted r w p) : f.mustCommit = true ↔ p = r + f.depth.toNat :=
  Fifo.mustCommit_iff h.readCount h.prepareCount (h.written.trans h.prepared) h.room

theorem mustPrepare_iff (h : f.Counted r w p) : f.mustPrepare = true ↔ p = w := by
  have hroom : p ≤ w + f.depth.toNat := by
    have := h.room
    have := h.written
    omega
  exact Fifo.mustPrepare_iff h.writeCount h.prepareCount h.prepared hroom

/-- The slots are of no account. -/
theorem withSlots (h : f.Counted r w p) (slots : Nat → α) :
    Counted { f with slots := slots } r w p :=
  ⟨h.readCount, h.writeCount, h.prepareCount, h.written, h.prepared, h.room⟩

theorem prepare (h : f.Counted r w p) :
    f.mustCommit = false ∧ f.prepare.2.2.Counted r w (p + 1) ∨
      f.mustCommit = true ∧ f.prepare.2.2 = f := by
  by_cases hfull : f.mustCommit = true
  · exact .inr ⟨hfull, by simp [Fifo.prepare, hfull]⟩
  · have hroom : p ≠ r + f.depth.toNat := fun heq => hfull (h.mustCommit_iff.mpr heq)
    have := h.room
    have := h.prepared
    refine .inl ⟨by simpa using hfull, ?_⟩
    have heq : f.prepare.2.2 = { f with prepareCount := f.prepareCount + 1 } := by
      simp [Fifo.prepare, hfull]
    rw [heq]
    refine ⟨h.readCount, h.writeCount, ?_, h.written, by omega, ?_⟩
    · rw [h.prepareCount, UInt64.ofNat_add]
      rfl
    · show p + 1 ≤ r + f.depth.toNat
      omega

theorem commit (h : f.Counted r w p) :
    w < p ∧ f.commit.1 = .ok ∧ f.commit.2.Counted r (w + 1) p ∨
      w = p ∧ f.commit = (.noPendingPush, f) := by
  by_cases hnone : f.mustPrepare = true
  · exact .inr ⟨(h.mustPrepare_iff.mp hnone).symm, by simp [Fifo.commit, hnone]⟩
  · have hne : p ≠ w := fun heq => hnone (h.mustPrepare_iff.mpr heq)
    have := h.prepared
    have heq : f.commit = (.ok, { f with writeCount := f.writeCount + 1 }) := by
      simp [Fifo.commit, hnone]
    have := h.written
    refine .inl ⟨by omega, by rw [heq], ?_⟩
    rw [heq]
    refine ⟨h.readCount, ?_, h.prepareCount, by omega, by omega, h.room⟩
    rw [h.writeCount, UInt64.ofNat_add]
    rfl

theorem pop (h : f.Counted r w p) (hne : f.empty = false) : f.pop.2.Counted (r + 1) w p := by
  have hlt : r ≠ w := by
    intro heq
    rw [h.empty_iff.mpr heq] at hne
    cases hne
  have := h.written
  have := h.room
  have heq : f.pop.2 = { f with readCount := f.readCount + 1 } := by
    simp [Fifo.pop, hne]
  rw [heq]
  refine ⟨?_, h.writeCount, h.prepareCount, by omega, h.prepared, ?_⟩
  · rw [h.readCount, UInt64.ofNat_add]
    rfl
  · show p ≤ r + 1 + f.depth.toNat
    omega

end Counted

end Counts

end Fifo

end Tulips
