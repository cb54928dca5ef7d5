import Tulips.Fifo
import Tulips.System.ByteOrder
import Mathlib.Data.List.Range

/-!
# The FIFO in memory

The slots of the FIFO follow its header in one block of memory, `data_len` bytes
each. A pointer to a slot is its offset from the first one.
-/

namespace Tulips.Fifo

/-- The elements are copied with `memcpy`. -/
def memcpy (data : Bytes) (result : Nat) (src : Bytes) (len : Nat) : Bytes := fun i =>
  if result ≤ i ∧ i < result + len then src (i - result) else data i

/-- The `len` bytes at an address. -/
def bytesAt (data : Bytes) (len addr : Nat) : List UInt8 :=
  (List.range len).map fun i => data (addr + i)

section Bytes

variable {data other : Bytes} {n k : Nat}

theorem memcpy_of_outside (data src : Bytes) {addr i : Nat} (h : i < addr ∨ addr + n ≤ i) :
    memcpy data addr src n i = data i :=
  if_neg (by omega)

theorem bytesAt_memcpy (data src : Bytes) (n addr : Nat) :
    bytesAt (memcpy data addr src n) n addr = bytesAt src n 0 := by
  refine List.map_congr_left fun j hj => ?_
  have hj' := List.mem_range.mp hj
  rw [memcpy, if_pos ⟨Nat.le_add_right _ _, by omega⟩, Nat.add_sub_cancel_left, Nat.zero_add]

theorem bytesAt_set (data : Bytes) (addr : Nat) {j : Nat} (hj : j < n) (byte : UInt8) :
    bytesAt (Function.update data (addr + j) byte) n addr = (bytesAt data n addr).set j byte := by
  apply List.ext_getElem?
  intro i
  simp only [bytesAt, List.getElem?_set, List.getElem?_map, List.length_map, List.length_range]
  by_cases hij : j = i
  · subst hij
    simp [hj]
  · by_cases hi : i < n
    · have hne : addr + i ≠ addr + j := by omega
      simp [hij, hi, Function.update_of_ne hne]
    · simp [hij, hi]

/-- What changes the bytes of one slot of `n` bytes only changes that slot. -/
theorem bytesAt_update (h : ∀ i, i < k * n ∨ k * n + n ≤ i → other i = data i) :
    (fun i => bytesAt other n (i * n)) =
      Function.update (fun i => bytesAt data n (i * n)) k (bytesAt other n (k * n)) := by
  funext i
  by_cases hik : i = k
  · subst hik
    rw [Function.update_self]
  · rw [Function.update_of_ne hik]
    refine List.map_congr_left fun j hj => h _ ?_
    have hj' := List.mem_range.mp hj
    rcases Nat.lt_or_gt_of_ne hik with hlt | hgt
    · have := Nat.mul_le_mul_right n (Nat.succ_le_of_lt hlt)
      rw [Nat.succ_mul] at this
      exact .inl (by omega)
    · have := Nat.mul_le_mul_right n (Nat.succ_le_of_lt hgt)
      rw [Nat.succ_mul] at this
      exact .inr (by omega)

end Bytes

structure Block where
  depth : UInt64
  dataLen : UInt64
  prepareCount : UInt64
  writeCount : UInt64
  readCount : UInt64
  data : Bytes

namespace Block

/-- The size of the header. -/
def headerLen : UInt64 := 40

/-- A new block, cleared, when there is memory for it. -/
def create (malloc : UInt64 → Bool) (depth dlen : UInt64) (res : Option Block) :
    Error × Option Block :=
  if depth = 0 then (.invalidDepth, res)
  else if dlen = 0 then (.invalidDataLen, res)
  else if res.isSome then (.alreadyAllocated, res)
  else
    let payload := depth * dlen + headerLen
    if malloc payload then (.ok, some ⟨depth, dlen, 0, 0, 0, fun _ => 0⟩)
    else (.mallocFailed, res)

def empty (b : Block) : Bool := b.readCount == b.writeCount

def full (b : Block) : Bool := b.writeCount - b.readCount == b.depth

def mustPrepare (b : Block) : Bool := b.prepareCount == b.writeCount

def mustCommit (b : Block) : Bool := b.prepareCount - b.readCount == b.depth

def front (b : Block) : Error × Option Nat :=
  if b.empty then (.empty, none)
  else
    let index := b.readCount % b.depth
    (.ok, some (index * b.dataLen).toNat)

def push (b : Block) (data : Bytes) : Error × Block :=
  if b.full then (.full, b)
  else
    let index := b.writeCount % b.depth
    let result := (index * b.dataLen).toNat
    (.ok, { b with
      data := memcpy b.data result data b.dataLen.toNat
      writeCount := b.writeCount + 1 })

def pop (b : Block) : Error × Block :=
  if b.empty then (.empty, b) else (.ok, { b with readCount := b.readCount + 1 })

def prepare (b : Block) : Error × Option Nat × Block :=
  if b.mustCommit then (.noSpaceLeft, none, b)
  else
    let index := b.prepareCount % b.depth
    (.ok, some (index * b.dataLen).toNat, { b with prepareCount := b.prepareCount + 1 })

def commit (b : Block) : Error × Block :=
  if b.mustPrepare then (.noPendingPush, b)
  else (.ok, { b with writeCount := b.writeCount + 1 })

/-- A byte is stored through a pointer to a slot. -/
def write (b : Block) (addr : Nat) (byte : UInt8) : Block :=
  { b with data := Function.update b.data addr byte }

/-! ## The slots of a block -/

/-- The slots fit a word, as they do in a block that was allocated for them. -/
def Fits (b : Block) : Prop := b.depth.toNat * b.dataLen.toNat < 2 ^ 64

/-- The FIFO of the elements as they are in memory. -/
def slots (b : Block) : Fifo (List UInt8) where
  depth := b.depth
  prepareCount := b.prepareCount
  writeCount := b.writeCount
  readCount := b.readCount
  slots i := bytesAt b.data b.dataLen.toNat (i * b.dataLen.toNat)

variable {b : Block}

/-- The address of the slot a counter stands for. -/
theorem address_eq (hfits : b.Fits) (hdepth : 0 < b.depth.toNat) (count : UInt64) :
    (count % b.depth * b.dataLen).toNat = b.slots.index count * b.dataLen.toNat := by
  have hlt : b.slots.index count < b.depth.toNat := by
    rw [index, UInt64.toNat_mod]
    exact Nat.mod_lt _ hdepth
  have hle : b.slots.index count * b.dataLen.toNat ≤ b.depth.toNat * b.dataLen.toNat :=
    Nat.mul_le_mul_right _ hlt.le
  have hsmall : b.slots.index count * b.dataLen.toNat < 2 ^ 64 := hle.trans_lt hfits
  rw [UInt64.toNat_mul]
  exact Nat.mod_eq_of_lt hsmall

@[simp] theorem slots_depth : b.slots.depth = b.depth := rfl

@[simp] theorem slots_empty : b.slots.empty = b.empty := rfl

@[simp] theorem slots_full : b.slots.full = b.full := rfl

@[simp] theorem slots_mustPrepare : b.slots.mustPrepare = b.mustPrepare := rfl

@[simp] theorem slots_mustCommit : b.slots.mustCommit = b.mustCommit := rfl

theorem front_eq (hfits : b.Fits) (hdepth : 0 < b.depth.toNat) :
    b.front = (b.slots.front.1, b.slots.front.2.map (· * b.dataLen.toNat)) := by
  unfold front Fifo.front
  rw [slots_empty]
  by_cases hempty : b.empty = true
  · rw [if_pos hempty, if_pos hempty]
    rfl
  · rw [if_neg hempty, if_neg hempty]
    simp only [address_eq hfits hdepth]
    rfl

theorem pop_eq (b : Block) : b.pop.1 = b.slots.pop.1 ∧ b.pop.2.slots = b.slots.pop.2 := by
  unfold pop Fifo.pop
  rw [slots_empty]
  split <;> exact ⟨rfl, rfl⟩

theorem prepare_eq (hfits : b.Fits) (hdepth : 0 < b.depth.toNat) :
    b.prepare.1 = b.slots.prepare.1 ∧
      b.prepare.2.1 = b.slots.prepare.2.1.map (· * b.dataLen.toNat) ∧
      b.prepare.2.2.slots = b.slots.prepare.2.2 := by
  unfold prepare Fifo.prepare
  rw [slots_mustCommit]
  by_cases hmust : b.mustCommit = true
  · rw [if_pos hmust, if_pos hmust]
    exact ⟨rfl, rfl, rfl⟩
  · rw [if_neg hmust, if_neg hmust]
    exact ⟨rfl, congrArg some (address_eq hfits hdepth _), rfl⟩

theorem commit_eq (b : Block) :
    b.commit.1 = b.slots.commit.1 ∧ b.commit.2.slots = b.slots.commit.2 := by
  unfold commit Fifo.commit
  rw [slots_mustPrepare]
  split <;> exact ⟨rfl, rfl⟩

theorem push_eq (hfits : b.Fits) (hdepth : 0 < b.depth.toNat) (data : Bytes) :
    (b.push data).1 = (b.slots.push (bytesAt data b.dataLen.toNat 0)).1 ∧
      (b.push data).2.slots = (b.slots.push (bytesAt data b.dataLen.toNat 0)).2 := by
  unfold push Fifo.push
  rw [slots_full]
  by_cases hfull : b.full = true
  · rw [if_pos hfull, if_pos hfull]
    exact ⟨rfl, rfl⟩
  · rw [if_neg hfull, if_neg hfull]
    refine ⟨rfl, ?_⟩
    simp only [address_eq hfits hdepth]
    have helse := bytesAt_update (n := b.dataLen.toNat) (k := b.slots.index b.writeCount)
      fun i hi => memcpy_of_outside b.data data hi
    unfold slots at helse ⊢
    rw [helse, bytesAt_memcpy]

/-- A byte stored inside a slot is stored into its element. -/
theorem write_eq {k j : Nat} (hj : j < b.dataLen.toNat) (byte : UInt8) :
    (b.write (k * b.dataLen.toNat + j) byte).slots = { b.slots with
      slots := Function.update b.slots.slots k ((b.slots.slots k).set j byte) } := by
  let stored : Bytes := Function.update b.data (k * b.dataLen.toNat + j) byte
  have hstored : ∀ i, i < k * b.dataLen.toNat ∨ k * b.dataLen.toNat + b.dataLen.toNat ≤ i →
      stored i = b.data i :=
    fun i hi => Function.update_of_ne (by omega) _ _
  have helse := bytesAt_update hstored
  unfold write slots
  rw [helse, bytesAt_set _ _ hj]

end Block

end Tulips.Fifo
