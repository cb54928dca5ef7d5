import Tulips.Lib.CircularMemory
import Tulips.System.ByteOrder

/-!
# The circular buffer

`system::CircularBuffer` keeps its bytes in pages that are mapped twice, side by
side, and counts what has been read and written with counters that never start
over. A counter becomes an offset by masking.
-/

namespace Tulips

structure CircularBuffer where
  size : UInt64
  mask : UInt64
  /-- The mapped bytes; both halves of the mapping show the same ones. -/
  data : Nat → UInt8
  read : UInt64
  write : UInt64

namespace CircularBuffer

/-- `CircularBuffer::fit`: a size rounded up to whole pages. -/
def fit (pagesize size : UInt64) : UInt64 :=
  let npages := size / pagesize
  let result := npages * pagesize
  if result < size then result + pagesize else result

/-- The constructor. It throws when there is no room for the two halves: `mmap`
refuses an empty mapping and one that the address space does not hold. -/
def create (pagesize size : UInt64) : Option CircularBuffer :=
  let fitted := fit pagesize size
  if fitted = 0 ∨ 2 ^ 64 < 2 * fitted.toNat then none
  else some ⟨fitted, fitted - 1, fun _ => 0, 0, 0⟩

def available (b : CircularBuffer) : UInt64 := b.write - b.read

def left (b : CircularBuffer) : UInt64 := b.size - b.available

def empty (b : CircularBuffer) : Bool := b.read == b.write

def full (b : CircularBuffer) : Bool := b.write - b.read == b.size

/-- The offset of `CircularBuffer::readAt`. -/
def readAt (b : CircularBuffer) : UInt64 := b.read &&& b.mask

/-- The offset of `CircularBuffer::writeAt`. -/
def writeAt (b : CircularBuffer) : UInt64 := b.write &&& b.mask

/-- The `n` bytes from an offset of the mapping on. -/
def bytesAt (b : CircularBuffer) (at_ n : UInt64) : List UInt8 :=
  CircularMemory.load b.size.toNat b.data at_.toNat n.toNat

/-- `CircularBuffer::read`, with the bytes it has copied out. -/
def readOut (b : CircularBuffer) (len : UInt64) : List UInt8 × CircularBuffer :=
  let delta := b.available
  let n := if len > delta then delta else len
  (b.bytesAt b.readAt n, { b with read := b.read + n })

/-- `CircularBuffer::write`, with the number of bytes it has taken. -/
def writeIn (b : CircularBuffer) (buffer : Bytes) (len : UInt64) : UInt64 × CircularBuffer :=
  let delta := b.left
  let n := if len > delta then delta else len
  let bytes := (List.range n.toNat).map buffer
  (n, { b with
    data := CircularMemory.store b.size.toNat b.data b.writeAt.toNat bytes
    write := b.write + n })

def skip (b : CircularBuffer) (len : UInt64) : CircularBuffer :=
  let delta := b.available
  let n := if len > delta then delta else len
  { b with read := b.read + n }

def reset (b : CircularBuffer) : CircularBuffer := { b with read := 0, write := 0 }

/-! ## Runs -/

inductive Op
  | read (len : UInt64)
  | write (buffer : Bytes) (len : UInt64)
  | skip (len : UInt64)
  | reset

/-- What a call returns. -/
inductive Result
  | bytes (bytes : List UInt8)
  | count (n : Nat)
  | nothing
  deriving DecidableEq

/-- What a user sees of a buffer after a call: its result, the amounts left and
available, and the bytes that `readAt` exposes. -/
structure Shown where
  result : Result
  left : Nat
  available : Nat
  exposed : List UInt8
  deriving DecidableEq

def exec (b : CircularBuffer) : Op → Result × CircularBuffer
  | .read len => (.bytes (b.readOut len).1, (b.readOut len).2)
  | .write buffer len => (.count (b.writeIn buffer len).1.toNat, (b.writeIn buffer len).2)
  | .skip len => (.nothing, b.skip len)
  | .reset => (.nothing, b.reset)

/-- What a sequence of calls shows. -/
def run (b : CircularBuffer) : List Op → List Shown
  | [] => []
  | op :: ops =>
      let next := b.exec op
      ⟨next.1, next.2.left.toNat, next.2.available.toNat,
        next.2.bytesAt next.2.readAt next.2.available⟩ :: next.2.run ops

end CircularBuffer

end Tulips
