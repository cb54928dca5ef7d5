import Tulips.Api.Status
import Tulips.Fifo
import Tulips.System.ByteOrder

/-!
# The shared-memory device

Two `shm::Device` share two FIFOs: what one of them commits to one of them the other
one polls from it. A slot holds a packet, the length of a frame and its bytes; a send
buffer is the byte area of a slot.
-/

namespace Tulips.Shm

structure Packet where
  len : UInt32
  data : Bytes

/-- The frame in a packet. The processor takes its length with 16 bits. -/
def Packet.frame (packet : Packet) : List UInt8 :=
  (List.range packet.len.toUInt16.toNat).map packet.data

/-- The FIFO between the device that writes and the one that reads, and the
number of bytes a slot has for a frame: `Device::mss`. -/
structure Link where
  fifo : Fifo Packet
  mss : Nat

/-- The link before anything has happened. -/
def Link.create (depth : UInt64) (mss : Nat) : Link := ⟨.create depth ⟨0, fun _ => 0⟩, mss⟩

/-- A send buffer: the slot it belongs to, or the pointer past a null packet. -/
abbrev Buffer := Option Nat

namespace Link

/-- `Device::prepare`. The result of the FIFO is not looked at. -/
def prepare (l : Link) : Status × Buffer × Link :=
  if l.fifo.full then (.noMoreResources, none, l)
  else
    let prepared := l.fifo.prepare
    (.ok, prepared.2.1, { l with fifo := prepared.2.2 })

/-- The owner of a buffer stores a byte in it. -/
def fill (l : Link) (slot off : Nat) (byte : UInt8) : Link :=
  let packet := l.fifo.slots slot
  { l with fifo := { l.fifo with
      slots := Function.update l.fifo.slots slot
        { packet with data := Function.update packet.data off byte } } }

/-- `Device::commit`: the length goes to the packet of the buffer, and the FIFO
makes its next slot visible. -/
def commit (l : Link) (len : UInt32) (slot : Nat) : Status × Link :=
  let packet := l.fifo.slots slot
  let fifo := { l.fifo with slots := Function.update l.fifo.slots slot { packet with len := len } }
  (.ok, { l with fifo := fifo.commit.2 })

/-- `Device::poll` of the peer, with the frame it hands to its processor. -/
def poll (l : Link) : Status × Option (List UInt8) × Link :=
  if l.fifo.empty then (.noDataAvailable, none, l)
  else match l.fifo.front with
    | (.ok, some slot) =>
        (.ok, some (l.fifo.slots slot).frame, { l with fifo := l.fifo.pop.2 })
    | _ => (.hardwareError, none, l)

end Link

/-! ## Runs -/

inductive Op
  | prepare
  | fill (buf : Buffer) (off : Nat) (byte : UInt8)
  | commit (len : UInt32) (buf : Buffer)
  | poll

inductive Output
  | buffer (ret : Status) (buf : Buffer)
  | status (ret : Status)
  | frame (frame : Option (List UInt8))
  /-- An access past the null pointer. -/
  | fault
  deriving DecidableEq

def Link.exec (l : Link) : Op → Output × Link
  | .prepare => (.buffer l.prepare.1 l.prepare.2.1, l.prepare.2.2)
  | .fill (some slot) off byte => (.status .ok, l.fill slot off byte)
  | .commit len (some slot) => (.status (l.commit len slot).1, (l.commit len slot).2)
  | .fill none _ _ | .commit _ none => (.fault, l)
  | .poll => (.frame l.poll.2.1, l.poll.2.2)

/-! ## Devices -/

/-- A device polls one link and commits to the other. -/
structure Device where
  readFifo : Link
  writeFifo : Link

/-- The calls on a device that work on its links. -/
inductive Call
  | op (op : Op)
  | drop

inductive Side
  | own
  | peer

namespace Device

/-- `receiveBuffersAvailable` -/
def receiveBuffersAvailable (d : Device) : UInt16 :=
  if d.writeFifo.fifo.empty then d.writeFifo.fifo.depth.toUInt16
  else
    let delta := d.writeFifo.fifo.readCount - d.writeFifo.fifo.writeCount
    if 0xffff < delta then 0xffff else delta.toUInt16

/-- `Device::drop` -/
def drop (d : Device) : Status × Device :=
  if d.readFifo.fifo.empty then (.noDataAvailable, d)
  else (.ok, { d with readFifo := { d.readFifo with fifo := d.readFifo.fifo.pop.2 } })

/-- The device after a call. What the processor does to it while it polls a
frame are calls of their own, before the poll. -/
def exec (d : Device) : Call → Device
  | .op .poll => { d with readFifo := (d.readFifo.exec .poll).2 }
  | .op op => { d with writeFifo := (d.writeFifo.exec op).2 }
  | .drop => d.drop.2

/-- The device at the other end of the links. -/
def peer (d : Device) : Device := ⟨d.writeFifo, d.readFifo⟩

/-- The device after a call on one of the two ends. -/
def step (d : Device) (call : Side × Call) : Device :=
  match call.1 with
  | .own => d.exec call.2
  | .peer => (d.peer.exec call.2).peer

end Device

end Tulips.Shm
