import Tulips.Stack.Tcpv4.Environment

/-!
# The tap device

Send buffers are kept in a list: the first one is handed out, and a buffer that
was written to the interface is put back at the end. What the kernel does and
what the buffers hold is up to a script.
-/

namespace Tulips

structure Tap where
  /-- The buffers that can be handed out: `m_buffers`. -/
  buffers : List Nat
  /-- What the next buffers to be handed out hold. -/
  contents : List Bytes
  /-- Whether the next writes succeed. -/
  writes : List Bool

namespace Tap

def bufferCount : Nat := 64

/-- The device as it is built. -/
def initial (contents : List Bytes) (writes : List Bool) : Tap :=
  ⟨List.range bufferCount, contents, writes⟩

def prepare (d : Tap) : Except Failure (Nat × Bytes) × Tap :=
  match d.buffers with
  | [] => (.error ⟨.noMoreResources, Status.noMoreResources_ne_ok⟩, d)
  | buf :: buffers =>
      (.ok (buf, d.contents.headD fun _ => 0),
        { d with buffers := buffers, contents := d.contents.tail })

def commit (d : Tap) (buf : Nat) (_frame : List UInt8) (_mss : UInt16) : Status × Tap :=
  if d.writes.headD true then
    (.ok, { d with buffers := d.buffers ++ [buf], writes := d.writes.tail })
  else (.hardwareError, { d with writes := d.writes.tail })

def device (mtu : UInt32) : Tcpv4.Device Tap where
  mtu := mtu
  mss := mtu + UInt32.ofNat Ethernet.headerLen
  receiveBufferLengthLog2 := 11
  receiveBuffersAvailable _ := 32
  prepare := prepare
  commit := commit
  listen d _ := (.ok, d)
  unlisten d _ := d

end Tap

end Tulips
