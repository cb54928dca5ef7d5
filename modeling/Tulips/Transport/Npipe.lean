import Tulips.Api.Status
import Tulips.Lib.BytePipe
import Tulips.System.ByteOrder
import Mathlib.Data.List.Range

/-!
# The named-pipe device

A frame is written to a named pipe as its length and its bytes. The device at the
other end polls the pipe without blocking and hands the frames to its processor.
-/

namespace Tulips.Npipe

/-- The size of the receive buffer: an MTU of 1500 bytes and the Ethernet header. -/
def bufLen : Nat := 1514

/-- What the device does with a length it has read, and with a frame. -/
inductive Event
  /-- The payload is read with a length, of which these bytes were read. -/
  | length (found : List UInt8) (len : UInt32)
  | process (len : UInt32) (frame : List UInt8)
  deriving DecidableEq

structure Device where
  /-- `m_read_buffer`, and what follows it in memory. -/
  readBuffer : Bytes

/-- What the frames are handed to. It may write to the receive buffer. -/
abbrev Processor := UInt32 → Bytes → Status × Bytes

/-- The first bytes of a buffer. -/
def Bytes.first (buf : Bytes) (len : UInt32) : List UInt8 := (List.range len.toNat).map buf

/-- What is read goes to the start of a buffer. -/
def Bytes.fill (buf : Bytes) (data : List UInt8) : Bytes := fun i => data.getD i (buf i)

/-- `Device::write`: write until all is taken or a write fails. -/
def write : Nat → List UInt8 → BytePipe → Option Bool × BytePipe
  | 0, _, pipe => (none, pipe)
  | fuel + 1, data, pipe =>
      if data = [] then (some true, pipe)
      else match pipe.write data with
        | (.never, pipe) => (none, pipe)
        | (.failed, pipe) => (some false, pipe)
        | (.bytes ret, pipe) => write fuel (data.drop ret) pipe

/-- `Device::commit`: the length first, then the payload. -/
def commit (len : UInt32) (buf : Bytes) (pipe : BytePipe) : Option Status × BytePipe :=
  match write (pipe.writes.length + 1) (store32 len) pipe with
  | (none, pipe) => (none, pipe)
  | (some false, pipe) => (some .hardwareLinkLost, pipe)
  | (some true, pipe) =>
      match write (pipe.writes.length + 1) (Bytes.first buf len) pipe with
      | (none, pipe) => (none, pipe)
      | (some false, pipe) => (some .hardwareLinkLost, pipe)
      | (some true, pipe) => (some .ok, pipe)

/-- What was done, what is returned unless the script of the pipe ends before, and
what is left behind. -/
structure Outcome where
  events : List Event
  ret : Option Status
  dev : Device
  pipe : BytePipe

namespace Device

/-- Read the payload and process it. -/
def payload (proc : Processor) (dev : Device) (len : UInt32) (pipe : BytePipe) : Outcome :=
  match pipe.await len.toNat (pipe.reads.length + 1) with
  | (.bytes [], pipe) => ⟨[], some .hardwareLinkLost, dev, pipe⟩
  | (.bytes data, pipe) =>
      let buf := Bytes.fill dev.readBuffer data
      ⟨[.process len (Bytes.first buf len)], some (proc len buf).1, ⟨(proc len buf).2⟩, pipe⟩
  | (_, pipe) => ⟨[], none, dev, pipe⟩

/-- `Device::poll`. The bytes of the length that were not read are zero. -/
def poll (proc : Processor) (dev : Device) (pipe : BytePipe) : Outcome :=
  match pipe.read 4 with
  | (.never, pipe) => ⟨[], none, dev, pipe⟩
  | (.again, pipe) => ⟨[], some .noDataAvailable, dev, pipe⟩
  | (.bytes [], pipe) => ⟨[], some .hardwareLinkLost, dev, pipe⟩
  | (.bytes found, pipe) =>
      let len := load32 (Bytes.fill (fun _ => 0) found) 0
      let rest := dev.payload proc len pipe
      { rest with events := .length found len :: rest.events }

/-- A number of polls. -/
def polls (proc : Processor) : Nat → Device → BytePipe → Outcome
  | 0, dev, pipe => ⟨[], none, dev, pipe⟩
  | n + 1, dev, pipe =>
      let first := dev.poll proc pipe
      let rest := polls proc n first.dev first.pipe
      { rest with events := first.events ++ rest.events }

end Device

/-- Commit the frames one after the other, each with success. -/
def commits : List (List UInt8) → BytePipe → Option BytePipe
  | [], pipe => some pipe
  | frame :: frames, pipe =>
      match commit (UInt32.ofNat frame.length) (Bytes.fill (fun _ => 0) frame) pipe with
      | (some .ok, pipe) => commits frames pipe
      | _ => none

/-- A frame as it is on the pipe. -/
def encode (frame : List UInt8) : List UInt8 := store32 (UInt32.ofNat frame.length) ++ frame

/-! ## Writing -/

section Writing

variable {pipe pipe' : BytePipe} {data : List UInt8} {fuel : Nat}

/-- However the bytes are taken, they are on the pipe in the end. -/
theorem write_true (h : write fuel data pipe = (some true, pipe')) :
    pipe'.content = pipe.content ++ data ∧ pipe'.reads = pipe.reads := by
  induction fuel generalizing data pipe with
  | zero => simp [write] at h
  | succ fuel ih =>
      rw [write] at h
      split_ifs at h with hdata
      · obtain ⟨-, rfl⟩ := Prod.mk.inj h
        rw [hdata, List.append_nil]
        exact ⟨rfl, rfl⟩
      · cases hwrites : pipe.writes with
        | nil => simp [BytePipe.write, hwrites] at h
        | cons taken writes =>
            cases taken with
            | none => simp [BytePipe.write, hwrites] at h
            | some k =>
                simp only [BytePipe.write, hwrites] at h
                obtain ⟨hcontent, hreads⟩ := ih h
                refine ⟨?_, hreads⟩
                rw [hcontent, List.append_assoc, List.take_append_drop]

theorem first_fill {len : UInt32} (buf : Bytes) (h : len.toNat = data.length) :
    Bytes.first (Bytes.fill buf data) len = data := by
  apply List.ext_getElem?
  intro i
  simp only [Bytes.first, List.getElem?_map, h]
  by_cases hi : i < data.length
  · simp [hi, Bytes.fill]
  · simp [hi]

theorem commit_ok {len : UInt32} {buf : Bytes} (h : commit len buf pipe = (some .ok, pipe')) :
    pipe'.content = pipe.content ++ (store32 len ++ Bytes.first buf len) ∧
      pipe'.reads = pipe.reads := by
  unfold commit at h
  split at h
  · simp at h
  · simp at h
  · rename_i pipe₁ hlen
    split at h
    · simp at h
    · simp at h
    · rename_i pipe₂ hdata
      obtain ⟨-, rfl⟩ := Prod.mk.inj h
      obtain ⟨hcontent, hreads⟩ := write_true hlen
      obtain ⟨hcontent', hreads'⟩ := write_true hdata
      rw [hcontent', hcontent, List.append_assoc]
      exact ⟨rfl, hreads'.trans hreads⟩

/-- The frames are on the pipe in the order of their commits. -/
theorem commits_content {frames : List (List UInt8)}
    (hlen : ∀ frame ∈ frames, frame.length ≤ bufLen) (h : commits frames pipe = some pipe') :
    pipe'.content = pipe.content ++ frames.flatMap encode ∧ pipe'.reads = pipe.reads := by
  induction frames generalizing pipe with
  | nil =>
      obtain rfl := Option.some_inj.mp h
      simp
  | cons frame frames ih =>
      rw [commits] at h
      split at h
      · rename_i pipe₁ hcommit
        obtain ⟨hcontent, hreads⟩ := ih (fun f hf => hlen f (List.mem_cons_of_mem _ hf)) h
        obtain ⟨hframe, hreads'⟩ := commit_ok hcommit
        have hle := hlen frame List.mem_cons_self
        have hfirst : (UInt32.ofNat frame.length).toNat = frame.length :=
          UInt32.toNat_ofNat_of_lt' (hle.trans_lt (by decide))
        rw [first_fill _ hfirst] at hframe
        rw [hcontent, hframe, List.flatMap_cons, List.append_assoc]
        exact ⟨rfl, hreads.trans hreads'⟩
      · cases h

end Writing

end Tulips.Npipe
