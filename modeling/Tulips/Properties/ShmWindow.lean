import Tulips.Stack.Tcpv4.Send
import Tulips.Transport.Shm

/-!
# The receive window of the shared-memory device

A device reports how many frames it can receive. It looks at the FIFO it sends
through for that, and takes the difference of the counters the wrong way round:
nothing on its way to the peer means the depth of that FIFO, anything on its way
means as many frames as a window can express.
-/

namespace Tulips

/-! ## Enqueueing -/

namespace Fifo

variable {α : Type} {f : Fifo α} {r w p : Nat}

/-- One more element: a slot is prepared, unless one is left, and committed. -/
def enqueue (f : Fifo α) : Error × Fifo α :=
  if f.mustPrepare then f.prepare.2.2.commit else f.commit

/-- So many further elements can be enqueued. -/
def Takes (f : Fifo α) : Nat → Prop
  | 0 => True
  | n + 1 => f.enqueue.1 = .ok ∧ f.enqueue.2.Takes n

/-- How many elements are not read. -/
def unread (f : Fifo α) : Nat := (f.writeCount - f.readCount).toNat

namespace Counted

theorem unread_eq (h : f.Counted r w p) : f.unread = w - r := by
  rw [unread, h.readCount, h.writeCount]
  exact Counter.sub_toNat h.written (h.prepared.trans h.room)

/-- An element finds room exactly if less than `depth` are not read. -/
theorem enqueue (h : f.Counted r w p) :
    w < r + f.depth.toNat ∧ f.enqueue.1 = .ok ∧ (∃ p', f.enqueue.2.Counted r (w + 1) p') ∧
        f.enqueue.2.depth = f.depth ∨
      w = r + f.depth.toNat ∧ f.enqueue.1 ≠ .ok := by
  have := h.room
  have := h.prepared
  unfold Fifo.enqueue
  by_cases hnone : f.mustPrepare = true
  · obtain rfl := h.mustPrepare_iff.mp hnone
    rw [if_pos hnone]
    rcases h.prepare with ⟨hfull, hprepared⟩ | ⟨hfull, hsame⟩
    · have hroom : p ≠ r + f.depth.toNat := by
        intro heq
        rw [h.mustCommit_iff.mpr heq] at hfull
        cases hfull
      rcases hprepared.commit with ⟨-, hok, hcounted⟩ | ⟨heq, -⟩
      · exact .inl ⟨by omega, hok, ⟨_, hcounted⟩, by simp⟩
      · omega
    · rw [hsame]
      rcases h.commit with ⟨hlt, -⟩ | ⟨-, heq⟩
      · omega
      · refine .inr ⟨h.mustCommit_iff.mp hfull, ?_⟩
        rw [heq]
        exact nofun
  · rw [if_neg hnone]
    have hne : p ≠ w := fun heq => hnone (h.mustPrepare_iff.mpr heq)
    rcases h.commit with ⟨-, hok, hcounted⟩ | ⟨heq, -⟩
    · exact .inl ⟨by omega, hok, ⟨_, hcounted⟩, by simp⟩
    · exact absurd heq.symm hne

/-- What can be enqueued are the elements up to the depth. -/
theorem takes_iff (h : f.Counted r w p) (n : Nat) :
    f.Takes n ↔ f.unread + n ≤ f.depth.toNat := by
  have hwritten := h.written
  have hroom := h.prepared.trans h.room
  rw [h.unread_eq]
  induction n generalizing f w p with
  | zero =>
      simp only [Takes, true_iff]
      omega
  | succ n ih =>
      rcases h.enqueue with ⟨hlt, hok, ⟨p', hnext⟩, hdepth⟩ | ⟨heq, hrefused⟩
      · have hrest := ih hnext hnext.written (hnext.prepared.trans hnext.room)
        rw [hdepth] at hrest
        simp only [Takes, hok, true_and, hrest]
        omega
      · simp only [Takes, hrefused, false_and, false_iff]
        omega

end Counted

/-! ## Sound FIFOs -/

/-- The counters of a FIFO of a given depth stand for unbounded counts. -/
def Sound (depth : UInt64) (f : Fifo α) : Prop :=
  f.depth = depth ∧ ∃ r w p, f.Counted r w p

namespace Sound

variable {depth : UInt64}

theorem create (depth : UInt64) (cleared : α) : (Fifo.create depth cleared).Sound depth :=
  ⟨rfl, 0, 0, 0, .create depth cleared⟩

theorem withSlots (h : f.Sound depth) (slots : Nat → α) :
    Sound depth { f with slots := slots } := by
  obtain ⟨hdepth, r, w, p, hcounted⟩ := h
  exact ⟨hdepth, r, w, p, hcounted.withSlots slots⟩

theorem prepare (h : f.Sound depth) : f.prepare.2.2.Sound depth := by
  obtain ⟨hdepth, r, w, p, hcounted⟩ := h
  rcases hcounted.prepare with ⟨-, hnext⟩ | ⟨-, heq⟩
  · exact ⟨by rw [depth_prepare, hdepth], _, _, _, hnext⟩
  · rw [heq]
    exact ⟨hdepth, r, w, p, hcounted⟩

theorem commit (h : f.Sound depth) : f.commit.2.Sound depth := by
  obtain ⟨hdepth, r, w, p, hcounted⟩ := h
  rcases hcounted.commit with ⟨-, -, hnext⟩ | ⟨-, heq⟩
  · exact ⟨by rw [depth_commit, hdepth], _, _, _, hnext⟩
  · rw [heq]
    exact ⟨hdepth, r, w, p, hcounted⟩

theorem pop (h : f.Sound depth) : f.pop.2.Sound depth := by
  obtain ⟨hdepth, r, w, p, hcounted⟩ := h
  by_cases hempty : f.empty = true
  · have hsame : f.pop.2 = f := by simp [Fifo.pop, hempty]
    rw [hsame]
    exact ⟨hdepth, r, w, p, hcounted⟩
  · exact ⟨by rw [depth_pop, hdepth], _, _, _, hcounted.pop (by simpa using hempty)⟩

end Sound

end Fifo

namespace Shm

/-! ## The two FIFOs -/

theorem Link.poll_fifo (l : Link) : l.poll.2.2.fifo = l.fifo.pop.2 := by
  by_cases hempty : l.fifo.empty = true <;>
    simp [Link.poll, Fifo.front, Fifo.pop, hempty]

theorem Link.sound_exec {depth : UInt64} {l : Link} (h : l.fifo.Sound depth) (op : Op) :
    (l.exec op).2.fifo.Sound depth := by
  cases op with
  | prepare =>
      by_cases hfull : l.fifo.full = true
      · simpa [Link.exec, Link.prepare, hfull] using h
      · simpa [Link.exec, Link.prepare, hfull] using h.prepare
  | fill buf off byte =>
      cases buf with
      | none => exact h
      | some slot => exact h.withSlots _
  | commit len buf =>
      cases buf with
      | none => exact h
      | some slot => exact (h.withSlots _).commit
  | poll =>
      rw [Link.exec, Link.poll_fifo]
      exact h.pop

namespace Device

/-- The two FIFOs of a device are sound. -/
def Sound (readDepth writeDepth : UInt64) (d : Device) : Prop :=
  d.readFifo.fifo.Sound readDepth ∧ d.writeFifo.fifo.Sound writeDepth

variable {readDepth writeDepth : UInt64} {d : Device}

theorem Sound.exec (h : d.Sound readDepth writeDepth) (call : Call) :
    (d.exec call).Sound readDepth writeDepth := by
  obtain ⟨hread, hwrite⟩ := h
  cases call with
  | op op =>
      cases op with
      | poll => exact ⟨Link.sound_exec hread .poll, hwrite⟩
      | prepare | fill | commit => exact ⟨hread, Link.sound_exec hwrite _⟩
  | drop =>
      by_cases hempty : d.readFifo.fifo.empty = true
      · have hsame : d.exec .drop = d := by simp [Device.exec, drop, hempty]
        rw [hsame]
        exact ⟨hread, hwrite⟩
      · have hpop : d.exec .drop =
            { d with readFifo := { d.readFifo with fifo := d.readFifo.fifo.pop.2 } } := by
          simp [Device.exec, drop, hempty]
        rw [hpop]
        exact ⟨hread.pop, hwrite⟩

theorem Sound.step (h : d.Sound readDepth writeDepth) (call : Side × Call) :
    (d.step call).Sound readDepth writeDepth := by
  obtain ⟨side, call⟩ := call
  cases side with
  | own => exact h.exec call
  | peer =>
      have hpeer : d.peer.Sound writeDepth readDepth := ⟨h.2, h.1⟩
      have hnext := hpeer.exec call
      exact ⟨hnext.2, hnext.1⟩

/-- A device with two new FIFOs. -/
def create (readDepth writeDepth : UInt64) (mss : Nat) : Device :=
  ⟨.create readDepth mss, .create writeDepth mss⟩

/-- A device after calls on both ends. -/
def run (d : Device) (calls : List (Side × Call)) : Device := calls.foldl step d

theorem Sound.run (h : d.Sound readDepth writeDepth) (calls : List (Side × Call)) :
    (d.run calls).Sound readDepth writeDepth := by
  induction calls generalizing d with
  | nil => exact h
  | cons call calls ih => exact ih (h.step call)

theorem sound_create (readDepth writeDepth : UInt64) (mss : Nat) :
    (create readDepth writeDepth mss).Sound readDepth writeDepth :=
  ⟨.create readDepth _, .create writeDepth _⟩

end Device

/-! ## What is reported -/

section Window

open Tcpv4

/-- How many bytes the window field of a header invites: a SYN counts bytes, the
other segments count buffers. -/
def invited {D H : Type} (env : Env D H) (w : World D H) (state : State) (flags : UInt8) : Nat :=
  (ntohs (windowField env w state flags)).toNat *
    if flags &&& tcpSyn ≠ 0 then 1 else 2 ^ env.device.receiveBufferLengthLog2.toNat

/-- No header invites more than the buffers that are reported. -/
theorem invited_le {D H : Type} (env : Env D H) (w : World D H) (state : State) (flags : UInt8) :
    invited env w state flags ≤ (env.device.receiveBuffersAvailable w.dev).toNat *
      2 ^ env.device.receiveBufferLengthLog2.toNat := by
  unfold invited windowField
  by_cases hstopped : state = .stopped
  · have hzero : (ntohs 0).toNat = 0 := by decide
    rw [if_pos hstopped, hzero, Nat.zero_mul]
    exact Nat.zero_le _
  rw [if_neg hstopped]
  by_cases hsyn : flags &&& tcpSyn ≠ 0
  · rw [if_pos hsyn, if_pos hsyn, ntohs_htons, Nat.mul_one]
    refine (Utils.cap_le _).trans ?_
    rw [UInt32.toNat_shiftLeft, UInt16.toNat_toUInt32, UInt8.toNat_toUInt32, Nat.shiftLeft_eq]
    refine (Nat.mod_le _ _).trans (Nat.mul_le_mul_left _ ?_)
    exact Nat.pow_le_pow_right (by decide) (Nat.mod_le _ _)
  · rw [if_neg hsyn, if_neg hsyn, ntohs_htons]

/-- The peer can enqueue as many frames as the device reports, and all that a header
of a processor on top of it invites. -/
structure Device.Truthful (d : Device) : Prop where
  reported : d.readFifo.fifo.Takes d.receiveBuffersAvailable.toNat
  headers : ∀ {D H : Type} (env : Env D H) (w : World D H),
    env.device.receiveBuffersAvailable w.dev = d.receiveBuffersAvailable →
      ∀ state flags, ∃ n, d.readFifo.fifo.Takes n ∧
        invited env w state flags ≤ n * 2 ^ env.device.receiveBufferLengthLog2.toNat

/-- With nothing on its way to the peer, the receive FIFO has as many free slots as
the other one has slots at all; else it has as many as a window can express. -/
def Device.Ample (d : Device) : Prop :=
  if d.writeFifo.fifo.empty then
    d.readFifo.fifo.unread + d.writeFifo.fifo.depth.toNat ≤ d.readFifo.fifo.depth.toNat
  else d.readFifo.fifo.empty ∧ d.readFifo.fifo.depth = 0xffff

namespace Device

variable {readDepth writeDepth : UInt64} {d : Device}

theorem receiveBuffersAvailable_of_empty (hdepth : d.writeFifo.fifo.depth ≤ 0xffff)
    (hempty : d.writeFifo.fifo.empty = true) :
    d.receiveBuffersAvailable.toNat = d.writeFifo.fifo.depth.toNat := by
  have hle : d.writeFifo.fifo.depth.toNat ≤ 0xffff := hdepth
  rw [receiveBuffersAvailable, if_pos hempty, UInt64.toNat_toUInt16, Nat.mod_eq_of_lt (by omega)]

/-- The difference of the counters is negative, so that it wraps around to a number
beyond all windows. -/
theorem receiveBuffersAvailable_of_pending (h : d.writeFifo.fifo.Sound writeDepth)
    (hdepth : writeDepth ≤ 0xffff) (hempty : d.writeFifo.fifo.empty = false) :
    d.receiveBuffersAvailable.toNat = 0xffff := by
  obtain ⟨rfl, r, w, p, hcounted⟩ := h
  have hle : d.writeFifo.fifo.depth.toNat ≤ 0xffff := hdepth
  have hne : r ≠ w := by
    intro heq
    rw [hcounted.empty_iff.mpr heq] at hempty
    cases hempty
  have hwritten := hcounted.written
  have hroom := hcounted.prepared.trans hcounted.room
  have hdelta := hcounted.unread_eq
  rw [Fifo.unread, UInt64.toNat_sub] at hdelta
  have hlarge : 0xffff < d.writeFifo.fifo.readCount - d.writeFifo.fifo.writeCount := by
    rw [UInt64.lt_iff_toNat_lt, UInt64.toNat_sub]
    have := d.writeFifo.fifo.readCount.toNat_lt
    have := d.writeFifo.fifo.writeCount.toNat_lt
    show 0xffff < _
    omega
  simp [receiveBuffersAvailable, hempty, hlarge]

theorem reported_iff (h : d.Sound readDepth writeDepth) (hread : readDepth ≤ 0xffff)
    (hwrite : writeDepth ≤ 0xffff) :
    d.readFifo.fifo.Takes d.receiveBuffersAvailable.toNat ↔ d.Ample := by
  obtain ⟨⟨rfl, r, w, p, hcounted⟩, hlink⟩ := h
  rw [hcounted.takes_iff, Ample]
  by_cases hempty : d.writeFifo.fifo.empty = true
  · rw [if_pos hempty, receiveBuffersAvailable_of_empty (by rw [hlink.1]; exact hwrite) hempty]
  · have hpending : d.writeFifo.fifo.empty = false := by simpa using hempty
    have hle : d.readFifo.fifo.depth.toNat ≤ 0xffff := hread
    have hfull : d.readFifo.fifo.depth = 0xffff ↔ d.readFifo.fifo.depth.toNat = 0xffff := by
      rw [← UInt64.toNat_inj]
      rfl
    have := hcounted.written
    rw [if_neg hempty, receiveBuffersAvailable_of_pending hlink hwrite hpending,
      hcounted.empty_iff, hcounted.unread_eq, hfull]
    omega

/-- The window is truthful exactly if the receive FIFO has as much room as the other
FIFO seems to promise. -/
theorem truthful_iff (readDepth writeDepth : UInt64) (mss : Nat) (hread : readDepth ≤ 0xffff)
    (hwrite : writeDepth ≤ 0xffff) (calls : List (Side × Call)) :
    ((create readDepth writeDepth mss).run calls).Truthful ↔
      ((create readDepth writeDepth mss).run calls).Ample := by
  have hsound := (sound_create readDepth writeDepth mss).run calls
  have hiff := reported_iff hsound hread hwrite
  constructor
  · intro h
    exact hiff.mp h.reported
  · intro h
    refine ⟨hiff.mpr h, fun env w hdev state flags => ⟨_, hiff.mpr h, ?_⟩⟩
    rw [← hdev]
    exact invited_le env w state flags

/-- The device has sent a frame, and the peer has taken it. -/
theorem truthful_iff_polled :
    let calls : List (Side × Call) := [(.own, .op .prepare), (.own, .op (.commit 1 (some 0))),
      (.peer, .op .poll)]
    ((create 2 2 4).run calls).Truthful ↔ ((create 2 2 4).run calls).Ample :=
  truthful_iff 2 2 4 (by decide) (by decide) _

/-- The peer has sent a frame: two more are invited, but one slot is left. -/
theorem not_truthful : ¬ ∀ (depth : UInt64) (mss : Nat), depth ≤ 0xffff →
    ∀ calls : List (Side × Call), ((create depth depth mss).run calls).Truthful := by
  intro hall
  have h := hall 2 4 (by decide) [(.peer, .op .prepare), (.peer, .op (.commit 1 (some 0)))]
  have htakes := h.reported.2.1
  revert htakes
  decide

end Device

end Window

end Shm

end Tulips
