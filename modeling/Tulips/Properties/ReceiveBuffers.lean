import Tulips.Transport.OfedReceive

/-!
# Posting receive buffers again

A poll holds the buffers of its completions until it posts them again. Batches are
posted behind the packets that have been dealt with, whichever of them are dropped,
and the end of the poll posts the rest, so that every buffer is posted once.
-/

namespace Tulips.Ofed.Receiver

variable (around : Surroundings) (config : ReceiveConfig)

/-! ## The history of a poll -/

/-- The buffers whose packets were processed or dropped, in order. -/
def handled : List ReceiveEvent → List Nat
  | [] => []
  | .process wrId _ _ :: log | .drop wrId :: log => handled log ++ [wrId]
  | .post _ :: log => handled log

/-- The buffers that were posted, in order. -/
def reposted : List ReceiveEvent → List Nat
  | [] => []
  | .post wrId :: log => reposted log ++ [wrId]
  | .process _ _ _ :: log | .drop _ :: log => reposted log

/-- Every buffer is posted after its packet has been dealt with, and the processor
finds the number of buffers that are held, out of `total`, as the pending ones. -/
def Orderly (total : Nat) : List ReceiveEvent → Prop
  | [] => True
  | .process _ _ pending :: log =>
      pending.toNat = total - (reposted log).length ∧ Orderly total log
  | .drop _ :: log => Orderly total log
  | .post wrId :: log => reposted log ++ [wrId] <+: handled log ∧ Orderly total log

/-! ## The device below the processor -/

/-- The calls of the processor do not touch the number of pending buffers. -/
theorem pending_call (nbuf : UInt16) (d : Ofed) (call : Call) :
    (d.call nbuf call).pending = d.pending := by
  cases call with
  | prepare =>
      show (d.prepare nbuf).2.pending = d.pending
      unfold Ofed.prepare
      split
      · rfl
      · dsimp only
        split <;> rfl
  | commit buf frame mss =>
      show (d.commit buf frame mss).2.pending = d.pending
      unfold Ofed.commit
      dsimp only
      split <;> rfl
  | listen port =>
      show (d.listen port).2.pending = d.pending
      unfold Ofed.listen
      split <;> rfl
  | unlisten port => rfl

theorem pending_calls (nbuf : UInt16) (d : Ofed) (calls : List Call) :
    (calls.foldl (Ofed.call nbuf) d).pending = d.pending := by
  induction calls generalizing d with
  | nil => rfl
  | cons call calls ih => rw [List.foldl_cons, ih, pending_call]

/-! ## Rounds of the loop -/

/-- In a poll of the given buffers, the packets of the first `i` have been dealt with
and the first `pre` of these have been posted. -/
structure Progress (ids : List Nat) (before : List ReceiveEvent) (i pre : Nat) (r : Receiver) :
    Prop where
  log : ∃ new, r.log = new ++ before ∧ handled new = ids.take i ∧ reposted new = ids.take pre ∧
    Orderly ids.length new
  pre_le : pre ≤ i
  le : i ≤ ids.length

/-- The pending buffers are those that are not posted. -/
def Counts (ids : List Nat) (pre : Nat) (r : Receiver) : Prop :=
  r.dev.pending.toNat = ids.length - pre

variable {ids : List Nat} {before : List ReceiveEvent} {i pre : Nat} {r : Receiver}

theorem take_succ_eq {wrId : Nat} (h : ids[i]? = some wrId) :
    ids.take (i + 1) = ids.take i ++ [wrId] := by
  rw [List.take_add_one, h]
  rfl

/-- A packet is processed. -/
theorem Progress.process (h : Progress ids before i pre r) (hcounts : Counts ids pre r)
    {c : Completion} (hi : ids[i]? = some c.wrId) :
    ∃ r', Receiver.process around config c r = .ok () r' ∧ Progress ids before (i + 1) pre r' ∧
      Counts ids pre r' := by
  obtain ⟨new, hlog, hhandled, hposted, horderly⟩ := h.log
  have hlt : i < ids.length := (List.getElem?_eq_some_iff.mp hi).1
  have hlength : (reposted new).length = pre := by
    rw [hposted, List.length_take, Nat.min_eq_left (h.pre_le.trans h.le)]
  let r₁ : Receiver :=
    { dev := (around.process r c).foldl (Ofed.call config.nbuf) r.dev
      log := .process c.wrId c.byteLen r.dev.pending :: r.log }
  have hcounts₁ : Counts ids pre r₁ := by
    rw [Counts, pending_calls]
    exact hcounts
  refine ⟨r₁, rfl, ⟨⟨.process c.wrId c.byteLen r.dev.pending :: new, ?_, ?_, hposted, ?_⟩,
    Nat.le_succ_of_le h.pre_le, hlt⟩, hcounts₁⟩
  · rw [List.cons_append, ← hlog]
  · rw [handled, hhandled, take_succ_eq hi]
  · refine ⟨?_, horderly⟩
    rw [hlength]
    exact hcounts

/-- A packet is dropped. -/
theorem Progress.drop (h : Progress ids before i pre r) (hcounts : Counts ids pre r)
    {wrId : Nat} (hi : ids[i]? = some wrId) :
    ∃ r', record (.drop wrId) r = .ok () r' ∧ Progress ids before (i + 1) pre r' ∧
      Counts ids pre r' := by
  obtain ⟨new, hlog, hhandled, hposted, horderly⟩ := h.log
  have hlt : i < ids.length := (List.getElem?_eq_some_iff.mp hi).1
  refine ⟨{ r with log := .drop wrId :: r.log }, rfl, ⟨⟨.drop wrId :: new, ?_, ?_, hposted,
    horderly⟩, Nat.le_succ_of_le h.pre_le, hlt⟩, hcounts⟩
  · rw [List.cons_append, ← hlog]
  · rw [handled, hhandled, take_succ_eq hi]

/-- Buffers are posted, as many as there are packets dealt with at most. -/
theorem Progress.repost (h : Progress ids before i pre r) {wc : Nat → Completion} {count : Nat}
    (hwc : ∀ j < ids.length, ids[j]? = some (wc j).wrId) (hcount : pre + count ≤ i)
    (htakes : ∀ r wrId, around.takes r wrId = true) :
    ∃ r', Receiver.repost around wc count pre r = .ok () r' ∧
      Progress ids before i (pre + count) r' ∧ r'.dev = r.dev := by
  induction count generalizing pre r with
  | zero => exact ⟨r, rfl, h, rfl⟩
  | succ count ih =>
      obtain ⟨new, hlog, hhandled, hposted, horderly⟩ := h.log
      have hlt : pre < ids.length := by
        have := h.le
        omega
      have hpre := hwc pre hlt
      let r₁ : Receiver := { r with log := .post (wc pre).wrId :: r.log }
      have hpost : postReceive around (wc pre).wrId r = .ok () r₁ := by
        unfold postReceive
        rw [Program.bind_gets, if_pos (htakes _ _)]
        rfl
      have hnext : Progress ids before i (pre + 1) r₁ := by
        refine ⟨⟨.post (wc pre).wrId :: new, ?_, hhandled, ?_, ?_, horderly⟩, by omega, h.le⟩
        · rw [List.cons_append, ← hlog]
        · rw [reposted, hposted, take_succ_eq hpre]
        · rw [hposted, hhandled, ← take_succ_eq hpre]
          exact List.take_prefix_take_left (by omega)
      obtain ⟨r₂, hrest, hdone, hdev⟩ := ih hnext (by omega)
      refine ⟨r₂, (Program.bind_of_ok hpost).trans hrest, ?_, hdev⟩
      rwa [Nat.add_right_comm, Nat.add_assoc] at hdone

/-- Whole batches behind the packet that comes next are posted. -/
structure Batched (i pre : Nat) : Prop where
  dvd : postRecvThreshold ∣ pre
  behind : pre = 0 ∨ pre < i

theorem Batched.room (h : Batched i pre) (hi : 0 < i) (hdvd : i % postRecvThreshold = 0) :
    pre + postRecvThreshold ≤ i := by
  obtain ⟨k, hk⟩ := h.dvd
  have := h.behind
  simp only [postRecvThreshold] at *
  omega

theorem Batched.next (h : Batched i pre) : Batched (i + 1) pre :=
  ⟨h.dvd, h.behind.imp_right Nat.lt_succ_of_lt⟩

/-- The loop deals with the packets that are left. -/
theorem Progress.pollFrom {wc : Nat → Completion} {rest : Nat} (h : Progress ids before i pre r)
    (hcounts : Counts ids pre r) (hbatched : Batched i pre) (hrest : i + rest = ids.length)
    (hwc : ∀ j < ids.length, ids[j]? = some (wc j).wrId)
    (htakes : ∀ r wrId, around.takes r wrId = true) :
    ∃ pre' r', Receiver.pollFrom around config wc rest i pre r = .ok pre' r' ∧
      Progress ids before ids.length pre' r' := by
  induction rest generalizing i pre r with
  | zero =>
      obtain rfl : i = ids.length := by omega
      exact ⟨pre, r, rfl, h⟩
  | succ rest ih =>
      have hi := hwc i (by omega)
      have hrest' : i + 1 + rest = ids.length := by omega
      unfold Receiver.pollFrom
      by_cases hinvalid : invalid config (wc i) = true
      · obtain ⟨r₁, hdrop, hnext, hcounts₁⟩ := h.drop hcounts hi
        rw [if_pos hinvalid, Program.bind_of_ok hdrop]
        exact ih hnext hcounts₁ hbatched.next hrest'
      · obtain ⟨r₁, hprocess, hnext, hcounts₁⟩ :=
          h.process around config hcounts hi
        rw [if_neg hinvalid, Program.bind_of_ok hprocess]
        by_cases hdue : 0 < i ∧ i % postRecvThreshold = 0
        · -- The batch ends at the packet that has just been dealt with, at the latest.
          have hroom := hbatched.room hdue.1 hdue.2
          obtain ⟨r₂, hposted, hdone, hdev⟩ :=
            hnext.repost around hwc (Nat.le_succ_of_le hroom) htakes
          let r₃ : Receiver := { r₂ with dev := { r₂.dev with
            pending := r₂.dev.pending - UInt16.ofNat postRecvThreshold } }
          have hcounts₃ : Counts ids (pre + postRecvThreshold) r₃ := by
            have hpending : r₂.dev.pending.toNat = ids.length - pre := by
              rw [hdev]
              exact hcounts₁
            have hthreshold : (UInt16.ofNat postRecvThreshold).toNat = postRecvThreshold := rfl
            show (r₂.dev.pending - UInt16.ofNat postRecvThreshold).toNat = _
            rw [UInt16.toNat_sub_of_le, hpending, hthreshold]
            · omega
            · rw [UInt16.le_iff_toNat_le, hpending, hthreshold]
              omega
          rw [if_pos hdue, Program.bind_of_ok hposted, setPending, Program.bind_update]
          have hdone₃ : Progress ids before (i + 1) (pre + postRecvThreshold) r₃ :=
            ⟨hdone.log, hdone.pre_le, hdone.le⟩
          refine ih hdone₃ hcounts₃ ⟨?_, .inr (by omega)⟩ hrest'
          exact Nat.dvd_add hbatched.dvd (Nat.dvd_refl _)
        · rw [if_neg hdue]
          exact ih hnext hcounts₁ hbatched.next hrest'

/-! ## A whole poll -/

theorem Orderly.pending {total id len : Nat} {pending : UInt16} {later log : List ReceiveEvent}
    (h : Orderly total (later ++ .process id len pending :: log)) :
    pending.toNat = total - (reposted log).length := by
  induction later with
  | nil => exact h.1
  | cons ev later ih =>
      cases ev with
      | process | post => exact ih h.2
      | drop => exact ih h

theorem length_reposted_le {later log : List ReceiveEvent} :
    (reposted log).length ≤ (reposted (later ++ log)).length := by
  induction later with
  | nil => exact Nat.le_refl _
  | cons ev later ih =>
      cases ev with
      | process | drop => exact ih
      | post wrId =>
          simp only [List.cons_append, reposted, List.length_append]
          exact Nat.le_add_right_of_le ih

/-- What the events of a poll say: each buffer is posted once and in order, not before
its packet has been dealt with; the processor finds as many buffers pending as are
held, so that those it may count on are the others; none is pending in the end. -/
structure Reposts (config : ReceiveConfig) (completions : List Completion)
    (new : List ReceiveEvent) (r : Receiver) : Prop where
  handled : handled new = completions.map Completion.wrId
  reposted : reposted new = completions.map Completion.wrId
  orderly : Orderly completions.length new
  available : ∀ later id len pending log, new = later ++ .process id len pending :: log →
    ∀ (mtu buflen : UInt32) (d : Ofed), d.pending = pending →
      ((device config.nbuf mtu buflen).receiveBuffersAvailable d).toNat +
        (completions.length - (Receiver.reposted log).length) = config.nbuf.toNat
  pending : completions ≠ [] → r.dev.pending = 0

/-- However many buffers are completed and whichever packets are dropped, a poll posts
every buffer again. -/
theorem poll_reposts (completions : List Completion) (r : Receiver)
    (hnbuf : completions.length ≤ config.nbuf.toNat)
    (htakes : ∀ r wrId, around.takes r wrId = true) :
    ∃ ret r' new, poll around config (some completions) r = .ok ret r' ∧ r'.log = new ++ r.log ∧
      Reposts config completions new r' := by
  by_cases hnone : completions = []
  · subst hnone
    exact ⟨.noDataAvailable, r, [], rfl, rfl, rfl, rfl, trivial, by simp, fun h => absurd rfl h⟩
  let ids := completions.map Completion.wrId
  let wc : Nat → Completion := fun i => completions.getD i ⟨0, 0, false, false, false⟩
  have hlength : ids.length = completions.length := List.length_map _
  have hwc : ∀ j < ids.length, ids[j]? = some (wc j).wrId := by
    intro j hj
    rw [hlength] at hj
    simp [ids, wc, hj]
  have hfit : completions.length < 2 ^ 16 := Nat.lt_of_le_of_lt hnbuf config.nbuf.toNat_lt
  let r₁ : Receiver := { r with dev := { r.dev with
    pending := UInt16.ofNat completions.length } }
  have hcounts : Counts ids 0 r₁ := by
    rw [Counts, hlength, Nat.sub_zero]
    exact Nat.mod_eq_of_lt hfit
  have hstart : Progress ids r.log 0 0 r₁ :=
    ⟨⟨[], rfl, rfl, rfl, trivial⟩, Nat.le_refl 0, Nat.zero_le _⟩
  obtain ⟨pre, r₂, hloop, hprogress⟩ := hstart.pollFrom around config hcounts
    ⟨Nat.dvd_zero _, .inl rfl⟩ (Nat.zero_add _) hwc htakes
  -- The final sweep.
  have hleft : pre + (completions.length - pre) = ids.length := by
    have := hprogress.pre_le
    omega
  obtain ⟨r₃, hsweep, hdone, hdev⟩ := hprogress.repost around hwc (Nat.le_of_eq hleft) htakes
  obtain ⟨new, hlog, hhandled, hposted, horderly⟩ := hdone.log
  rw [List.take_length] at hhandled
  rw [hleft, List.take_length] at hposted
  rw [hlength] at horderly
  refine ⟨.ok, { r₃ with dev := { r₃.dev with pending := 0 } }, new, ?_, hlog, hhandled, hposted,
    horderly, fun later id len pending log hnew mtu buflen d hd => ?_, fun _ => rfl⟩
  · obtain ⟨c, rest, rfl⟩ := List.exists_cons_of_ne_nil hnone
    unfold poll
    simp only
    rw [hlength] at hloop
    rw [setPending, Program.bind_update, Program.bind_of_ok hloop, Program.bind_of_ok hsweep]
    rfl
  · rw [hnew] at horderly
    have hpending := horderly.pending
    have hle : (reposted log).length ≤ completions.length := by
      have hprefix := @length_reposted_le later (.process id len pending :: log)
      rw [← hnew, hposted, hlength] at hprefix
      exact hprefix
    have hpending' : pending ≤ config.nbuf := by
      rw [UInt16.le_iff_toNat_le]
      omega
    show (config.nbuf - d.pending).toNat + _ = _
    rw [hd, UInt16.toNat_sub_of_le _ _ hpending']
    omega

/-- Forty packets, every third of them with a wrong checksum. -/
theorem poll_reposts_forty :
    let around : Surroundings := ⟨fun _ _ => true, fun _ _ => []⟩
    let config : ReceiveConfig := ⟨64, true, true, true⟩
    let completions := (List.range 40).map fun i => ⟨i, 60, true, i % 3 ≠ 0, true⟩
    let r : Receiver := ⟨.initial 64 [] [] [] [], []⟩
    ∃ ret r' new, poll around config (some completions) r = .ok ret r' ∧ r'.log = new ++ r.log ∧
      Reposts config completions new r' :=
  poll_reposts _ _ _ _ (by decide) fun _ _ => rfl

end Tulips.Ofed.Receiver
