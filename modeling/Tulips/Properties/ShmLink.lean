import Tulips.Transport.Shm
import Mathlib.Data.List.Range
import Mathlib.Data.Nat.ModEq

/-!
# What the shared-memory device delivers

A commit makes the oldest slot visible that has been prepared, whichever buffer
it is about. The peer polls what was committed as long as buffers are committed
in the order they were prepared in.
-/

namespace Tulips.Shm

/-! ## What should be delivered -/

/-- The buffers that are prepared and not committed, and the frames that are
committed and not delivered, oldest first. -/
structure Account where
  pending : List Buffer
  sent : List (List UInt8)

namespace Account

/-- A user only touches buffers it has prepared, and only their bytes. -/
def Allows (a : Account) (mss : Nat) : Op → Prop
  | .fill buf off _ => buf ∈ a.pending ∧ off < mss
  | .commit len buf => buf ∈ a.pending ∧ len.toNat ≤ mss
  | .prepare | .poll => True

instance (a : Account) (mss : Nat) : DecidablePred (a.Allows mss)
  | .fill _ _ _ | .commit _ _ => inferInstanceAs (Decidable (_ ∧ _))
  | .prepare | .poll => inferInstanceAs (Decidable True)

/-- The account after an operation on a link. -/
def after (a : Account) (l : Link) : Op → Account
  | .prepare =>
      if l.prepare.1 = .ok then { a with pending := a.pending ++ [l.prepare.2.1] } else a
  | .commit len (some slot) =>
      { pending := a.pending.erase (some slot)
        sent := a.sent ++ [(List.range len.toNat).map (l.fifo.slots slot).data] }
  | .poll => { a with sent := a.sent.tail }
  | .fill _ _ _ | .commit _ none => a

/-- A buffer is committed in its turn, with a length of 16 bits; the next one is
prepared while a slot is left, or when it is refused; the counter of prepared
slots may only start over at a multiple of the depth. -/
def InTurn (a : Account) (l : Link) : Op → Prop
  | .prepare =>
      (a.sent.length = l.fifo.depth.toNat ∨
        a.pending.length + a.sent.length < l.fifo.depth.toNat) ∧
      (l.fifo.prepareCount.toNat + 1 < 2 ^ 64 ∨ l.fifo.depth.toNat ∣ 2 ^ 64)
  | .commit len buf => a.pending.head? = some buf ∧ len.toNat < 2 ^ 16
  | .fill _ _ _ | .poll => True

instance (a : Account) (l : Link) : DecidablePred (a.InTurn l)
  | .prepare | .commit _ _ => inferInstanceAs (Decidable (_ ∧ _))
  | .fill _ _ _ | .poll => inferInstanceAs (Decidable True)

end Account

/-- Every operation meets the condition. -/
def Meets (good : Link → Account → Op → Prop) (l : Link) (a : Account) : List Op → Prop
  | [] => True
  | op :: ops => good l a op ∧ Meets good (l.exec op).2 (a.after l op) ops

/-- Whether they do is found by performing them. -/
def Meets.decide {good : Link → Account → Op → Prop} [∀ l a, DecidablePred (good l a)]
    (l : Link) (a : Account) : (ops : List Op) → Decidable (Meets good l a ops)
  | [] => inferInstanceAs (Decidable True)
  | op :: ops =>
      have : Decidable (Meets good (l.exec op).2 (a.after l op) ops) := Meets.decide _ _ ops
      inferInstanceAs (Decidable (good l a op ∧ _))

instance {good : Link → Account → Op → Prop} [∀ l a, DecidablePred (good l a)] (l : Link)
    (a : Account) (ops : List Op) : Decidable (Meets good l a ops) := Meets.decide l a ops

/-- As long as every operation meets a condition, no access faults and every
poll hands over the oldest frame that was committed and not delivered. -/
def Faithful (good : Link → Account → Op → Prop) (l : Link) (a : Account) : List Op → Prop
  | [] => True
  | op :: ops => good l a op →
      ((l.exec op).1 ≠ .fault ∧ (op = .poll → (l.exec op).1 = .frame a.sent.head?)) ∧
        Faithful good (l.exec op).2 (a.after l op) ops

/-! ## Counters -/

/-- The slot of a count that has not started over. -/
def slotOf (l : Link) (x : Nat) : Nat := x % l.fifo.depth.toNat

/-- Different counts less than the depth apart have different slots. -/
theorem slotOf_ne {l : Link} {x y : Nat} (h : x < y) (hy : y < x + l.fifo.depth.toNat) :
    slotOf l x ≠ slotOf l y :=
  Counter.mod_ne h hy

/-- A link stands by its account when its counters are `r`, `w` and `p` up to
starting over, the slots from `r` to `w` hold the frames sent, and the slots
from `w` to `p` are the pending buffers. -/
structure Agrees (l : Link) (a : Account) (r w p : Nat) : Prop where
  depth_pos : 0 < l.fifo.depth.toNat
  readCount : l.fifo.readCount = UInt64.ofNat r
  writeCount : l.fifo.writeCount = UInt64.ofNat w
  prepareCount : l.fifo.prepareCount = UInt64.ofNat p
  sent_le : r ≤ w
  pending_le : w ≤ p
  room : p ≤ r + l.fifo.depth.toNat
  turn : p < 2 ^ 64 ∨ l.fifo.depth.toNat ∣ 2 ^ 64
  sent : a.sent = (List.range' r (w - r)).map fun x => (l.fifo.slots (slotOf l x)).frame
  pending : a.pending = (List.range' w (p - w)).map fun x => some (slotOf l x)

namespace Agrees

variable {l : Link} {a : Account} {r w p : Nat}

theorem length_sent (h : Agrees l a r w p) : a.sent.length = w - r := by
  rw [h.sent, List.length_map, List.length_range']

theorem length_pending (h : Agrees l a r w p) : a.pending.length = p - w := by
  rw [h.pending, List.length_map, List.length_range']

/-- A counter finds the slot of its count. -/
theorem index_eq (h : Agrees l a r w p) {x : Nat} (hx : x ≤ p) :
    l.fifo.index (UInt64.ofNat x) = slotOf l x :=
  Counter.mod_toNat (h.turn.imp_left fun hlt => by omega)

theorem full_iff (h : Agrees l a r w p) : l.fifo.full = true ↔ w = r + l.fifo.depth.toNat :=
  Fifo.full_iff h.readCount h.writeCount h.sent_le (h.pending_le.trans h.room)

theorem mustCommit_iff (h : Agrees l a r w p) :
    l.fifo.mustCommit = true ↔ p = r + l.fifo.depth.toNat :=
  Fifo.mustCommit_iff h.readCount h.prepareCount (h.sent_le.trans h.pending_le) h.room

theorem empty_iff (h : Agrees l a r w p) : l.fifo.empty = true ↔ r = w :=
  Fifo.empty_iff h.readCount h.writeCount h.sent_le (h.pending_le.trans h.room)

theorem mustPrepare_iff (h : Agrees l a r w p) : l.fifo.mustPrepare = true ↔ p = w := by
  have hroom : p ≤ w + l.fifo.depth.toNat := by
    have := h.room
    have := h.sent_le
    omega
  exact Fifo.mustPrepare_iff h.writeCount h.prepareCount h.pending_le hroom

/-- What is stored in a slot is not seen in the frames of the others. -/
theorem sent_update (h : Agrees l a r w p) {x : Nat} (hx : w ≤ x) (hxp : x < p)
    (packet : Packet) : a.sent = (List.range' r (w - r)).map fun y =>
      (Function.update l.fifo.slots (slotOf l x) packet (slotOf l y)).frame := by
  rw [h.sent]
  refine List.map_congr_left fun y hy => ?_
  obtain ⟨hry, hyw⟩ := List.mem_range'_1.mp hy
  have := h.room
  have := h.sent_le
  have hne : slotOf l y ≠ slotOf l x := slotOf_ne (by omega) (by omega)
  rw [Function.update_of_ne hne]

theorem prepare (h : Agrees l a r w p) (hturn : a.InTurn l .prepare) :
    (l.exec .prepare).1 ≠ .fault ∧ ∃ r' w' p', Agrees (l.exec .prepare).2 (a.after l .prepare)
      r' w' p' := by
  refine ⟨by simp [Link.exec], ?_⟩
  obtain ⟨hroom, hcount⟩ := hturn
  rw [h.length_sent, h.length_pending] at hroom
  have hle := h.sent_le
  have hle' := h.pending_le
  by_cases hfull : l.fifo.full = true
  · refine ⟨r, w, p, ?_⟩
    have hexec : l.exec .prepare = (.buffer .noMoreResources none, l) := by
      simp [Link.exec, Link.prepare, hfull]
    have hafter : a.after l .prepare = a := by
      simp [Account.after, Link.prepare, hfull]
    rw [hexec, hafter]
    exact h
  · have hfree : ¬l.fifo.mustCommit = true := by
      rw [h.mustCommit_iff]
      rw [h.full_iff] at hfull
      omega
    have hprep : l.prepare = (.ok, some (slotOf l p),
        { l with fifo := { l.fifo with prepareCount := l.fifo.prepareCount + 1 } }) := by
      simp only [Link.prepare, hfull, Fifo.prepare, hfree, h.prepareCount,
        h.index_eq (Nat.le_refl p)]
      rfl
    refine ⟨r, w, p + 1, ?_⟩
    have hexec : (l.exec .prepare).2 =
        { l with fifo := { l.fifo with prepareCount := l.fifo.prepareCount + 1 } } := by
      simp only [Link.exec, hprep]
    have hafter : a.after l .prepare = { a with pending := a.pending ++ [some (slotOf l p)] } := by
      simp [Account.after, hprep]
    rw [hexec, hafter]
    refine ⟨h.depth_pos, h.readCount, h.writeCount, ?_, hle, by omega, ?_, ?_, h.sent, ?_⟩
    · show l.fifo.prepareCount + 1 = _
      rw [h.prepareCount, UInt64.ofNat_add]
      rfl
    · show p + 1 ≤ r + l.fifo.depth.toNat
      have := h.room
      rw [h.mustCommit_iff] at hfree
      omega
    · rcases hcount with hlt | hdvd
      · rcases h.turn with hp | hdvd
        · rw [h.prepareCount, UInt64.toNat_ofNat', Nat.mod_eq_of_lt hp] at hlt
          exact .inl hlt
        · exact .inr hdvd
      · exact .inr hdvd
    · show a.pending ++ [some (slotOf l p)] = _
      have hsub : p + 1 - w = p - w + 1 := by omega
      have hend : w + 1 * (p - w) = p := by omega
      rw [h.pending, hsub, List.range'_concat, hend, List.map_append]
      rfl

theorem fill (h : Agrees l a r w p) {buf : Buffer} {off : Nat} {byte : UInt8}
    (hallows : a.Allows l.mss (.fill buf off byte)) :
    (l.exec (.fill buf off byte)).1 ≠ .fault ∧
      Agrees (l.exec (.fill buf off byte)).2 (a.after l (.fill buf off byte)) r w p := by
  have hmem := hallows.1
  rw [h.pending] at hmem
  obtain ⟨x, hx, rfl⟩ := List.mem_map.mp hmem
  obtain ⟨hwx, hxp⟩ := List.mem_range'_1.mp hx
  have := h.pending_le
  exact ⟨by simp [Link.exec], h.depth_pos, h.readCount, h.writeCount, h.prepareCount, h.sent_le,
    h.pending_le, h.room, h.turn, h.sent_update hwx (by omega) _, h.pending⟩

theorem commit (h : Agrees l a r w p) {len : UInt32} {buf : Buffer}
    (hturn : a.InTurn l (.commit len buf)) :
    (l.exec (.commit len buf)).1 ≠ .fault ∧ ∃ r' w' p',
      Agrees (l.exec (.commit len buf)).2 (a.after l (.commit len buf)) r' w' p' := by
  obtain ⟨hhead, hlen⟩ := hturn
  have hle := h.sent_le
  have hle' := h.pending_le
  -- The oldest pending buffer is the slot the FIFO makes visible.
  obtain ⟨d, hd⟩ : ∃ d, p - w = d + 1 := by
    refine Nat.exists_eq_succ_of_ne_zero fun hzero => ?_
    rw [h.pending, hzero] at hhead
    cases hhead
  have hpending : a.pending =
      some (slotOf l w) :: (List.range' (w + 1) d).map fun x => some (slotOf l x) := by
    rw [h.pending, hd, List.range'_succ]
    rfl
  rw [hpending, List.head?_cons, Option.some_inj] at hhead
  subst hhead
  have hready : ¬l.fifo.mustPrepare = true := by
    rw [h.mustPrepare_iff]
    omega
  let packet : Packet := { l.fifo.slots (slotOf l w) with len := len }
  have hexec : (l.exec (.commit len (some (slotOf l w)))).2 = { l with fifo := { l.fifo with
      slots := Function.update l.fifo.slots (slotOf l w) packet
      writeCount := l.fifo.writeCount + 1 } } := by
    have hready' : (l.fifo.prepareCount == l.fifo.writeCount) = false := by
      simpa [Fifo.mustPrepare] using hready
    simp [Link.exec, Link.commit, Fifo.commit, Fifo.mustPrepare, hready', packet]
  refine ⟨by simp [Link.exec], r, w + 1, p, ?_⟩
  rw [hexec]
  refine ⟨h.depth_pos, h.readCount, ?_, h.prepareCount, by omega, by omega, h.room, h.turn, ?_, ?_⟩
  · show l.fifo.writeCount + 1 = _
    rw [h.writeCount, UInt64.ofNat_add]
    rfl
  · have hframe : packet.frame = (List.range len.toNat).map (l.fifo.slots (slotOf l w)).data := by
      have hshort : len.toUInt16.toNat = len.toNat := by
        rw [UInt32.toNat_toUInt16, Nat.mod_eq_of_lt hlen]
      simp only [Packet.frame, packet, hshort]
    show a.sent ++ [_] = (List.range' r (w + 1 - r)).map fun x =>
      (Function.update l.fifo.slots (slotOf l w) packet (slotOf l x)).frame
    have hsub : w + 1 - r = w - r + 1 := by omega
    have hend : r + 1 * (w - r) = w := by omega
    rw [h.sent_update (Nat.le_refl w) (by omega) packet, hsub, List.range'_concat, hend,
      List.map_append, List.map_singleton, Function.update_self, hframe]
  · show a.pending.erase _ = _
    have hsub : p - (w + 1) = d := by omega
    rw [hpending, List.erase_cons_head, hsub]
    rfl

/-- A poll hands over the oldest frame. -/
theorem poll (h : Agrees l a r w p) : (l.exec .poll).1 = .frame a.sent.head? ∧
    ∃ r' w' p', Agrees (l.exec .poll).2 (a.after l .poll) r' w' p' := by
  have hle := h.sent_le
  have hle' := h.pending_le
  by_cases hempty : l.fifo.empty = true
  · have hnone : a.sent = [] := by
      rw [h.sent, h.empty_iff.mp hempty, Nat.sub_self]
      rfl
    have hexec : l.exec .poll = (.frame none, l) := by
      simp [Link.exec, Link.poll, hempty]
    have hafter : a.after l .poll = a := by
      show ({ a with sent := a.sent.tail } : Account) = a
      rw [hnone, List.tail_nil, ← hnone]
    rw [hexec, hafter, hnone]
    exact ⟨rfl, r, w, p, h⟩
  · have hlt : r < w := by
      rw [h.empty_iff] at hempty
      omega
    obtain ⟨d, hd⟩ : ∃ d, w - r = d + 1 := Nat.exists_eq_succ_of_ne_zero (by omega)
    have hsent : a.sent = (l.fifo.slots (slotOf l r)).frame ::
        (List.range' (r + 1) d).map fun x => (l.fifo.slots (slotOf l x)).frame := by
      rw [h.sent, hd, List.range'_succ]
      rfl
    have hexec : l.exec .poll = (.frame (some (l.fifo.slots (slotOf l r)).frame),
        { l with fifo := { l.fifo with readCount := l.fifo.readCount + 1 } }) := by
      have hindex : l.fifo.index l.fifo.readCount = slotOf l r := by
        rw [h.readCount, h.index_eq (hle.trans hle')]
      simp [Link.exec, Link.poll, Fifo.front, Fifo.pop, hempty, hindex]
    rw [hexec, hsent]
    refine ⟨rfl, r + 1, w, p, h.depth_pos, ?_, h.writeCount, h.prepareCount, by omega, hle', ?_,
      h.turn, ?_, h.pending⟩
    · show l.fifo.readCount + 1 = _
      rw [h.readCount, UInt64.ofNat_add]
      rfl
    · show p ≤ r + 1 + l.fifo.depth.toNat
      have := h.room
      omega
    · show a.sent.tail = _
      have hsub : w - (r + 1) = d := by omega
      rw [hsent, List.tail_cons, hsub]
      rfl

/-- As long as buffers are committed in their turn the link is faithful. -/
theorem faithful (h : Agrees l a r w p) (ops : List Op) :
    Faithful (fun l a op => a.Allows l.mss op ∧ a.InTurn l op) l a ops := by
  induction ops generalizing l a r w p with
  | nil => trivial
  | cons op ops ih =>
      rintro ⟨hallows, hturn⟩
      cases op with
      | prepare =>
          obtain ⟨hout, r', w', p', hnext⟩ := h.prepare hturn
          exact ⟨⟨hout, fun h => by cases h⟩, ih hnext⟩
      | fill buf off byte =>
          obtain ⟨hout, hnext⟩ := h.fill hallows
          exact ⟨⟨hout, fun h => by cases h⟩, ih hnext⟩
      | commit len buf =>
          obtain ⟨hout, r', w', p', hnext⟩ := h.commit hturn
          exact ⟨⟨hout, fun h => by cases h⟩, ih hnext⟩
      | poll =>
          obtain ⟨hout, r', w', p', hnext⟩ := h.poll
          exact ⟨⟨by simp [hout], fun _ => hout⟩, ih hnext⟩

end Agrees

/-! ## Every sequence of calls -/

/-- The peer polls exactly the committed frames, in the order of their commits,
as long as each operation keeps its turn. -/
theorem link_faithful (depth : UInt64) (mss : Nat) (hdepth : 0 < depth.toNat) (ops : List Op) :
    Faithful (fun l a op => a.Allows l.mss op ∧ a.InTurn l op)
      (.create depth mss) ⟨[], []⟩ ops := by
  have h : Agrees (.create depth mss) ⟨[], []⟩ 0 0 0 :=
    ⟨hdepth, rfl, rfl, rfl, Nat.le_refl _, Nat.le_refl _, Nat.zero_le _, .inl (by decide), rfl, rfl⟩
  exact h.faithful ops

/-- Two buffers are committed in their turn and polled, and the first is used again. -/
theorem link_faithful_pair :
    let good := fun (l : Link) (a : Account) (op : Op) => a.Allows l.mss op ∧ a.InTurn l op
    let ops : List Op := [.prepare, .prepare, .fill (some 0) 0 1, .commit 1 (some 0),
      .commit 0 (some 1), .poll, .prepare, .fill (some 0) 1 2, .poll, .commit 2 (some 0), .poll]
    Meets good (.create 2 4) ⟨[], []⟩ ops ∧ Faithful good (.create 2 4) ⟨[], []⟩ ops :=
  ⟨by decide, link_faithful 2 4 (by decide) _⟩

/-- The buffer prepared second is committed first, and the peer gets the slot of
the other one. -/
theorem link_not_faithful : ¬ ∀ (depth : UInt64) (mss : Nat), 0 < depth.toNat → ∀ ops,
    Faithful (fun l a op => a.Allows l.mss op) (.create depth mss) ⟨[], []⟩ ops := by
  intro hall
  have h := hall 2 4 (by decide)
    [.prepare, .prepare, .fill (some 1) 0 7, .commit 1 (some 1), .poll]
  have hpoll := (((((h (by decide)).2 (by decide)).2 (by decide)).2 (by decide)).2 (by decide)).1.2
    rfl
  revert hpoll
  decide

end Tulips.Shm
