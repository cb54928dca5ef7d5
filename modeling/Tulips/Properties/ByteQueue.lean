import Tulips.System.CircularBuffer

/-!
# The circular buffer as a queue of bytes

A buffer whose size is a power of two is a bounded first-in first-out queue of
bytes. With any other size the mask drops bits of the offsets, and some byte is
read from where it was never written.
-/

namespace Tulips

/-! ## The queue -/

namespace ByteQueue

open CircularBuffer (Op Result Shown)

/-- A call on a queue of bytes that holds at most `cap` of them. -/
def exec (cap : Nat) (q : List UInt8) : Op → Result × List UInt8
  | .read len => (.bytes (q.take len.toNat), q.drop len.toNat)
  | .write buffer len =>
      let n := min len.toNat (cap - q.length)
      (.count n, q ++ (List.range n).map buffer)
  | .skip len => (.nothing, q.drop len.toNat)
  | .reset => (.nothing, [])

def run (cap : Nat) (q : List UInt8) : List Op → List Shown
  | [] => []
  | op :: ops =>
      let next := exec cap q op
      ⟨next.1, cap - next.2.length, next.2.length, next.2⟩ :: run cap next.2 ops

end ByteQueue

/-- Every sequence of calls shows what the queue of that capacity would. -/
def CircularBuffer.IsQueue (b : CircularBuffer) : Prop :=
  ∀ ops, b.run ops = ByteQueue.run b.size.toNat [] ops

namespace CircularBuffer

/-! ## Sizes -/

/-- A mask one below a power of two is a remainder. -/
theorem toNat_and_mask {x size : UInt64} {k : Nat} (hsize : size.toNat = 2 ^ k) :
    (x &&& (size - 1)).toNat = x.toNat % size.toNat := by
  have hpos : (1 : UInt64) ≤ size := by
    have : 0 < size.toNat := by rw [hsize]; exact Nat.two_pow_pos k
    exact UInt64.le_iff_toNat_le.mpr this
  have hsub : (size - 1).toNat = 2 ^ k - 1 := by
    rw [UInt64.toNat_sub_of_le _ _ hpos, hsize]
    rfl
  rw [UInt64.toNat_and, hsub, Nat.and_two_pow_sub_one_eq_mod, hsize]

/-- When the mask of a size keeps every offset, the size is a power of two. -/
theorem eq_two_pow_of_mask {n : Nat} (hn : 0 < n) (h : ∀ r < n, r &&& (n - 1) = r) :
    ∃ k, n = 2 ^ k := by
  by_cases hone : n = 1
  · exact ⟨0, hone⟩
  have hne : n - 1 ≠ 0 := by omega
  -- Every bit up to the highest one is set.
  refine ⟨Nat.log2 (n - 1) + 1, ?_⟩
  have hlow : 2 ^ Nat.log2 (n - 1) ≤ n - 1 := Nat.log2_self_le hne
  have hhigh : n - 1 < 2 ^ (Nat.log2 (n - 1) + 1) := Nat.lt_log2_self
  have hall : n - 1 = 2 ^ (Nat.log2 (n - 1) + 1) - 1 := by
    refine Nat.eq_of_testBit_eq fun i => ?_
    rw [Nat.testBit_two_pow_sub_one]
    by_cases hi : i < Nat.log2 (n - 1) + 1
    · have hle : 2 ^ i ≤ 2 ^ Nat.log2 (n - 1) := Nat.pow_le_pow_right (by decide) (by omega)
      have hbit := congrArg (Nat.testBit · i) (h (2 ^ i) (by omega))
      simpa [Nat.testBit_and, hi] using hbit
    · have hle : 2 ^ (Nat.log2 (n - 1) + 1) ≤ 2 ^ i := Nat.pow_le_pow_right (by decide) (by omega)
      rw [Nat.testBit_lt_two_pow (by omega)]
      simpa using hi
  omega

/-! ## Refinement -/

/-- The buffer holds the bytes of the queue, from the offset it reads at. -/
structure Refines (b : CircularBuffer) (q : List UInt8) : Prop where
  pow : ∃ k, b.size.toNat = 2 ^ k
  room : 2 * b.size.toNat ≤ 2 ^ 64
  mask : b.mask = b.size - 1
  count : b.available.toNat = q.length
  fits : q.length ≤ b.size.toNat
  holds : CircularMemory.load b.size.toNat b.data b.read.toNat q.length = q

namespace Refines

variable {b : CircularBuffer} {q : List UInt8}

theorem dvd (h : Refines b q) : b.size.toNat ∣ 2 ^ 64 := by
  obtain ⟨k, hk⟩ := h.pow
  have hroom := h.room
  rw [hk] at hroom ⊢
  refine pow_dvd_pow 2 ?_
  by_contra hlt
  have : 2 ^ 65 ≤ 2 ^ k := Nat.pow_le_pow_right (by decide) (by omega)
  omega

/-- Counters that start over at `2 ^ 64` do so at a multiple of the size. -/
theorem add_modEq (h : Refines b q) (x n : UInt64) :
    (x + n).toNat ≡ x.toNat + n.toNat [MOD b.size.toNat] := by
  rw [UInt64.toNat_add]
  exact (Nat.mod_modEq _ _).of_dvd h.dvd

theorem readAt_eq (h : Refines b q) : b.readAt.toNat = b.read.toNat % b.size.toNat := by
  obtain ⟨k, hk⟩ := h.pow
  rw [readAt, h.mask, toNat_and_mask hk]

/-- Writing goes on where the queue ends. -/
theorem writeAt_modEq (h : Refines b q) :
    b.writeAt.toNat ≡ b.read.toNat + q.length [MOD b.size.toNat] := by
  obtain ⟨k, hk⟩ := h.pow
  have hwrite : b.read + b.available = b.write := by
    rw [available]
    grind
  have hmod := h.add_modEq b.read b.available
  rw [hwrite, h.count] at hmod
  rw [writeAt, h.mask, toNat_and_mask hk]
  exact (Nat.mod_modEq _ _).trans hmod

theorem left_eq (h : Refines b q) : b.left.toNat = b.size.toNat - q.length := by
  have hle : b.available ≤ b.size := UInt64.le_iff_toNat_le.mpr (by rw [h.count]; exact h.fits)
  rw [left, UInt64.toNat_sub_of_le _ _ hle, h.count]

/-- The bytes at the offset that is read at are the oldest of the queue. -/
theorem bytesAt_readAt (h : Refines b q) {n : UInt64} (hn : n.toNat ≤ q.length) :
    b.bytesAt b.readAt n = q.take n.toNat := by
  rw [bytesAt, h.readAt_eq, CircularMemory.load_mod, ← CircularMemory.take_load _ _ hn, h.holds]

theorem toNat_min (len delta : UInt64) :
    (if len > delta then delta else len).toNat = min len.toNat delta.toNat := by
  split
  · next h =>
      have : delta.toNat < len.toNat := UInt64.lt_iff_toNat_lt.mp h
      omega
  · next h =>
      have : ¬delta.toNat < len.toNat := fun hlt => h (UInt64.lt_iff_toNat_lt.mpr hlt)
      omega

/-- Moving the read counter on drops the oldest bytes. -/
theorem advance (h : Refines b q) {n : UInt64} (hn : n.toNat ≤ q.length) :
    Refines { b with read := b.read + n } (q.drop n.toNat) where
  pow := h.pow
  room := h.room
  mask := h.mask
  count := by
    have hle : n ≤ b.available := UInt64.le_iff_toNat_le.mpr (by rw [h.count]; exact hn)
    have hsub : b.write - (b.read + n) = b.available - n := by
      rw [available]
      grind
    show (b.write - (b.read + n)).toNat = _
    rw [hsub, UInt64.toNat_sub_of_le _ _ hle, h.count, List.length_drop]
  fits := by
    have := h.fits
    rw [List.length_drop]
    show _ ≤ b.size.toNat
    omega
  holds := by
    show CircularMemory.load b.size.toNat b.data (b.read + n).toNat _ = _
    have hmod : (b.read + n).toNat % b.size.toNat =
        (b.read.toNat + n.toNat) % b.size.toNat := h.add_modEq b.read n
    rw [← CircularMemory.load_mod, hmod, CircularMemory.load_mod, List.length_drop,
      ← CircularMemory.drop_load _ _ hn, h.holds]

/-- New bytes go behind the queue, over none of its own. -/
theorem extend (h : Refines b q) {n : UInt64} {bytes : List UInt8}
    (hlen : bytes.length = n.toNat) (hn : n.toNat ≤ b.size.toNat - q.length) :
    Refines { b with
      data := CircularMemory.store b.size.toNat b.data b.writeAt.toNat bytes
      write := b.write + n } (q ++ bytes) where
  pow := h.pow
  room := h.room
  mask := h.mask
  count := by
    have hadd : b.write + n - b.read = b.available + n := by
      rw [available]
      grind
    have hfits := h.fits
    have hroom := h.room
    show (b.write + n - b.read).toNat = _
    rw [hadd, UInt64.toNat_add, h.count, List.length_append, hlen, Nat.mod_eq_of_lt (by omega)]
  fits := by
    have := h.fits
    rw [List.length_append, hlen]
    show _ ≤ b.size.toNat
    omega
  holds := by
    have hfits := h.fits
    show CircularMemory.load b.size.toNat _ b.read.toNat (q ++ bytes).length = _
    rw [CircularMemory.store_congr h.writeAt_modEq, List.length_append, CircularMemory.load_add,
      CircularMemory.load_store_before _ _ _ (by omega), h.holds,
      CircularMemory.load_store_self _ _ (by omega)]

theorem reset (h : Refines b q) : Refines b.reset [] where
  pow := h.pow
  room := h.room
  mask := h.mask
  count := by simp [CircularBuffer.reset, available]
  fits := Nat.zero_le _
  holds := rfl

/-- Every call returns what the queue returns and keeps the refinement. -/
theorem exec (h : Refines b q) (op : Op) :
    (b.exec op).1 = (ByteQueue.exec b.size.toNat q op).1 ∧
      Refines (b.exec op).2 (ByteQueue.exec b.size.toNat q op).2 ∧
      (b.exec op).2.size = b.size := by
  have hmin (len : UInt64) : (if len > b.available then b.available else len).toNat =
      min len.toNat q.length := by
    rw [toNat_min, h.count]
  have hall (k : Nat) : q.take (min k q.length) = q.take k ∧
      q.drop (min k q.length) = q.drop k := by
    rcases Nat.le_total k q.length with hk | hk
    · rw [Nat.min_eq_left hk]
      exact ⟨rfl, rfl⟩
    · rw [Nat.min_eq_right hk, List.take_length, List.drop_length, List.take_of_length_le hk,
        List.drop_of_length_le hk]
      exact ⟨rfl, rfl⟩
  cases op with
  | read len =>
      have hn : (if len > b.available then b.available else len).toNat ≤ q.length := by
        rw [hmin]
        exact Nat.min_le_right _ _
      refine ⟨?_, ?_, rfl⟩
      · show Result.bytes (b.bytesAt b.readAt _) = .bytes (q.take len.toNat)
        rw [h.bytesAt_readAt hn, hmin, (hall _).1]
      · have hnext := h.advance hn
        rw [hmin, (hall _).2] at hnext
        exact hnext
  | write buffer len =>
      have hn : (if len > b.left then b.left else len).toNat =
          min len.toNat (b.size.toNat - q.length) := by
        rw [toNat_min, h.left_eq]
      refine ⟨congrArg Result.count hn, ?_, rfl⟩
      have hbytes : (List.range (min len.toNat (b.size.toNat - q.length))).map buffer =
          (List.range (if len > b.left then b.left else len).toNat).map buffer := by rw [hn]
      show Refines _ (q ++ (List.range (min len.toNat (b.size.toNat - q.length))).map buffer)
      rw [hbytes]
      exact h.extend (by simp) (by rw [hn]; exact Nat.min_le_right _ _)
  | skip len =>
      refine ⟨rfl, ?_, rfl⟩
      have hnext := h.advance (n := if len > b.available then b.available else len)
        (by rw [hmin]; exact Nat.min_le_right _ _)
      rw [hmin, (hall _).2] at hnext
      exact hnext
  | reset => exact ⟨rfl, h.reset, rfl⟩

theorem run_eq (h : Refines b q) (ops : List Op) :
    b.run ops = ByteQueue.run b.size.toNat q ops := by
  induction ops generalizing b q with
  | nil => rfl
  | cons op ops ih =>
      obtain ⟨hresult, hnext, hsize⟩ := h.exec op
      have hexposed := hnext.bytesAt_readAt (n := (b.exec op).2.available) hnext.count.le
      rw [hnext.count, List.take_length] at hexposed
      have hleft := hnext.left_eq
      rw [hsize] at hleft
      simp only [run, ByteQueue.run, hresult, hleft, hnext.count, hexposed]
      rw [ih hnext, hsize]

end Refines

/-! ## New buffers -/

variable {pagesize size : UInt64} {b : CircularBuffer}

theorem create_eq_some (h : create pagesize size = some b) :
    b = ⟨fit pagesize size, fit pagesize size - 1, fun _ => 0, 0, 0⟩ ∧
      0 < (fit pagesize size).toNat ∧ 2 * (fit pagesize size).toNat ≤ 2 ^ 64 := by
  simp only [create] at h
  split at h
  · cases h
  next hroom =>
  obtain ⟨hne, hfit⟩ := not_or.mp hroom
  cases h
  refine ⟨rfl, Nat.pos_of_ne_zero fun hzero => hne (UInt64.toNat_inj.mp hzero), by omega⟩

/-- The size is a whole number of pages, the fewest that hold what was asked for. -/
theorem fit_spec (hpage : ∃ k, pagesize.toNat = 2 ^ k) (h : create pagesize size = some b) :
    size.toNat ≤ b.size.toNat ∧ b.size.toNat < size.toNat + pagesize.toNat ∧
      pagesize.toNat ∣ b.size.toNat := by
  obtain ⟨k, hk⟩ := hpage
  have hpos : 0 < pagesize.toNat := by rw [hk]; exact Nat.two_pow_pos k
  obtain ⟨rfl, hfit, -⟩ := create_eq_some h
  have hdiv := Nat.div_add_mod size.toNat pagesize.toNat
  have hmod := Nat.mod_lt size.toNat hpos
  have hlt := size.toNat_lt
  have hmul : (size / pagesize * pagesize).toNat =
      pagesize.toNat * (size.toNat / pagesize.toNat) := by
    rw [UInt64.toNat_mul, UInt64.toNat_div, Nat.mul_comm, Nat.mod_eq_of_lt (by omega)]
  show _ ≤ (fit pagesize size).toNat ∧ (fit pagesize size).toNat < _ ∧ _ ∣ (fit pagesize size).toNat
  simp only [fit] at hfit ⊢
  split at hfit
  · next hshort =>
      have hshort' := UInt64.lt_iff_toNat_lt.mp hshort
      rw [hmul] at hshort'
      -- A sum that starts over would be empty: the page size divides `2 ^ 64`.
      have hdvd : pagesize.toNat ∣ 2 ^ 64 := by
        rw [hk]
        refine pow_dvd_pow 2 ?_
        have := pagesize.toNat_lt
        rw [hk] at this
        exact Nat.le_of_lt_succ (by
          by_contra hle
          have : 2 ^ 65 ≤ 2 ^ k := Nat.pow_le_pow_right (by decide) (by omega)
          omega)
      have hsum : (size / pagesize * pagesize + pagesize).toNat =
          pagesize.toNat * (size.toNat / pagesize.toNat) + pagesize.toNat := by
        rw [UInt64.toNat_add, hmul] at hfit ⊢
        refine Nat.mod_eq_of_lt ?_
        by_contra hover
        obtain ⟨j, hj⟩ := hdvd
        have hle : pagesize.toNat * (size.toNat / pagesize.toNat) < pagesize.toNat * j := by omega
        have hlt' : size.toNat / pagesize.toNat < j := Nat.lt_of_mul_lt_mul_left hle
        have hmul' : pagesize.toNat * (size.toNat / pagesize.toNat + 1) ≤ pagesize.toNat * j :=
          Nat.mul_le_mul_left _ hlt'
        rw [Nat.mul_add, Nat.mul_one] at hmul'
        have heq : pagesize.toNat * (size.toNat / pagesize.toNat) + pagesize.toNat = 2 ^ 64 := by
          omega
        rw [heq, Nat.mod_self] at hfit
        cases hfit
      rw [if_pos hshort, hsum]
      exact ⟨by omega, by omega, Nat.dvd_add (Nat.dvd_mul_right _ _) (Nat.dvd_refl _)⟩
  · next hlong =>
      have hlong' : ¬_ < _ := fun h => hlong (UInt64.lt_iff_toNat_lt.mpr h)
      rw [hmul] at hlong'
      rw [if_neg hlong, hmul]
      exact ⟨by omega, by omega, Nat.dvd_mul_right _ _⟩

/-- A new buffer whose size is a power of two is an empty queue. -/
theorem create_refines (h : create pagesize size = some b)
    (hpow : ∃ k, (fit pagesize size).toNat = 2 ^ k) : Refines b [] := by
  obtain ⟨rfl, -, hroom⟩ := create_eq_some h
  exact ⟨hpow, hroom, rfl, by simp [available], Nat.zero_le _, rfl⟩

/-- With any other size there is a byte that comes out wrong: it is written to
an offset that the mask sends the reader away from. -/
theorem create_not_isQueue (h : create pagesize size = some b)
    (hpow : ¬∃ k, (fit pagesize size).toNat = 2 ^ k) : ¬b.IsQueue := by
  obtain ⟨rfl, hpos, hroom⟩ := create_eq_some h
  revert hpos hroom hpow
  generalize fit pagesize size = s
  intro hpow hpos hroom hqueue
  obtain ⟨r, hr, hmask⟩ : ∃ r < s.toNat, r &&& (s.toNat - 1) ≠ r := by
    by_contra hnone
    push Not at hnone
    exact hpow (eq_two_pow_of_mask hpos hnone)
  let buffer : Bytes := fun i => if i = r then 1 else 0
  let data := CircularMemory.store s.toNat (fun _ => 0) 0 ((List.range s.toNat).map buffer)
  have hrNat : (UInt64.ofNat r).toNat = r := by
    rw [UInt64.toNat_ofNat', Nat.mod_eq_of_lt (by omega)]
  have hle : UInt64.ofNat r ≤ s := UInt64.le_iff_toNat_le.mpr (by omega)
  have hskip : ¬UInt64.ofNat r > s := UInt64.not_lt.mpr hle
  have hread : ¬1 > s - UInt64.ofNat r := by
    rw [gt_iff_lt, UInt64.not_lt, UInt64.le_iff_toNat_le, UInt64.toNat_sub_of_le _ _ hle, hrNat]
    show 1 ≤ _
    omega
  -- Write the whole buffer, skip to the byte and read it.
  have hwrite : exec ⟨s, s - 1, fun _ => 0, 0, 0⟩ (.write buffer s) =
      (.count s.toNat, ⟨s, s - 1, data, 0, s⟩) := by
    simp [exec, writeIn, left, available, writeAt, data]
  have hskipped : exec ⟨s, s - 1, data, 0, s⟩ (.skip (UInt64.ofNat r)) =
      (.nothing, ⟨s, s - 1, data, UInt64.ofNat r, s⟩) := by
    simp [exec, skip, available, hskip]
  have hgot : (exec ⟨s, s - 1, data, UInt64.ofNat r, s⟩ (.read 1)).1 =
      .bytes [data ((r &&& (s.toNat - 1)) % s.toNat)] := by
    have hmask : (UInt64.ofNat r &&& (s - 1)).toNat = r &&& (s.toNat - 1) := by
      have hone : (1 : UInt64) ≤ s := UInt64.le_iff_toNat_le.mpr hpos
      rw [UInt64.toNat_and, hrNat, UInt64.toNat_sub_of_le _ _ hone]
      rfl
    simp [exec, readOut, available, hread, bytesAt, readAt, CircularMemory.load, hmask]
  have hthird := congrArg (fun l => l[2]?.map Shown.result)
    (hqueue [.write buffer s, .skip (UInt64.ofNat r), .read 1])
  simp only [run, hwrite, hskipped, hgot] at hthird
  have hbyte := Result.bytes.inj (Option.some.inj hthird)
  have hqueued : ((List.range s.toNat).map buffer).drop r =
      buffer r :: ((List.range s.toNat).map buffer).drop (r + 1) := by
    rw [List.drop_eq_getElem_cons (by simpa using hr)]
    simp
  have hstored : ∀ x < s.toNat, data x = buffer x := by
    intro x hx
    have hload : CircularMemory.load s.toNat data 0 s.toNat = (List.range s.toNat).map buffer := by
      have hself := CircularMemory.load_store_self (fun _ => (0 : UInt8)) 0
        (show ((List.range s.toNat).map buffer).length ≤ s.toNat by simp)
      rwa [List.length_map, List.length_range] at hself
    have hget := congrArg (fun l => l[x]?) hload
    simpa [CircularMemory.load, hx, Nat.mod_eq_of_lt hx] using hget
  have hlow : r &&& (s.toNat - 1) < s.toNat := Nat.and_le_left.trans_lt hr
  rw [Nat.mod_eq_of_lt hlow, hstored _ hlow] at hbyte
  have hfirst : [buffer (r &&& (s.toNat - 1))] = [buffer r] := by
    rw [hbyte]
    show (([] ++ (List.range (min s.toNat (s.toNat - 0))).map buffer).drop
      (UInt64.ofNat r).toNat).take 1 = _
    rw [Nat.sub_zero, Nat.min_self, List.nil_append, hrNat, hqueued]
    rfl
  simp [buffer, hmask] at hfirst

/-- A new buffer is a queue of its size exactly when the size it was fitted to
is a power of two. -/
theorem isQueue_iff (h : create pagesize size = some b) :
    b.IsQueue ↔ ∃ k, (fit pagesize size).toNat = 2 ^ k := by
  constructor
  · intro hqueue
    by_contra hpow
    exact create_not_isQueue h hpow hqueue
  · exact fun hpow ops => (create_refines h hpow).run_eq ops

/-- One page for the segments of a standard frame. -/
theorem isQueue_standard : ∃ b, create 4096 1514 = some b ∧ b.IsQueue :=
  ⟨_, rfl, (isQueue_iff (show create 4096 1514 = some _ from rfl)).mpr ⟨12, by decide⟩⟩

/-- Three pages for the segments of a jumbo frame. -/
theorem not_isQueue_jumbo : ¬ ∀ (pagesize size : UInt64) (b : CircularBuffer), 1 ≤ size →
    (∃ k, pagesize.toNat = 2 ^ k) → create pagesize size = some b → b.IsQueue := by
  intro hall
  have hfit : (fit 4096 9014).toNat = 12288 := by decide
  refine create_not_isQueue (show create 4096 9014 = some _ from rfl) ?_
    (hall 4096 9014 _ (by decide) ⟨12, by decide⟩ rfl)
  rw [hfit]
  rintro ⟨k, hk⟩
  have hlow : 13 < k := (Nat.pow_lt_pow_iff_right (by decide : 1 < 2)).mp (by omega)
  have hhigh : k < 14 := (Nat.pow_lt_pow_iff_right (by decide : 1 < 2)).mp (by omega)
  omega

end CircularBuffer

end Tulips
