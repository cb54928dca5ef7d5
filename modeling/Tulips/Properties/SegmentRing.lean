import Tulips.Lib.Sequence
import Tulips.Machine.Testbed

/-!
# The ring of outstanding segments

The segments in flight stand in consecutive slots of the ring, oldest first,
and their sequence numbers follow one another up to the next number to send.
This holds of every connection whose ring was empty when it was opened and
whose new segments were all taken by the device.
-/

namespace Tulips.Tcpv4

open Sequence

/-! ## Segments in flight -/

/-- From the slot `start` on the ring holds the segments `out`, consecutive from
`una` to `nxt`, and then only free slots. -/
structure InFlight (segments : Fin segmentCount → Segment) (start : Fin segmentCount)
    (nxt una : UInt32) (out free : List Segment) : Prop where
  split : Ring.rotated segments start = out ++ free
  busy : ∀ s ∈ out, s.isFree = false
  idle : ∀ s ∈ free, s.isFree = true
  consecutive : Consecutive Segment.seq Segment.len una out nxt
  small : ∀ s ∈ out, s.len.toNat < 2 ^ 24

theorem Segment.isFree_eq_true {s : Segment} : s.isFree = true ↔ s.len = 0 := by
  simp [Segment.isFree]

theorem Segment.len_pos {s : Segment} (h : s.isFree = false) : 0 < s.len.toNat := by
  have hne : s.len ≠ 0 := by simpa [Segment.isFree] using h
  exact Nat.pos_of_ne_zero fun hz => hne (UInt32.toNat_inj.mp hz)

namespace InFlight

variable {segments : Fin segmentCount → Segment} {start k : Fin segmentCount}
  {nxt una : UInt32} {out free : List Segment}

/-- An empty ring is in order. -/
theorem empty (h : ∀ i, (segments i).isFree = true) :
    InFlight segments start nxt nxt [] (Ring.rotated segments start) where
  split := rfl
  busy := by simp
  idle s hs := by
    obtain ⟨i, rfl⟩ := Ring.exists_of_mem_rotated hs
    exact h i
  consecutive := rfl
  small := by simp

theorem length_le (h : InFlight segments start nxt una out free) :
    out.length + free.length = segmentCount := by
  rw [← List.length_append, ← h.split, Ring.length_rotated]

theorem total_lt (h : InFlight segments start nxt una out free) :
    total Segment.len out < 2 ^ 28 + 1 := by
  have hlen := h.length_le
  have htotal := total_le_mul Segment.len fun s hs => (h.small s hs).le
  have hmul : out.length * 2 ^ 24 ≤ segmentCount * 2 ^ 24 :=
    Nat.mul_le_mul_right _ (by omega)
  have : segmentCount * 2 ^ 24 = 2 ^ 28 := by decide
  omega

/-- The distance from the oldest number to the next is what is in flight. -/
theorem distance (h : InFlight segments start nxt una out free) :
    (nxt - una).toNat = total Segment.len out :=
  h.consecutive.distance (by have := h.total_lt; omega)

/-- The oldest segment stands in the first slot. -/
theorem head_eq {x : Segment} {rest : List Segment}
    (h : InFlight segments start nxt una (x :: rest) free) : segments start = x := by
  have := h.split
  rw [Ring.rotated_eq_cons, List.cons_append] at this
  exact (List.cons.inj this).1

theorem una_eq (h : InFlight segments start nxt una out free) (hout : out ≠ []) :
    una = (segments start).seq := by
  cases out with
  | nil => exact absurd rfl hout
  | cons x rest => rw [h.head_eq, h.consecutive.1]

/-- Nothing is in flight exactly when the first slot is free. -/
theorem out_eq_nil_iff (h : InFlight segments start nxt una out free) :
    out = [] ↔ (segments start).isFree = true := by
  constructor
  · rintro rfl
    have hmem := Ring.mem_rotated segments start start
    rw [h.split] at hmem
    exact h.idle _ (by simpa using hmem)
  · intro hfree
    cases out with
    | nil => rfl
    | cons x rest =>
        have := h.busy x (by simp)
        rw [← h.head_eq, hfree] at this
        cases this

theorem mem_out_iff (h : InFlight segments start nxt una out free) {s : Segment} :
    s ∈ out ↔ ∃ i, segments i = s ∧ s.isFree = false := by
  constructor
  · intro hs
    have hmem : s ∈ Ring.rotated segments start := by rw [h.split]; simp [hs]
    obtain ⟨i, hi⟩ := Ring.exists_of_mem_rotated hmem
    exact ⟨i, hi, h.busy s hs⟩
  · rintro ⟨i, rfl, hbusy⟩
    have hmem := Ring.mem_rotated segments start i
    rw [h.split] at hmem
    rcases List.mem_append.mp hmem with hs | hs
    · exact hs
    · rw [h.idle _ hs] at hbusy
      cases hbusy

/-- The oldest segment leaves the ring. -/
theorem clear_cons {x : Segment} {rest : List Segment}
    (h : InFlight segments start nxt una (x :: rest) free) :
    InFlight (Function.update segments start .cleared) (start + 1) nxt (una + x.len) rest
      (free ++ [.cleared]) where
  split := by
    rw [Ring.rotated_succ, Ring.rotated_update_self, List.tail_cons, Function.update_self,
      h.split]
    simp
  busy s hs := h.busy s (by simp [hs])
  idle s hs := by
    rcases List.mem_append.mp hs with hs | hs
    · exact h.idle s hs
    · rw [List.mem_singleton.mp hs]
      rfl
  consecutive := h.consecutive.2
  small s hs := h.small s (by simp [hs])

/-- With nothing in flight, moving on is harmless. -/
theorem clear_nil (h : InFlight segments start nxt una [] free) :
    InFlight (Function.update segments start .cleared) (start + 1) nxt una []
      (free.tail ++ [.cleared]) where
  split := by
    rw [Ring.rotated_succ, Ring.rotated_update_self, List.tail_cons, Function.update_self,
      h.split]
    rfl
  busy := by simp
  idle s hs := by
    rcases List.mem_append.mp hs with hs | hs
    · exact h.idle s (List.mem_of_mem_tail hs)
    · rw [List.mem_singleton.mp hs]
      rfl
  consecutive := h.consecutive
  small := by simp

/-- The next free slot is the one behind the segments in flight. -/
theorem nextFree_eq (h : InFlight segments start nxt una out free)
    (hk : Ring.firstFree Segment.isFree segments start = some k) :
    ∃ x rest, free = x :: rest ∧ k = start + Fin.ofNat segmentCount out.length := by
  cases hfree : free with
  | nil =>
      have hbusy := Ring.free_of_firstFree hk
      have hmem := Ring.mem_rotated segments start k
      rw [h.split, hfree, List.append_nil] at hmem
      rw [h.busy _ hmem] at hbusy
      cases hbusy
  | cons x rest =>
      have hsplit := h.split
      rw [hfree] at hsplit
      have hfound := Ring.firstFree_of_rotated hsplit h.busy (h.idle x (by simp [hfree]))
      rw [hfound] at hk
      exact ⟨x, rest, rfl, (Option.some_inj.mp hk).symm⟩

/-- A new segment goes behind the others; one without length leaves its slot
free. -/
theorem push (h : InFlight segments start nxt una out free)
    (hk : Ring.firstFree Segment.isFree segments start = some k) {len : UInt32}
    (hlen : len.toNat < 2 ^ 24) (dat : Option Ptr) :
    ∃ out' free', InFlight (Function.update segments k ⟨len, nxt, dat⟩) start (nxt + len) una
        out' free' ∧ ∀ s ∈ out', s ∈ out ∨ s = ⟨len, nxt, dat⟩ := by
  obtain ⟨x, rest, hfree, rfl⟩ := h.nextFree_eq hk
  have hpos : out.length < segmentCount := by
    have := h.length_le
    rw [hfree, List.length_cons] at this
    omega
  have hsplit : Ring.rotated (Function.update segments
      (start + Fin.ofNat segmentCount out.length) ⟨len, nxt, dat⟩) start =
      out ++ ⟨len, nxt, dat⟩ :: rest := by
    rw [Ring.rotated_update _ _ hpos, h.split, hfree]
    simp
  by_cases hz : len = 0
  · refine ⟨out, ⟨len, nxt, dat⟩ :: rest, ⟨hsplit, h.busy, ?_, ?_, h.small⟩, fun s hs => .inl hs⟩
    · intro s hs
      rcases List.mem_cons.mp hs with rfl | hs
      · simp [Segment.isFree, hz]
      · exact h.idle s (by simp [hfree, hs])
    · rw [hz, UInt32.add_zero]
      exact h.consecutive
  · refine ⟨out ++ [⟨len, nxt, dat⟩], rest, ⟨?_, ?_, ?_, ?_, ?_⟩, ?_⟩
    · rw [hsplit, List.append_assoc]
      rfl
    · intro s hs
      rcases List.mem_append.mp hs with hs | hs
      · exact h.busy s hs
      · rw [List.mem_singleton.mp hs]
        simpa [Segment.isFree] using hz
    · exact fun s hs => h.idle s (by simp [hfree, hs])
    · exact h.consecutive.append ⟨rfl, rfl⟩
    · intro s hs
      rcases List.mem_append.mp hs with hs | hs
      · exact h.small s hs
      · rw [List.mem_singleton.mp hs]
        exact hlen
    · intro s hs
      rcases List.mem_append.mp hs with hs | hs
      · exact .inl hs
      · exact .inr (List.mem_singleton.mp hs)

/-- The oldest segment may change its buffer. -/
theorem rebuffer (h : InFlight segments start nxt una out free) (dat : Option Ptr) :
    ∃ out' free', InFlight (Function.update segments start { segments start with dat := dat })
        start nxt una out' free' ∧
      ∀ s ∈ out', ∃ s₀ ∈ out, s.seq = s₀.seq ∧ s.len = s₀.len := by
  cases out with
  | nil =>
      have hhead := h.out_eq_nil_iff.mp rfl
      refine ⟨[], { segments start with dat := dat } :: free.tail, ⟨?_, by simp, ?_,
        h.consecutive, by simp⟩, by simp⟩
      · rw [Ring.rotated_update_self, h.split]
        rfl
      · intro s hs
        rcases List.mem_cons.mp hs with rfl | hs
        · exact hhead
        · exact h.idle s (List.mem_of_mem_tail hs)
  | cons x rest =>
      have hx := h.head_eq
      refine ⟨{ x with dat := dat } :: rest, free, ⟨?_, ?_, h.idle, ?_, ?_⟩, ?_⟩
      · rw [Ring.rotated_update_self, h.split, hx]
        rfl
      · intro s hs
        rcases List.mem_cons.mp hs with rfl | hs
        · exact h.busy x (by simp)
        · exact h.busy s (by simp [hs])
      · exact ⟨h.consecutive.1, h.consecutive.2⟩
      · intro s hs
        rcases List.mem_cons.mp hs with rfl | hs
        · exact h.small x (by simp)
        · exact h.small s (by simp [hs])
      · intro s hs
        rcases List.mem_cons.mp hs with rfl | hs
        · exact ⟨x, by simp, rfl, rfl⟩
        · exact ⟨s, by simp [hs], rfl, rfl⟩

/-- The segment behind the oldest one follows it. -/
theorem seq_succ (h : InFlight segments start nxt una out free)
    (hfirst : (segments start).isFree = false) (hsecond : (segments (start + 1)).isFree = false) :
    (segments (start + 1)).seq = (segments start).seq + (segments start).len := by
  cases out with
  | nil =>
      rw [h.out_eq_nil_iff.mp rfl] at hfirst
      cases hfirst
  | cons x rest =>
      have hx := h.head_eq
      have hne : start + 1 ≠ start := (by decide : ∀ i : Fin segmentCount, i + 1 ≠ i) start
      have hsecond' : (Function.update segments start .cleared (start + 1)).isFree = false := by
        rwa [Function.update_of_ne hne]
      cases rest with
      | nil =>
          rw [h.clear_cons.out_eq_nil_iff.mp rfl] at hsecond'
          cases hsecond'
      | cons y rest =>
          have hy := h.clear_cons.head_eq
          rw [Function.update_of_ne hne] at hy
          rw [hx, hy, h.consecutive.2.1, ← h.consecutive.1]

/-- A segment in flight is not mistaken for a new one. -/
theorem seq_ne_nxt (h : InFlight segments start nxt una out free)
    (hbusy : (segments start).isFree = false) : (segments start).seq ≠ nxt := by
  cases out with
  | nil =>
      rw [h.out_eq_nil_iff.mp rfl] at hbusy
      cases hbusy
  | cons x rest =>
      have hx := h.head_eq
      intro heq
      have hseq : x.seq = una := h.consecutive.1
      have hdist := h.distance
      rw [← heq, hx, hseq, UInt32.sub_self, total_cons] at hdist
      have := Segment.len_pos (h.busy x (by simp))
      simp at hdist
      omega

end InFlight

/-! ## The invariant -/

/-- The segment has been handed to the device since the connection was
created. -/
def Segment.SentSince (seg : Segment) (id : UInt16) (log : List Event) : Prop :=
  ∃ st again ret, Event.transmit id st seg.seq seg.len again ret ∈ sinceCreate id log

/-- A connection is only created in an empty ring, and the device takes every
segment that is sent for the first time; a refused SYN of `connect` closes the
connection again, and a segment without length takes no room. -/
def Event.ringGood : Event → Bool
  | .create _ _ _ leftover => !leftover
  | .transmit _ st _ len again ret => again || len == 0 || ret == .ok || st == .synSent
  | _ => true

/-- The segments in flight of a connection are in order, and its own. -/
def Core.InOrder (c : Core) (log : List Event) : Prop :=
  c.state ≠ .closed → ∃ una out free, InFlight c.segments c.segidx c.sndNxt una out free ∧
    ∀ seg ∈ out, seg.SentSince c.id log

theorem Segment.SentSince.append {seg : Segment} {id : UInt16} {new log : List Event}
    (h : seg.SentSince id log) (hnew : ∀ ev ∈ new, ev.creates id = false) :
    seg.SentSince id (new ++ log) := by
  obtain ⟨st, again, ret, hmem⟩ := h
  refine ⟨st, again, ret, ?_⟩
  rw [sinceCreate_append hnew]
  exact List.mem_append_right _ hmem

section Step

variable {H : Type} {handler : EventHandler H} {s t : Slot H} {k : Fin segmentCount}

/-- What leaves the ring alone and opens no connection keeps the order. -/
theorem Core.InOrder.of_adds {c d : Core} {P : Event → Prop} (h : c.InOrder s.log)
    (hid : d.id = c.id) (hstate : d.state ≠ .closed → c.state ≠ .closed)
    (hring : d.segments = c.segments ∧ d.segidx = c.segidx ∧ d.sndNxt = c.sndNxt)
    (hadds : Adds P s t) (hP : ∀ ev, P ev → ev.creates c.id = false) : d.InOrder t.log := by
  intro hopen
  obtain ⟨una, out, free, hin, hsent⟩ := h (hstate hopen)
  obtain ⟨hsegs, hidx, hnxt⟩ := hring
  obtain ⟨new, hlog, hnew⟩ := hadds
  refine ⟨una, out, free, by rwa [hsegs, hidx, hnxt], fun seg hseg => ?_⟩
  rw [hid, hlog]
  exact (hsent seg hseg).append fun ev hev => hP ev (hnew ev hev)

/-- A new segment that the device takes is counted by the next number. -/
theorem Transmitted.push_core {known : Prop} {len : UInt32} {hlen n : Nat}
    (hsend : Transmitted handler known k hlen n (s.pushed k len) t) (hsyn : s.state ≠ .synSent)
    (hgood : ∀ ev ∈ t.log, ev.ringGood = true) :
    ∃ ret sdat, AddsWith (.transmit s.id s.state s.sndNxt len false ret)
        (Event.From .emit s.id) s t ∧
      t.toCore = { (s.pushed k len).toCore with sndNxt := s.sndNxt + len, sdat := sdat } := by
  obtain ⟨p, ret, -, hadds, hcore⟩ := hsend.summary (l := .emit) (by decide)
  have htaken := hgood _ hadds.mem
  simp only [Slot.pushed, Function.update_self, bne_self_eq_false, if_true] at hadds hcore htaken
  rcases hcore with ⟨hret, -, hcore⟩ | ⟨-, sdat, hcore⟩
  · -- The device refused the segment: it was empty.
    have hzero : len = 0 := by simpa [Event.ringGood, hret, hsyn] using htaken
    refine ⟨ret, none, hadds, ?_⟩
    rw [hcore, hzero, UInt32.add_zero]
    rfl
  · exact ⟨ret, sdat, hadds, hcore⟩

/-- A new segment that the device takes goes behind the others. -/
theorem Core.InOrder.push {known : Prop} {len : UInt32} {hlen n : Nat}
    (h : s.toCore.InOrder s.log) (hopen : s.state ≠ .closed) (hsyn : s.state ≠ .synSent)
    (hfree : s.nextFree = some k) (hsmall : len.toNat < 2 ^ 24)
    (hsend : Transmitted handler known k hlen n (s.pushed k len) t)
    (hgood : ∀ ev ∈ t.log, ev.ringGood = true) : t.toCore.InOrder t.log := by
  intro _
  obtain ⟨una, out, free, hin, hsent⟩ := h hopen
  obtain ⟨ret, sdat, hadds, hcore⟩ := hsend.push_core hsyn hgood
  obtain ⟨out', free', hin', hout'⟩ := hin.push hfree hsmall s.sdat
  obtain ⟨new, hlog, hmem, hnew⟩ := hadds
  have hnone : ∀ ev ∈ new, ev.creates s.id = false := fun ev hev =>
    (hnew ev hev).not_creates (by decide) _
  refine ⟨una, out', free', ?_, fun seg hseg => ?_⟩
  · rw [hcore]
    exact hin'
  · rw [show t.id = s.id from (congrArg Core.id hcore :), hlog]
    rcases hout' seg hseg with hold | rfl
    · exact (hsent seg hold).append hnone
    · refine ⟨s.state, false, ret, ?_⟩
      rw [sinceCreate_append hnone]
      exact List.mem_append_left _ hmem

/-- Sending the oldest segment again counts nothing. -/
theorem Transmitted.resend_core {u : Slot H} {known : Prop} {hlen n : Nat} {una : UInt32}
    {out free : List Segment} (hin : InFlight u.segments u.segidx u.sndNxt una out free)
    (hsend : Transmitted handler known u.segidx hlen n u.swapped t) :
    ∃ sdat, t.toCore = { u.swapped.toCore with sdat := sdat } := by
  obtain ⟨p, ret, -, -, hcore⟩ := hsend.summary (l := .resend) (by decide)
  rcases hcore with ⟨-, -, hcore⟩ | ⟨-, sdat, hcore⟩
  · exact ⟨none, hcore⟩
  · refine ⟨sdat, hcore.trans ?_⟩
    simp only [Slot.swapped, Function.update_self]
    by_cases hnew : (u.segments u.segidx).seq = u.sndNxt
    · -- Only a free segment can look like a new one.
      have hzero : (u.segments u.segidx).len = 0 := by
        by_contra hne
        exact hin.seq_ne_nxt (by simpa [Segment.isFree] using hne) hnew
      rw [if_pos hnew, hzero, UInt32.add_zero]
    · rw [if_neg hnew]

/-- A segment that goes out again stays where it is. -/
theorem Core.InOrder.resend {u : Slot H} {known : Prop} {hlen n : Nat}
    (h : u.toCore.InOrder u.log) (hopen : u.state ≠ .closed)
    (hsend : Transmitted handler known u.segidx hlen n u.swapped t) :
    t.toCore.InOrder t.log := by
  intro _
  obtain ⟨una, out, free, hin, hsent⟩ := h hopen
  obtain ⟨p, ret, -, hadds, -⟩ := hsend.summary (l := .resend) (by decide)
  obtain ⟨sdat, hcore⟩ := hsend.resend_core hin
  obtain ⟨out', free', hin', hout'⟩ := hin.rebuffer u.sdat
  obtain ⟨new, hlog, -, hnew⟩ := hadds
  have hnone : ∀ ev ∈ new, ev.creates u.id = false := fun ev hev =>
    (hnew ev hev).not_creates (by decide) _
  refine ⟨una, out', free', ?_, fun seg hseg => ?_⟩
  · rw [hcore]
    exact hin'
  · obtain ⟨seg', hseg', hseq, hlen'⟩ := hout' seg hseg
    obtain ⟨st, again, ret', hmem'⟩ := hsent seg' hseg'
    rw [show t.id = u.id from (congrArg Core.id hcore :), hlog]
    refine Segment.SentSince.append ⟨st, again, ret', ?_⟩ hnone
    rw [hseq, hlen']
    exact hmem'

/-- The first segment of a connection, in an empty ring. -/
def Core.OnlySyn (c : Core) (iss : UInt32) : Prop :=
  (c.segments c.segidx).seq = iss ∧ (c.segments c.segidx).len = 1 ∧ c.sndNxt = iss + 1 ∧
    ∀ j, j ≠ c.segidx → (c.segments j).isFree = true

theorem Opened.onlySyn {peer : Peer} {st : State} {iss : UInt32} {p : Ptr}
    (h : Opened handler peer st iss p s t) (hst : st = .synRcvd ∨ st = .synSent ∧ Replenished t)
    (hgood : ∀ ev ∈ t.log, ev.ringGood = true) :
    t.toCore.OnlySyn iss ∧ t.toCore.InOrder t.log := by
  obtain ⟨leftover, rcvNxt, synced, k, ret, hleft, hsynced, hfree, hadds, hcore⟩ := h.summary
  obtain ⟨new, hlog, hmem, hnew⟩ := hadds
  -- A good creation found every slot free, so the SYN went to the first one.
  have hempty : ∀ i, (s.segments i).isFree = true := by
    have hfresh := hgood (.create s.id iss p.buf leftover) (by rw [hlog]; simp)
    have : leftover = false := by simpa [Event.ringGood] using hfresh
    intro i
    by_contra hbusy
    have : leftover = true := hleft.mpr ⟨i, by simpa using hbusy⟩
    simp_all
  have hk : k = 0 := by
    have hzero : Ring.firstFree Segment.isFree s.segments 0 = some (0 + Fin.ofNat _ 0) :=
      Ring.firstFree_of_rotated (Ring.rotated_eq_cons s.segments 0)
        (List.forall_mem_nil _) (hempty 0)
    have hfree : Ring.firstFree Segment.isFree s.segments 0 = some k := hfree
    rw [hzero] at hfree
    exact (Option.some_inj.mp hfree).symm.trans (by simp)
  subst hk
  have hin : InFlight s.segments 0 iss iss [] _ := .empty hempty
  have hsmall : (1 : UInt32).toNat < 2 ^ 24 := by decide
  obtain ⟨out, free, hin', hout⟩ := hin.push hfree hsmall (some p)
  have hnone : ∀ ev ∈ new, ev.creates s.id = false := fun ev hev =>
    (hnew ev hev).not_creates (by decide) _
  -- In SYN_RCVD a good run says that the frame left; in SYN_SENT the refill does.
  have htaken : ret = .ok := by
    have hev := hgood _ (by rw [hlog]; exact List.mem_append_left _ hmem)
    rcases hcore with ⟨hret, hnot, -⟩ | ⟨hret, -⟩
    · rcases hst with rfl | ⟨-, hfull⟩
      · simpa [Event.ringGood] using hev
      · exact absurd hfull hnot
    · exact hret
  obtain ⟨-, sdat, hcore⟩ := hcore.resolve_left fun h => h.1 htaken
  have hid : t.id = s.id := (congrArg Core.id hcore :)
  have hsegs : t.segments = Function.update s.segments 0 ⟨1, iss, some p⟩ :=
    (congrArg Core.segments hcore :)
  have hidx : t.segidx = 0 := (congrArg Core.segidx hcore :)
  have hnxt : t.sndNxt = iss + 1 := (congrArg Core.sndNxt hcore :)
  refine ⟨⟨?_, ?_, hnxt, fun j hj => ?_⟩, fun _ => ⟨iss, out, free, ?_, fun seg hseg => ?_⟩⟩
  · rw [hidx, hsegs, Function.update_self]
  · rw [hidx, hsegs, Function.update_self]
  · rw [hidx] at hj
    rw [hsegs, Function.update_of_ne hj]
    exact hempty j
  · rw [hsegs, hidx, hnxt]
    exact hin'
  · rcases hout seg hseg with hold | rfl
    · simp at hold
    · refine ⟨st, false, ret, ?_⟩
      rw [hid, hlog, sinceCreate_append hnone]
      exact List.mem_append_left _ hmem

theorem State.leadsTo_closed {st : State} : State.leadsTo .closed st = false := by
  cases st <;> rfl

/-- The oldest segment leaves the ring. -/
theorem Core.InOrder.clear (h : s.toCore.InOrder s.log) :
    s.cleared.toCore.InOrder s.cleared.log := by
  intro hopen
  obtain ⟨una, out, free, hin, hsent⟩ := h hopen
  cases out with
  | nil => exact ⟨una, [], _, hin.clear_nil, by simp⟩
  | cons x rest =>
      exact ⟨una + x.len, rest, _, hin.clear_cons, fun seg hseg => hsent seg (by simp [hseg])⟩

/-- Every act of a connection whose events are good keeps the order. -/
theorem Act.inOrder {l : Label} (h : Act handler l s t)
    (hgood : ∀ ev ∈ t.log, ev.ringGood = true) (hs : s.toCore.InOrder s.log) :
    t.toCore.InOrder t.log := by
  -- Most acts leave the ring alone.
  have hquiet : l ∉ Label.opening → (t.state ≠ .closed → s.state ≠ .closed) →
      t.segments = s.segments ∧ t.segidx = s.segidx ∧ t.sndNxt = s.sndNxt →
      t.toCore.InOrder t.log := fun hl hstate hring =>
    hs.of_adds h.adds.1 hstate hring h.adds.2 fun ev hev => hev.not_creates hl _
  have hcore : l ∉ Label.opening → t.toCore = s.toCore → t.toCore.InOrder t.log := by
    intro hl hcore
    refine hquiet hl (fun hopen => ?_) ⟨(congrArg Core.segments hcore :),
      (congrArg Core.segidx hcore :), (congrArg Core.sndNxt hcore :)⟩
    rwa [show t.state = s.state from (congrArg Core.state hcore :)] at hopen
  have hcontrol : ∀ {known : Prop} {u : Slot H}, l ∉ Label.opening → SentControl known u t →
      (u.state ≠ .closed → s.state ≠ .closed) →
      u.segments = s.segments ∧ u.segidx = s.segidx ∧ u.sndNxt = s.sndNxt →
      t.toCore.InOrder t.log := by
    intro known u hl hsend hstate ⟨hsegs, hidx, hnxt⟩
    obtain ⟨sdat, hcore⟩ := hsend.core_eq
    refine hquiet hl (fun hopen => hstate ?_) ⟨(congrArg Core.segments hcore).trans hsegs,
      (congrArg Core.segidx hcore).trans hidx, (congrArg Core.sndNxt hcore).trans hnxt⟩
    rwa [show t.state = u.state from (congrArg Core.state hcore :)] at hopen
  cases h with
  | note => exact hcore (by decide) rfl
  | life _ hcall => exact hcore (by decide) hcall.toCore_eq
  | data _ hcall => exact hcore (by decide) hcall.toCore_eq
  | move hst =>
      refine hquiet (by decide) (fun _ hclosed => ?_) ⟨rfl, rfl, rfl⟩
      rw [hclosed, State.leadsTo_closed] at hst
      cases hst
  | rcv => exact hquiet (by decide) id ⟨rfl, rfl, rfl⟩
  | @settle s st hst =>
      refine hquiet (by decide) (fun _ hclosed => ?_) ⟨rfl, rfl, rfl⟩
      rw [hclosed] at hst
      revert hst
      cases st <;> decide
  | news => exact hquiet (by decide) id ⟨rfl, rfl, rfl⟩
  | clear => exact hs.clear
  | store _ _ _ hstore => exact hcore (by decide) hstore.toCore_eq
  | append => exact hquiet (by decide) id ⟨rfl, rfl, rfl⟩
  | emit hstate hfree hsend =>
      have hlen := s.slen.isLt
      refine hs.push (by simp [hstate]) (by simp [hstate]) hfree ?_ hsend hgood
      rw [UInt32.toNat_ofNat', Nat.mod_eq_of_lt (by omega)]
      exact hlen
  | @fin s t st k hstate hst hfree hsend =>
      have hmoved : (s.moved st).toCore.InOrder (s.moved st).log := fun _ =>
        hs (by rcases hstate with h | h <;> simp [h])
      exact hmoved.push (by rcases hst with rfl | rfl <;> simp [Slot.moved])
        (by rcases hst with rfl | rfl <;> simp [Slot.moved]) hfree (by decide) hsend hgood
  | @resend s u t intact p hlen n hstate hsdat hintact hcopy hstore hkind hsend =>
      have hu : u.toCore = s.toCore := hstore.toCore_eq
      have hinu : u.toCore.InOrder u.log := by
        rw [hu]
        refine hs.of_adds rfl id ⟨rfl, rfl, rfl⟩
          ((Adds.logged (P := Event.From .resend s.id) ⟨.inr rfl, ?_⟩).trans hstore.adds)
          fun ev hev => hev.not_creates (by decide) _
        exact Event.mem_labels_of_plain rfl
      have hidx : u.segidx = s.segidx := (congrArg Core.segidx hu :)
      rw [← hidx] at hsend
      refine hinu.resend ?_ hsend
      rwa [show u.state = s.state from (congrArg Core.state hu :)]
  | control _ _ _ hstore hsend =>
      have hu := hstore.toCore_eq
      exact hcontrol (by decide) hsend
        (by rw [(congrArg Core.state hu :)]; exact id)
        ⟨(congrArg Core.segments hu :), (congrArg Core.segidx hu :), (congrArg Core.sndNxt hu :)⟩
  | spare _ _ hspare hsend =>
      have hu := hspare.toCore_eq
      exact hcontrol (by decide) hsend
        (by rw [(congrArg Core.state hu :)]; exact id)
        ⟨(congrArg Core.segments hu :), (congrArg Core.segidx hu :), (congrArg Core.sndNxt hu :)⟩
  | kill hstate _ hstore hsend =>
      have hu := hstore.toCore_eq
      exact hcontrol (by decide) hsend (fun _ => hstate)
        ⟨(congrArg Core.segments hu :), (congrArg Core.segidx hu :), (congrArg Core.sndNxt hu :)⟩
  | abort hcall hsdat hflags hstore hsend =>
      have hw := hstore.toCore_eq.trans (hflags.toCore_eq.trans hcall.toCore_eq)
      refine hcontrol (by decide) hsend (fun hopen => absurd ?_ hopen)
        ⟨(congrArg Core.segments hw :), (congrArg Core.segidx hw :), (congrArg Core.sndNxt hw :)⟩
      exact (congrArg Core.state hw :)
  | create _ hst _ _ hopen => exact (hopen.onlySyn hst hgood).2
  | createFailed _ _ _ _ ht =>
      subst ht
      exact fun hopen => absurd rfl hopen

end Step

theorem inOrder_kept {H : Type} (handler : EventHandler H) :
    Kept handler (fun log => ∀ ev ∈ log, ev.ringGood = true) Core.InOrder where
  suffix h ev hev := h ev (List.mem_append_right _ hev)
  act h hgood hs := h.inOrder hgood hs
  other {c new log} hnew hc hopen := by
    obtain ⟨una, out, free, hin, hsent⟩ := hc hopen
    exact ⟨una, out, free, hin, fun seg hseg =>
      (hsent seg hseg).append fun ev hev => Event.creates_of_owner (hnew ev hev)⟩

/-! ## New connections -/

/-- An act that creates a connection leaves its SYN in the ring and nothing else. -/
theorem Act.onlySyn {H : Type} {handler : EventHandler H} {l : Label} {s t : Slot H}
    (h : Act handler l s t) (hgood : ∀ ev ∈ t.log, ev.ringGood = true)
    (hopen : t.state ≠ .closed) {last : List Event} (hlog : t.log = last ++ s.log)
    {id : UInt16} {iss : UInt32} {buf : Nat} {leftover : Bool}
    (hev : .create id iss buf leftover ∈ last) : t.toCore.OnlySyn iss := by
  obtain ⟨-, new, hnew, hfrom⟩ := h.adds
  rw [hlog] at hnew
  have hl : l ∈ Label.opening := by
    rw [List.append_cancel_right hnew] at hev
    exact (hfrom _ hev).2
  cases h with
  | @create s t peer st iss' p hstate hst hoff hfetched hop =>
      obtain ⟨left, rcvNxt, synced, k, ret, -, hsynced, -, hadds, -⟩ := hop.summary
      obtain ⟨sent, hsent, -, hsentnew⟩ := hadds
      have heq : last = sent ++ (synced ++ [.create s.id iss' p.buf left]) := by
        have hlogs : last ++ s.log = (sent ++ (synced ++ [.create s.id iss' p.buf left])) ++
            s.log := by
          rw [← hlog, hsent]
          simp
        exact List.append_cancel_right hlogs
      rw [heq] at hev
      rcases List.mem_append.mp hev with h | h
      · have hopening : Label.emit ∈ Label.opening := (hsentnew _ h).2
        exact absurd hopening (by decide)
      · rcases List.mem_append.mp h with h | h
        · obtain ⟨irs, heq⟩ := hsynced _ h
          cases heq
        · cases List.mem_singleton.mp h
          exact (hop.onlySyn hst hgood).1
  | createFailed _ _ _ _ ht =>
      subst ht
      exact absurd rfl hopen
  | _ => exact absurd hl (by decide)

section Table

variable {D H : Type} {n : Nat}

/-- A connection that an operation has created holds its SYN and nothing else. -/
theorem Outcome.onlySyn {handler : EventHandler H} {op : Processor.Op} {may : Fin n → Prop}
    {T T' : Table H n} (h : Outcome handler op.labels may T T') (hn : n < 2 ^ 16)
    (hid' : T'.Numbered) (hgood : ∀ ev ∈ T'.log, ev.ringGood = true) {new : List Event}
    (hlog : T'.log = new ++ T.log) {i : Fin n} {iss : UInt32} {buf : Nat} {leftover : Bool}
    (hev : .create (T'.cores i).id iss buf leftover ∈ new) (hopen : (T'.cores i).state ≠ .closed) :
    (T'.cores i).OnlySyn iss := by
  obtain ⟨U, j, l, s, last, -, hact, rfl, hlast, hmem, hid⟩ := h.of_create hlog hev
  have hj : (U.set j s).cores j = s.toCore := by simp [Table.set]
  have hij : i = j := by
    by_contra hij
    refine hid'.id_ne hn hij ?_
    rw [hj, ← hid]
  subst hij
  rw [hj] at hopen hmem ⊢
  exact hact.onlySyn hgood hopen hlast hmem

/-- `nextAvailableSegment` only throws when a connection is created in a slot
whose ring is not empty. -/
theorem Processor.exec_noSegment {env : Env D H} {p q : Processor D H n} {op : Op}
    (h : exec env op p = .error .noSegment q) :
    ∃ id iss buf, .create id iss buf true ∈ q.w.log := by
  have hexec := exec_executes_of_ne env op p (by simp [h])
  rw [h] at hexec
  obtain ⟨T, -, id, iss, buf, synced, hlog, -⟩ := hexec
  refine ⟨id, iss, buf, ?_⟩
  show _ ∈ q.table.log
  rw [hlog]
  simp

/-! ## Every run -/

theorem Processor.Reachable.inOrder {env : Env D H} {p : Processor D H n}
    (hp : Reachable env p) (hgood : ∀ ev ∈ p.w.log, ev.ringGood = true) (i : Fin n) :
    (p.conns i).core.InOrder p.w.log :=
  (hp.each (inOrder_kept env.handler) fun _ h => absurd rfl h).2 hgood i

/-- The oldest number in flight is the one of the segment at the index. -/
theorem Processor.Reachable.inFlight {env : Env D H} {p : Processor D H n}
    (hp : Reachable env p) (hgood : ∀ ev ∈ p.w.log, ev.ringGood = true) {i : Fin n}
    (hopen : (p.conns i).state ≠ .closed)
    (hout : (p.conns i).hasOutstandingSegments = true) :
    ∃ out free, InFlight (p.conns i).segments (p.conns i).segidx (p.conns i).sndNxt
      (p.conns i).segment.seq out free := by
  obtain ⟨una, out, free, hring, -⟩ := hp.inOrder hgood i hopen
  obtain ⟨j, hj⟩ := (p.conns i).hasOutstandingSegments_iff.mp hout
  have hne : out ≠ [] := List.ne_nil_of_mem (hring.mem_out_iff.mpr ⟨j, rfl, hj⟩)
  have huna : una = (p.conns i).segment.seq := hring.una_eq hne
  exact ⟨out, free, huna ▸ hring⟩

/-- On a run that creates connections only in empty rings, and whose first
transmissions the device takes, every ring is in order, a created connection
holds exactly its SYN, and a free slot is found whenever one is asked for. -/
theorem Processor.ring_in_order {env : Env D H} {p : Processor D H n} (hp : Reachable env p)
    (hgood : ∀ ev ∈ p.w.log, ev.ringGood = true) :
    (∀ i, (p.conns i).core.InOrder p.w.log) ∧
    (∀ op q new, exec env op p = .ok () q → q.w.log = new ++ p.w.log →
      (∀ ev ∈ q.w.log, ev.ringGood = true) → ∀ i iss buf leftover,
      .create (q.conns i).id iss buf leftover ∈ new → (q.conns i).state ≠ .closed →
      (q.conns i).core.OnlySyn iss) ∧
    ∀ op q, (∀ ev ∈ q.w.log, ev.ringGood = true) → exec env op p ≠ .error .noSegment q := by
  refine ⟨hp.inOrder hgood, ?_, ?_⟩
  · intro op q new hop hlog hgood' i iss buf leftover hev hopen
    have hid := ((hp.exec hop).each (inOrder_kept env.handler) fun _ h => absurd rfl h).1
    exact (exec_outcome hop).onlySyn hp.1 hid hgood' hlog hev hopen
  · intro op q hgood' hop
    obtain ⟨id, iss, buf, hcreate⟩ := exec_noSegment hop
    have := hgood' _ hcreate
    simp [Event.ringGood] at this

open Testbed in
/-- A peer with a window of four bytes acknowledges the SYN and the first of the full
buffers that are sent to it. -/
def fullBuffers : List Processor.Op :=
  let send : Processor.Op := .send 0 4 (some fun i => UInt8.ofNat i) 0
  let answer (flags : UInt8) (seq ack : UInt32) : Processor.Op :=
    .process (incoming { header 5000 flags seq ack with wnd := htons 4 } [])
  [connectFrom 5000, answer (tcpSyn ||| tcpAck) 100 1, send, send, send, answer tcpAck 101 5, send]

open Testbed in
/-- Of four segments, three are still in flight. -/
theorem Processor.ring_in_order_full :
    ∃ p : Processor Script Answers 1, (p.conns 0).segidx = 2 ∧
      (List.finRange segmentCount).filter (fun i => !((p.conns 0).segments i).isFree) =
        [2, 3, 4] ∧ ∀ i, (p.conns i).core.InOrder p.w.log := by
  obtain ⟨p, -, hp, hidx, hbusy, hgood⟩ := reaches 1 .empty [] fullBuffers
    (fun p => (p.conns 0).segidx = 2 ∧
      (List.finRange segmentCount).filter (fun i => !((p.conns 0).segments i).isFree) =
        [2, 3, 4] ∧ ∀ ev ∈ p.w.log, ev.ringGood = true)
    (by decide) (by decide +kernel)
  exact ⟨p, hidx, hbusy, (ring_in_order hp hgood).1⟩

/-- A reset leaves the SYN of the first connection in the ring, and the second
connection starts in front of it. -/
theorem Processor.ring_not_in_order : ¬ ∀ (D H : Type) (n : Nat) (env : Env D H)
    (p : Processor D H n), Reachable env p → ∀ i, (p.conns i).core.InOrder p.w.log := by
  intro hall
  obtain ⟨p, -, hp, htest⟩ := Testbed.reaches 1 .empty []
    [Testbed.connectFrom 5000, Testbed.segment 5000 tcpRst 0 0 [], Testbed.connectFrom 5001]
    (fun p => (p.conns 0).state = .synSent ∧ (p.conns 0).segidx = 0 ∧
      ((p.conns 0).segments 0).isFree = false ∧ ((p.conns 0).segments 1).isFree = false ∧
      ((p.conns 0).segments 1).seq = ((p.conns 0).segments 0).seq)
    (by decide) (by decide +kernel)
  obtain ⟨hstate, hidx, h0, h1, hseq⟩ := htest
  obtain ⟨una, out, free, hin, -⟩ := hall _ _ _ _ p hp 0 (by simp [Connection.core, hstate])
  rw [show (p.conns 0).core.segidx = 0 from hidx] at hin
  have hlen := Segment.len_pos h0
  have hsucc := hin.seq_succ h0 h1
  have hzero : ((p.conns 0).segments 0).len = 0 := by
    have : ((p.conns 0).segments 1).seq =
      ((p.conns 0).segments 0).seq + ((p.conns 0).segments 0).len := hsucc
    grind
  simp [hzero] at hlen

end Table

end Tulips.Tcpv4
