import Tulips.Lib.History
import Tulips.Lib.Pieces
import Tulips.Machine.Holdings
import Tulips.Machine.Testbed
import Tulips.Properties.SendBuffer

/-!
# The transmit stream

The segments in flight of an established connection, oldest first, and the pending data
behind them spell out the end of the stream its application has written. So what a frame
carries, be it new or sent again, are the bytes of the stream at its sequence number. A
retransmission is true to the stream as long as nothing is pending, and the end of its
payload already stands in the buffer it is copied to.
-/

namespace Tulips.Tcpv4

open History Sequence

/-! ## What a connection keeps -/

/-- The payload of a segment, where the segment keeps it. -/
def Segment.carried (mem : BlockMemory) (seg : Segment) : List UInt8 :=
  match seg.dat with
  | none => []
  | some p => mem.read p.buf (p.off + headerLen) seg.len.toNat

namespace Core

/-- The segments in flight, the oldest first. -/
def outgoing (c : Core) : List Segment :=
  (Ring.rotated c.segments c.segidx).filter fun seg => !seg.isFree

/-- What is in flight, and behind it the data that waits in the send buffer, are the end of
the stream. -/
def Spells (c : Core) (mem : BlockMemory) (stream : List UInt8) : Prop :=
  ∃ rest : List UInt8, rest.length = c.slen.toNat ∧
    (∀ p, c.sdat = some p → rest = mem.read p.buf (p.off + headerLen) c.slen.toNat) ∧
    c.outgoing.flatMap (Segment.carried mem) ++ rest <:+ stream

end Core

section Outgoing

variable {c d : Core} {mem mem' : BlockMemory} {nxt una : UInt32} {out free : List Segment}
  {k : Fin segmentCount} {seg : Segment}

theorem filter_isFree_append (hbusy : ∀ s ∈ out, s.isFree = false)
    (hidle : ∀ s ∈ free, s.isFree = true) :
    (out ++ free).filter (fun s => !s.isFree) = out := by
  have hout : out.filter (fun s => !s.isFree) = out :=
    List.filter_eq_self.mpr fun s hs => by simp [hbusy s hs]
  have hfree : free.filter (fun s => !s.isFree) = [] :=
    List.filter_eq_nil_iff.mpr fun s hs => by simp [hidle s hs]
  rw [List.filter_append, hout, hfree, List.append_nil]

theorem InFlight.outgoing_eq (h : InFlight c.segments c.segidx nxt una out free) :
    c.outgoing = out := by
  unfold Core.outgoing
  rw [h.split]
  exact filter_isFree_append h.busy h.idle

theorem Core.outgoing_congr (hsegments : d.segments = c.segments) (hidx : d.segidx = c.segidx) :
    d.outgoing = c.outgoing := by
  unfold outgoing
  rw [hsegments, hidx]

theorem Core.mem_outgoing : seg ∈ c.outgoing ↔ ∃ i, c.segments i = seg ∧ seg.isFree = false := by
  simp only [outgoing, List.mem_filter, Bool.not_eq_true']
  constructor
  · rintro ⟨hmem, hbusy⟩
    obtain ⟨i, hi⟩ := Ring.exists_of_mem_rotated hmem
    exact ⟨i, hi, hbusy⟩
  · rintro ⟨i, rfl, hbusy⟩
    exact ⟨Ring.mem_rotated _ _ i, hbusy⟩

/-- A new segment goes behind the others; one without length does not count. -/
theorem InFlight.outgoing_push (h : InFlight c.segments c.segidx nxt una out free)
    (hk : c.nextFree = some k) (hsegments : d.segments = Function.update c.segments k seg)
    (hidx : d.segidx = c.segidx) :
    d.outgoing = c.outgoing ++ if seg.isFree then [] else [seg] := by
  obtain ⟨x, rest, hfree, rfl⟩ := h.nextFree_eq hk
  have hpos : out.length < segmentCount := by
    have hlen := h.length_le
    rw [hfree, List.length_cons] at hlen
    omega
  have hsplit : Ring.rotated d.segments d.segidx = out ++ seg :: rest := by
    rw [hsegments, hidx, Ring.rotated_update _ _ hpos, h.split, hfree]
    simp
  have hidle : ∀ s ∈ rest, s.isFree = true := fun s hs => h.idle s (by simp [hfree, hs])
  rw [h.outgoing_eq]
  unfold Core.outgoing
  rw [hsplit]
  split
  · next hzero =>
      rw [List.append_nil]
      refine filter_isFree_append h.busy fun s hs => ?_
      rcases List.mem_cons.mp hs with rfl | hs
      · exact hzero
      · exact hidle s hs
  · next hlen =>
      have hback : out ++ seg :: rest = (out ++ [seg]) ++ rest := by simp
      rw [hback]
      refine filter_isFree_append (fun s hs => ?_) hidle
      rcases List.mem_append.mp hs with hs | hs
      · exact h.busy s hs
      · rw [List.mem_singleton.mp hs]
        simpa using hlen

/-- The oldest segment goes. -/
theorem InFlight.outgoing_clear (h : InFlight c.segments c.segidx nxt una out free)
    (hsegments : d.segments = Function.update c.segments c.segidx .cleared)
    (hidx : d.segidx = c.segidx + 1) : d.outgoing = c.outgoing.tail := by
  rw [h.outgoing_eq]
  cases out with
  | nil =>
      have hnext := h.clear_nil
      rw [← hsegments, ← hidx] at hnext
      exact hnext.outgoing_eq
  | cons x rest =>
      have hnext := h.clear_cons
      rw [← hsegments, ← hidx] at hnext
      exact hnext.outgoing_eq

/-- The oldest segment changes its buffer. -/
theorem InFlight.outgoing_rebuffer (h : InFlight c.segments c.segidx nxt una out free)
    (dat : Option Ptr)
    (hsegments : d.segments =
      Function.update c.segments c.segidx { c.segments c.segidx with dat := dat })
    (hidx : d.segidx = c.segidx) :
    c.outgoing = [] ∧ d.outgoing = [] ∨ ∃ rest, c.outgoing = c.segments c.segidx :: rest ∧
      d.outgoing = { c.segments c.segidx with dat := dat } :: rest := by
  rw [h.outgoing_eq]
  have hsplit : Ring.rotated d.segments d.segidx =
      { c.segments c.segidx with dat := dat } :: (out ++ free).tail := by
    rw [hsegments, hidx, Ring.rotated_update_self, h.split]
  unfold Core.outgoing
  rw [hsplit]
  cases out with
  | nil =>
      left
      have hhead : (c.segments c.segidx).isFree = true := h.out_eq_nil_iff.mp rfl
      refine ⟨rfl, List.filter_eq_nil_iff.mpr fun s hs => ?_⟩
      rcases List.mem_cons.mp hs with rfl | hs
      · simpa [Segment.isFree] using hhead
      · simpa using h.idle s (List.mem_of_mem_tail hs)
  | cons x rest =>
      right
      have hhead := h.head_eq
      refine ⟨rest, by rw [hhead], ?_⟩
      rw [hhead]
      change (({ x with dat := dat } :: rest) ++ free).filter _ = _
      refine filter_isFree_append (fun s hs => ?_) h.idle
      rcases List.mem_cons.mp hs with rfl | hs
      · exact h.busy x List.mem_cons_self
      · exact h.busy s (List.mem_cons_of_mem x hs)

/-- The payload of a segment in flight depends on the buffer it keeps. -/
theorem Core.carried_eq (hplaced : c.Placed) (h : ∀ b, c.keeps b →
    ∀ i, tcpOffset + headerLen ≤ i → mem' b i = mem b i) (hseg : seg ∈ c.outgoing) :
    seg.carried mem' = seg.carried mem := by
  obtain ⟨i, rfl, hbusy⟩ := mem_outgoing.mp hseg
  unfold Segment.carried
  cases hdat : (c.segments i).dat with
  | none => rfl
  | some p =>
      have hkeep : c.keeps p.buf := ⟨i, hbusy, by rw [hdat]; rfl⟩
      apply BlockMemory.read_congr
      intro j _
      exact h p.buf hkeep _ (by rw [hplaced.dat i p hdat]; omega)

theorem Core.carried_congr (hplaced : c.Placed) (h : ∀ b, c.keeps b →
    ∀ i, tcpOffset + headerLen ≤ i → mem' b i = mem b i) :
    c.outgoing.flatMap (Segment.carried mem') = c.outgoing.flatMap (Segment.carried mem) :=
  List.flatMap_congr fun _ hseg => carried_eq hplaced h hseg

end Outgoing

/-! ## The invariant -/

/-- A retransmission finds the end of its payload in place, and nothing is pending when a
segment without data leaves from the send buffer. -/
def Event.faithful : Event → Bool
  | .rexmit _ st _ _ intact => st != .established || intact
  | .control _ st slen => st == .closed || slen == 0
  | _ => true

/-- The rings are in order, no pending data is lost, and no frame is spoilt. -/
def TransmitGood (log : List Event) : Prop :=
  AcceptGood log ∧ ∀ ev ∈ log, ev.faithful = true

instance (log : List Event) : Decidable (TransmitGood log) :=
  inferInstanceAs (Decidable ((∀ ev ∈ log, ev.ringGood = true ∧ ev.keepsPending = true) ∧ _))

/-- Until the handshake is over, at most the SYN is in flight; afterwards the segments in
flight and the pending data are the end of the stream. -/
structure Core.Streams (c : Core) (mem : BlockMemory) (log : List Event) : Prop where
  order : c.InOrder log
  account : c.Accounted log
  greets : c.state = .synSent ∨ c.state = .synRcvd →
    c.outgoing.length ≤ 1 ∧ (c.ackdata = true → c.outgoing = [])
  spells : c.state = .established →
    (∀ seg ∈ c.outgoing, seg.dat ≠ none) ∧ c.Spells mem (stream c.id log)

section Step

variable {H : Type} {handler : EventHandler H} {l : Label} {s t u : Slot H} {new : List Event}
  {p : Ptr}

/-- The payload of the segments in flight stays where it is. -/
theorem Handles.keeps_mem (h : Handles new s t)
    (hsole : ∀ p, s.sdat = some p → ¬s.keeps p.buf)
    (hfresh : ∀ b ∈ prepared new, ¬s.refersTo b) (b : Nat) (hkeep : s.keeps b) (i : Nat)
    (hi : tcpOffset + headerLen ≤ i) : t.mem b i = s.mem b i := by
  refine h.mem b (fun hb => hfresh b hb (.inr hkeep)) (fun _ hsdat => ?_) i hi
  obtain ⟨p, hp, hbuf⟩ := Option.map_eq_some_iff.mp hsdat
  exact hsole p hp (hbuf ▸ hkeep)

/-- Only an append takes bytes in. -/
theorem Act.stream_eq (h : Act handler l s t) (hl : l ∉ Label.opening) (happend : l ≠ .append) :
    t.id = s.id ∧ stream t.id t.log = stream s.id s.log := by
  obtain ⟨hid, new, hlog, hnew⟩ := h.adds
  refine ⟨hid, ?_⟩
  rw [hid, hlog, stream_append fun ev hev => (hnew ev hev).not_creates hl _,
    flatMap_accepts_eq_nil fun ev hev => (hnew ev hev).accepts happend, List.append_nil]

/-- The handshake has at most its SYN in flight. -/
theorem Core.Change.greets {c d : Core} {log : List Event} (h : Core.Change l c d)
    (hin : c.InOrder log) (hc : c.state = .synSent ∨ c.state = .synRcvd →
      c.outgoing.length ≤ 1 ∧ (c.ackdata = true → c.outgoing = [])) :
    d.state = .synSent ∨ d.state = .synRcvd →
      d.outgoing.length ≤ 1 ∧ (d.ackdata = true → d.outgoing = []) := by
  intro hd
  have hopen : d.state ≠ .closed := by rcases hd with h | h <;> rw [h] <;> decide
  cases h with
  | buffer sdat => exact hc hd
  | @move _ st hst =>
      have hst' : c.state.leadsTo st = true := hst
      -- No step leads back into the handshake.
      exfalso
      revert hst' hd
      cases c.state <;> cases st <;> simp [State.leadsTo]
  | @settle _ st hst =>
      have hst' : c.state.settlesTo st = true := hst
      exfalso
      revert hst' hd
      cases c.state <;> cases st <;> simp [State.settlesTo]
  | rcv => exact hc hd
  | news => exact ⟨(hc hd).1, fun h => by cases h⟩
  | clear =>
      obtain ⟨una, out, free, hring, -⟩ := hin hopen
      -- The acknowledged segment was the only one, so none is left.
      rw [hring.outgoing_clear rfl rfl]
      have hfew := (hc hd).1
      have hnil : c.outgoing.tail = [] := by
        apply List.length_eq_zero_iff.mp
        rw [List.length_tail]
        omega
      rw [hnil]
      exact ⟨Nat.zero_le _, fun _ => rfl⟩
  | append _ hstate => rcases hd with h | h <;> rw [hstate] at h <;> cases h
  | emit _ _ hstate => rcases hd with h | h <;> rw [hstate] at h <;> cases h
  | fin _ _ _ hst => rcases hst with rfl | rfl <;> rcases hd with h | h <;> cases h
  | resend sndNxt sdat hstate =>
      obtain ⟨una, out, free, hring, -⟩ := hin hstate
      obtain ⟨hfew, hacked⟩ := hc hd
      rcases hring.outgoing_rebuffer c.sdat (d := { c with
          segments := Function.update c.segments c.segidx { c.segments c.segidx with dat := c.sdat }
          sndNxt := sndNxt
          slen := 0
          sdat := sdat }) rfl rfl with ⟨hold, hnew⟩ | ⟨rest, hold, hnew⟩
      · rw [hnew]
        exact ⟨Nat.zero_le _, fun _ => rfl⟩
      · rw [hold] at hfew hacked
        rw [hnew]
        exact ⟨hfew, fun h => absurd (hacked h) (List.cons_ne_nil _ _)⟩
  | kill sdat hl => rcases hd with h | h <;> cases h

/-- A segment is copied to the send buffer: the copy brings the beginning of its payload,
and the end is there already. -/
theorem Segment.read_swapped {seg : Segment} {q : Ptr} {mem mem' : BlockMemory}
    (hdat : seg.dat = some q) (hintact : seg.swapKeeps mem (some p) = true)
    (hcopy : mem'.read p.buf p.off seg.len.toNat = mem.read q.buf q.off seg.len.toNat)
    (hsame : ∀ i, p.off + seg.len.toNat ≤ i → mem' p.buf i = mem p.buf i) :
    mem'.read p.buf (p.off + headerLen) seg.len.toNat = seg.carried mem := by
  simp only [Segment.swapKeeps, hdat, beq_iff_eq] at hintact
  simp only [Segment.carried, hdat]
  apply List.map_congr_left
  intro i hi
  have hlen : i < seg.len.toNat := List.mem_range.mp hi
  by_cases hbegin : headerLen + i < seg.len.toNat
  · have hat := BlockMemory.apply_of_read_eq hcopy hbegin
    simpa only [← Nat.add_assoc] using hat
  · -- Behind the copy the buffer is as it was.
    have hstart : max headerLen seg.len.toNat ≤ headerLen + i := by omega
    have hat := BlockMemory.apply_of_read_eq hintact
      (i := headerLen + i - max headerLen seg.len.toNat) (by omega)
    have hp : p.off + max headerLen seg.len.toNat +
        (headerLen + i - max headerLen seg.len.toNat) = p.off + headerLen + i := by omega
    have hq : q.off + max headerLen seg.len.toNat +
        (headerLen + i - max headerLen seg.len.toNat) = q.off + headerLen + i := by omega
    rw [hp, hq] at hat
    rw [← hat]
    exact hsame _ (by omega)

/-- The history tells what was pending when a segment without data left. -/
theorem SentControl.marked {known : Prop} (h : SentControl known s t) :
    .control s.id s.state s.slen ∈ t.log := by
  obtain ⟨p, u, ret, -, hcommit, hout⟩ := h
  obtain ⟨_, hsends⟩ := hcommit.sends
  have hu : .control s.id s.state s.slen ∈ u.log := by
    rw [hsends.log]
    exact List.mem_append_right _ List.mem_cons_self
  rcases hout with ⟨-, rfl⟩ | ⟨-, hrefill⟩
  · exact hu
  · obtain ⟨_, hrefilled⟩ := hrefill.sends none 0
    rw [hrefilled.log]
    exact List.mem_append_right _ hu

/-- Behind its header, the buffer of a segment that goes out is left alone. -/
theorem Transmitted.payload_mem {known : Prop} {k : Fin segmentCount} {hlen len : Nat}
    (h : Transmitted handler known k hlen len s t) (hdat : (s.segments k).dat = some p)
    (hnew : ∀ new, t.log = new ++ s.log → p.buf ∉ prepared new) (i : Nat) (hi : p.off + hlen ≤ i) :
    t.mem p.buf i = s.mem p.buf i := by
  obtain ⟨new, hsends⟩ := h.sends
  refine hsends.mem p.buf (hnew new hsends.log) i fun q hq _ => ?_
  cases hdat.symm.trans hq
  exact hi

/-- The history tells what a retransmission found. -/
theorem Transmitted.marker {known : Prop} {k : Fin segmentCount} {hlen len lo hi : Nat}
    {ev : Event} (h : Transmitted handler known k hlen len u.swapped t)
    (hstore : Stored p lo hi (s.logged ev) u) : ev ∈ t.log := by
  obtain ⟨new, hsends⟩ := h.sends
  obtain ⟨mem, writes, rfl, -⟩ := hstore
  rw [hsends.log]
  exact List.mem_append_right _ (List.mem_append_right _ List.mem_cons_self)

/-- The buffer a segment is copied to holds its payload. -/
theorem Stored.read_again {ev : Event}
    (hstore : Stored p p.off (p.off + (s.segments s.segidx).len.toNat) (s.logged ev) u)
    (hsdat : s.sdat = some p)
    (hcopy : ∀ q, (s.segments s.segidx).dat = some q → (s.segments s.segidx).len ≠ 0 →
      u.mem.read p.buf p.off (s.segments s.segidx).len.toNat =
        s.mem.read q.buf q.off (s.segments s.segidx).len.toNat)
    (hintact : (s.segments s.segidx).swapKeeps s.mem s.sdat = true)
    (hdat : (s.segments s.segidx).dat ≠ none) (hbusy : (s.segments s.segidx).isFree = false) :
    u.mem.read p.buf (p.off + headerLen) (s.segments s.segidx).len.toNat =
      (s.segments s.segidx).carried s.mem := by
  obtain ⟨mem, writes, rfl, -, hmem⟩ := hstore
  obtain ⟨q, hq⟩ := Option.ne_none_iff_exists'.mp hdat
  have hlen : (s.segments s.segidx).len ≠ 0 := by simpa [Segment.isFree] using hbusy
  rw [hsdat] at hintact
  exact Segment.read_swapped hq hintact (hcopy q hq hlen) fun i hi => hmem p.buf i fun _ => .inr hi

/-- A segment that goes out again leaves its payload in its new buffer. -/
theorem Transmitted.carried_again {known : Prop} {len lo hi : Nat} {ev : Event}
    (h : Transmitted handler known s.segidx headerLen len u.swapped t) (hsdat : s.sdat = some p)
    (hstore : Stored p lo hi (s.logged ev) u) (hlog : t.log = new ++ s.log)
    (hnew : p.buf ∉ prepared new) :
    ({ s.segments s.segidx with dat := some p } : Segment).carried t.mem =
      u.mem.read p.buf (p.off + headerLen) (s.segments s.segidx).len.toNat := by
  obtain ⟨mem, writes, rfl, -, hmem⟩ := hstore
  refine BlockMemory.read_congr fun i _ => ?_
  have horigin : ((Slot.swapped { s with mem := mem, log := writes ++ (s.logged ev).log }).segments
      s.segidx).dat = some p := by
    simpa only [Slot.swapped, Function.update_self] using hsdat
  refine h.payload_mem horigin (fun new' hlog' hb => hnew ?_) _ (by omega)
  have hall : new = new' ++ (writes ++ [ev]) := by
    refine List.append_cancel_right (hlog.symm.trans (hlog'.trans ?_))
    simp [Slot.swapped, Slot.logged]
  rw [hall, prepared_append]
  exact List.mem_append_left _ hb

section Spells

variable (hs : s.toCore.Streams s.mem s.log) (hest : s.state = .established)
  (hplaced : s.toCore.Placed) (hkeep : ∀ b, s.keeps b → ∀ i, tcpOffset + headerLen ≤ i →
    t.mem b i = s.mem b i)

include hs hest hplaced hkeep

/-- An act that leaves the ring and the pending data alone, and takes nothing in. -/
theorem Core.Streams.spells_same (houtgoing : t.outgoing = s.outgoing) (hslen : t.slen = s.slen)
    (hsdat : ∀ p, t.sdat = some p → s.slen = 0 ∨ s.sdat = some p ∧
      t.mem.read p.buf (p.off + headerLen) s.slen.toNat =
        s.mem.read p.buf (p.off + headerLen) s.slen.toNat)
    (hstream : stream t.id t.log = stream s.id s.log) :
    (∀ seg ∈ t.outgoing, seg.dat ≠ none) ∧ t.Spells t.mem (stream t.id t.log) := by
  obtain ⟨hdat, rest, hlen, hrest, hspelled⟩ := hs.spells hest
  refine ⟨houtgoing ▸ hdat, rest, hslen ▸ hlen, fun p hp => ?_, ?_⟩
  · rw [hslen]
    rcases hsdat p hp with hzero | ⟨hold, hread⟩
    · rw [hzero] at hlen ⊢
      exact List.length_eq_zero_iff.mp hlen
    · rw [hread]
      exact hrest p hold
  · rwa [houtgoing, Core.carried_congr hplaced hkeep, hstream]

/-- What was pending becomes the newest segment in flight. -/
theorem Core.Streams.spells_emit {k : Fin segmentCount} (hfree : s.nextFree = some k)
    (hsend : Transmitted handler True k headerLen s.slen.toNat
      (s.pushed k (UInt32.ofNat s.slen.toNat)) t)
    (hhandles : Handles new s t) (hfresh : ∀ b ∈ prepared new, ¬s.refersTo b)
    (hstream : stream t.id t.log = stream s.id s.log) :
    (∀ seg ∈ t.outgoing, seg.dat ≠ none) ∧ t.Spells t.mem (stream t.id t.log) := by
  obtain ⟨una, out, free, hring, -⟩ := hs.order (by rw [hest]; decide)
  obtain ⟨hdat, rest, hlen, hrest, hspelled⟩ := hs.spells hest
  obtain ⟨sndNxt, sdat, hcore⟩ := hsend.core_eq
  have hsent := hsend
  obtain ⟨p, _, _, hp, -⟩ := hsent
  have hsdat : s.sdat = some p := by
    simpa only [Slot.pushed, Function.update_self] using hp
  set seg : Segment := ⟨UInt32.ofNat s.slen.toNat, s.sndNxt, s.sdat⟩ with hseg
  have hout : t.outgoing = s.outgoing ++ if seg.isFree then [] else [seg] :=
    hring.outgoing_push hfree (congrArg Core.segments hcore :) (congrArg Core.segidx hcore :)
  have hzero : t.slen = 0 := (congrArg Core.slen hcore :)
  -- The payload stays where it was pending.
  have hsmall : (UInt32.ofNat s.slen.toNat).toNat = s.slen.toNat := by
    rw [UInt32.toNat_ofNat', Nat.mod_eq_of_lt (by omega)]
  have hcarried : seg.carried t.mem = rest := by
    simp only [Segment.carried, hseg, hsdat, hsmall]
    rw [hrest p hsdat]
    refine BlockMemory.read_congr fun i _ => hsend.payload_mem hp (fun new' hlog => ?_) _ (by omega)
    rw [List.append_cancel_right (hlog.symm.trans hhandles.log)]
    exact fun hb => hfresh p.buf hb (.inl (by rw [hsdat]; rfl))
  refine ⟨fun x hx => ?_, [], by simp [hzero], fun q _ => by simp [hzero], ?_⟩
  · rw [hout] at hx
    rcases List.mem_append.mp hx with hx | hx
    · exact hdat x hx
    · split at hx
      · cases hx
      · rw [List.mem_singleton.mp hx, hseg, hsdat]
        exact Option.some_ne_none p
  · rw [hstream, hout, List.append_nil, List.flatMap_append,
      Core.carried_congr hplaced hkeep]
    split
    · next hfreeseg =>
        have hnone : UInt32.ofNat s.slen.toNat = 0 := Segment.isFree_eq_true.mp hfreeseg
        have hslen : s.slen.toNat = 0 := by
          rw [← hsmall, hnone]
          rfl
        rw [List.length_eq_zero_iff.mp (hlen.trans hslen)] at hspelled
        exact hspelled
    · rw [List.flatMap_singleton, hcarried]
      exact hspelled

/-- The oldest segment goes out again, with nothing pending and the end of its payload in
place. -/
theorem Core.Streams.spells_resend {ev : Event} (hslen : s.slen = 0) (hsdat : s.sdat = some p)
    (hcopy : ∀ q, (s.segments s.segidx).dat = some q → (s.segments s.segidx).len ≠ 0 →
      u.mem.read p.buf p.off (s.segments s.segidx).len.toNat =
        s.mem.read q.buf q.off (s.segments s.segidx).len.toNat)
    (hintact : (s.segments s.segidx).swapKeeps s.mem s.sdat = true)
    (hstore : Stored p p.off (p.off + (s.segments s.segidx).len.toNat) (s.logged ev) u)
    (hsend : Transmitted handler ((s.segments s.segidx).len.toNat < 2 ^ 24) s.segidx headerLen
      (s.segments s.segidx).len.toNat u.swapped t)
    (hhandles : Handles new s t) (hfresh : ∀ b ∈ prepared new, ¬s.refersTo b)
    (hstream : stream t.id t.log = stream s.id s.log) :
    (∀ seg ∈ t.outgoing, seg.dat ≠ none) ∧ t.Spells t.mem (stream t.id t.log) := by
  obtain ⟨sndNxt, sdat, hcore⟩ := hsend.core_eq
  have hu : u.toCore = s.toCore := hstore.toCore_eq
  have htcore : t.toCore = { s.toCore with
      segments := Function.update s.segments s.segidx { s.segments s.segidx with dat := s.sdat }
      sndNxt := sndNxt
      slen := 0
      sdat := sdat } := by
    rw [hcore]
    simp only [Slot.swapped, hu]
  obtain ⟨una, out, free, hring, -⟩ := hs.order (by rw [hest]; decide)
  obtain ⟨hdat, rest, hrlen, hrest, hspelled⟩ := hs.spells hest
  have hnone : rest = [] := List.length_eq_zero_iff.mp (by rw [hrlen, hslen]; rfl)
  rw [hnone, List.append_nil] at hspelled
  have hzero : t.slen = 0 := (congrArg Core.slen htcore :)
  have hout := hring.outgoing_rebuffer s.sdat (d := t.toCore) (congrArg Core.segments htcore :)
    (congrArg Core.segidx htcore :)
  rcases hout with ⟨-, hempty⟩ | ⟨tail, hold, hnew⟩
  · refine ⟨by simp [hempty], [], by simp [hzero], fun q _ => by simp [hzero], ?_⟩
    rw [hempty]
    exact List.nil_suffix
  · have hhead : s.segments s.segidx ∈ s.outgoing := by
      rw [hold]
      exact List.mem_cons_self
    have hbusy := (Core.mem_outgoing.mp hhead).choose_spec.2
    have hcarried := (hsend.carried_again hsdat hstore hhandles.log fun hb =>
      hfresh p.buf hb (.inl (by rw [hsdat]; rfl))).trans
        (hstore.read_again hsdat hcopy hintact (hdat _ hhead) hbusy)
    rw [hsdat] at hnew
    refine ⟨fun seg hseg => ?_, [], by simp [hzero], fun q _ => by simp [hzero], ?_⟩
    · rw [hnew] at hseg
      rcases List.mem_cons.mp hseg with rfl | hseg
      · exact Option.some_ne_none p
      · exact hdat seg (hold ▸ List.mem_cons_of_mem _ hseg)
    · rw [hstream, hnew, List.append_nil, List.flatMap_cons, hcarried]
      rw [hold, List.flatMap_cons] at hspelled
      have htail : tail.flatMap (Segment.carried t.mem) = tail.flatMap (Segment.carried s.mem) :=
        List.flatMap_congr fun seg hseg =>
          Core.carried_eq hplaced hkeep (hold ▸ List.mem_cons_of_mem _ hseg)
      rwa [htail]

end Spells

/-- Every act of a connection leaves the stream spelt out. -/
theorem Act.spells (h : Act handler l s t) (hl : l ∉ Label.opening) (hgood : TransmitGood t.log)
    (hplaced : s.toCore.Placed) (hsole : ∀ p, s.sdat = some p → ¬s.keeps p.buf)
    (hhandles : Handles new s t) (hfresh : ∀ b ∈ prepared new, ¬s.refersTo b)
    (hs : s.toCore.Streams s.mem s.log) (ht : t.state = .established) :
    (∀ seg ∈ t.outgoing, seg.dat ≠ none) ∧ t.Spells t.mem (stream t.id t.log) := by
  have hkeep := hhandles.keeps_mem hsole hfresh
  have hstream : l ≠ .append → stream t.id t.log = stream s.id s.log := fun happend =>
    (h.stream_eq hl happend).2
  cases h with
  | note | rcv | news =>
      exact hs.spells_same ht hplaced hkeep rfl rfl (fun p hp => .inr ⟨hp, rfl⟩)
        (hstream (by decide))
  | life _ hcall | data _ hcall =>
      obtain ⟨e, -, rfl⟩ := hcall
      exact hs.spells_same ht hplaced hkeep rfl rfl (fun p hp => .inr ⟨hp, rfl⟩)
        (hstream (by decide))
  | @move s st hst hack =>
      -- The SYN has left the ring, and nothing is pending yet.
      have hearly : s.state = .synSent ∨ s.state = .synRcvd := by
        have hst' : s.state.leadsTo .established = true := by rwa [← (ht : st = .established)]
        revert hst'
        cases s.state <;> simp [State.leadsTo]
      have hnone : (s.moved st).outgoing = [] := (hs.greets hearly).2 (hack ht)
      have hzero : (s.moved st).slen = 0 := by
        refine (hs.account ?_).1 ?_
        · rcases hearly with h | h <;> simp [State.Early, h]
        · rcases hearly with h | h <;> simp [h]
      refine ⟨by simp [hnone], [], by simp [hzero], fun p _ => by simp [hzero], ?_⟩
      rw [hnone]
      exact List.nil_suffix
  | @settle s st hst =>
      have hst' : s.state.settlesTo .established = true := by rwa [← (ht : st = .established)]
      revert hst'
      cases s.state <;> simp [State.settlesTo]
  | clear =>
      have hopen : s.state ≠ .closed := by
        rw [show s.state = .established from ht]
        decide
      obtain ⟨una, out, free, hring, -⟩ := hs.order hopen
      have htail : s.cleared.outgoing = s.outgoing.tail := hring.outgoing_clear rfl rfl
      obtain ⟨hdat, rest, hlen, hrest, hspelled⟩ := hs.spells ht
      refine ⟨fun seg hseg => hdat seg (List.mem_of_mem_tail (htail ▸ hseg)), rest, hlen, hrest, ?_⟩
      rw [htail]
      refine List.IsSuffix.trans ?_ hspelled
      cases s.outgoing with
      | nil => exact List.suffix_refl _
      | cons x l =>
          refine ⟨x.carried s.mem, ?_⟩
          rw [List.flatMap_cons, List.append_assoc]
          rfl
  | @store s t p lo hi hstate hsdat hrange hstore =>
      obtain ⟨mem, writes, rfl, hwrites, hmem⟩ := hstore
      refine hs.spells_same ht hplaced hkeep rfl rfl (fun q hq => .inr ⟨hq, ?_⟩)
        (hstream (by decide))
      cases hsdat.symm.trans hq
      refine hmem.read_eq fun _ => ?_
      rcases hrange with hheader | hbehind
      · exact .inr hheader
      · exact .inl hbehind
  | @append s bytes hstate hbytes =>
      have hfit : s.slen.toNat + bytes.length < 2 ^ 24 := by
        have hkeeps := (hgood.1 (.append s.id s.slen bytes) List.mem_cons_self).2
        simpa [Event.keepsPending] using hkeeps
      have hslen : (s.slen + BitVec.ofNat 24 bytes.length).toNat = s.slen.toNat + bytes.length := by
        rw [BitVec.toNat_add, BitVec.toNat_ofNat]
        omega
      obtain ⟨hdat, rest, hlen, hrest, hspelled⟩ := hs.spells hstate
      refine ⟨hdat, rest ++ bytes, ?_, fun p hp => ?_, ?_⟩
      · rw [List.length_append, hlen, hslen]
      · rw [hslen, BlockMemory.read_add, ← hrest p hp, ← hbytes p hp]
      · have hstream : stream s.id ([Event.append s.id s.slen bytes] ++ s.log) = _ :=
          stream_append (by simp [Event.creates])
        show _ <:+ stream s.id ([Event.append s.id s.slen bytes] ++ s.log)
        have haccepts : [Event.append s.id s.slen bytes].reverse.flatMap (Event.accepts s.id) =
            bytes := by simp [Event.accepts]
        rw [hstream, haccepts, ← List.append_assoc]
        exact List.suffix_append_self_iff.mpr hspelled
  | emit hstate hfree hsend =>
      exact hs.spells_emit hstate hplaced hkeep hfree hsend hhandles hfresh (hstream (by decide))
  | @fin s t st k _ hst _ hsend =>
      obtain ⟨sndNxt, sdat, hcore⟩ := hsend.core_eq
      have hstate : t.state = st := (congrArg Core.state hcore :)
      rw [ht] at hstate
      rcases hst with rfl | rfl <;> cases hstate
  | @resend s u t intact p hlen len hstate hsdat hintact hcopy hstore hkind hsend =>
      obtain ⟨sndNxt, sdat, hcore⟩ := hsend.core_eq
      have hu : u.toCore = s.toCore := hstore.toCore_eq
      have hest : s.state = .established := by
        have hstate' : t.state = u.state := (congrArg Core.state hcore :)
        rw [← ht, hstate', hu]
      obtain ⟨-, hhlen, hlen⟩ := hkind.resolve_right fun h => h.1 hest
      subst hhlen hlen
      -- In a good history nothing is pending, and the end of the payload is in place.
      have hmark := hsend.marker hstore
      have hslen : s.slen = 0 := by simpa [Event.keepsPending, hest] using (hgood.1 _ hmark).2
      have hin : intact = true := by simpa [Event.faithful, hest] using hgood.2 _ hmark
      exact hs.spells_resend hest hplaced hkeep hslen hsdat hcopy (hintact.symm.trans hin) hstore
        hsend hhandles hfresh (hstream (by decide))
  | @control s u t p hstate hslen hsdat hstore hsend =>
      obtain ⟨sdat, hcore⟩ := hsend.core_eq
      rw [hstore.toCore_eq] at hcore
      have hest : s.state = .established := (congrArg Core.state hcore).symm.trans ht
      refine hs.spells_same hest hplaced hkeep ?_ (congrArg Core.slen hcore :)
        (fun p _ => .inl hslen) (hstream (by decide))
      exact Core.outgoing_congr (congrArg Core.segments hcore :) (congrArg Core.segidx hcore :)
  | @spare s u t hstate hslen hspare hsend =>
      -- In a good history nothing is pending.
      have hmark := hgood.2 _ hsend.marked
      rw [hspare.toCore_eq] at hmark
      simp only [Event.faithful, Bool.or_eq_true, beq_iff_eq] at hmark
      exact absurd (hmark.resolve_left hstate) hslen
  | kill _ _ hstore hsend =>
      obtain ⟨sdat, hcore⟩ := hsend.core_eq
      rw [hstore.toCore_eq] at hcore
      cases (congrArg Core.state hcore).symm.trans ht
  | abort hcall _ hflags hstore hsend =>
      obtain ⟨sdat, hcore⟩ := hsend.core_eq
      rw [hstore.toCore_eq.trans (hflags.toCore_eq.trans hcall.toCore_eq)] at hcore
      cases (congrArg Core.state hcore).symm.trans ht
  | create => exact absurd hl (by decide)
  | createFailed => exact absurd hl (by decide)

end Step

/-! ## What frames carry -/

/-- A frame carries bytes of the stream at its sequence number, not far from the end of
what has been written. -/
def Conveys (id : UInt16) (frame : List UInt8) (log : List Event) : Prop :=
  Frame.payload frame ≠ [] → ∃ iss off, createdWith id log = some iss ∧
    Frame.seqno frame = iss + 1 + UInt32.ofNat off ∧
    Pieces.At (stream id log) off (Frame.payload frame) ∧
    (stream id log).length < off + 2 ^ 29

/-- So does every frame of a connection, given what came before it. -/
def Event.ConveysAfter (log : List Event) : Event → Prop
  | .commit (some id) _ frame _ _ => Conveys id frame log
  | _ => True

section Told

variable {H : Type} {handler : EventHandler H} {l : Label} {s t u : Slot H} {new log : List Event}
  {p : Ptr} {id : UInt16} {frame : List UInt8}

/-- What neither creates the connection nor takes bytes in does not change what a frame has
to carry. -/
theorem Conveys.after (h : Conveys id frame log)
    (hnew : ∀ ev ∈ new, ev.creates id = false ∧ ev.accepts id = []) :
    Conveys id frame (new ++ log) := by
  have hnone : ∀ ev ∈ new, ev.creates id = false := fun ev hev => (hnew ev hev).1
  have hstream : stream id (new ++ log) = stream id log := by
    rw [stream_append hnone, flatMap_accepts_eq_nil fun ev hev => (hnew ev hev).2,
      List.append_nil]
  unfold Conveys
  rwa [createdWith_append hnone, hstream]

/-- Nothing but a commit has anything to carry. -/
theorem told_append (hnew : ∀ ev ∈ new, ∀ who buf frame mss ret, ev ≠ .commit who buf frame mss ret)
    (h : Always Event.ConveysAfter log) : Always Event.ConveysAfter (new ++ log) := by
  refine h.append fun ev hev log' => ?_
  cases ev with
  | commit who buf frame mss ret => exact absurd rfl (hnew _ hev who buf frame mss ret)
  | _ => trivial

theorem Stored.told {lo hi : Nat} (h : Stored p lo hi s t) (hs : Always Event.ConveysAfter s.log) :
    Always Event.ConveysAfter t.log := by
  obtain ⟨mem, writes, rfl, hwrites, -⟩ := h
  exact told_append (fun ev hev => by rw [hwrites ev hev]; simp) hs

theorem Called.told {cb : Callback} (h : Called handler cb s t)
    (hs : Always Event.ConveysAfter s.log) : Always Event.ConveysAfter t.log := by
  obtain ⟨e, -, rfl⟩ := h
  exact ⟨trivial, hs⟩

theorem Refilled.told {first : Bool} (h : Refilled first s t)
    (hs : Always Event.ConveysAfter s.log) : Always Event.ConveysAfter t.log := by
  rcases h with rfl | ⟨buf, mem, writes, clash, -, hwrites, -, rfl⟩
  · exact ⟨trivial, trivial, hs⟩
  · exact ⟨trivial, told_append (fun ev hev => by rw [hwrites ev hev]; simp) ⟨trivial, hs⟩⟩

/-- A frame whose content is known carries what its buffer holds behind the header. -/
theorem Committed.told {known : Prop} {hlen len : Nat} {seq : UInt32} {ret : Status}
    (h : Committed known p hlen seq len ret s t) (hoff : p.off = tcpOffset) (hknown : known)
    (hcarries : ∀ frame, Frame.seqno frame = seq →
      Frame.payload frame = s.mem.read p.buf (p.off + hlen) len → Conveys s.id frame s.log)
    (hs : Always Event.ConveysAfter s.log) : Always Event.ConveysAfter t.log := by
  obtain ⟨u, frame, mss, hstore, rfl, hframe⟩ := h
  refine ⟨?_, hstore.told hs⟩
  obtain ⟨mem, writes, rfl, hwrites, -⟩ := hstore
  obtain ⟨hseq, hpayload⟩ := hframe hoff.ge hknown
  exact (hcarries frame hseq hpayload).after fun ev hev => by rw [hwrites ev hev]; exact ⟨rfl, rfl⟩

theorem Transmitted.told {known : Prop} {k : Fin segmentCount} {hlen len : Nat}
    (h : Transmitted handler known k hlen len s t)
    (hoff : ∀ p, (s.segments k).dat = some p → p.off = tcpOffset) (hknown : known)
    (hcarries : ∀ p frame, (s.segments k).dat = some p →
      Frame.seqno frame = (s.segments k).seq →
      Frame.payload frame = s.mem.read p.buf (p.off + hlen) len → Conveys s.id frame s.log)
    (hs : Always Event.ConveysAfter s.log) : Always Event.ConveysAfter t.log := by
  obtain ⟨p, u, ret, hdat, hcommit, hout⟩ := h
  have hu := hcommit.told (hoff p hdat) hknown (hcarries p · hdat) hs
  rcases hout with ⟨-, rfl⟩ | ⟨-, x, hx, hrefill⟩
  · exact ⟨trivial, hu⟩
  · refine hrefill.told ?_
    split at hx
    · rw [hx]
      exact ⟨trivial, hu⟩
    · obtain ⟨v, rfl | hcall, rfl⟩ := hx
      · exact ⟨trivial, hu⟩
      · exact hcall.told ⟨trivial, hu⟩

/-- A frame without payload carries nothing. -/
theorem Conveys.of_nil (h : Frame.payload frame = []) : Conveys id frame log :=
  fun hne => absurd h hne

theorem SentControl.told (h : SentControl True s t)
    (hplaced : ∀ p, s.sdat = some p → p.off = tcpOffset) (hs : Always Event.ConveysAfter s.log) :
    Always Event.ConveysAfter t.log := by
  obtain ⟨p, u, ret, hsdat, hcommit, hout⟩ := h
  have hu := hcommit.told (hplaced p hsdat) trivial (fun _ _ hnil => .of_nil hnil) ⟨trivial, hs⟩
  rcases hout with ⟨-, rfl⟩ | ⟨-, hrefill⟩
  · exact hu
  · exact hrefill.told hu

/-- A piece of what is in flight or pending is carried at the sequence number that is as far
from the end as the piece. -/
theorem Core.Streams.carries {c : Core} {mem : BlockMemory} {before body after : List UInt8}
    {seq : UInt32} (hc : c.Streams mem log) (hest : c.state = .established)
    (hsplit : before ++ body ++ after <:+ stream c.id log)
    (hseq : seq + UInt32.ofNat (body.length + after.length) =
      c.sndNxt + UInt32.ofNat c.slen.toNat)
    (hshort : body.length + after.length < 2 ^ 29) (hnum : Frame.seqno frame = seq)
    (hbody : Frame.payload frame = body) : Conveys c.id frame log := by
  intro _
  obtain ⟨-, iss, hiss, hsum⟩ := hc.account (.inr (.inr hest))
  obtain ⟨first, hstream⟩ := hsplit
  have hlength : (stream c.id log).length =
      (first ++ before).length + (body.length + after.length) := by
    rw [← hstream]
    simp only [List.length_append]
    omega
  refine ⟨iss, (first ++ before).length, hiss, ?_, ?_, by omega⟩
  · rw [hlength, UInt32.ofNat_add] at hsum
    rw [hnum]
    grind
  · rw [Pieces.At, hbody, ← hstream]
    have hback : first ++ (before ++ body ++ after) = (first ++ before) ++ (body ++ after) := by
      simp
    rw [hback, List.drop_left]
    exact List.prefix_append body after

theorem Segment.length_carried {seg : Segment} (h : seg.dat ≠ none) (mem : BlockMemory) :
    (seg.carried mem).length = seg.len.toNat := by
  obtain ⟨p, hp⟩ := Option.ne_none_iff_exists'.mp h
  simp [carried, hp]

theorem length_flatMap_carried {out : List Segment} (h : ∀ seg ∈ out, seg.dat ≠ none)
    (mem : BlockMemory) : (out.flatMap (Segment.carried mem)).length = total Segment.len out := by
  induction out with
  | nil => rfl
  | cons seg out ih =>
      rw [List.flatMap_cons, List.length_append, total_cons,
        seg.length_carried (h seg List.mem_cons_self) mem,
        ih fun x hx => h x (List.mem_cons_of_mem seg hx)]

theorem InFlight.head_small {c : Core} {nxt una : UInt32} {out free : List Segment}
    (h : InFlight c.segments c.segidx nxt una out free) :
    (c.segments c.segidx).len.toNat < 2 ^ 24 := by
  cases out with
  | nil =>
      have hfree := Segment.isFree_eq_true.mp (h.out_eq_nil_iff.mp rfl)
      rw [hfree]
      decide
  | cons x rest =>
      rw [h.head_eq]
      exact h.small x List.mem_cons_self

/-- So does the oldest segment in flight, when nothing is pending. -/
theorem Core.Streams.carries_head {c : Core} {mem : BlockMemory} (hc : c.Streams mem log)
    (hest : c.state = .established) (hslen : c.slen = 0)
    (hnum : Frame.seqno frame = (c.segments c.segidx).seq)
    (hlen : (Frame.payload frame).length = (c.segments c.segidx).len.toNat)
    (hbody : (c.segments c.segidx).isFree = false → (c.segments c.segidx).dat ≠ none →
      Frame.payload frame = (c.segments c.segidx).carried mem) : Conveys c.id frame log := by
  obtain ⟨una, out, free, hring, -⟩ := hc.order (by rw [hest]; decide)
  obtain ⟨hdat, rest, hrlen, -, hspelled⟩ := hc.spells hest
  have hnone : rest = [] := List.length_eq_zero_iff.mp (by rw [hrlen, hslen]; rfl)
  rw [hnone, List.append_nil, hring.outgoing_eq] at hspelled
  rw [hring.outgoing_eq] at hdat
  cases out with
  | nil =>
      have hfree := Segment.isFree_eq_true.mp (hring.out_eq_nil_iff.mp rfl)
      rw [hfree] at hlen
      exact .of_nil (List.length_eq_zero_iff.mp hlen)
  | cons x tail =>
      have hhead := hring.head_eq
      have htotal := hring.total_lt
      have htail := length_flatMap_carried (fun y hy => hdat y (List.mem_cons_of_mem x hy)) mem
      rw [hhead] at hnum hlen hbody
      have hpayload := hbody (hring.busy x List.mem_cons_self) (hdat x List.mem_cons_self)
      rw [total_cons] at htotal
      have hsplit : [] ++ x.carried mem ++ tail.flatMap (Segment.carried mem) <:+ stream c.id log :=
        hspelled
      have hxlen : (x.carried mem).length = x.len.toNat := hpayload ▸ hlen
      have hseq : x.seq + UInt32.ofNat ((x.carried mem).length +
          (tail.flatMap (Segment.carried mem)).length) = c.sndNxt + UInt32.ofNat c.slen.toNat := by
        have hend := hring.consecutive.end_eq
        rw [hxlen, htail, hslen, hend, ← total_cons, ← hring.consecutive.seq_head]
        simp
      exact hc.carries hest hsplit hseq (by omega) hnum hpayload

/-- What every act of a connection commits carries its stream. -/
theorem Act.told (h : Act handler l s t) (hl : l ∉ Label.opening) (hgood : TransmitGood t.log)
    (hplaced : s.toCore.Placed) (hs : s.toCore.Streams s.mem s.log)
    (htold : Always Event.ConveysAfter s.log) : Always Event.ConveysAfter t.log := by
  cases h with
  | @note s ev hev =>
      cases ev with
      | commit => cases hev
      | _ => exact ⟨trivial, htold⟩
  | life _ hcall | data _ hcall => exact hcall.told htold
  | move | settle | news | clear => exact htold
  | rcv hsynced =>
      refine told_append (fun ev hev => ?_) htold
      obtain ⟨irs, rfl⟩ := hsynced ev hev
      simp
  | store _ _ _ hstore => exact hstore.told htold
  | append => exact ⟨trivial, htold⟩
  | @emit s t k hstate _ hsend =>
      refine hsend.told (fun p hp => ?_) trivial (fun p frame hp hnum hbody => ?_) htold
      · exact hplaced.sdat p (by simpa only [Slot.pushed, Function.update_self] using hp)
      -- What is pending leaves: its bytes stand where the stream says.
      · have hsdat : s.sdat = some p := by simpa only [Slot.pushed, Function.update_self] using hp
        obtain ⟨-, rest, hlen, hrest, hspelled⟩ := hs.spells hstate
        simp only [Slot.pushed, Function.update_self] at hnum
        have hsplit : s.outgoing.flatMap (Segment.carried s.mem) ++ rest ++ [] <:+
            stream s.id s.log := by rwa [List.append_nil]
        have hcarries : Conveys s.id frame s.log := by
          refine hs.carries hstate hsplit ?_ ?_ hnum (hbody.trans (hrest p hsdat).symm)
          · rw [hlen]
            rfl
          · rw [hlen, List.length_nil]
            omega
        exact hcarries
  | @fin s t st k _ _ _ hsend =>
      refine hsend.told (fun p hp => ?_) trivial (fun _ _ _ _ hnil => .of_nil hnil) htold
      exact hplaced.sdat p (by simpa only [Slot.pushed, Slot.moved, Function.update_self] using hp)
  | @resend s u t intact p hlen len hstate hsdat hintact hcopy hstore hkind hsend =>
      have hu : u.toCore = s.toCore := hstore.toCore_eq
      have hseg : u.swapped.segments s.segidx = { s.segments s.segidx with dat := some p } := by
        simp only [Slot.swapped, hu, Function.update_self, hsdat]
      have hplace : ∀ q, (u.swapped.segments s.segidx).dat = some q → q.off = tcpOffset := by
        rw [hseg]
        intro q hq
        exact hplaced.sdat q (hsdat.trans hq)
      have hmarked : Always Event.ConveysAfter u.log := hstore.told ⟨trivial, htold⟩
      obtain ⟨una, out, free, hring, -⟩ := hs.order hstate
      rcases hkind with ⟨hest, rfl, rfl⟩ | ⟨-, rfl⟩
      · have hmark := hsend.marker hstore
        have hslen : s.slen = 0 := by simpa [Event.keepsPending, hest] using (hgood.1 _ hmark).2
        have hin : intact = true := by simpa [Event.faithful, hest] using hgood.2 _ hmark
        refine hsend.told hplace hring.head_small (fun q frame hq hnum hbody => ?_) hmarked
        rw [hseg] at hq hnum
        cases hq
        have hcarries : Conveys s.id frame s.log := by
          refine hs.carries_head hest hslen hnum ?_ fun hbusy hdat => ?_
          · rw [hbody, BlockMemory.length_read]
          · exact hbody.trans (hstore.read_again hsdat hcopy (hintact.symm.trans hin) hdat hbusy)
        -- The events of the copy do not change what the application has handed over.
        obtain ⟨mem, writes, rfl, hwrites, -⟩ := hstore
        have hmarker : Conveys s.id frame ([.rexmit s.id s.state s.slen (s.segments s.segidx)
            intact] ++ s.log) := by
          refine hcarries.after fun ev hev => ?_
          rw [List.mem_singleton.mp hev]
          exact ⟨rfl, rfl⟩
        refine Conveys.after hmarker fun ev hev => ?_
        rw [hwrites ev hev]
        exact ⟨rfl, rfl⟩
      · refine hsend.told hplace (by omega) (fun _ _ _ _ hnil => .of_nil hnil) hmarked

  | control _ _ _ hstore hsend =>
      refine hsend.told (fun p hp => ?_) (hstore.told htold)
      rw [hstore.toCore_eq] at hp
      exact hplaced.sdat p hp
  | spare hstate hslen hspare hsend =>
      have hmark := hgood.2 _ hsend.marked
      rw [hspare.toCore_eq] at hmark
      simp only [Event.faithful, Bool.or_eq_true, beq_iff_eq] at hmark
      exact absurd (hmark.resolve_left hstate) hslen
  | kill _ _ hstore hsend =>
      refine hsend.told (fun p hp => ?_) (hstore.told htold)
      rw [hstore.toCore_eq] at hp
      exact hplaced.sdat p hp
  | @abort s u v w t p port hcall _ hflags hstore hsend =>
      have hw := hstore.toCore_eq.trans (hflags.toCore_eq.trans hcall.toCore_eq)
      refine hsend.told (fun q hq => ?_) (hstore.told ⟨trivial, hflags.told (hcall.told htold)⟩)
      rw [hw] at hq
      exact hplaced.sdat q hq
  | create => exact absurd hl (by decide)
  | createFailed => exact absurd hl (by decide)

/-- The SYN of a new connection carries nothing. -/
theorem Opened.told {peer : Peer} {st : State} {iss : UInt32}
    (h : Opened handler peer st iss p s t) (hoff : p.off = tcpOffset)
    (htold : Always Event.ConveysAfter s.log) : Always Event.ConveysAfter t.log := by
  obtain ⟨leftover, rcvNxt, synced, k, -, hsynced, -, hsend⟩ := h
  refine hsend.told (fun q hq => ?_) trivial (fun _ _ _ _ hnil => .of_nil hnil) ?_
  · have hpq : some p = some q := by
      simpa only [Slot.pushedSyn, Function.update_self] using hq
    rw [← Option.some_inj.mp hpq]
    exact hoff
  · refine told_append (fun ev hev => ?_) ⟨trivial, htold⟩
    obtain ⟨irs, rfl⟩ := hsynced ev hev
    simp

end Told

/-! ## Every run -/

/-- Only the SYN is in flight. -/
theorem Core.OnlySyn.length_outgoing {c : Core} {iss : UInt32} (h : c.OnlySyn iss) :
    c.outgoing.length ≤ 1 := by
  have hrest : ∀ seg ∈ (Ring.rotated c.segments c.segidx).tail, seg.isFree = true := by
    intro seg hseg
    have hsplit := Ring.rotated_update_self c.segments c.segidx .cleared
    have hmem : seg ∈ Ring.rotated (Function.update c.segments c.segidx .cleared) c.segidx := by
      rw [hsplit]
      exact List.mem_cons_of_mem _ hseg
    obtain ⟨i, rfl⟩ := Ring.exists_of_mem_rotated hmem
    by_cases hi : i = c.segidx
    · rw [hi, Function.update_self]
      rfl
    · rw [Function.update_of_ne hi]
      exact h.2.2.2 i hi
  have hnone : ((Ring.rotated c.segments c.segidx).tail).filter (fun seg => !seg.isFree) = [] :=
    List.filter_eq_nil_iff.mpr fun seg hseg => by simp [hrest seg hseg]
  unfold Core.outgoing
  rw [Ring.rotated_eq_cons] at hnone ⊢
  rw [List.tail_cons] at hnone
  rw [List.filter_cons, hnone]
  split
  · exact Nat.le_refl 1
  · exact Nat.zero_le 1

section Runs

variable {H : Type} {handler : EventHandler H}

theorem Opened.streams {peer : Peer} {st : State} {iss : UInt32} {p : Ptr} {s t : Slot H}
    (h : Opened handler peer st iss p s t) (hst : st = .synRcvd ∨ st = .synSent ∧ Replenished t)
    (hgood : TransmitGood t.log) : t.toCore.Streams t.mem t.log := by
  have hring : ∀ ev ∈ t.log, ev.ringGood = true := fun ev hev => (hgood.1 ev hev).1
  obtain ⟨honly, hin⟩ := h.onlySyn hst hring
  have hnew : t.state = st ∧ t.ackdata = false := by
    obtain ⟨leftover, rcvNxt, synced, k, ret, -, -, -, -, hcore⟩ := h.summary
    rcases hcore with ⟨-, -, hcore⟩ | ⟨-, sdat, hcore⟩
    · exact ⟨(congrArg Core.state hcore :), (congrArg Core.ackdata hcore :)⟩
    · exact ⟨(congrArg Core.state hcore :), (congrArg Core.ackdata hcore :)⟩
  refine ⟨hin, h.accounted hst hring, fun _ => ⟨honly.length_outgoing, fun hack => ?_⟩,
    fun hest => ?_⟩
  · rw [hnew.2] at hack
    cases hack
  · rw [hnew.1] at hest
    rcases hst with rfl | ⟨rfl, -⟩ <;> cases hest

theorem streams_kept (handler : EventHandler H) :
    KeptIn handler TransmitGood Core.Streams (Always Event.ConveysAfter) where
  suffix hgood := ⟨fun ev hev => hgood.1 ev (List.mem_append_right _ hev),
    fun ev hev => hgood.2 ev (List.mem_append_right _ hev)⟩
  vacated hgood hcreate := by simpa [Event.ringGood] using (hgood.1 _ hcreate).1
  closed hc := ⟨fun hopen => absurd hc hopen,
    fun hearly => by simp [State.Early, hc] at hearly,
    fun hgreet => by simp [hc] at hgreet, fun hest => by simp [hc] at hest⟩
  act hl hact hgood hplaced _ hsole hhandles hfresh hs :=
    ⟨hact.inOrder (fun ev hev => (hgood.1 ev hev).1) hs.order,
      hact.accounted hgood.1 hs.order hs.account, (hact.change hl).greets hs.order hs.greets,
      hact.spells hl hgood hplaced hsole hhandles hfresh hs⟩
  opened hopen hst hgood := hopen.streams hst hgood
  other {c mem mem' log new} hplaced hnew hmem hs := by
    obtain ⟨horder, haccount⟩ := (accounted_kept handler).other hnew ⟨hs.order, hs.account⟩
    refine ⟨horder, haccount, hs.greets, fun hest => ?_⟩
    obtain ⟨hdat, rest, hlen, hrest, hspelled⟩ := hs.spells hest
    have hstream : stream c.id (new ++ log) = stream c.id log := by
      rw [stream_append fun ev hev => Event.creates_of_owner (hnew ev hev),
        flatMap_accepts_eq_nil fun ev hev => Event.accepts_of_owner (hnew ev hev),
        List.append_nil]
    refine ⟨hdat, rest, hlen, fun p hp => ?_, ?_⟩
    · rw [hrest p hp]
      refine (BlockMemory.read_congr fun i _ => hmem p.buf ?_ _ ?_).symm
      · exact .inl (by rw [hp]; rfl)
      · rw [hplaced.sdat p hp]
        omega
    · rwa [hstream, Core.carried_congr hplaced fun b hkeep => hmem b (.inr hkeep)]
  told hl hact hgood hplaced hs htold := hact.told hl hgood hplaced hs htold
  told_opened hopen hoff _ htold := hopen.told hoff htold
  told_other {log new} hnone htold := by
    refine htold.append fun ev hev log' => ?_
    cases ev with
    | commit who buf frame mss ret =>
        rw [show who = none from hnone _ hev]
        trivial
    | _ => trivial

end Runs

namespace Processor

variable {D H : Type} {n : Nat} {env : Env D H} {p : Processor D H n}

/-- In every run in which the device hands out new buffers only, and no history shows that
pending data or the end of a payload was lost, every frame a connection sends carries
bytes its application has written, at the place its sequence number says. -/
theorem transmit_stream (hp : ReachableBy env (DrawsFresh env) p) (hgood : TransmitGood p.w.log)
    {pre post : List Event} {id : UInt16} {buf : Nat} {frame : List UInt8} {mss : UInt16}
    {ret : Status} (hlog : p.w.log = post ++ .commit (some id) buf frame mss ret :: pre) :
    Conveys id frame pre := by
  have htold := (ReachableBy.housed (streams_kept env.handler) trivial hp hgood).told
  change Always Event.ConveysAfter p.w.log at htold
  rw [hlog] at htold
  exact htold.at

instance (p : Processor D H n) (op : Op) : Decidable (DrawsFresh env p op) :=
  inferInstanceAs (Decidable (∀ q, exec env op p = .ok () q → p.table.Fresh (since p q)))

/-- What a frame of a connection brings, and which connection sent it. -/
def Event.brings? : Event → Option (UInt16 × List UInt8)
  | .commit (some id) _ frame _ _ => some (id, Frame.payload frame)
  | _ => none

open Testbed in
/-- A segment whose acknowledgement does not come goes out again with what it brought the
first time. -/
theorem transmit_stream_again : ∃ (p : Processor Script Answers 1) (post pre : List Event)
    (buf : Nat) (frame : List UInt8) (mss : UInt16) (ret : Status),
    p.w.log = post ++ .commit (some 0) buf frame mss ret :: pre ∧
      pre.filterMap Event.brings? = [(0, 7 :: List.replicate 20 0), (0, []), (0, [])] ∧
      Frame.payload frame = 7 :: List.replicate 20 0 ∧ Conveys 0 frame pre := by
  have hrun : LeadsBy (DrawsFresh Testbed.env) (fun p => TransmitGood p.w.log ∧
      p.w.log.filterMap Event.brings? =
        [(0, 7 :: List.replicate 20 0), (0, 7 :: List.replicate 20 0), (0, []), (0, [])])
      [connectFrom 6000, segment 6000 (tcpSyn ||| tcpAck) 7 2 [],
        .send 0 21 (some fun i => if i = 0 then 7 else 0) 0, .run true, .run true, .run true]
      (start 1 .empty []) := by decide +kernel
  obtain ⟨p, hp, hgood, hsent⟩ := hrun.reaches (.initial (by decide) _ _)
  obtain ⟨post, ev, pre, hlog, -, hev, hpre⟩ := List.filterMap_eq_cons_iff.mp hsent
  cases ev with
  | commit who buf frame mss ret =>
      cases who with
      | none => cases hev
      | some id =>
          obtain ⟨rfl, hframe⟩ := Prod.mk.inj (Option.some_inj.mp hev)
          exact ⟨p, post, pre, buf, frame, mss, ret, hlog, hpre, hframe,
            transmit_stream hp hgood hlog⟩
  | _ => cases hev

end Processor

end Tulips.Tcpv4
