import Tulips.Properties.SegmentRing

/-!
# Acknowledgements

The scan of the ring removes exactly the segments an acknowledgement covers, as
long as it lies between the oldest number in flight and the next one to send.
Any other acknowledgement is taken for one of everything: the scan compares it
with each segment alone, and never with the next number.
-/

namespace Tulips.Tcpv4

open Sequence

/-! ## What an acknowledgement should do -/

/-- An acknowledgement acts on a connection as it should: it removes exactly the
outstanding segments it covers, and one outside the window in flight leaves no
trace. -/
structure AckSound (e e' : Connection) (una ackno : UInt32) : Prop where
  removes : ∀ i, (e.segments i).isFree = false →
    ((e'.segments i).isFree = true ↔ InWindow una ackno e.sndNxt ∧
      Covers Segment.seq Segment.len una ackno (e.segments i))
  ignores : ¬InWindow una ackno e.sndNxt → e'.segidx = e.segidx ∧ e'.ackdata = false

namespace Connection

variable {e : Connection} {wnd : UInt16} {ackno una : UInt32} {out free : List Segment}

/-! ## One step of the scan -/

/-- The code compares ends of segments past the end of the sequence space. -/
theorem linear_eq (seq ackno : UInt32) :
    (if ackno < seq then ackno.toNat + 2 ^ 32 else ackno.toNat) =
      seq.toNat + (ackno - seq).toNat := by
  have hseq := seq.toNat_lt
  have hack := ackno.toNat_lt
  rw [UInt32.toNat_sub]
  split
  · next h =>
      have : ackno.toNat < seq.toNat := UInt32.lt_iff_toNat_lt.mp h
      omega
  · next h =>
      have : ¬ackno.toNat < seq.toNat := fun hlt => h (UInt32.lt_iff_toNat_lt.mpr hlt)
      omega

theorem noteAck_segments (e : Connection) : e.noteAck.segments = e.segments :=
  congrArg Core.segments (core_noteAck e)

theorem noteAck_segidx (e : Connection) : e.noteAck.segidx = e.segidx :=
  congrArg Core.segidx (core_noteAck e)

/-- The connection once its oldest segment is acknowledged. -/
def acked (e : Connection) : Connection := e.noteAck.clearSegment

@[simp] theorem acked_segments (e : Connection) :
    e.acked.segments = Function.update e.segments e.segidx .cleared := by
  show Function.update e.noteAck.segments e.noteAck.segidx .cleared = _
  rw [noteAck_segments, noteAck_segidx]

@[simp] theorem acked_segidx (e : Connection) : e.acked.segidx = e.segidx + 1 := by
  show e.noteAck.segidx + 1 = _
  rw [noteAck_segidx]

/-- The scan goes by the distance of the acknowledgement from the oldest
segment. -/
theorem ackScan_succ (wnd : UInt16) (ackno : UInt32) (n : Nat) (e : Connection) :
    e.ackScan wnd ackno (n + 1) =
      if ackno = e.segment.seq then (e.noteWindow wnd, true)
      else if (ackno - e.segment.seq).toNat < e.segment.len.toNat then (e, false)
      else if (ackno - e.segment.seq).toNat = e.segment.len.toNat then (e.acked, false)
      else e.acked.ackScan wnd ackno n := by
  have hlt (a b c : Nat) : (a + b < a + c) = (b < c) := by simp
  have heq (a b c : Nat) : (a + b = a + c) = (b = c) := by simp
  rw [ackScan]
  simp only [linear_eq, hlt, heq, acked]

/-- What is free stays free. -/
theorem ackScan_free (wnd : UInt16) (ackno : UInt32) (n : Nat) (e : Connection)
    {i : Fin segmentCount} (h : (e.segments i).isFree = true) :
    ((e.ackScan wnd ackno n).1.segments i).isFree = true := by
  have hacked : ∀ e : Connection, (e.segments i).isFree = true →
      (e.acked.segments i).isFree = true := by
    intro e h
    rw [acked_segments]
    by_cases hi : i = e.segidx
    · rw [hi, Function.update_self]
      rfl
    · rwa [Function.update_of_ne hi]
  induction n generalizing e with
  | zero => exact h
  | succ n ih =>
      rw [ackScan_succ]
      split_ifs
      · rw [show (e.noteWindow wnd).segments = e.segments from
          congrArg Core.segments (core_noteWindow e wnd)]
        exact h
      · exact h
      · exact hacked e h
      · exact ih _ (hacked e h)

/-! ## The whole scan -/

theorem acked_inFlight {x : Segment} {rest : List Segment} {nxt : UInt32}
    (h : InFlight e.segments e.segidx nxt una (x :: rest) free) :
    InFlight e.acked.segments e.acked.segidx nxt (una + x.len) rest (free ++ [.cleared]) := by
  rw [acked_segments, acked_segidx]
  exact h.clear_cons

/-- An acknowledgement no further than the next number to send removes exactly
the segments it covers. -/
theorem ackScan_removes {nxt : UInt32} {n : Nat}
    (h : InFlight e.segments e.segidx nxt una out free) (hn : out.length ≤ n)
    (hack : (ackno - una).toNat ≤ (nxt - una).toNat) {i : Fin segmentCount}
    (hbusy : (e.segments i).isFree = false) :
    ((e.ackScan wnd ackno n).1.segments i).isFree = true ↔
      Covers Segment.seq Segment.len una ackno (e.segments i) := by
  -- The induction follows the segments in flight, oldest first.
  induction out generalizing e una free n with
  | nil =>
      have := h.mem_out_iff.mpr ⟨i, rfl, hbusy⟩
      cases this
  | cons x rest ih =>
      obtain ⟨n, rfl⟩ : ∃ m, n = m + 1 := Nat.exists_eq_succ_of_ne_zero (by simp at hn; omega)
      have hfit : total Segment.len (x :: rest) < 2 ^ 32 := by have := h.total_lt; omega
      have hmem := h.mem_out_iff.mpr ⟨i, rfl, hbusy⟩
      have hx : e.segment = x := h.head_eq
      have hseq : x.seq = una := h.consecutive.1
      have hxpos := Segment.len_pos (h.busy x (by simp))
      have hdist := h.distance
      rw [ackScan_succ, hx, hseq]
      split_ifs with hsame hshort hexact
      · rw [show (e.noteWindow wnd).segments = e.segments from
          congrArg Core.segments (core_noteWindow e wnd), hbusy]
        have hzero : (ackno - una).toNat < x.len.toNat := by rw [hsame]; simpa using hxpos
        exact iff_of_false (by simp) (h.consecutive.not_covers hfit hzero hmem)
      · rw [hbusy]
        exact iff_of_false (by simp) (h.consecutive.not_covers hfit hshort hmem)
      all_goals by_cases hi : i = e.segidx
      · -- The oldest segment ends at the acknowledgement.
        subst hi
        have hxi : e.segments e.segidx = x := hx
        rw [acked_segments, Function.update_self, hxi]
        refine iff_of_true rfl (covers_iff.mpr ?_)
        rw [hseq, UInt32.sub_self]
        simp only [UInt32.toNat_zero]
        omega
      · -- The others start there, or later.
        rw [acked_segments, Function.update_of_ne hi, hbusy]
        have hbusy' : (e.acked.segments i).isFree = false := by
          rwa [acked_segments, Function.update_of_ne hi]
        have hrest := (acked_inFlight h).mem_out_iff.mpr ⟨i, rfl, hbusy'⟩
        rw [acked_segments, Function.update_of_ne hi] at hrest
        refine iff_of_false (by simp) fun hcov => ?_
        rw [covers_iff, h.consecutive.offset_cons hfit hrest, hexact] at hcov
        have := Segment.len_pos hbusy
        omega
      · subst hi
        have hxi : e.segments e.segidx = x := hx
        rw [hxi]
        refine iff_of_true (ackScan_free _ _ _ _ ?_) (covers_iff.mpr ?_)
        · rw [acked_segments, Function.update_self]
          rfl
        · rw [hseq, UInt32.sub_self]
          simp only [UInt32.toNat_zero]
          omega
      · have hkeep : e.acked.segments i = e.segments i := by
          rw [acked_segments, Function.update_of_ne hi]
        have hbusy' : (e.acked.segments i).isFree = false := by rwa [hkeep]
        have hrest := (acked_inFlight h).mem_out_iff.mpr ⟨i, rfl, hbusy'⟩
        rw [hkeep] at hrest
        have hle : x.len.toNat ≤ (ackno - una).toNat := by omega
        have hack' : (ackno - (una + x.len)).toNat ≤ (nxt - (una + x.len)).toNat := by
          rw [sub_add_toNat hle, sub_add_toNat (by omega)]
          omega
        rw [ih (acked_inFlight h) (by simp at hn; omega) hack' hbusy', hkeep,
          h.consecutive.covers_tail hfit hle hrest]

/-- An acknowledgement beyond the next number to send removes the oldest segment
all the same. -/
theorem ackScan_overshoots {nxt : UInt32} {n : Nat}
    (h : InFlight e.segments e.segidx nxt una out free)
    (hbusy : (e.segments e.segidx).isFree = false)
    (hack : (nxt - una).toNat < (ackno - una).toNat) :
    ((e.ackScan wnd ackno (n + 1)).1.segments e.segidx).isFree = true := by
  cases out with
  | nil =>
      rw [h.out_eq_nil_iff.mp rfl] at hbusy
      cases hbusy
  | cons x rest =>
      have hx : e.segment = x := h.head_eq
      have hseq : x.seq = una := h.consecutive.1
      have hdist := h.distance
      rw [total_cons] at hdist
      have hne : ackno ≠ una := by
        rintro rfl
        simp at hack
      have hfreed : (e.acked.segments e.segidx).isFree = true := by
        rw [acked_segments, Function.update_self]
        rfl
      rw [ackScan_succ, hx, hseq, if_neg hne, if_neg (by omega), if_neg (by omega)]
      exact ackScan_free _ _ _ _ hfreed

/-- An acknowledgement of the oldest number in flight removes nothing. -/
theorem ackScan_duplicate {n : Nat} :
    e.ackScan wnd e.segment.seq (n + 1) = (e.noteWindow wnd, true) := by
  rw [ackScan_succ, if_pos rfl]

/-- The scan does what it should exactly for the acknowledgements between the
oldest number in flight and the next one to send. -/
theorem scanned_ackSound_iff {inc : Incoming}
    (h : InFlight e.segments e.segidx e.sndNxt e.segment.seq out free)
    (hout : e.hasOutstandingSegments = true) (hack : inc.has tcpAck = true) :
    AckSound e (e.clearNews.scanned inc).1 e.segment.seq inc.ackno ↔
      (inc.ackno - e.segment.seq).toNat ≤ (e.sndNxt - e.segment.seq).toNat := by
  -- The loop makes one turn for each slot, and no more segments than slots are in flight.
  obtain ⟨n, hlen, hscan⟩ : ∃ n, out.length ≤ n + 1 ∧
      e.clearNews.scanned inc = e.clearNews.ackScan inc.window inc.ackno (n + 1) := by
    refine ⟨15, by have := h.length_le; simp only [segmentCount] at this; omega, ?_⟩
    unfold scanned
    exact if_pos ⟨hack, hout⟩
  have hne : out ≠ [] := by
    rintro rfl
    obtain ⟨i, hi⟩ := e.hasOutstandingSegments_iff.mp hout
    have := h.mem_out_iff.mpr ⟨i, rfl, hi⟩
    cases this
  have hhead : (e.segments e.segidx).isFree = false := by
    rw [← Bool.not_eq_true]
    exact fun hfree => hne (h.out_eq_nil_iff.mpr hfree)
  rw [hscan]
  constructor
  · intro hsound
    by_contra hfar
    -- Beyond the window the scan takes the oldest segment as acknowledged.
    have hfreed : ((e.clearNews.ackScan inc.window inc.ackno (n + 1)).1.segments
        e.segidx).isFree = true :=
      ackScan_overshoots (e := e.clearNews) h hhead (by omega)
    have hwindow := ((hsound.removes _ hhead).mp hfreed).1
    exact hfar hwindow.2
  · intro hnear
    refine ⟨fun i hbusy => ?_, fun hnot => ?_⟩
    · refine (ackScan_removes (e := e.clearNews) h hlen hnear hbusy).trans
        ⟨fun hcov => ⟨⟨?_, hnear⟩, hcov⟩, fun hcov => hcov.2⟩
      have hpos := Segment.len_pos hbusy
      have hend : _ ≤ _ := covers_iff.mp hcov
      have hlen' : (e.clearNews.segments i).len = (e.segments i).len := rfl
      rw [hlen'] at hend
      omega
    · have hzero : inc.ackno = e.segment.seq := by
        have : (inc.ackno - e.segment.seq).toNat = 0 := by
          by_contra hpos
          exact hnot ⟨by omega, hnear⟩
        have hsub : inc.ackno - e.segment.seq = 0 := UInt32.toNat_inj.mp this
        grind
      have hdup : e.clearNews.ackScan inc.window inc.ackno (n + 1) =
          (e.clearNews.noteWindow inc.window, true) := by
        rw [hzero]
        exact ackScan_duplicate (e := e.clearNews)
      rw [hdup]
      have hcore := core_noteWindow e.clearNews inc.window
      exact ⟨(congrArg Core.segidx hcore :), (congrArg Core.ackdata hcore :)⟩

end Connection

/-! ## The rest of the processing -/

/-- The outstanding segments stay, and so does what the scan has noted. -/
def Core.KeepsRing (c d : Core) : Prop :=
  d.segidx = c.segidx ∧ d.ackdata = c.ackdata ∧ ∀ i, (c.segments i).isFree = false →
    (d.segments i).seq = (c.segments i).seq ∧ (d.segments i).len = (c.segments i).len

namespace Core.KeepsRing

variable {c d d' : Core}

theorem refl : KeepsRing c c := ⟨rfl, rfl, fun _ _ => ⟨rfl, rfl⟩⟩

theorem trans (h : KeepsRing c d) (h' : KeepsRing d d') : KeepsRing c d' := by
  obtain ⟨hidx, hack, hsegs⟩ := h
  obtain ⟨hidx', hack', hsegs'⟩ := h'
  refine ⟨hidx'.trans hidx, hack'.trans hack, fun i hi => ?_⟩
  obtain ⟨hseq, hlen⟩ := hsegs i hi
  have hi' : (d.segments i).isFree = false := by
    rw [Segment.isFree, hlen]
    exact hi
  obtain ⟨hseq', hlen'⟩ := hsegs' i hi'
  exact ⟨hseq'.trans hseq, hlen'.trans hlen⟩

theorem of_eq (hidx : d.segidx = c.segidx) (hack : d.ackdata = c.ackdata)
    (hsegs : d.segments = c.segments) : KeepsRing c d :=
  ⟨hidx, hack, fun i _ => by rw [hsegs]; exact ⟨rfl, rfl⟩⟩

theorem of_core_eq (h : d = c) : KeepsRing c d := h ▸ .refl

end Core.KeepsRing

section Keeps

variable {H : Type} {handler : EventHandler H} {s t : Slot H}

theorem Transmitted.keepsRing {known : Prop} {k : Fin segmentCount} {hlen n : Nat}
    (h : Transmitted handler known k hlen n s t) : s.toCore.KeepsRing t.toCore := by
  obtain ⟨p, ret, -, -, hcore⟩ := h.summary (l := .emit) (by decide)
  rcases hcore with ⟨-, -, hcore⟩ | ⟨-, sdat, hcore⟩
  · exact .of_core_eq hcore
  · exact .of_eq (congrArg Core.segidx hcore :) (congrArg Core.ackdata hcore :)
      (congrArg Core.segments hcore :)

theorem SentControl.keepsRing {known : Prop} (h : SentControl known s t) :
    s.toCore.KeepsRing t.toCore := by
  obtain ⟨sdat, hcore⟩ := h.core_eq
  exact .of_eq (congrArg Core.segidx hcore :) (congrArg Core.ackdata hcore :)
    (congrArg Core.segments hcore :)

/-- A new segment goes to a free slot. -/
theorem Slot.pushed_keepsRing {k : Fin segmentCount} {len : UInt32} (hfree : s.nextFree = some k) :
    s.toCore.KeepsRing (s.pushed k len).toCore := by
  refine ⟨rfl, rfl, fun i hi => ?_⟩
  have hne : i ≠ k := by
    rintro rfl
    rw [Ring.free_of_firstFree hfree] at hi
    cases hi
  simp [Slot.pushed, Function.update_of_ne hne]

theorem Slot.swapped_keepsRing : s.toCore.KeepsRing s.swapped.toCore := by
  refine ⟨rfl, rfl, fun i hi => ?_⟩
  simp only [Slot.swapped]
  by_cases h : i = s.segidx
  · subst h
    simp
  · simp [Function.update_of_ne h]

/-- Once the scan is done, no act removes an outstanding segment. -/
theorem Act.keepsRing {l : Label} (h : Act handler l s t) (hl : l ∈ Label.reaction) :
    s.toCore.KeepsRing t.toCore := by
  cases h with
  | note => exact .refl
  | life _ hcall => exact .of_core_eq hcall.toCore_eq
  | data _ hcall => exact .of_core_eq hcall.toCore_eq
  | move => exact .of_eq rfl rfl rfl
  | settle => exact .of_eq rfl rfl rfl
  | rcv => exact .of_eq rfl rfl rfl
  | store _ _ _ hstore => exact .of_core_eq hstore.toCore_eq
  | append => exact .of_eq rfl rfl rfl
  | emit _ hfree hsend => exact (Slot.pushed_keepsRing hfree).trans hsend.keepsRing
  | @fin s t st k hstate hst hfree hsend =>
      have hpush : (s.moved st).toCore.KeepsRing ((s.moved st).pushed k 1).toCore :=
        Slot.pushed_keepsRing hfree
      exact (hpush.trans hsend.keepsRing : s.toCore.KeepsRing t.toCore)
  | resend _ _ _ _ hstore _ hsend =>
      have hu := hstore.toCore_eq
      exact (Core.KeepsRing.of_core_eq hu).trans (Slot.swapped_keepsRing.trans hsend.keepsRing)
  | control _ _ _ hstore hsend =>
      exact (Core.KeepsRing.of_core_eq hstore.toCore_eq).trans hsend.keepsRing
  | spare _ _ hspare hsend =>
      exact (Core.KeepsRing.of_core_eq hspare.toCore_eq).trans hsend.keepsRing
  | @kill s u t p hstate hsdat hstore hsend =>
      have hu := hstore.toCore_eq
      have hkeep : s.toCore.KeepsRing u.toCore :=
        .of_eq (congrArg Core.segidx hu :) (congrArg Core.ackdata hu :)
          (congrArg Core.segments hu :)
      exact hkeep.trans hsend.keepsRing
  | _ => exact absurd hl (by decide)

end Keeps

/-! ## Every segment -/

section Process

variable {D H : Type} {n : Nat}

/-- In every run that keeps the rings in order, a connection takes a segment as it should
exactly when the acknowledgement lies between the oldest number in flight and the next one
to send; what the scan has left in the ring stays there. -/
theorem Processor.ack_sound_iff {env : Env D H} {p q : Processor D H n} {inc : Incoming}
    {i : Fin n} {ret : Status} (hp : Reachable env p) (hgood : ∀ ev ∈ p.w.log, ev.ringGood = true)
    (hout : (p.conns i).hasOutstandingSegments = true) (hsum : env.Verifies inc)
    (hdemux : p.demux inc = some i) (hack : inc.has tcpAck = true)
    (hrst : inc.has tcpRst = false) (hseq : (p.conns i).outOfSequence inc = false)
    (hok : process env inc p = .ok ret q) :
    let scanned := ((p.conns i).clearNews.scanned inc).1
    (AckSound (p.conns i) scanned (p.conns i).segment.seq inc.ackno ↔
      (inc.ackno - (p.conns i).segment.seq).toNat ≤
        ((p.conns i).sndNxt - (p.conns i).segment.seq).toNat) ∧
    scanned.core.KeepsRing (q.conns i).core := by
  intro scanned
  obtain ⟨out, free, hring⟩ := hp.inFlight hgood (demux_spec hdemux) hout
  refine ⟨Connection.scanned_ackSound_iff hring hout hack, ?_⟩
  obtain ⟨t, hrun, rfl⟩ := process_of_demux hsum hdemux hok
  have hpath := processSegment_reacts (demux_spec hdemux) hrst hseq hrun
  have hkeep : scanned.core.KeepsRing t.slot.toCore :=
    Program.path_invariant (I := fun r : Slot H => scanned.core.KeepsRing r.toCore)
      (fun r r' ⟨l, hl, hact⟩ hr => hr.trans (hact.keepsRing hl)) hpath .refl
  rw [setCtx_conns_self]
  exact hkeep

section Runs

open Testbed

/-- Four bytes are in flight, from the number 1 on. -/
def inFlightRun : List Processor.Op :=
  [connectFrom 5000, segment 5000 (tcpSyn ||| tcpAck) 100 1 [],
    .send 0 4 (some fun i => UInt8.ofNat i) 0]

theorem Processor.ack_sound_iff_full :
    ∃ (p q : Processor Script Answers 1) (inc : Incoming), process env inc p = .ok .ok q ∧
      (p.conns 0).hasOutstandingSegments = true ∧
      AckSound (p.conns 0) ((p.conns 0).clearNews.scanned inc).1 (p.conns 0).segment.seq
        inc.ackno := by
  let inc := incoming (header 5000 tcpAck 101 5) []
  obtain ⟨p, -, hp, htest⟩ := reaches 1 .empty [] inFlightRun
    (fun p => (∀ ev ∈ p.w.log, ev.ringGood = true) ∧
      (p.conns 0).hasOutstandingSegments = true ∧ p.demux inc = some 0 ∧
      (p.conns 0).outOfSequence inc = false ∧
      (inc.ackno - (p.conns 0).segment.seq).toNat ≤
        ((p.conns 0).sndNxt - (p.conns 0).segment.seq).toNat ∧
      Program.Passes (process env inc) p fun ret _ => ret = .ok)
    (by decide) (by decide +kernel)
  obtain ⟨hgood, hout, hdemux, hseq, hnear, hrun⟩ := htest
  obtain ⟨ret, q, hok, rfl⟩ := hrun.exists
  have hsound := ack_sound_iff hp hgood hout (.inl rfl) hdemux (by decide) (by decide) hseq hok
  exact ⟨p, q, inc, hok, hout, hsound.1.mpr hnear⟩

/-- A delayed acknowledgement, from before the data, removes it from the ring. -/
theorem Processor.ack_not_sound : ¬ ∀ (D H : Type) (n : Nat) (env : Env D H)
    (p q : Processor D H n) (inc : Incoming) (i : Fin n) (ret : Status),
    Reachable env p → (p.conns i).hasOutstandingSegments = true → env.Verifies inc →
    p.demux inc = some i → inc.has tcpAck = true → inc.has tcpRst = false →
    (p.conns i).outOfSequence inc = false → process env inc p = .ok ret q →
    AckSound (p.conns i) ((p.conns i).clearNews.scanned inc).1 (p.conns i).segment.seq
      inc.ackno := by
  intro hall
  let inc := incoming (header 5000 tcpAck 101 0) []
  obtain ⟨p, -, hp, htest⟩ := reaches 1 .empty [] inFlightRun
    (fun p => (p.conns 0).hasOutstandingSegments = true ∧ p.demux inc = some 0 ∧
      (p.conns 0).outOfSequence inc = false ∧
      ((p.conns 0).segments 1).isFree = false ∧
      ¬InWindow (p.conns 0).segment.seq inc.ackno (p.conns 0).sndNxt ∧
      (((p.conns 0).clearNews.scanned inc).1.segments 1).isFree = true ∧
      Program.Passes (process env inc) p fun ret _ => ret = .ok)
    (by decide) (by decide +kernel)
  obtain ⟨hout, hdemux, hseq, hbusy, hnot, hfreed, hrun⟩ := htest
  obtain ⟨ret, q, hok, -⟩ := hrun.exists
  have hsound := hall _ _ _ _ p q inc 0 ret hp hout (.inl rfl) hdemux (by decide) (by decide)
    hseq hok
  exact hnot ((hsound.removes 1 hbusy).mp hfreed).1

end Runs

end Process

end Tulips.Tcpv4
