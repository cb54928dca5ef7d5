import Mathlib.Data.Fintype.Card
import Tulips.Machine.Attending

/-!
# Reported departures

With the latency monitor, the application is told of departures and keeps count of
those whose acknowledgement it waits for. The history has, for each segment of a
connection that has left, whether the application was told; the count is right as
long as it agrees with the outstanding segments.
-/

namespace Tulips.Tcpv4

open Program

variable {D H : Type}

/-! ## Departures -/

/-- An event among the departures of a connection. A nonempty segment that the device
has taken departs; a report is about the last departure. -/
def Event.depart (id : UInt16) (ev : Event) (left : List Bool) : List Bool :=
  match ev with
  | .transmit id' _ _ len again ret =>
      if id' = id ∧ len ≠ 0 ∧ again = false ∧ ret = .ok then false :: left else left
  | .callback id' cb _ =>
      if id' = id ∧ cb = .onSent then
        match left with
        | [] => []
        | _ :: rest => true :: rest
      else left
  | _ => left

/-- The segments of a connection that have left, newest first, and whether the
application was told. -/
def departures (id : UInt16) (log : List Event) : List Bool := log.foldr (Event.depart id) []

theorem departures_cons (id : UInt16) (ev : Event) (log : List Event) :
    departures id (ev :: log) = ev.depart id (departures id log) := rfl

/-- Events that are no departure and report none. -/
def Event.isStay : Event → Bool
  | .transmit _ _ _ len again ret => len == 0 || again || ret != .ok
  | .callback _ cb _ => cb != .onSent
  | _ => true

theorem Event.isStay.depart {ev : Event} (h : ev.isStay = true) (id : UInt16) (left : List Bool) :
    ev.depart id left = left := by
  cases ev with
  | transmit id' st seq len again ret =>
      simp only [isStay, Bool.or_eq_true, beq_iff_eq, bne_iff_ne] at h
      apply if_neg
      rintro ⟨-, hlen, hagain, hret⟩
      simp_all
  | callback id' cb action =>
      apply if_neg
      rintro ⟨-, rfl⟩
      cases h
  | _ => rfl

theorem Event.isPlain.isStay {ev : Event} (h : ev.isPlain = true) : ev.isStay = true := by
  cases ev with
  | transmit | callback => cases h
  | _ => rfl

theorem departures_append {new : List Event} (hnew : ∀ ev ∈ new, ev.isStay = true) (id : UInt16)
    (log : List Event) : departures id (new ++ log) = departures id log := by
  induction new with
  | nil => rfl
  | cons ev new ih =>
      rw [List.cons_append, departures_cons, Event.isStay.depart (hnew ev (by simp))]
      exact ih fun ev hev => hnew ev (by simp [hev])

/-- The number of segments outstanding. -/
def Connection.outstanding (e : Connection) : Nat :=
  (Finset.univ.filter fun i => (e.segments i).isFree = false).card

theorem Connection.outstanding_congr {e e' : Connection}
    (h : ∀ i, (e'.segments i).len = (e.segments i).len) : e'.outstanding = e.outstanding := by
  apply congrArg Finset.card
  apply Finset.filter_congr
  intro i _
  rw [Segment.isFree, Segment.isFree, h]

/-- A segment in a free slot is outstanding from then on. -/
theorem Connection.outstanding_push {e : Connection} {i : Fin segmentCount} {seg : Segment}
    (hfree : (e.segments i).isFree = true) (hseg : seg.isFree = false) :
    (e.setSegment i seg).outstanding = e.outstanding + 1 := by
  have hset : (Finset.univ.filter fun j => ((e.setSegment i seg).segments j).isFree = false) =
      insert i (Finset.univ.filter fun j => (e.segments j).isFree = false) := by
    ext j
    rw [Finset.mem_insert, Finset.mem_filter, Finset.mem_filter]
    by_cases hj : j = i
    · subst hj
      simp [setSegment, hseg]
    · simp [setSegment, hj]
  rw [outstanding, hset, Finset.card_insert_of_notMem (by simp [hfree]), outstanding]

/-- How many of the outstanding segments the application was told of. -/
def Connection.reported (e : Connection) (log : List Event) : Nat :=
  ((departures e.id log).take e.outstanding).count true

theorem Connection.reported_le (e : Connection) (log : List Event) :
    e.reported log ≤ e.outstanding :=
  List.count_le_length.trans (by rw [List.length_take]; exact Nat.min_le_left _ _)

theorem Connection.reported_mono {e e' : Connection} (hid : e'.id = e.id)
    (hout : e'.outstanding ≤ e.outstanding) (log : List Event) :
    e'.reported log ≤ e.reported log := by
  rw [reported, reported, hid, ← Nat.min_eq_left hout, ← List.take_take]
  exact (List.take_sublist _ _).count_le _

/-! ## Acknowledgements -/

theorem Connection.ackScan_invariant {P : Connection → Prop} {wnd : UInt16}
    (hnote : ∀ e, P e → P (e.noteWindow wnd)) (hclear : ∀ e, P e → P e.noteAck.clearSegment)
    (ackno : UInt32) (n : Nat) {e : Connection} (h : P e) : P (e.ackScan wnd ackno n).1 := by
  induction n generalizing e with
  | zero => exact h
  | succ n ih =>
      unfold ackScan
      dsimp only
      split_ifs
      · exact hnote e h
      all_goals first | exact h | exact hclear e h | exact ih (hclear e h)

/-- What the notes of the scan and the clearing of segments preserve. -/
theorem Connection.scanned_invariant {P : Connection → Prop} {inc : Incoming}
    (hnote : ∀ e, P e → P (e.noteWindow inc.window))
    (hclear : ∀ e, P e → P e.noteAck.clearSegment) {e : Connection} (h : P e) :
    P (e.scanned inc).1 := by
  unfold scanned
  split
  · exact ackScan_invariant hnote hclear _ _ h
  · exact h

/-- A cleared slot is not outstanding. -/
theorem Connection.outstanding_clear (e : Connection) (i : Fin segmentCount) :
    (e.setSegment i .cleared).outstanding ≤ e.outstanding := by
  apply Finset.card_le_card
  intro j
  rw [Finset.mem_filter, Finset.mem_filter]
  rintro ⟨hj, hbusy⟩
  refine ⟨hj, ?_⟩
  by_cases hij : j = i
  · subst hij
    simp [setSegment, Segment.cleared, Segment.isFree] at hbusy
  · simpa [setSegment, Function.update_of_ne hij] using hbusy

/-- The connection a segment acts on, its acknowledgement taken in. -/
def Connection.heard (e : Connection) (inc : Incoming) : Connection :=
  (e.clearNews.scanned inc).1

theorem Connection.heard_id (e : Connection) (inc : Incoming) : (e.heard inc).id = e.id := by
  apply @scanned_invariant fun e' => e'.id = e.id
  · exact fun e' h => (congrArg Core.id (core_noteWindow e' _)).trans h
  · exact fun e' h => (congrArg Core.id (core_noteAck e')).trans h
  · rfl

theorem Connection.heard_outstanding (e : Connection) (inc : Incoming) :
    (e.heard inc).outstanding ≤ e.outstanding := by
  apply @scanned_invariant fun e' => e'.outstanding ≤ e.outstanding
  · intro e' h
    have hsegs := congrArg Core.segments (core_noteWindow e' inc.window)
    rw [outstanding_congr fun i => congrArg Segment.len (congrFun hsegs i)]
    exact h
  · intro e' h
    have hsegs := congrArg Core.segments (core_noteAck e')
    apply (outstanding_clear e'.noteAck e'.noteAck.segidx).trans
    rw [outstanding_congr fun i => congrArg Segment.len (congrFun hsegs i)]
    exact h
  · exact Nat.le_refl _

/-- How many segments that the application was told of a segment acknowledges. -/
def Connection.acknowledged (e : Connection) (log : List Event) (inc : Incoming) : Nat :=
  e.reported log - (e.heard inc).reported log

/-- Whether a segment gets as far as the scan for acknowledged segments. -/
def Connection.listens (e : Connection) (inc : Incoming) : Bool :=
  !inc.has tcpRst && !e.outOfSequence inc

/-- Whether the application is told of the acknowledgement of a segment. -/
def Connection.tells (e : Connection) (inc : Incoming) : Bool :=
  !(e.clearNews.scanned inc).2 && e.state == .established && !inc.has tcpFin &&
    (e.heard inc).ackdata

/-- A send that is not turned away, leaves nothing pending, and yet sends a segment with the
PSH flag. -/
def Env.hollow (env : Env D H) (e : Connection) (len : UInt32) (data : Option Bytes)
    (off : UInt32) : Prop :=
  (data.isSome = true ∧ off < len ∧ UInt32.ofNat e.slen.toNat ≤ env.bound e ∧
    e.hasAvailableSegments = true) ∧
  e.slen + BitVec.ofNat 24 (env.fitting e len off).toNat = 0 ∧
    (e.hasNoDelay = true → off + env.fitting e len off = len)

/-! ## What the application keeps -/

/-- The departures an application waits for, for each connection it minds, if it keeps
them as it is told. -/
structure Journal (handler : EventHandler H) where
  waiting : H → UInt16 → Option Nat
  /-- It was told of an acknowledgement with nothing to wait for. -/
  broken : H → Bool
  other : ∀ (hdl : H) (e : Connection) {cb : Callback}, cb.isOther = true →
    waiting (handler hdl e cb).hdl = waiting hdl ∧ broken (handler hdl e cb).hdl = broken hdl
  sent : ∀ (hdl : H) (e : Connection),
    waiting (handler hdl e .onSent).hdl =
        Function.update (waiting hdl) e.id ((waiting hdl e.id).map (· + 1)) ∧
      broken (handler hdl e .onSent).hdl = broken hdl
  acked : ∀ (hdl : H) (e : Connection) (alen : Option UInt32), waiting hdl e.id ≠ some 0 →
    waiting (handler hdl e (.onAcked alen)).hdl =
        Function.update (waiting hdl) e.id ((waiting hdl e.id).map (· - 1)) ∧
      broken (handler hdl e (.onAcked alen)).hdl = broken hdl

/-- Connections start with an empty ring, and the device takes every new segment; with
the SYN of an active open it also hands out the next buffer. -/
def Event.isTaken : Event → Bool
  | .create _ _ _ leftover => !leftover
  | .transmit _ _ _ len again ret => again || len == 0 || ret == .ok
  | .refill _ st first buf _ => buf.isSome || !(first && st == .synSent)
  | _ => true

def Taken (log : List Event) : Prop := ∀ ev ∈ log, ev.isTaken = true

theorem Taken.suffix {new log : List Event} (h : Taken (new ++ log)) : Taken log :=
  fun ev hev => h ev (List.mem_append_right _ hev)

namespace Journal

variable {env : Env D H} (J : Journal env.handler)

/-- The application waits for the outstanding segments it was told of. -/
structure Even (e : Connection) (w : World D H) : Prop where
  enough : e.outstanding ≤ (departures e.id w.log).length
  even : ∀ m, J.waiting w.hdl e.id = some m → m = e.reported w.log

/-- The history has only grown, and nothing has become of other connections. -/
structure Apart (s t : Ctx D H) : Prop where
  id : t.e.id = s.e.id
  log : ∃ new, t.w.log = new ++ s.w.log
  departures : ∀ id ≠ s.e.id, Tcpv4.departures id t.w.log = Tcpv4.departures id s.w.log
  waiting : ∀ id ≠ s.e.id, J.waiting t.w.hdl id = J.waiting s.w.hdl id
  broken : J.broken t.w.hdl = J.broken s.w.hdl

/-- What the application waits for stays right. -/
structure Minds (s t : Ctx D H) : Prop extends J.Apart s t where
  even : Taken t.w.log → J.Even s.e s.w → J.Even t.e t.w

/-- No segment has entered or left the ring, and the application has been told nothing
about departures. -/
structure Still (s t : Ctx D H) : Prop where
  id : t.e.id = s.e.id
  ring : ∀ i, (t.e.segments i).seq = (s.e.segments i).seq ∧
    (t.e.segments i).len = (s.e.segments i).len
  log : ∃ new, t.w.log = new ++ s.w.log ∧ ∀ ev ∈ new, ev.isStay = true
  waiting : J.waiting t.w.hdl = J.waiting s.w.hdl
  broken : J.broken t.w.hdl = J.broken s.w.hdl

/-- Nor has the application been called at all. -/
structure Silent (s t : Ctx D H) : Prop extends J.Still s t where
  hdl : t.w.hdl = s.w.hdl

variable {J} {s t u : Ctx D H}

theorem Apart.refl (s : Ctx D H) : J.Apart s s :=
  ⟨rfl, ⟨[], rfl⟩, fun _ _ => rfl, fun _ _ => rfl, rfl⟩

theorem Apart.trans (h : J.Apart s t) (h' : J.Apart t u) : J.Apart s u := by
  obtain ⟨new, hnew⟩ := h.log
  obtain ⟨new', hnew'⟩ := h'.log
  refine ⟨h'.id.trans h.id, ⟨new' ++ new, by rw [hnew', hnew, List.append_assoc]⟩, ?_, ?_,
    h'.broken.trans h.broken⟩
  · intro id hid
    rw [h'.departures id (h.id ▸ hid), h.departures id hid]
  · intro id hid
    rw [h'.waiting id (h.id ▸ hid), h.waiting id hid]

theorem Still.departures (h : J.Still s t) (id : UInt16) :
    Tcpv4.departures id t.w.log = Tcpv4.departures id s.w.log := by
  obtain ⟨new, hlog, hnew⟩ := h.log
  rw [hlog, departures_append hnew]

theorem Still.apart (h : J.Still s t) : J.Apart s t := by
  obtain ⟨new, hlog, -⟩ := h.log
  exact ⟨h.id, ⟨new, hlog⟩, fun id _ => h.departures id, fun id _ => congrFun h.waiting id,
    h.broken⟩

theorem Still.outstanding (h : J.Still s t) : t.e.outstanding = s.e.outstanding :=
  Connection.outstanding_congr fun i => (h.ring i).2

theorem Still.reported (h : J.Still s t) : t.e.reported t.w.log = s.e.reported s.w.log := by
  rw [Connection.reported, h.outstanding, h.id, h.departures, Connection.reported]

theorem Still.even (h : J.Still s t) (hs : J.Even s.e s.w) : J.Even t.e t.w := by
  refine ⟨?_, fun m hm => ?_⟩
  · rw [h.outstanding, h.id, h.departures]
    exact hs.enough
  · rw [h.waiting, h.id] at hm
    rw [h.reported]
    exact hs.even m hm

theorem Still.minds (h : J.Still s t) : J.Minds s t := ⟨h.apart, fun _ hs => h.even hs⟩

theorem Still.refl (s : Ctx D H) : J.Still s s :=
  ⟨rfl, fun _ => ⟨rfl, rfl⟩, ⟨[], rfl, by simp⟩, rfl, rfl⟩

theorem Still.trans (h : J.Still s t) (h' : J.Still t u) : J.Still s u := by
  obtain ⟨new, hlog, hnew⟩ := h.log
  obtain ⟨new', hlog', hnew'⟩ := h'.log
  refine ⟨h'.id.trans h.id, fun i => ⟨(h'.ring i).1.trans (h.ring i).1,
      (h'.ring i).2.trans (h.ring i).2⟩,
    ⟨new' ++ new, by rw [hlog', hlog, List.append_assoc], ?_⟩, h'.waiting.trans h.waiting,
    h'.broken.trans h.broken⟩
  intro ev hev
  rcases List.mem_append.mp hev with hev | hev
  · exact hnew' ev hev
  · exact hnew ev hev

theorem still_controls : Controls (J.Still (D := D)) where
  refl := .refl
  trans := .trans
  world := by
    intro s w hw
    obtain ⟨new, hlog, hnew⟩ := hw.log
    exact ⟨rfl, fun _ => ⟨rfl, rfl⟩, ⟨new, hlog, fun ev hev => Event.isPlain.isStay (hnew ev hev)⟩,
      congrArg J.waiting hw.hdl, congrArg J.broken hw.hdl⟩
  buffer := fun s _ => ⟨rfl, fun _ => ⟨rfl, rfl⟩, ⟨[], rfl, by simp⟩, rfl, rfl⟩

theorem Silent.trans (h : J.Silent s t) (h' : J.Silent t u) : J.Silent s u :=
  ⟨h.toStill.trans h'.toStill, h'.hdl.trans h.hdl⟩

theorem silent_controls : Controls (J.Silent (D := D)) where
  refl s := ⟨.refl s, rfl⟩
  trans := .trans
  world hw := ⟨still_controls.world hw, hw.hdl⟩
  buffer s buf := ⟨still_controls.buffer s buf, rfl⟩

/-- An event that is no departure. -/
theorem Still.noted {ev : Event} (h : ev.isStay = true) : J.Still s (s.noted ev) :=
  ⟨rfl, fun _ => ⟨rfl, rfl⟩, ⟨[ev], rfl, by simpa using h⟩, rfl, rfl⟩

theorem Still.called {cb : Callback} (h : cb.isOther = true) : J.Still s (s.called env cb) := by
  have hcb : cb ≠ .onSent := by
    rintro rfl
    cases h
  exact ⟨rfl, fun _ => ⟨rfl, rfl⟩,
    ⟨[.callback s.e.id cb _], rfl, by simpa [Event.isStay] using hcb⟩,
    (J.other s.w.hdl s.e h).1, (J.other s.w.hdl s.e h).2⟩

/-- A change of the connection that leaves its segments alone. -/
theorem Still.conn {e : Connection} (hid : e.id = s.e.id) (hsegs : e.segments = s.e.segments) :
    J.Still s ⟨e, s.w⟩ :=
  ⟨hid, fun i => by rw [hsegs]; exact ⟨rfl, rfl⟩, ⟨[], rfl, by simp⟩, rfl, rfl⟩

theorem Still.counted (s : Ctx D H) (n : UInt32) :
    J.Still s { s with e := { s.e with sndNxt := n } } := .conn rfl rfl

theorem Silent.counted (s : Ctx D H) (n : UInt32) :
    J.Silent s { s with e := { s.e with sndNxt := n } } := ⟨.counted s n, rfl⟩

/-! ## A departure -/

/-- The application has been told of the last departure. -/
theorem Apart.sent (s : Ctx D H) : J.Apart s (s.called env .onSent) := by
  obtain ⟨hwaiting, hbroken⟩ := J.sent s.w.hdl s.e
  refine ⟨rfl, ⟨[_], rfl⟩, fun id hid => ?_, fun id hid => ?_, hbroken⟩
  · exact if_neg fun h => hid h.1.symm
  · show J.waiting (env.handler s.w.hdl s.e .onSent).hdl id = _
    rw [hwaiting, Function.update_of_ne hid]

/-- A report of a new departure makes the application wait for one more. -/
theorem Even.sent {left : List Bool} (h : J.Even s.e s.w) (hpos : 0 < s.e.outstanding)
    (hleft : Tcpv4.departures s.e.id s.w.log = false :: left) :
    J.Even (s.called env .onSent).e (s.called env .onSent).w := by
  have hdeparted : Tcpv4.departures s.e.id (s.called env .onSent).w.log = true :: left := by
    show Tcpv4.departures s.e.id (.callback s.e.id .onSent _ :: s.w.log) = _
    rw [departures_cons, hleft]
    exact if_pos ⟨rfl, rfl⟩
  obtain ⟨o, ho⟩ := Nat.exists_eq_succ_of_ne_zero hpos.ne'
  refine ⟨?_, fun m hm => ?_⟩
  · have henough := h.enough
    rw [hleft] at henough
    show s.e.outstanding ≤ (Tcpv4.departures s.e.id (s.called env .onSent).w.log).length
    rw [hdeparted]
    exact henough
  · change J.waiting (env.handler s.w.hdl s.e .onSent).hdl s.e.id = some m at hm
    rw [(J.sent s.w.hdl s.e).1, Function.update_self] at hm
    obtain ⟨k, hk, rfl⟩ := Option.map_eq_some_iff.mp hm
    have hreported := h.even k hk
    rw [Connection.reported, hleft, ho] at hreported
    show k + 1 = ((Tcpv4.departures s.e.id (s.called env .onSent).w.log).take
      s.e.outstanding).count true
    rw [hdeparted, ho, hreported]
    simp

/-- The newest outstanding segment has not left yet; but for it, the application waits
for what it was told of. -/
structure Owes (J : Journal env.handler) (e : Connection) (w : World D H) : Prop where
  pos : 0 < e.outstanding
  enough : e.outstanding ≤ (Tcpv4.departures e.id w.log).length + 1
  even : ∀ m, J.waiting w.hdl e.id = some m →
    m = ((Tcpv4.departures e.id w.log).take (e.outstanding - 1)).count true

theorem Still.owes (h : J.Still s t) (hs : J.Owes s.e s.w) : J.Owes t.e t.w := by
  have hout := h.outstanding
  refine ⟨by rw [hout]; exact hs.pos, ?_, fun m hm => ?_⟩
  · rw [hout, h.id, h.departures]
    exact hs.enough
  · rw [h.waiting, h.id] at hm
    rw [hout, h.id, h.departures]
    exact hs.even m hm

theorem Apart.transmitted (s : Ctx D H) (st : State) (seq len : UInt32) (again : Bool)
    (ret : Status) : J.Apart s (s.noted (.transmit s.e.id st seq len again ret)) :=
  ⟨rfl, ⟨[_], rfl⟩, fun _ hid => if_neg fun h => hid h.1.symm, fun _ _ => rfl, rfl⟩

/-- The segment leaves. -/
theorem Owes.transmitted (h : J.Owes s.e s.w) (st : State) (seq : UInt32) {len : UInt32}
    (hlen : len ≠ 0) :
    let t := s.noted (.transmit s.e.id st seq len false .ok)
    J.Even t.e t.w ∧
      Tcpv4.departures t.e.id t.w.log = false :: Tcpv4.departures s.e.id s.w.log := by
  intro t
  have hleft : Tcpv4.departures t.e.id t.w.log = false :: Tcpv4.departures s.e.id s.w.log :=
    if_pos ⟨rfl, hlen, rfl, rfl⟩
  refine ⟨⟨?_, fun m hm => ?_⟩, hleft⟩
  · rw [hleft]
    exact h.enough
  · obtain ⟨o, ho⟩ := Nat.exists_eq_succ_of_ne_zero h.pos.ne'
    have hm := h.even m hm
    rw [ho] at hm
    rw [Connection.reported, hleft, show t.e.outstanding = o.succ from ho, hm]
    simp

/-- A new segment is counted; the application is told if it has the PSH flag. -/
theorem counted_cases {seg : Segment} (hok : (Program.when (false = false) do
    Program.when (env.config.latencyMonitor = true) do
      let h ← onWorld (loadHeader seg.dat)
      Program.when (h.has tcpPsh = true) do
        let _ ← callback env .onSent
        pure ()
    modifyConn fun e => { e with sndNxt := e.sndNxt + seg.len } : ConnProgram D H Unit) s =
      .ok () t) :
    ∃ u, t = { u with e := { u.e with sndNxt := u.e.sndNxt + seg.len } } ∧
      (u = s ∨ u = s.called env .onSent ∧
        ∃ p, seg.dat = some p ∧ (s.w.headerAt p).has tcpPsh = true) := by
  rcases when_eq_ok.mp hok with ⟨-, hok⟩ | ⟨hnot, -⟩
  swap
  · exact absurd rfl hnot
  obtain ⟨_, u, htell, hcount⟩ := bind_eq_ok.mp hok
  cases hcount
  refine ⟨u, rfl, ?_⟩
  rcases when_eq_ok.mp htell with ⟨-, htell⟩ | ⟨-, rfl⟩
  swap
  · exact .inl rfl
  cases hdat : seg.dat with
  | none =>
      rw [hdat] at htell
      cases htell
  | some p =>
      rw [hdat, bind_loadHeader] at htell
      rcases when_eq_ok.mp htell with ⟨hpsh, htell⟩ | ⟨-, rfl⟩
      · cases htell
        exact .inr ⟨rfl, p, rfl, hpsh⟩
      · exact .inl rfl

/-- A new segment of the ring leaves, and the application may be told. -/
theorem sendSegment {n : UInt32} {i : Fin segmentCount} {ret : Status}
    (hfresh : (s.e.segments i).seq = s.e.sndNxt) (hlen : (s.e.segments i).len ≠ 0)
    (hok : sendSegment env n i s = .ok ret t) :
    J.Apart s t ∧ (Taken t.w.log → J.Owes s.e s.w → J.Even t.e t.w) := by
  unfold Tcpv4.sendSegment at hok
  rw [bind_gets] at hok
  obtain ⟨_, a, hfill, hok⟩ := bind_eq_ok.mp hok
  obtain ⟨ret', b, hsend, hok⟩ := bind_eq_ok.mp hok
  have hb : J.Still s b := by
    apply Still.trans ((still_controls.fillHeader env _ _).ok hfill)
    exact (still_controls.onWorld (sendFrame_mute env _ _ _ _ _)).ok hsend
  have hbe : b.e = s.e := (onWorld_conn_of_ok hsend).trans (onWorld_conn_of_ok hfill)
  have hagain : ((s.e.segments i).seq != s.e.sndNxt) = false := by simp [hfresh]
  rw [bind_record, hagain, ← hbe] at hok
  let c := b.noted (.transmit b.e.id b.e.state (b.e.segments i).seq (b.e.segments i).len
    false ret')
  have hc : J.Apart s c := hb.apart.trans (.transmitted b _ _ _ _ _)
  split at hok
  · next hret =>
      -- A segment that is refused is not among the events of a history that is taken.
      cases hok
      refine ⟨hc, fun htaken _ => ?_⟩
      have hev := htaken _ (List.mem_cons_self)
      rw [hbe] at hev
      simp [Event.isTaken, hlen, hret] at hev
  · next hret =>
      have hret : ret' = .ok := not_not.mp hret
      subst hret
      have hlen' : (b.e.segments i).len ≠ 0 := by rw [hbe]; exact hlen
      obtain ⟨_, x, hcount, hok⟩ := bind_eq_ok.mp hok
      obtain ⟨u, rfl, hu⟩ := counted_cases hcount
      have hrest : J.Still u t := (Still.counted u _).trans ((still_controls.refill env _).ok hok)
      rcases hu with rfl | ⟨rfl, -⟩
      · refine ⟨hc.trans hrest.apart, fun htaken h => ?_⟩
        exact hrest.minds.even htaken ((hb.owes h).transmitted _ _ hlen').1
      · refine ⟨(hc.trans (.sent c)).trans hrest.apart, fun htaken h => ?_⟩
        obtain ⟨heven, hleft⟩ := (hb.owes h).transmitted b.e.state (b.e.segments i).seq hlen'
        exact hrest.minds.even htaken (heven.sent (hb.owes h).pos hleft)

/-! ## New segments -/

theorem pushSegment_cases {len : UInt32} {i : Fin segmentCount}
    (hok : pushSegment len s = .ok i t) : s.e.nextAvailableSegment = some i ∧
      t = { s with e := (s.e.setSegment i ⟨len, s.e.sndNxt, s.e.sdat⟩).resetSendBuffer } := by
  unfold pushSegment at hok
  rw [bind_gets] at hok
  cases hnext : s.e.nextAvailableSegment with
  | none =>
      rw [hnext] at hok
      cases hok
  | some k =>
      rw [hnext] at hok
      cases hok
      exact ⟨rfl, rfl⟩

/-- A nonempty segment that enters the ring leaves at once. -/
theorem Minds.pushed {len n : UInt32} {i : Fin segmentCount} {ret : Status} {v w : Ctx D H}
    (hlen : len ≠ 0) (hpush : pushSegment len s = .ok i v) (hstill : J.Still v w)
    (hnxt : w.e.sndNxt = v.e.sndNxt) (hsend : Tcpv4.sendSegment env n i w = .ok ret t) :
    J.Minds s t := by
  obtain ⟨hnext, rfl⟩ := pushSegment_cases hpush
  obtain ⟨hseq, hlen'⟩ := hstill.ring i
  simp only [Connection.resetSendBuffer, Connection.setSegment, Function.update_self] at hseq hlen'
  obtain ⟨happ, heven⟩ := sendSegment (J := J) (hseq.trans hnxt.symm) (hlen' ▸ hlen) hsend
  let e' := s.e.setSegment i ⟨len, s.e.sndNxt, s.e.sdat⟩
  have hpushed : J.Apart s ⟨e'.resetSendBuffer, s.w⟩ :=
    ⟨rfl, ⟨[], rfl⟩, fun _ _ => rfl, fun _ _ => rfl, rfl⟩
  refine ⟨(hpushed.trans hstill.apart).trans happ, fun htaken hs => heven htaken (hstill.owes ?_)⟩
  have hout : e'.outstanding = s.e.outstanding + 1 := Connection.outstanding_push
    (Ring.free_of_firstFree hnext) (by simpa [Segment.isFree] using hlen)
  refine ⟨?_, ?_, fun m hm => ?_⟩
  · exact hout ▸ Nat.succ_pos _
  · exact hout ▸ Nat.succ_le_succ hs.enough
  · rw [hs.even m hm, Connection.reported]
    show _ = List.count true (List.take (e'.outstanding - 1) _)
    rw [hout, Nat.add_sub_cancel]
    rfl

/-- The flags of a header are stored, and nothing else happens. -/
theorem modifyFlags_cases {p : Option Ptr} {f : Header → Header}
    (hok : onWorld (modifyHeader (some s.e.id) p f) s = .ok () t) :
    J.Silent s t ∧ t.e = s.e ∧
      ∀ q, p = some q → (t.w.headerAt q).flags = (f (s.w.headerAt q)).flags := by
  refine ⟨(silent_controls.onWorld (modifyHeader_mute _ _ _)).ok hok, onWorld_conn_of_ok hok, ?_⟩
  rintro q rfl
  obtain ⟨w, hrun, hhdr, -⟩ := modifyHeader_some (some s.e.id) q f s.w
  rw [onWorld_ok hrun] at hok
  cases hok
  exact congrArg Header.flags hhdr

theorem setFlags_cases {p : Option Ptr} {flags : UInt8} {offset : Option (Fin 16)}
    (hok : setFlags p flags offset s = .ok () t) : J.Silent s t ∧ t.e = s.e ∧
      ∀ q, p = some q → (t.w.headerAt q).flags = flags := by
  obtain ⟨_, _, hget, hok⟩ := bind_eq_ok.mp hok
  cases hget
  exact modifyFlags_cases hok

theorem orFlags_cases {p : Option Ptr} {flags : UInt8} {offset : Fin 16}
    (hok : orFlags p flags offset s = .ok () t) : J.Silent s t ∧ t.e = s.e ∧
      ∀ q, p = some q → (t.w.headerAt q).flags = (s.w.headerAt q).flags ||| flags := by
  obtain ⟨_, _, hget, hok⟩ := bind_eq_ok.mp hok
  cases hget
  exact modifyFlags_cases hok

/-- The header of a segment is completed before it is sent; with these flags it leaves. -/
structure Readied (J : Journal env.handler) (i : Fin segmentCount) (flags : UInt8 → UInt8)
    (s t : Ctx D H) : Prop where
  silent : J.Silent s t
  conn : t.e = s.e
  flags : ∀ p, (s.e.segments i).dat = some p →
    (t.w.headerAt p).flags = flags (s.w.headerAt p).flags

variable {ret : Status} {i : Fin segmentCount}

theorem sendData_cases {flags : UInt8} (hok : sendData env i flags s = .ok ret t) :
    ∃ u n, J.Readied i (fun _ => flags ||| tcpAck) s u ∧
      Tcpv4.sendSegment env n i u = .ok ret t := by
  unfold sendData at hok
  rw [bind_gets] at hok
  obtain ⟨_, u, hset, hok⟩ := bind_eq_ok.mp hok
  obtain ⟨hstill, he, hflags⟩ := setFlags_cases (J := J) hset
  exact ⟨u, _, ⟨hstill, he, hflags⟩, hok⟩

theorem sendFinAck_cases (hok : sendFinAck env i s = .ok ret t) :
    ∃ u n, J.Readied i (fun _ => tcpAck ||| tcpFin) s u ∧
      Tcpv4.sendSegment env n i u = .ok ret t := by
  unfold sendFinAck sendFin at hok
  rw [bind_gets] at hok
  obtain ⟨_, u, hset, hok⟩ := bind_eq_ok.mp hok
  rw [bind_gets] at hok
  obtain ⟨_, v, hor, hok⟩ := bind_eq_ok.mp hok
  obtain ⟨hu, hue, huflags⟩ := setFlags_cases (J := J) hset
  obtain ⟨hv, hve, hvflags⟩ := orFlags_cases (J := J) hor
  refine ⟨v, _, ⟨hu.trans hv, hve.trans hue, fun p hp => ?_⟩, hok⟩
  rw [hvflags p (hue ▸ hp), huflags p hp]

theorem sendSyn_cases (hok : sendSyn env i s = .ok ret t) :
    ∃ u n, J.Readied i (· ||| tcpSyn) s u ∧ Tcpv4.sendSegment env n i u = .ok ret t := by
  unfold sendSyn at hok
  rw [bind_gets] at hok
  obtain ⟨_, u, hor, hok⟩ := bind_eq_ok.mp hok
  obtain ⟨_, v, hstore, hok⟩ := bind_eq_ok.mp hok
  obtain ⟨hu, hue, huflags⟩ := orFlags_cases (J := J) hor
  have hv : J.Silent u v := (silent_controls.onWorld (store_mute _ _ _ _)).ok hstore
  refine ⟨v, _, ⟨hu.trans hv, (onWorld_conn_of_ok hstore).trans hue, fun p hp => ?_⟩, hok⟩
  -- The options are stored behind the header.
  rw [hp] at hstore
  obtain ⟨w, hrun, -, hwrote⟩ :=
    store_some (some s.e.id) p headerLen (synOptions env s.e.initialmss) u.w
  rw [onWorld_ok hrun] at hstore
  cases hstore
  rw [World.headerAt_congr hwrote fun _ => .inl (Nat.le_refl _), huflags p hp]

theorem sendSynAck_cases (hok : sendSynAck env i s = .ok ret t) :
    ∃ u n, J.Readied i (fun _ => tcpAck ||| tcpSyn) s u ∧
      Tcpv4.sendSegment env n i u = .ok ret t := by
  unfold sendSynAck at hok
  rw [bind_gets] at hok
  obtain ⟨_, u, hset, hok⟩ := bind_eq_ok.mp hok
  obtain ⟨hu, hue, huflags⟩ := setFlags_cases (J := J) hset
  obtain ⟨v, n, hv, hok⟩ := sendSyn_cases (J := J) hok
  refine ⟨v, n, ⟨hu.trans hv.silent, hv.conn.trans hue, fun p hp => ?_⟩, hok⟩
  rw [hv.flags p (hue ▸ hp), huflags p hp]

theorem Minds.emitted {flag : UInt8} (hpending : s.e.slen ≠ 0)
    (hok : sendNoDelay env flag s = .ok ret t) : J.Minds s t := by
  have hlen : UInt32.ofNat s.e.slen.toNat ≠ 0 := by
    intro hzero
    apply hpending
    have hnat := congrArg UInt32.toNat hzero
    rw [UInt32.toNat_ofNat', Nat.mod_eq_of_lt (by omega)] at hnat
    exact BitVec.eq_of_toNat_eq hnat
  unfold sendNoDelay at hok
  rw [bind_gets] at hok
  obtain ⟨i, v, hpush, hok⟩ := bind_eq_ok.mp hok
  obtain ⟨w, n, hw, hok⟩ := sendData_cases (J := J) hok
  exact .pushed hlen hpush hw.silent.toStill (by rw [hw.conn]) hok

theorem Minds.finished {c : Prop} [Decidable c] {f : Connection → Connection}
    (hf : ∀ e, (f e).outbox = e.outbox) (hok : (do
      let i ← pushSegment 1
      Program.when c (modifyConn f)
      sendFinAck env i) s = .ok ret t) : J.Minds s t := by
  obtain ⟨i, v, hpush, hok⟩ := bind_eq_ok.mp hok
  obtain ⟨_, w, hwhen, hok⟩ := bind_eq_ok.mp hok
  have hw : J.Still v w ∧ w.e.sndNxt = v.e.sndNxt := by
    rcases when_eq_ok.mp hwhen with ⟨-, hmodify⟩ | ⟨-, rfl⟩
    · cases hmodify
      have hbox := hf v.e
      exact ⟨.conn (congrArg Outbox.id hbox) (congrArg Outbox.segments hbox),
        congrArg Outbox.sndNxt hbox⟩
    · exact ⟨.refl _, rfl⟩
  obtain ⟨x, n, hx, hok⟩ := sendFinAck_cases (J := J) hok
  exact .pushed (by decide) hpush (hw.1.trans hx.silent.toStill) (by rw [hx.conn, hw.2]) hok

/-- What the application waits for stays right while a connection is attended to. -/
theorem minds_attends : Attends env J.Minds where
  refl s := (Still.refl s).minds
  trans h h' := ⟨h.toApart.trans h'.toApart, fun htaken hs => by
    obtain ⟨new, hlog⟩ := h'.log
    exact h'.even htaken (h.even (hlog ▸ htaken).suffix hs)⟩
  world hw := (still_controls.world hw).minds
  buffer s buf := (still_controls.buffer s buf).minds
  told _ _ hcb := (Still.called hcb).minds
  conn hbox := (Still.conn (congrArg Outbox.id hbox) (congrArg Outbox.segments hbox)).minds
  unlistened s port := Still.minds
    ⟨rfl, fun _ => ⟨rfl, rfl⟩, ⟨[_], rfl, by simp [Event.isStay]⟩, rfl, rfl⟩
  accepted s _ _ := Still.minds
    ⟨rfl, fun _ => ⟨rfl, rfl⟩, ⟨[_], rfl, by simp [Event.isStay]⟩, rfl, rfl⟩
  emit hpending hok := .emitted (by simpa [Connection.hasPendingSendData] using hpending) hok
  fin _ _ _ hf _ _ _ hok := .finished hf hok

/-! ## Segments that leave again -/

/-- A segment that has left before is not counted. -/
theorem sendSegment_again {n : UInt32} (hold : (s.e.segments i).seq ≠ s.e.sndNxt)
    (hok : Tcpv4.sendSegment env n i s = .ok ret t) : J.Still s t := by
  unfold Tcpv4.sendSegment at hok
  rw [bind_gets] at hok
  obtain ⟨_, a, hfill, hok⟩ := bind_eq_ok.mp hok
  obtain ⟨ret', b, hsend, hok⟩ := bind_eq_ok.mp hok
  have hb : J.Still s b := by
    apply Still.trans ((still_controls.fillHeader env _ _).ok hfill)
    exact (still_controls.onWorld (sendFrame_mute env _ _ _ _ _)).ok hsend
  have hagain : ((s.e.segments i).seq != s.e.sndNxt) = true := by simpa using hold
  rw [bind_record, hagain] at hok
  have hc : J.Still b (b.noted (.transmit s.e.id s.e.state (s.e.segments i).seq
      (s.e.segments i).len true ret')) := .noted (by simp [Event.isStay])
  split at hok
  · cases hok
    exact hb.trans hc
  · obtain ⟨_, u, hskip, hok⟩ := bind_eq_ok.mp hok
    cases hskip
    exact (hb.trans hc).trans ((still_controls.refill env _).ok hok)

theorem swapSegment_still (hok : swapSegment s = .ok () t) :
    J.Still s t ∧ t.e.sndNxt = s.e.sndNxt := by
  unfold swapSegment at hok
  rw [bind_gets_id] at hok
  obtain ⟨_, u, hcopy, hok⟩ := bind_eq_ok.mp hok
  have hu : J.Still s u ∧ u.e = s.e := by
    rcases when_eq_ok.mp hcopy with ⟨-, hcopy⟩ | ⟨-, rfl⟩
    · cases hdat : s.e.segment.dat with
      | none =>
          rw [hdat] at hcopy
          cases hcopy
      | some q =>
          rw [hdat] at hcopy
          exact ⟨(still_controls.onWorld (store_mute _ _ _ _)).ok hcopy, onWorld_conn_of_ok hcopy⟩
    · exact ⟨.refl _, rfl⟩
  obtain ⟨e, w⟩ := u
  obtain ⟨hu, rfl⟩ := hu
  cases hok
  refine ⟨hu.trans ⟨rfl, fun i => ?_, ⟨[], rfl, by simp⟩, rfl, rfl⟩, rfl⟩
  -- Only the buffer of the oldest segment has changed.
  by_cases hi : i = s.e.segidx
  · subst hi
    simp [Connection.setSegment, Connection.resetSendBuffer, Connection.segment]
  · simp [Connection.setSegment, Connection.resetSendBuffer, Function.update_of_ne hi]

/-- The oldest segment leaves again. -/
theorem rexmit_still (hold : s.e.segment.seq ≠ s.e.sndNxt) (hok : rexmit env s = .ok ret t) :
    J.Still s t := by
  have hswapped : ∀ {u v : Ctx D H} {n : UInt32},
      swapSegment (s.noted (.rexmit s.e.id s.e.state s.e.slen s.e.segment
        (s.e.segment.swapKeeps s.w.mem s.e.sdat))) = .ok () u →
      J.Still u v → v.e = u.e → Tcpv4.sendSegment env n s.e.segidx v = .ok ret t →
      J.Still s t := by
    intro u v n hswap hv hve hsend
    have hnoted : J.Still s (s.noted (.rexmit s.e.id s.e.state s.e.slen s.e.segment
      (s.e.segment.swapKeeps s.w.mem s.e.sdat))) := .noted rfl
    obtain ⟨hu, hnxt⟩ := swapSegment_still (J := J) hswap
    have hsu : J.Still s u := hnoted.trans hu
    have hseq : (v.e.segments s.e.segidx).seq ≠ v.e.sndNxt := by
      rw [hve, (hsu.ring s.e.segidx).1, hnxt]
      exact hold
    exact (hsu.trans hv).trans (sendSegment_again hseq hsend)
  have hnone : ∀ {u : Ctx D H}, (Pure.pure .ok : ConnProgram D H Status) (s.noted (.rexmit s.e.id
      s.e.state s.e.slen s.e.segment (s.e.segment.swapKeeps s.w.mem s.e.sdat))) = .ok ret u →
      J.Still s u := by
    intro u hok
    cases hok
    exact .noted rfl
  unfold rexmit at hok
  rw [bind_gets_id, bind_record] at hok
  cases hstate : s.e.state <;> simp only [hstate] at hok hswapped hnone
  case synRcvd =>
    obtain ⟨_, u, hswap, hok⟩ := bind_eq_ok.mp hok
    obtain ⟨v, n, hv, hsend⟩ := sendSynAck_cases (J := J) hok
    exact hswapped hswap hv.silent.toStill hv.conn hsend
  case synSent =>
    obtain ⟨_, u, hswap, hok⟩ := bind_eq_ok.mp hok
    obtain ⟨_, x, hset, hok⟩ := bind_eq_ok.mp hok
    obtain ⟨v, n, hv, hsend⟩ := sendSyn_cases (J := J) hok
    obtain ⟨hx, hxe, -⟩ := setFlags_cases (J := J) hset
    exact hswapped hswap (hx.trans hv.silent).toStill (hv.conn.trans hxe) hsend
  case established =>
    obtain ⟨_, u, hswap, hok⟩ := bind_eq_ok.mp hok
    obtain ⟨v, n, hv, hsend⟩ := sendData_cases (J := J) hok
    exact hswapped hswap hv.silent.toStill hv.conn hsend
  case finWait1 | closing | lastAck =>
    obtain ⟨_, u, hswap, hok⟩ := bind_eq_ok.mp hok
    obtain ⟨v, n, hv, hsend⟩ := sendFinAck_cases (J := J) hok
    exact hswapped hswap hv.silent.toStill hv.conn hsend
  all_goals exact hnone hok

/-! ## Segments of the peer -/

/-- The application waits for as much less as is acknowledged. -/
def Heeds (J : Journal env.handler) (s : Ctx D H) (inc : Incoming) : Prop :=
  (J.waiting s.w.hdl s.e.id).isSome = true → s.e.listens inc = true →
    s.e.acknowledged s.w.log inc = if s.e.tells inc then 1 else 0

theorem Even.heard {inc : Incoming} (h : J.Even s.e s.w)
    (hsame : (J.waiting s.w.hdl s.e.id).isSome = true → s.e.acknowledged s.w.log inc = 0) :
    J.Even (s.e.heard inc) s.w := by
  have hid := s.e.heard_id inc
  have hout := s.e.heard_outstanding inc
  refine ⟨?_, fun m hm => ?_⟩
  · rw [hid]
    exact hout.trans h.enough
  · rw [hid] at hm
    have hzero := hsame (by rw [hm]; rfl)
    have hmono := Connection.reported_mono hid hout s.w.log
    rw [Connection.acknowledged] at hzero
    rw [h.even m hm]
    omega

/-- Taking in an acknowledgement happens to the connection alone. -/
theorem Apart.heard (s : Ctx D H) (inc : Incoming) : J.Apart s ⟨s.e.heard inc, s.w⟩ :=
  ⟨s.e.heard_id inc, ⟨[], rfl⟩, fun _ _ => rfl, fun _ _ => rfl, rfl⟩

/-- The application is told of an acknowledgement it waits for. -/
theorem Even.told {inc : Incoming} (e : Connection) (alen : Option UInt32) (h : J.Even s.e s.w)
    (he : e.id = s.e.id) (hsegs : e.segments = (s.e.heard inc).segments)
    (hone : (J.waiting s.w.hdl s.e.id).isSome = true → s.e.acknowledged s.w.log inc = 1) :
    let u := (⟨e, s.w⟩ : Ctx D H).called env (.onAcked alen)
    J.Apart s u ∧ J.Even u.e u.w := by
  intro u
  have hwaits : J.waiting s.w.hdl e.id ≠ some 0 := by
    intro hzero
    rw [he] at hzero
    have hone := hone (by rw [hzero]; rfl)
    rw [Connection.acknowledged, ← h.even 0 hzero] at hone
    omega
  obtain ⟨hwaiting, hbroken⟩ := J.acked s.w.hdl e alen hwaits
  have hlog : ∀ id, Tcpv4.departures id u.w.log = Tcpv4.departures id s.w.log := fun id =>
    (departures_cons id _ _).trans (Event.isStay.depart (by simp [Event.isStay]) id _)
  have hout : e.outstanding = (s.e.heard inc).outstanding :=
    Connection.outstanding_congr fun i => by rw [hsegs]
  refine ⟨⟨he, ⟨[_], rfl⟩, fun id _ => hlog id, fun id hid => ?_, hbroken⟩, ?_, fun m hm => ?_⟩
  · show J.waiting (env.handler s.w.hdl e (.onAcked alen)).hdl id = _
    rw [hwaiting, Function.update_of_ne (he ▸ hid)]
  · show e.outstanding ≤ (Tcpv4.departures e.id u.w.log).length
    rw [hlog, hout, he]
    exact (s.e.heard_outstanding inc).trans h.enough
  · change J.waiting (env.handler s.w.hdl e (.onAcked alen)).hdl e.id = some m at hm
    rw [hwaiting, Function.update_self, he] at hm
    obtain ⟨k, hk, rfl⟩ := Option.map_eq_some_iff.mp hm
    have hone := hone (by rw [hk]; rfl)
    rw [Connection.acknowledged, ← h.even k hk] at hone
    have hreported : u.e.reported u.w.log = (s.e.heard inc).reported s.w.log := by
      rw [Connection.reported, Connection.reported, show u.e.outstanding = _ from hout,
        show u.e.id = _ from he, hlog, s.e.heard_id]
    rw [hreported]
    omega

/-- Only a segment that gets as far as the scan acknowledges anything. -/
theorem processSegment_course {inc : Incoming} (hok : processSegment env inc s = .ok ret t) :
    s.e.listens inc = false ∧ (processRst env ⟨s.e.clearNews, s.w⟩ = .ok ret t ∨
        sendAck env ⟨s.e.clearNews, s.w⟩ = .ok ret t) ∨
      s.e.listens inc = true ∧ (if (s.e.clearNews.scanned inc).2 then rexmit env
        else processState env inc) ⟨s.e.heard inc, s.w⟩ = .ok ret t := by
  by_cases hlistens : s.e.listens inc = true
  · have hpass := hlistens
    simp only [Connection.listens, Bool.and_eq_true, Bool.not_eq_true'] at hpass
    rw [processSegment_scanned hpass.1 hpass.2] at hok
    exact .inr ⟨hlistens, hok⟩
  · refine .inl ⟨by simpa using hlistens, ?_⟩
    unfold Tcpv4.processSegment modifyConn at hok
    rw [bind_update, bind_gets] at hok
    split at hok
    · exact .inl hok
    · next hrst =>
        have hseq : s.e.clearNews.outOfSequence inc = true := by
          show s.e.outOfSequence inc = true
          simpa [Connection.listens, hrst] using hlistens
        rw [if_pos hseq] at hok
        exact .inr hok

/-- A segment that acknowledges as much as the application is told keeps the count
right. -/
theorem processSegment {inc : Incoming}
    (hagain : (s.e.clearNews.scanned inc).2 = true →
      (s.e.heard inc).segment.seq ≠ (s.e.heard inc).sndNxt)
    (hheeds : J.Heeds s inc) (hok : processSegment env inc s = .ok ret t)
    (htaken : Taken t.w.log) (hs : J.Even s.e s.w) : J.Apart s t ∧ J.Even t.e t.w := by
  have hattends := minds_attends (J := J)
  have hclear : J.Still s ⟨s.e.clearNews, s.w⟩ := .conn rfl rfl
  have hfrom : ∀ {u : Ctx D H}, J.Apart s u → J.Even u.e u.w → J.Minds u t →
      J.Apart s t ∧ J.Even t.e t.w :=
    fun happ heven hm => ⟨happ.trans hm.toApart, hm.even htaken heven⟩
  rcases processSegment_course hok with ⟨-, hrun | hrun⟩ | ⟨hlistens, hrun⟩
  · exact hfrom (.refl s) hs (hattends.trans hclear.minds (hattends.processRst hrun))
  · exact hfrom (.refl s) hs (hattends.trans hclear.minds (hattends.acknowledge hrun))
  have hquiet : s.e.tells inc = false → J.Even (s.e.heard inc) s.w := by
    intro htells
    apply hs.heard
    intro hsome
    rw [hheeds hsome hlistens, htells]
    rfl
  split at hrun
  · next hflag =>
      have heven := hquiet (by simp [Connection.tells, hflag])
      exact hfrom (.heard s inc) heven (rexmit_still (hagain hflag) hrun).minds
  next hflag =>
  by_cases htells : s.e.tells inc = true
  · -- The callback takes one from what the application waits for.
    have hparts := htells
    simp only [Connection.tells, Bool.and_eq_true, Bool.not_eq_true', beq_iff_eq] at hparts
    obtain ⟨⟨⟨-, hstate⟩, hfin⟩, hack⟩ := hparts
    have hstate : (s.e.heard inc).state = .established := (scanned_state _ _).trans hstate
    unfold processState at hrun
    rw [bind_gets, hstate] at hrun
    rcases processEstablished_cases hrun with ⟨hhas, -⟩ | ⟨-, hrun⟩
    · rw [hfin] at hhas
      cases hhas
    let e := (s.e.heard inc).updated inc
    have hbox : e.outbox = (s.e.heard inc).outbox := (s.e.heard inc).outbox_updated inc
    have hack : e.ackdata = true := ((s.e.heard inc).ackdata_updated inc).trans hack
    obtain ⟨happ, heven⟩ := Even.told e (env.offer e e.canSend) hs
      ((congrArg Outbox.id hbox).trans (s.e.heard_id inc)) (congrArg Outbox.segments hbox)
      fun hsome => by rw [hheeds hsome hlistens, htells]; rfl
    exact hfrom happ heven (hattends.afterUpdate_acked hack hrun)
  · have hnone : s.e.tells inc = false := by simpa using htells
    apply hfrom (.heard s inc) (hquiet hnone)
    refine hattends.processState (fun hstate hfin => ?_) hrun
    have hstate : s.e.state = .established :=
      (scanned_state s.e.clearNews inc).symm.trans hstate
    simpa [Connection.tells, hflag, hstate, hfin] using hnone

/-! ## Segments without the flag -/

/-- What happens up to the note of a segment keeps the flags of its header. -/
theorem sendFilled_flags {seq n : UInt32} {p : Ptr} {a b : Ctx D H} (hoff : p.off = tcpOffset)
    (hfill : fillHeader env seq (some p) s = .ok () a)
    (hsend : onWorld (sendFrame env (some s.e.id) s.e.ripaddr n s.e.mss (some p)) a = .ok ret b) :
    (b.w.headerAt p).flags = (s.w.headerAt p).flags := by
  obtain ⟨w₁, hrun, -, -, hflags, -⟩ := fillHeader_some env seq p s
  rw [hrun] at hfill
  cases hfill
  obtain ⟨w₂, w, ret', frame, hrun, -, -, hmem, -, hhdr, -⟩ :=
    sendFrame_some env (some s.e.id) s.e.ripaddr n s.e.mss p w₁
  rw [onWorld_ok hrun] at hsend
  cases hsend
  have hsame : w₂.headerAt p = w.headerAt p := by rw [World.headerAt, World.headerAt, hmem]
  show (w₂.headerAt p).flags = _
  rw [hsame, (hhdr hoff.ge).2.2, hflags]

/-- The application is not told of a new segment without the PSH flag. -/
theorem sendSegment_unreported {n : UInt32} {p : Ptr}
    (hfresh : (s.e.segments i).seq = s.e.sndNxt) (hdat : (s.e.segments i).dat = some p)
    (hoff : p.off = tcpOffset) (hpsh : (s.w.headerAt p).has tcpPsh = false)
    (hok : Tcpv4.sendSegment env n i s = .ok ret t) :
    ∃ b ret', J.Silent s b ∧ b.e = s.e ∧ J.Silent (b.noted (.transmit s.e.id s.e.state
      (s.e.segments i).seq (s.e.segments i).len false ret')) t := by
  unfold Tcpv4.sendSegment at hok
  rw [bind_gets] at hok
  obtain ⟨_, a, hfill, hok⟩ := bind_eq_ok.mp hok
  obtain ⟨ret', b, hsend, hok⟩ := bind_eq_ok.mp hok
  have hb : J.Silent s b := by
    apply Silent.trans ((silent_controls.fillHeader env _ _).ok hfill)
    exact (silent_controls.onWorld (sendFrame_mute env _ _ _ _ _)).ok hsend
  have hbe : b.e = s.e := (onWorld_conn_of_ok hsend).trans (onWorld_conn_of_ok hfill)
  refine ⟨b, ret', hb, hbe, ?_⟩
  have hflags : (b.w.headerAt p).has tcpPsh = false := by
    rw [hdat] at hfill hsend
    rwa [Header.has, sendFilled_flags hoff hfill hsend]
  have hagain : ((s.e.segments i).seq != s.e.sndNxt) = false := by simp [hfresh]
  rw [bind_record, hagain] at hok
  split at hok
  · cases hok
    exact silent_controls.refl _
  · obtain ⟨_, x, hcount, hok⟩ := bind_eq_ok.mp hok
    obtain ⟨u, rfl, hu⟩ := counted_cases hcount
    have hu := hu.resolve_right fun h => by
      obtain ⟨-, q, hq, htold⟩ := h
      rw [hdat] at hq
      cases hq
      have hnot : (b.w.headerAt p).has tcpPsh = true := htold
      simp [hflags] at hnot
    subst hu
    exact (Silent.counted _ _).trans ((silent_controls.refill env _).ok hok)

/-! ## Sending -/

/-- An empty segment without the PSH flag is nothing to the application. -/
theorem Minds.vacuous (hplaced : s.e.core.Placed) (hempty : s.e.slen = 0)
    (hok : sendNoDelay env 0 s = .ok ret t) : J.Minds s t := by
  unfold sendNoDelay at hok
  rw [bind_gets, hempty] at hok
  obtain ⟨i, v, hpush, hok⟩ := bind_eq_ok.mp hok
  obtain ⟨hnext, rfl⟩ := pushSegment_cases hpush
  obtain ⟨w, n, hw, hok⟩ := sendData_cases (J := J) hok
  let e' := s.e.setSegment i ⟨0, s.e.sndNxt, s.e.sdat⟩
  have hseg : e'.segments i = ⟨0, s.e.sndNxt, s.e.sdat⟩ := Function.update_self _ _ _
  have hfree : (s.e.segments i).len = 0 := by
    simpa [Segment.isFree] using Ring.free_of_firstFree hnext
  have hout : e'.outstanding = s.e.outstanding := by
    apply Connection.outstanding_congr
    intro j
    by_cases hj : j = i
    · subst hj
      rw [hseg, hfree]
    · show (Function.update s.e.segments i _ j).len = _
      rw [Function.update_of_ne hj]
  have hpushed : J.Minds s ⟨e'.resetSendBuffer, s.w⟩ := by
    refine ⟨⟨rfl, ⟨[], rfl⟩, fun _ _ => rfl, fun _ _ => rfl, rfl⟩, fun _ h => ⟨?_, fun m hm => ?_⟩⟩
    · exact hout.trans_le h.enough
    · rw [h.even m hm, Connection.reported, ← hout]
      rfl
  apply minds_attends.trans hpushed
  apply Still.minds
  apply hw.silent.toStill.trans
  have hwseg : w.e.segments i = ⟨0, s.e.sndNxt, s.e.sdat⟩ :=
    (congrFun (congrArg _ hw.conn) i).trans hseg
  cases hdat : s.e.sdat with
  | none =>
      obtain ⟨x, hfault⟩ := sendSegment_none env (by rw [hwseg, hdat]) n
      rw [hfault] at hok
      cases hok
  | some p =>
      have hflags := hw.flags p (by rw [hdat] at hseg; exact congrArg Segment.dat hseg)
      obtain ⟨x, ret', hx, -, ht⟩ := sendSegment_unreported (J := J) (by rw [hwseg, hw.conn]; rfl)
        (by rw [hwseg, hdat]) (hplaced.sdat p hdat)
        (by rw [Header.has, hflags]; decide) hok
      apply hx.toStill.trans (.trans (.noted ?_) ht.toStill)
      rw [hwseg]
      rfl

/-- The data of the application is put behind the pending data. -/
theorem copyPayload_still {data : Bytes} {off n : UInt32}
    (hok : Program.when (n ≠ 0) (copyPayload data off n) s = .ok () t) :
    J.Still s t ∧ t.e = { s.e with slen := s.e.slen + BitVec.ofNat 24 n.toNat } := by
  rcases when_eq_ok.mp hok with ⟨-, hok⟩ | ⟨hzero, rfl⟩
  · obtain ⟨_, _, hget, hok⟩ := bind_eq_ok.mp hok
    cases hget
    obtain ⟨_, u, hstore, hok⟩ := bind_eq_ok.mp hok
    have hu : J.Still s u := (still_controls.onWorld (store_mute _ _ _ _)).ok hstore
    have hue : u.e = s.e := onWorld_conn_of_ok hstore
    cases hok
    refine ⟨hu.trans ⟨rfl, fun _ => ⟨rfl, rfl⟩, ⟨[_], rfl, by simp [Event.isStay]⟩, rfl, rfl⟩, ?_⟩
    simp only [hue, List.length_map, List.length_range]
  · have hn : n = 0 := by simpa using hzero
    refine ⟨.refl _, ?_⟩
    rw [hn]
    simp

theorem send {len : UInt32} {data : Option Bytes} {off : UInt32} {result : Status × UInt32}
    (hplaced : s.e.core.Placed)
    (hfull : s.e.state = .established → ¬env.hollow s.e len data off)
    (hok : Tcpv4.send env len data off s = .ok result t) : J.Minds s t := by
  have hskip : ∀ {u : Ctx D H} (a : Status × UInt32), J.Still s u →
      (Pure.pure a : ConnProgram D H (Status × UInt32)) u = .ok result t → J.Minds s t := by
    intro u a hu hok
    cases hok
    exact hu.minds
  unfold Tcpv4.send at hok
  rw [bind_gets] at hok
  split at hok
  · exact hskip _ (.refl s) hok
  next hstate =>
  split at hok
  · exact hskip _ (.refl s) hok
  cases data with
  | none => exact hskip _ (.refl s) hok
  | some data =>
      dsimp only at hok
      split at hok
      · exact hskip _ (.refl s) hok
      next hvalid =>
      split at hok
      · exact hskip _ (.refl s) hok
      next hbound =>
      obtain ⟨_, u, hcopy, hok⟩ := bind_eq_ok.mp hok
      obtain ⟨hu, hue⟩ := copyPayload_still (J := J) hcopy
      split at hok
      · exact hskip _ hu hok
      next havail =>
      have hlt : off < len := UInt32.not_le.mp fun h => hvalid (.inr h)
      have havail : s.e.hasAvailableSegments = true := by simpa using havail
      have hopen : ¬(s.e.slen + BitVec.ofNat 24 (env.fitting s.e len off).toNat = 0 ∧
          (s.e.hasNoDelay = true → off + env.fitting s.e len off = len)) := fun h =>
        hfull (not_not.mp hstate) ⟨⟨rfl, hlt, UInt32.not_lt.mp hbound, havail⟩, h⟩
      split at hok
      · next hnodelay =>
          obtain ⟨ret, v, hsend, hok⟩ := bind_eq_ok.mp hok
          cases hok
          apply minds_attends.trans hu.minds
          by_cases hempty : u.e.slen = 0
          · -- Then not all the data fits, and the flag is not set.
            have hrest : off + env.fitting s.e len off ≠ len := by
              intro hall
              rw [hue] at hempty
              exact hopen ⟨hempty, fun _ => hall⟩
            rw [if_neg hrest] at hsend
            refine .vacuous ?_ hempty hsend
            rw [hue]
            exact ⟨hplaced.sdat, hplaced.dat⟩
          · exact .emitted hempty hsend
      · next hnagle =>
          obtain ⟨ret, v, hsend, hok⟩ := bind_eq_ok.mp hok
          cases hok
          have hpending : u.e.slen ≠ 0 := by
            intro hempty
            rw [hue] at hempty
            exact hopen ⟨hempty, fun h => absurd h hnagle⟩
          apply minds_attends.trans hu.minds
          unfold sendNagle at hsend
          rw [bind_gets] at hsend
          split_ifs at hsend
          · exact .emitted hpending hsend
          · cases hsend
            exact (Still.refl _).minds
          · exact .emitted hpending hsend

/-- A tick that sends again only what has left keeps the count right. -/
theorem tick {again : Option Status}
    (hold : s.e.hasOutstandingSegments = true → s.e.segment.seq ≠ s.e.sndNxt)
    (hok : Tcpv4.tick env s = .ok again t) : J.Minds s t := by
  apply minds_attends.tick _ hok
  intro u v ret hbox hout hrexmit
  have hsegs : u.e.segments = s.e.segments := congrArg Outbox.segments hbox
  have hidx : u.e.segidx = s.e.segidx := congrArg Outbox.segidx hbox
  have hnxt : u.e.sndNxt = s.e.sndNxt := congrArg Outbox.sndNxt hbox
  apply (rexmit_still _ hrexmit).minds
  rw [Connection.segment, hsegs, hidx, hnxt]
  apply hold
  rwa [Connection.hasOutstandingSegments, ← hsegs]

end Journal

end Tulips.Tcpv4
