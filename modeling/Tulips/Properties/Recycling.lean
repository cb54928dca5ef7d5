import Tulips.Machine.Hosts
import Tulips.Machine.Testbed
import Tulips.Transport.Ofed
import Tulips.Transport.Tap

/-!
# Buffers that wait for an acknowledgement

A segment keeps its buffer until it is acknowledged, but the device takes a
committed buffer back as soon as the frame has gone out, and hands its buffers
out in turn. So a buffer that a connection still refers to is handed out again
exactly when the line of the device has reached it.
-/

namespace Tulips

open Tcpv4 Turns

variable {D H : Type} {n : Nat}

/-! ## The devices -/

namespace Tcpv4

/-- Where a connection keeps a pointer to a buffer. -/
inductive Ref
  /-- `m_dat` of a segment. -/
  | segment (k : Fin segmentCount)
  /-- `m_sdat` -/
  | send

/-- The buffer a connection refers to, where it does. -/
def Core.buffer (c : Core) : Ref → Option Nat
  | .segment k => if (c.segments k).len = 0 then none else (c.segments k).dat.map Ptr.buf
  | .send => c.sdat.map Ptr.buf

/-- The last thing that happened is that the segment was sent from the buffer, or
that the buffer became the send buffer. -/
def Ref.Begins (c : Core) (buf : Nat) : Ref → List Event → Prop
  | .segment k, .transmit id _ seq len _ _ :: .commit who b _ _ _ :: _ =>
      id = c.id ∧ seq = (c.segments k).seq ∧ len = (c.segments k).len ∧ who = some c.id ∧ b = buf
  | .send, .refill id _ _ b _ :: _ => id = c.id ∧ b = some buf
  | _, _ => False

instance (c : Core) (buf : Nat) (r : Ref) : DecidablePred (r.Begins c buf) := fun log => by
  unfold Ref.Begins
  split <;> infer_instance

/-- How many events ago a reference began the last time. -/
def Core.since (c : Core) (buf : Nat) (r : Ref) (log : List Event) : Option Nat :=
  (List.range (log.length + 1)).find? fun m => decide (r.Begins c buf (log.drop m))

section Begun

variable {handler : EventHandler H} {s t u : Slot H} {c d : Core} {r : Ref}
  {log g : List Event}

/-- If the connection refers to a buffer, that has begun some time. -/
def Core.Begun (c : Core) (log : List Event) (r : Ref) : Prop :=
  ∀ buf, c.buffer r = some buf → ∃ m, r.Begins c buf (log.drop m)

/-- The part of a connection a reference depends on. -/
def Ref.Same (c d : Core) : Ref → Prop
  | .segment k => d.id = c.id ∧ d.segments k = c.segments k
  | .send => d.id = c.id ∧ d.sdat = c.sdat

theorem Ref.Same.refl (c : Core) (r : Ref) : r.Same c c := by
  cases r <;> exact ⟨rfl, rfl⟩

theorem Ref.begins_segment {k : Fin segmentCount} {buf : Nat} :
    (Ref.segment k).Begins c buf log ↔ ∃ state again ret frame mss ret' post,
      log = .transmit c.id state (c.segments k).seq (c.segments k).len again ret ::
        .commit (some c.id) buf frame mss ret' :: post := by
  constructor
  · intro h
    unfold Ref.Begins at h
    split at h
    · next heq =>
        cases heq
        obtain ⟨rfl, rfl, rfl, rfl, rfl⟩ := h
        exact ⟨_, _, _, _, _, _, _, rfl⟩
    · next heq => cases heq
    · exact h.elim
  · rintro ⟨state, again, ret, frame, mss, ret', post, rfl⟩
    exact ⟨rfl, rfl, rfl, rfl, rfl⟩

theorem Ref.begins_send {buf : Nat} : Ref.send.Begins c buf log ↔
    ∃ state first clash post, log = .refill c.id state first (some buf) clash :: post := by
  constructor
  · intro h
    unfold Ref.Begins at h
    split at h
    · next heq => cases heq
    · obtain ⟨rfl, rfl⟩ := h
      exact ⟨_, _, _, _, rfl⟩
    · exact h.elim
  · rintro ⟨state, first, clash, post, rfl⟩
    exact ⟨rfl, rfl⟩

theorem Ref.Begins.of_same {buf : Nat} (h : r.Begins c buf log) (hsame : r.Same c d) :
    r.Begins d buf log := by
  cases r with
  | segment k =>
      obtain ⟨hid, hsegment⟩ := hsame
      rw [begins_segment] at h ⊢
      rwa [hid, hsegment]
  | send =>
      obtain ⟨hid, -⟩ := hsame
      rw [begins_send] at h ⊢
      rwa [hid]

/-- What a reference depends on is as before, and the history has grown. -/
theorem Core.Begun.mono (h : c.Begun log r) (hsame : r.Same c d) : d.Begun (g ++ log) r := by
  intro buf hbuf
  have hbuf' : c.buffer r = some buf := by
    cases r <;> rwa [Core.buffer, hsame.2] at hbuf
  obtain ⟨m, hm⟩ := h buf hbuf'
  refine ⟨g.length + m, ?_⟩
  rw [List.drop_append, List.drop_eq_nil_of_le (Nat.le_add_right _ _), List.nil_append,
    Nat.add_sub_cancel_left]
  exact hm.of_same hsame

/-- Every reference of the connection has begun some time. -/
def Core.Recorded (c : Core) (log : List Event) : Prop := ∀ r, c.Begun log r

theorem Core.Recorded.mono (h : c.Recorded log) (hid : d.id = c.id)
    (hsegments : d.segments = c.segments) (hsdat : d.sdat = c.sdat) :
    d.Recorded (g ++ log) := by
  intro r
  refine (h r).mono ?_
  cases r with
  | segment k => exact ⟨hid, by rw [hsegments]⟩
  | send => exact ⟨hid, hsdat⟩

theorem Core.Recorded.of_adds {P : Event → Prop} (h : s.toCore.Recorded s.log)
    (hadds : Adds P s t) (hid : t.id = s.id) (hsegments : t.segments = s.segments)
    (hsdat : t.sdat = s.sdat) : t.toCore.Recorded t.log := by
  obtain ⟨g, hlog, -⟩ := hadds
  rw [hlog]
  exact h.mono hid hsegments hsdat

/-- A slot of the ring is filled from the send buffer. -/
theorem Core.Recorded.begun_of_ne {k : Fin segmentCount} (h : c.Recorded log) (hid : d.id = c.id)
    (hsdat : d.sdat = none) (hsegments : ∀ j, j ≠ k → d.segments j = c.segments j) (r : Ref)
    (hr : r ≠ .segment k) : d.Begun (g ++ log) r := by
  cases r with
  | segment j =>
      have hj : j ≠ k := fun hjk => hr (by rw [hjk])
      exact (h (.segment j)).mono ⟨hid, hsegments j hj⟩
  | send =>
      intro buf hbuf
      rw [Core.buffer, hsdat] at hbuf
      cases hbuf

theorem Refilled.recorded {again : Bool} (h : Refilled again s t)
    (hs : s.toCore.Recorded s.log) : t.toCore.Recorded t.log := by
  rcases h with rfl | ⟨buf, mem, writes, clash, -, -, -, rfl⟩
  · exact hs.mono (g := [_, _]) rfl rfl rfl
  · intro r
    cases r with
    | segment k =>
        have hlog : ∀ ev ev' : Event, ev :: (writes ++ ev' :: s.log) =
            (ev :: (writes ++ [ev'])) ++ s.log := by simp
        rw [hlog]
        exact (hs (.segment k)).mono ⟨rfl, rfl⟩
    | send =>
        rintro _ ⟨⟩
        exact ⟨0, Ref.begins_send.mpr ⟨_, _, _, _, rfl⟩⟩

theorem Transmitted.recorded {known : Prop} {k : Fin segmentCount} {hlen n : Nat}
    (h : Transmitted handler known k hlen n s t)
    (hs : ∀ r, r ≠ .segment k → s.toCore.Begun s.log r) : t.toCore.Recorded t.log := by
  obtain ⟨p, u, ret, hdat, ⟨_, frame, mss, ⟨mem, writes, rfl, -, -⟩, rfl, -⟩, hout⟩ := h
  dsimp only [Slot.logged] at hout
  set v : Slot H := { s with
    mem := mem
    log := .transmit s.id s.state (s.segments k).seq (s.segments k).len
      ((s.segments k).seq != s.sndNxt) ret ::
      .commit (some s.id) p.buf frame mss ret :: (writes ++ s.log) } with hv
  have hrecorded : v.toCore.Recorded v.log := by
    intro r
    by_cases hr : r = .segment k
    · subst hr
      intro buf hbuf
      have hbuf' : p.buf = buf := by
        simp only [Core.buffer, hv, hdat, Option.map_some] at hbuf
        split_ifs at hbuf
        exact Option.some_inj.mp hbuf
      exact ⟨0, Ref.begins_segment.mpr ⟨_, _, _, _, _, _, _, by rw [← hbuf']; rfl⟩⟩
    · have hlog : v.log = (_ :: _ :: writes) ++ s.log := rfl
      rw [hlog]
      exact (hs r hr).mono (Ref.Same.refl _ r)
  rcases hout with ⟨-, rfl⟩ | ⟨-, x, hx, hrefill⟩
  · exact hrecorded
  · refine hrefill.recorded ?_
    split_ifs at hx
    · rw [hx]
      exact hrecorded
    · have hcore := hx.toCore_eq
      exact hrecorded.of_adds (hx.adds (l := .emit) (by decide)) (by rw [hcore]) (by rw [hcore])
        (by rw [hcore])

theorem SentControl.recorded {known : Prop} (h : SentControl known s t)
    (hs : s.toCore.Recorded s.log) : t.toCore.Recorded t.log := by
  obtain ⟨p, u, ret, -, hcommit, hout⟩ := h
  have hcore := hcommit.toCore_eq
  have hu : u.toCore.Recorded u.log :=
    (hs.mono (d := s.toCore) (g := [_]) rfl rfl rfl).of_adds
      (s := s.logged (.control s.id s.state s.slen)) (hcommit.adds (l := .control))
      (by rw [hcore]) (by rw [hcore]) (by rw [hcore])
  rcases hout with ⟨-, rfl⟩ | ⟨-, hrefill⟩
  · exact hu
  · exact hrefill.recorded hu

theorem Opened.recorded {peer : Peer} {st : State} {iss : UInt32} {p : Ptr}
    (h : Opened handler peer st iss p s t) (hs : s.toCore.Recorded s.log) :
    t.toCore.Recorded t.log := by
  obtain ⟨leftover, rcvNxt, synced, k, -, -, -, hsend⟩ := h
  refine hsend.recorded fun r hr => ?_
  have hlog : synced ++ .create s.id iss p.buf leftover :: s.log =
      (synced ++ [.create s.id iss p.buf leftover]) ++ s.log := by simp
  dsimp only [Slot.pushedSyn, Slot.opened]
  rw [hlog]
  refine hs.begun_of_ne ?_ ?_ (fun j hj => ?_) r hr
  · rfl
  · rfl
  · exact Function.update_of_ne hj _ _

/-- Every act leaves a connection whose references have begun. -/
theorem Act.recorded {l : Label} (h : Act handler l s t) (hs : s.toCore.Recorded s.log) :
    t.toCore.Recorded t.log := by
  obtain ⟨hid, hadds⟩ := h.adds
  -- Most acts leave the ring and the send buffer alone.
  have hsame : t.segments = s.segments → t.sdat = s.sdat → t.toCore.Recorded t.log :=
    hs.of_adds hadds hid
  cases h with
  | note | move | settle | rcv | news | append => exact hsame rfl rfl
  | life _ hcall | data _ hcall =>
      exact hsame (congrArg Core.segments hcall.toCore_eq) (congrArg Core.sdat hcall.toCore_eq)
  | store _ _ _ hstore =>
      exact hsame (congrArg Core.segments hstore.toCore_eq) (congrArg Core.sdat hstore.toCore_eq)
  | clear =>
      intro r
      by_cases hr : r = .segment s.segidx
      · subst hr
        intro buf hbuf
        simp [Core.buffer, Slot.cleared, Segment.cleared] at hbuf
      · refine (hs r).mono (g := []) ?_
        cases r with
        | segment j =>
            have hj : j ≠ s.segidx := fun hj => hr (by rw [hj])
            exact ⟨rfl, Function.update_of_ne hj _ _⟩
        | send => exact ⟨rfl, rfl⟩
  | emit _ _ hsend | fin _ _ _ hsend =>
      exact hsend.recorded (hs.begun_of_ne (g := []) rfl rfl
        fun j hj => Function.update_of_ne hj _ _)
  | @resend _ u _ _ _ _ _ _ _ _ _ hstore _ hsend =>
      have hcore := hstore.toCore_eq
      have hu : u.toCore.Recorded u.log :=
        (hs.mono (d := s.toCore) (g := [_]) rfl rfl rfl).of_adds (s := s.logged _)
          (hstore.adds (l := .resend)) (by rw [hcore]) (by rw [hcore]) (by rw [hcore])
      have hidx : u.segidx = s.segidx := congrArg Core.segidx hcore
      refine hsend.recorded ?_
      rw [← hidx]
      exact hu.begun_of_ne (g := []) rfl rfl fun j hj => Function.update_of_ne hj _ _
  | control _ _ _ hstore hsend =>
      have hcore := hstore.toCore_eq
      exact hsend.recorded (hs.of_adds (hstore.adds (l := .control)) (by rw [hcore])
        (by rw [hcore]) (by rw [hcore]))
  | spare _ _ hspare hsend =>
      have hcore := hspare.toCore_eq
      exact hsend.recorded (hs.of_adds (hspare.adds (l := .spare)) (by rw [hcore])
        (by rw [hcore]) (by rw [hcore]))
  | kill _ _ hstore hsend =>
      have hcore := hstore.toCore_eq
      exact hsend.recorded ((hs.mono (d := (s.moved .closed).toCore) (g := []) rfl rfl
        rfl).of_adds (s := s.moved .closed) (hstore.adds (l := .kill)) (by rw [hcore])
        (by rw [hcore]) (by rw [hcore]))
  | @abort _ u v w _ p port hcall _ hflags hstore hsend =>
      have hmoved := hs.mono (d := (s.moved .closed).toCore) (g := []) rfl rfl rfl
      have hu : u.toCore.Recorded u.log := hmoved.of_adds (s := s.moved .closed)
        (hcall.adds (l := .abort) fun id a => by simp [Event.labels, Callback.isData])
        (by rw [hcall.toCore_eq]) (by rw [hcall.toCore_eq]) (by rw [hcall.toCore_eq])
      have hv : v.toCore.Recorded v.log := hu.of_adds (hflags.adds (l := .abort))
        (by rw [hflags.toCore_eq]) (by rw [hflags.toCore_eq]) (by rw [hflags.toCore_eq])
      have hcore := hstore.toCore_eq
      exact hsend.recorded ((hv.mono (d := v.toCore) (g := [.unlisten port]) rfl rfl
        rfl).of_adds (s := v.logged (.unlisten port)) (hstore.adds (l := .abort)) (by rw [hcore])
        (by rw [hcore]) (by rw [hcore]))
  | create _ _ _ _ hopen => exact hopen.recorded hs
  | createFailed _ _ _ hopen ht =>
      rw [ht]
      exact (hopen.recorded hs).mono (g := [_]) rfl rfl rfl

/-- Where a reference has begun, it has begun a last time. -/
theorem Core.Recorded.since {buf : Nat} (h : c.Recorded log) (hbuf : c.buffer r = some buf) :
    ∃ m, c.since buf r log = some m := by
  obtain ⟨m, hm⟩ := h r buf hbuf
  have hlt : m < log.length + 1 := by
    by_contra hlt
    rw [List.drop_eq_nil_of_le (by omega)] at hm
    cases r with
    | segment k => obtain ⟨_, _, _, _, _, _, _, hnil⟩ := Ref.begins_segment.mp hm; cases hnil
    | send => obtain ⟨_, _, _, _, hnil⟩ := Ref.begins_send.mp hm; cases hnil
  exact Option.isSome_iff_exists.mp (List.find?_isSome.mpr
    ⟨m, List.mem_range.mpr hlt, decide_eq_true hm⟩)

end Begun

end Tcpv4

namespace Host

variable {s : Host D H n}

open Testbed in
/-- The peer accepts a connection, which sends a byte. -/
def sending : List Op :=
  [.tcp (connectFrom 5000), .tcp (segment 5000 (tcpSyn ||| tcpAck) 7 1 []),
    .tcp (.send 0 1 (some fun _ => 65) 0)]

end Host

end Tulips
