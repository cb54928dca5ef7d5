import Tulips.Machine.Courses
import Tulips.Machine.Encounters
import Tulips.Machine.Placement

/-!
# What buffers hold

A connection keeps the payload of its segments in buffers of the device. As long as the
device hands out no buffer that an open connection refers to, an act stores payload only to
the send buffer of its own connection and to buffers that are new: what the others keep is
as it was.
-/

namespace Tulips.Tcpv4

open Relation

variable {D H : Type} {n : Nat}

/-! ## Buffers handed out -/

/-- The buffer the device has handed out. -/
def Event.handedOut? : Event → Option Nat
  | .prepare _ buf => buf
  | _ => none

/-- The buffers the device has handed out, the newest first. -/
def prepared (log : List Event) : List Nat := log.filterMap Event.handedOut?

section Prepared

variable {new log : List Event} {who : Option UInt16} {buf : Nat}

@[simp] theorem prepared_append : prepared (new ++ log) = prepared new ++ prepared log :=
  List.filterMap_append

@[simp] theorem prepared_nil : prepared [] = [] := rfl

theorem prepared_cons_of_none {ev : Event} (h : ev.handedOut? = none) :
    prepared (ev :: log) = prepared log := List.filterMap_cons_none h

@[simp] theorem prepared_prepare :
    prepared (.prepare who (some buf) :: log) = buf :: prepared log := rfl

theorem prepared_of_writes (h : ∀ ev ∈ new, ev = .write who buf) : prepared new = [] := by
  apply List.filterMap_eq_nil_iff.mpr
  intro ev hev
  rw [h ev hev]
  rfl

end Prepared

/-! ## References -/

/-- A segment in flight keeps its payload in the buffer. -/
def Core.keeps (c : Core) (buf : Nat) : Prop :=
  ∃ i, (c.segments i).isFree = false ∧ (c.segments i).dat.map Ptr.buf = some buf

section Keeps

variable {c d : Core} {k : Fin segmentCount} {seg : Segment} {buf : Nat}

theorem Core.keeps_of_segments (h : d.segments = c.segments) (hkeep : d.keeps buf) :
    c.keeps buf := by
  unfold keeps at hkeep ⊢
  rwa [h] at hkeep

/-- What a ring keeps after one of its slots has been filled. -/
theorem Core.keeps_of_update (h : d.segments = Function.update c.segments k seg)
    (hkeep : d.keeps buf) :
    seg.isFree = false ∧ seg.dat.map Ptr.buf = some buf ∨ c.keeps buf := by
  obtain ⟨i, hbusy, hdat⟩ := hkeep
  rw [h] at hbusy hdat
  by_cases hi : i = k
  · subst hi
    rw [Function.update_self] at hbusy hdat
    exact .inl ⟨hbusy, hdat⟩
  · rw [Function.update_of_ne hi] at hbusy hdat
    exact .inr ⟨i, hbusy, hdat⟩

end Keeps

/-! ## Sending -/

/-- What sending from a place does: it may store to the header there, and to buffers that
are new, one of which may become the send buffer. -/
structure Emits (origin : Option Ptr) (hlen : Nat) (new : List Event) (s t : Slot H) : Prop where
  log : t.log = new ++ s.log
  segments : t.segments = s.segments
  sdat : t.sdat = s.sdat ∨ ∃ p, t.sdat = some p ∧ p.buf ∈ prepared new
  mem : ∀ b ∉ prepared new, ∀ i, (∀ p, origin = some p → p.buf = b → p.off + hlen ≤ i) →
    t.mem b i = s.mem b i

section Emits

variable {handler : EventHandler H} {s t u : Slot H} {origin : Option Ptr} {hlen : Nat}
  {new new' : List Event}

theorem Emits.trans (h : Emits origin hlen new s t) (h' : Emits origin hlen new' t u) :
    Emits origin hlen (new' ++ new) s u where
  log := by rw [h'.log, h.log, List.append_assoc]
  segments := h'.segments.trans h.segments
  sdat := by
    rw [prepared_append]
    rcases h'.sdat with hkeep | ⟨p, hp, hfresh⟩
    · rcases h.sdat with hkeep' | ⟨p, hp, hfresh⟩
      · exact .inl (hkeep.trans hkeep')
      · exact .inr ⟨p, hkeep.trans hp, List.mem_append_right _ hfresh⟩
    · exact .inr ⟨p, hp, List.mem_append_left _ hfresh⟩
  mem b hb i hi := by
    rw [prepared_append, List.mem_append, not_or] at hb
    exact (h'.mem b hb.1 i hi).trans (h.mem b hb.2 i hi)

theorem Emits.logged {ev : Event} : Emits origin hlen [ev] s (s.logged ev) :=
  ⟨rfl, rfl, .inl rfl, fun _ _ _ _ => rfl⟩

theorem Called.sends {cb : Callback} (h : Called handler cb s t) (origin : Option Ptr)
    (hlen : Nat) : ∃ new, Emits origin hlen new s t := by
  obtain ⟨e, -, rfl⟩ := h
  exact ⟨[_], rfl, rfl, .inl rfl, fun _ _ _ _ => rfl⟩

theorem Stored.sends {p : Ptr} {lo hi : Nat} (h : Stored p lo hi s t) (hhi : hi ≤ p.off + hlen) :
    ∃ new, Emits (some p) hlen new s t := by
  obtain ⟨mem, writes, rfl, hwrites, hmem⟩ := h
  refine ⟨writes, rfl, rfl, .inl rfl, fun b _ i hi => ?_⟩
  exact hmem b i fun hb => .inr (hhi.trans (hi p rfl hb.symm))

theorem Committed.sends {known : Prop} {p : Ptr} {seq : UInt32} {len : Nat} {ret : Status}
    (h : Committed known p hlen seq len ret s t) : ∃ new, Emits (some p) hlen new s t := by
  obtain ⟨u, frame, mss, hstore, rfl, -⟩ := h
  obtain ⟨new, hsends⟩ := hstore.sends (Nat.le_refl _)
  exact ⟨_, hsends.trans .logged⟩

theorem Refilled.sends {first : Bool} (h : Refilled first s t) (origin : Option Ptr)
    (hlen : Nat) : ∃ new, Emits origin hlen new s t := by
  rcases h with rfl | ⟨buf, mem, writes, clash, -, hwrites, hmem, rfl⟩
  · exact ⟨_, Emits.logged.trans .logged⟩
  · refine ⟨.refill s.id s.state first (some buf) clash ::
      (writes ++ [.prepare (some s.id) (some buf)]), by simp, rfl, .inr ⟨_, rfl, ?_⟩, ?_⟩
    · rw [prepared_cons_of_none rfl, prepared_append, prepared_of_writes hwrites]
      simp
    · intro b hb i _
      rw [prepared_cons_of_none rfl, prepared_append, prepared_of_writes hwrites] at hb
      exact hmem b i (by simpa using hb)

theorem Spared.sends (h : Spared s t) (origin : Option Ptr) (hlen : Nat) :
    ∃ new, Emits origin hlen new s t := by
  obtain ⟨buf, mem, writes, hwrites, hmem, rfl⟩ := h
  refine ⟨writes ++ [.prepare (some s.id) (some buf)], by simp, rfl, .inl rfl, ?_⟩
  intro b hb i _
  rw [prepared_append, prepared_of_writes hwrites] at hb
  exact hmem b i (by simpa using hb)

theorem Counted.sends {len : UInt32} (h : Counted handler len s t) (origin : Option Ptr)
    (hlen : Nat) : ∃ new, Emits origin hlen new s t := by
  obtain ⟨u, rfl | hcall, rfl⟩ := h
  · exact ⟨[], rfl, rfl, .inl rfl, fun _ _ _ _ => rfl⟩
  · obtain ⟨new, hsends⟩ := hcall.sends origin hlen
    exact ⟨new, hsends.log, hsends.segments, hsends.sdat, hsends.mem⟩

theorem Transmitted.sends {known : Prop} {k : Fin segmentCount} {len : Nat}
    (h : Transmitted handler known k hlen len s t) :
    ∃ new, Emits (s.segments k).dat hlen new s t := by
  obtain ⟨p, u, ret, hdat, hcommit, hout⟩ := h
  obtain ⟨new, hsends⟩ := hcommit.sends
  rw [hdat]
  rcases hout with ⟨-, rfl⟩ | ⟨-, x, hx, hrefill⟩
  · exact ⟨_, hsends.trans .logged⟩
  · have hcounted : ∃ new', Emits (some p) hlen new' u x := by
      split at hx
      · rw [hx]
        exact ⟨_, .logged⟩
      · obtain ⟨new', hsent⟩ := hx.sends (some p) hlen
        exact ⟨_, Emits.logged.trans hsent⟩
    obtain ⟨new', hcounted⟩ := hcounted
    obtain ⟨new'', hrefilled⟩ := hrefill.sends (some p) hlen
    exact ⟨_, (hsends.trans hcounted).trans hrefilled⟩

theorem SentControl.sends {known : Prop} (h : SentControl known s t) :
    ∃ new, Emits s.sdat headerLen new s t := by
  obtain ⟨p, u, ret, hsdat, hcommit, hout⟩ := h
  obtain ⟨new, hsends⟩ := hcommit.sends
  rw [hsdat]
  rcases hout with ⟨-, rfl⟩ | ⟨-, hrefill⟩
  · exact ⟨_, Emits.logged.trans hsends⟩
  · obtain ⟨new', hrefilled⟩ := hrefill.sends (some p) headerLen
    exact ⟨_, (Emits.logged.trans hsends).trans hrefilled⟩

end Emits

/-! ## Acts -/

/-- What an act does to buffers: the segments in flight keep only what the connection
referred to, the send buffer is the old one or a new one, and payload is stored nowhere
else. -/
structure Handles (new : List Event) (s t : Slot H) : Prop where
  log : t.log = new ++ s.log
  kept : ∀ buf, t.keeps buf → s.refersTo buf
  sdat : ∀ p, t.sdat = some p →
    p.buf ∈ prepared new ∨ s.sdat = some p ∧ ∀ buf, t.keeps buf → s.keeps buf
  mem : ∀ b ∉ prepared new, (s.state ≠ .closed → s.sdat.map Ptr.buf ≠ some b) →
    ∀ i, tcpOffset + headerLen ≤ i → t.mem b i = s.mem b i

section Handles

variable {handler : EventHandler H} {l : Label} {s t u : Slot H} {new : List Event}

/-- An act that stores nothing. -/
theorem Handles.still (hlog : t.log = new ++ s.log) (hmem : t.mem = s.mem)
    (hkeep : ∀ buf, t.keeps buf → s.keeps buf) (hsdat : t.sdat = s.sdat) : Handles new s t where
  log := hlog
  kept buf h := .inr (hkeep buf h)
  sdat p hp := .inr ⟨hsdat ▸ hp, hkeep⟩
  mem b _ _ i _ := by rw [hmem]

/-- A connection sends from its send buffer, which it keeps or replaces. -/
theorem Emits.handles {origin : Option Ptr} {hlen : Nat} (h : Emits origin hlen new u t)
    (horigin : origin = s.sdat) (hopen : s.state ≠ .closed) (hlog : u.log = s.log)
    (hmem : u.mem = s.mem) (hsegments : u.segments = s.segments) (hsdat : u.sdat = s.sdat) :
    Handles new s t where
  log := by rw [h.log, hlog]
  kept buf hkeep := .inr (Core.keeps_of_segments (h.segments.trans hsegments) hkeep)
  sdat p hp := by
    rcases h.sdat with hsame | ⟨q, hq, hfresh⟩
    · refine .inr ⟨by rw [← hsdat, ← hsame, hp], fun buf hkeep => ?_⟩
      exact Core.keeps_of_segments (h.segments.trans hsegments) hkeep
    · rw [hp] at hq
      cases hq
      exact .inl hfresh
  mem b hb hne i _ := by
    refine (h.mem b hb i fun p hp hbuf => ?_).trans (by rw [hmem])
    refine absurd ?_ (hne hopen)
    rw [← horigin, hp, ← hbuf]
    rfl

/-- The send buffer becomes the buffer of a segment, which goes out from there. -/
theorem Emits.hands {k : Fin segmentCount} {seg : Segment} {hlen : Nat}
    (h : Emits (u.segments k).dat hlen new u t) (hopen : s.state ≠ .closed)
    (hlog : u.log = s.log) (hmem : u.mem = s.mem)
    (hsegments : u.segments = Function.update s.segments k seg) (hdat : seg.dat = s.sdat)
    (hsdat : u.sdat = none) : Handles new s t where
  log := by rw [h.log, hlog]
  kept buf hkeep := by
    rcases Core.keeps_of_update (h.segments.trans hsegments) hkeep with ⟨-, hbuf⟩ | hkeep
    · exact .inl (by rw [← hbuf, hdat])
    · exact .inr hkeep
  sdat p hp := by
    rcases h.sdat with hsame | ⟨q, hq, hfresh⟩
    · rw [hp, hsdat] at hsame
      cases hsame
    · rw [hp] at hq
      cases hq
      exact .inl hfresh
  mem b hb hne i _ := by
    refine (h.mem b hb i fun p hp hbuf => ?_).trans (by rw [hmem])
    refine absurd ?_ (hne hopen)
    rw [hsegments, Function.update_self, hdat] at hp
    rw [hp, ← hbuf]
    rfl

/-- A store to the send buffer may come first. -/
theorem Handles.after {new' : List Event} {hlen : Nat} (h : Handles new u t)
    (hstored : Emits s.sdat hlen new' s u) (hcore : u.toCore = s.toCore)
    (hopen : s.state ≠ .closed) : Handles (new ++ new') s t where
  log := by rw [h.log, hstored.log, List.append_assoc]
  kept buf hkeep := by
    have href := h.kept buf hkeep
    rwa [hcore] at href
  sdat p hp := by
    rw [prepared_append]
    rcases h.sdat p hp with hfresh | ⟨hsame, hkeep⟩
    · exact .inl (List.mem_append_left _ hfresh)
    · rw [hcore] at hkeep
      exact .inr ⟨(congrArg Core.sdat hcore).symm.trans hsame, hkeep⟩
  mem b hb hne i hi := by
    rw [prepared_append, List.mem_append, not_or] at hb
    have hsdat : u.sdat = s.sdat := congrArg Core.sdat hcore
    refine (h.mem b hb.1 (fun _ => hsdat ▸ hne hopen) i hi).trans ?_
    refine hstored.mem b hb.2 i fun p hp hbuf => ?_
    refine absurd ?_ (hne hopen)
    rw [hp, ← hbuf]
    rfl

/-- Every act of a connection that exists is careful with the buffers of others. -/
theorem Act.handles (h : Act handler l s t) (hl : l ∉ Label.opening) (hs : s.toCore.Placed) :
    ∃ new, Handles new s t := by
  cases h with
  | note => exact ⟨[_], .still rfl rfl (fun _ h => h) rfl⟩
  | life _ hcall | data _ hcall =>
      obtain ⟨e, -, rfl⟩ := hcall
      exact ⟨[_], .still rfl rfl (fun _ h => h) rfl⟩
  | move | settle | news => exact ⟨[], .still rfl rfl (fun _ h => h) rfl⟩
  | rcv => exact ⟨_, .still rfl rfl (fun _ h => h) rfl⟩
  | append => exact ⟨[_], .still rfl rfl (fun _ h => h) rfl⟩
  | clear =>
      refine ⟨[], .still rfl rfl (fun buf hkeep => ?_) rfl⟩
      rcases Core.keeps_of_update (c := s.toCore) rfl hkeep with ⟨hbusy, -⟩ | hkeep
      · cases hbusy
      · exact hkeep
  | @store s t p lo hi hstate hsdat _ hstore =>
      have hend : hi ≤ p.off + (hi - p.off) := by omega
      obtain ⟨new, hsends⟩ := hstore.sends hend
      exact ⟨new, hsends.handles hsdat.symm hstate rfl rfl rfl rfl⟩
  | emit hstate _ hsend =>
      obtain ⟨new, hsends⟩ := hsend.sends
      exact ⟨new, hsends.hands (by simp [hstate]) rfl rfl rfl rfl rfl⟩
  | fin hstate _ _ hsend =>
      obtain ⟨new, hsends⟩ := hsend.sends
      have hopen : s.state ≠ .closed := by rcases hstate with h | h <;> simp [h]
      exact ⟨new, hsends.hands hopen rfl rfl rfl rfl rfl⟩
  | @resend s u t intact p hlen len hstate hsdat _ _ hstore _ hsend =>
      have hcore : u.toCore = s.toCore := hstore.toCore_eq
      have hopen : u.state ≠ .closed := by rwa [hcore]
      have hidx : s.segidx = u.segidx := (congrArg Core.segidx hcore.symm :)
      obtain ⟨new, hstored⟩ := hstore.sends (Nat.le_refl _)
      obtain ⟨new', hsent⟩ := hsend.sends
      have hhands : Handles new' u t :=
        hsent.hands hopen rfl rfl (by rw [hidx]; rfl) rfl rfl
      have hmarked := Emits.logged.trans hstored
      exact ⟨_, hhands.after (hsdat ▸ hmarked) hcore hstate⟩
  | control hstate _ hsdat hstore hsend =>
      obtain ⟨new, hstored⟩ := hstore.sends (Nat.le_refl _)
      obtain ⟨new', hsends⟩ := hsend.sends
      rw [hstore.toCore_eq, hsdat] at hsends
      exact ⟨_, (hstored.trans hsends).handles hsdat.symm hstate rfl rfl rfl rfl⟩
  | spare hstate _ hspare hsend =>
      obtain ⟨new, hspared⟩ := hspare.sends s.sdat headerLen
      obtain ⟨new', hsends⟩ := hsend.sends
      rw [hspare.toCore_eq] at hsends
      exact ⟨_, (hspared.trans hsends).handles rfl hstate rfl rfl rfl rfl⟩
  | kill hstate hsdat hstore hsend =>
      obtain ⟨new, hstored⟩ := hstore.sends (Nat.le_refl _)
      obtain ⟨new', hsends⟩ := hsend.sends
      rw [hstore.toCore_eq] at hsends
      have hboth := hstored.trans (hsdat ▸ hsends)
      exact ⟨_, hboth.handles hsdat.symm hstate rfl rfl rfl rfl⟩
  | @abort s u v w t p port hcall hsdat hflags hstore hsend =>
      have hu : u.toCore = (s.moved .closed).toCore := hcall.toCore_eq
      have hv : v.toCore = u.toCore := hflags.toCore_eq
      have hw : w.toCore = v.toCore := hstore.toCore_eq
      obtain ⟨_, hcalled⟩ := hcall.sends (some p) headerLen
      obtain ⟨_, hflagged⟩ := hflags.sends (Nat.le_refl _)
      obtain ⟨_, hstored⟩ := hstore.sends (Nat.le_refl _)
      obtain ⟨_, hsends⟩ := hsend.sends
      rw [hw, hv, hu] at hsends
      -- The connection may be closed, and its buffer another one's: only the header changes.
      have hall := ((hcalled.trans hflagged).trans (Emits.logged.trans hstored)).trans
        (hsdat ▸ hsends)
      refine ⟨_, hall.log, fun buf hkeep => .inr (Core.keeps_of_segments hall.segments hkeep),
        fun q hq => ?_, fun b hb _ i hi => hall.mem b hb i fun q hq _ => ?_⟩
      · rcases hall.sdat with hsame | ⟨q', hq', hfresh⟩
        · exact .inr ⟨hsame.symm.trans hq, fun buf => Core.keeps_of_segments hall.segments⟩
        · rw [hq] at hq'
          cases hq'
          exact .inl hfresh
      · cases hq
        rw [hs.sdat p hsdat]
        exact hi
  | create => exact absurd hl (by decide)
  | createFailed => exact absurd hl (by decide)

end Handles

/-- A new connection, in a ring that is empty, refers to the buffer of its SYN and to one
it got. -/
theorem Opened.founds {handler : EventHandler H} {peer : Peer} {st : State} {iss : UInt32}
    {p : Ptr} {s t : Slot H} (h : Opened handler peer st iss p s t)
    (hempty : ∀ i, (s.segments i).isFree = true) :
    ∃ new, t.log = new ++ s.log ∧ (∀ buf, t.keeps buf → buf = p.buf) ∧
      (∀ q, t.sdat = some q → q.buf ∈ prepared new) ∧
      ∀ b ∉ prepared new, b ≠ p.buf → ∀ i, t.mem b i = s.mem b i := by
  obtain ⟨leftover, rcvNxt, synced, k, -, -, -, hsend⟩ := h
  obtain ⟨new, hsends⟩ := hsend.sends
  refine ⟨new ++ (synced ++ [.create s.id iss p.buf leftover]), ?_, ?_, ?_, ?_⟩
  · rw [hsends.log]
    simp [Slot.pushedSyn, Slot.opened]
  · intro buf hkeep
    rcases Core.keeps_of_update (c := s.toCore) hsends.segments hkeep with ⟨-, hbuf⟩ | hkeep
    · exact (Option.some_inj.mp hbuf).symm
    · obtain ⟨i, hbusy, -⟩ := hkeep
      rw [hempty i] at hbusy
      cases hbusy
  · intro q hq
    rw [prepared_append]
    rcases hsends.sdat with hsame | ⟨q', hq', hfresh⟩
    · rw [hq] at hsame
      cases hsame
    · rw [hq] at hq'
      cases hq'
      exact List.mem_append_left _ hfresh
  · intro b hb hne i
    rw [prepared_append, List.mem_append, not_or] at hb
    refine hsends.mem b hb.1 i fun q hq hbuf => ?_
    dsimp only [Slot.pushedSyn] at hq
    rw [Function.update_self] at hq
    cases hq
    exact absurd hbuf.symm hne

/-! ## The table -/

/-- An open connection refers to the buffer. -/
def Table.refers (T : Table H n) (buf : Nat) : Prop :=
  ∃ i, (T.cores i).state ≠ .closed ∧ (T.cores i).refersTo buf

/-- Every open connection has its send buffer for itself. -/
structure Table.Sole (T : Table H n) : Prop where
  keeps : ∀ i j p, (T.cores i).state ≠ .closed → (T.cores j).state ≠ .closed →
    (T.cores i).sdat = some p → ¬(T.cores j).keeps p.buf
  sdat : ∀ i j p q, i ≠ j → (T.cores i).state ≠ .closed → (T.cores j).state ≠ .closed →
    (T.cores i).sdat = some p → (T.cores j).sdat = some q → p.buf ≠ q.buf

/-- The buffers handed out since are all different, and no open connection referred to one
of them. -/
def Table.Fresh (T : Table H n) (new : List Event) : Prop :=
  (prepared new).Nodup ∧ ∀ b ∈ prepared new, ¬T.refers b

instance (c : Core) (buf : Nat) : Decidable (c.refersTo buf) :=
  inferInstanceAs (Decidable (_ ∨ ∃ i, (c.segments i).isFree = false ∧ _))

instance (T : Table H n) (buf : Nat) : Decidable (T.refers buf) :=
  inferInstanceAs (Decidable (∃ i, (T.cores i).state ≠ .closed ∧ _))

instance (T : Table H n) (new : List Event) : Decidable (T.Fresh new) :=
  inferInstanceAs (Decidable (_ ∧ ∀ b ∈ prepared new, _))

section Table

variable {T U : Table H n} {i : Fin n} {s : Slot H} {new new' : List Event}

theorem Table.Fresh.before (h : T.Fresh (new' ++ new)) : T.Fresh new := by
  rw [Fresh, prepared_append] at h
  exact ⟨(List.nodup_append.mp h.1).2.1, fun b hb => h.2 b (List.mem_append_right _ hb)⟩

/-- What is new now was not referred to before. -/
theorem Table.Fresh.after (h : T.Fresh (new' ++ new))
    (href : ∀ b, U.refers b → T.refers b ∨ b ∈ prepared new) : U.Fresh new' := by
  rw [Fresh, prepared_append] at h
  obtain ⟨-, -, hdisjoint⟩ := List.nodup_append.mp h.1
  refine ⟨(List.nodup_append.mp h.1).1, fun b hb hused => ?_⟩
  rcases href b hused with hold | hrecent
  · exact h.2 b (List.mem_append_left _ hb) hold
  · exact hdisjoint b hb b hrecent rfl

theorem Table.cores_set_self : (T.set i s).cores i = s.toCore := Function.update_self _ _ _

theorem Table.cores_set_of_ne {j : Fin n} (h : j ≠ i) : (T.set i s).cores j = T.cores j :=
  Function.update_of_ne h _ _

/-- An act leaves every open connection its send buffer. -/
theorem Table.Sole.set (h : T.Sole) (hact : Handles new (T.slot i) s)
    (hopen : s.state ≠ .closed → (T.cores i).state ≠ .closed) (hfresh : T.Fresh new) :
    (T.set i s).Sole := by
  -- What the connection refers to is what it referred to, or new.
  have hkept : ∀ buf, s.state ≠ .closed → s.keeps buf → T.refers buf :=
    fun buf hs hkeep => ⟨i, hopen hs, hact.kept buf hkeep⟩
  constructor
  · intro j k p hj hk hp
    by_cases hji : j = i
    · subst hji
      rw [cores_set_self] at hj hp
      by_cases hki : k = j
      · subst hki
        rw [cores_set_self]
        intro hkeep
        rcases hact.sdat p hp with hnew | ⟨hold, hsame⟩
        · exact hfresh.2 _ hnew (hkept _ hj hkeep)
        · exact h.keeps k k p (hopen hj) (hopen hj) hold (hsame _ hkeep)
      · rw [cores_set_of_ne hki] at hk ⊢
        intro hkeep
        rcases hact.sdat p hp with hnew | ⟨hold, -⟩
        · exact hfresh.2 _ hnew ⟨k, hk, .inr hkeep⟩
        · exact h.keeps j k p (hopen hj) hk hold hkeep
    · rw [cores_set_of_ne hji] at hj hp
      by_cases hki : k = i
      · subst hki
        rw [cores_set_self] at hk ⊢
        intro hkeep
        rcases hact.kept _ hkeep with hsdat | hkeep
        · obtain ⟨q, hq, hbuf⟩ := Option.map_eq_some_iff.mp hsdat
          exact h.sdat j k p q hji hj (hopen hk) hp hq hbuf.symm
        · exact h.keeps j k p hj (hopen hk) hp hkeep
      · rw [cores_set_of_ne hki] at hk ⊢
        exact h.keeps j k p hj hk hp
  · -- Only the connection that has acted can have a new send buffer.
    have hmine : ∀ k p q, k ≠ i → s.state ≠ .closed → (T.cores k).state ≠ .closed →
        s.sdat = some p → (T.cores k).sdat = some q → p.buf ≠ q.buf := by
      intro k p q hki hs hk hp hq
      rcases hact.sdat p hp with hnew | ⟨hold, -⟩
      · intro hbuf
        refine hfresh.2 _ hnew ⟨k, hk, .inl ?_⟩
        rw [hq, hbuf]
        rfl
      · exact h.sdat i k p q (Ne.symm hki) (hopen hs) hk hold hq
    intro j k p q hjk hj hk hp hq
    by_cases hji : j = i
    · subst hji
      have hkj : k ≠ j := Ne.symm hjk
      rw [cores_set_self] at hj hp
      rw [cores_set_of_ne hkj] at hk hq
      exact hmine k p q hkj hj hk hp hq
    · rw [cores_set_of_ne hji] at hj hp
      by_cases hki : k = i
      · subst hki
        rw [cores_set_self] at hk hq
        exact (hmine j q p hji hk hj hq hp).symm
      · rw [cores_set_of_ne hki] at hk hq
        exact h.sdat j k p q hjk hj hk hp hq

theorem Table.refers_set (hact : Handles new (T.slot i) s)
    (hopen : s.state ≠ .closed → (T.cores i).state ≠ .closed) {b : Nat}
    (h : (T.set i s).refers b) : T.refers b ∨ b ∈ prepared new := by
  obtain ⟨j, hj, href⟩ := h
  by_cases hji : j = i
  · subst hji
    rw [cores_set_self] at hj href
    rcases href with hsdat | hkeep
    · obtain ⟨p, hp, hbuf⟩ := Option.map_eq_some_iff.mp hsdat
      rcases hact.sdat p hp with hnew | ⟨hold, -⟩
      · exact .inr (hbuf ▸ hnew)
      · refine .inl ⟨j, hopen hj, .inl ?_⟩
        rw [← hbuf]
        exact congrArg (Option.map Ptr.buf) hold
    · exact .inl ⟨j, hopen hj, hact.kept b hkeep⟩
  · rw [cores_set_of_ne hji] at hj href
    exact .inl ⟨j, hj, href⟩

/-- A connection that refers to new buffers only takes the place of another one. -/
theorem Table.Sole.renew (h : T.Sole) {buf : Nat} (hkeep : ∀ b, s.keeps b → b = buf)
    (hsdat : ∀ q, s.sdat = some q → q.buf ∈ prepared new) (hbuf : ¬T.refers buf)
    (hnew : buf ∉ prepared new) (hfresh : T.Fresh new) : (T.set i s).Sole := by
  -- First the buffers kept in segments, then those being filled.
  constructor
  · intro j k p hj hk hp
    by_cases hji : j = i
    · subst hji
      rw [cores_set_self] at hp
      have hp' := hsdat p hp
      by_cases hki : k = j
      · subst hki
        rw [cores_set_self]
        intro hkept
        exact hnew (hkeep _ hkept ▸ hp')
      · rw [cores_set_of_ne hki] at hk ⊢
        intro hkept
        exact hfresh.2 _ hp' ⟨k, hk, .inr hkept⟩
    · rw [cores_set_of_ne hji] at hj hp
      by_cases hki : k = i
      · subst hki
        rw [cores_set_self]
        intro hkept
        refine hbuf ⟨j, hj, .inl ?_⟩
        rw [hp, ← hkeep _ hkept]
        rfl
      · rw [cores_set_of_ne hki] at hk ⊢
        exact h.keeps j k p hj hk hp
  · have hmine : ∀ k p q, (T.cores k).state ≠ .closed → s.sdat = some p →
        (T.cores k).sdat = some q → p.buf ≠ q.buf := by
      intro k p q hk hp hq hpq
      refine hfresh.2 _ (hsdat p hp) ⟨k, hk, .inl ?_⟩
      rw [hq, hpq]
      rfl
    intro j k p q hjk hj hk hp hq
    by_cases hji : j = i
    · subst hji
      rw [cores_set_self] at hp
      rw [cores_set_of_ne (Ne.symm hjk)] at hk hq
      exact hmine k p q hk hp hq
    · rw [cores_set_of_ne hji] at hj hp
      by_cases hki : k = i
      · subst hki
        rw [cores_set_self] at hq
        exact (hmine j q p hj hq hp).symm
      · rw [cores_set_of_ne hki] at hk hq
        exact h.sdat j k p q hjk hj hk hp hq

theorem Table.refers_renew {buf : Nat} (hkeep : ∀ b, s.keeps b → b = buf)
    (hsdat : ∀ q, s.sdat = some q → q.buf ∈ prepared new) {b : Nat}
    (h : (T.set i s).refers b) : T.refers b ∨ b = buf ∨ b ∈ prepared new := by
  obtain ⟨j, hj, href⟩ := h
  by_cases hji : j = i
  · subst hji
    rw [cores_set_self] at href
    rcases href with hmine | hkept
    · obtain ⟨p, hp, hpb⟩ := Option.map_eq_some_iff.mp hmine
      exact .inr (.inr (hpb ▸ hsdat p hp))
    · exact .inr (.inl (hkeep b hkept))
  · rw [cores_set_of_ne hji] at hj href
    exact .inl ⟨j, hj, href⟩

end Table

/-! ## Every run -/

/-- A property of a connection, of the memory and of the history, and a property of the
history alone, which the acts of a connection keep as long as the history is good and the
buffers they get are new. Others cannot disturb them: what they store, they store elsewhere. -/
structure KeptIn (handler : EventHandler H) (good : List Event → Prop)
    (J : Core → BlockMemory → List Event → Prop) (K : List Event → Prop) : Prop where
  suffix : ∀ {new log : List Event}, good (new ++ log) → good log
  vacated : ∀ {log : List Event} {id : UInt16} {iss : UInt32} {buf : Nat} {leftover : Bool},
    good log → .create id iss buf leftover ∈ log → leftover = false
  closed : ∀ {c : Core} {mem : BlockMemory} {log : List Event}, c.state = .closed → J c mem log
  act : ∀ {l : Label} {s t : Slot H} {new : List Event}, l ∉ Label.opening →
    Act handler l s t → good t.log → s.toCore.Placed → s.state ≠ .closed →
    (∀ p, s.sdat = some p → ¬s.keeps p.buf) → Handles new s t →
    (∀ b ∈ prepared new, ¬s.refersTo b) → J s.toCore s.mem s.log → J t.toCore t.mem t.log
  opened : ∀ {peer : Peer} {st : State} {iss : UInt32} {p : Ptr} {s t : Slot H},
    Opened handler peer st iss p s t → st = .synRcvd ∨ st = .synSent ∧ Replenished t →
    good t.log → J t.toCore t.mem t.log
  other : ∀ {c : Core} {mem mem' : BlockMemory} {log new : List Event}, c.Placed →
    (∀ ev ∈ new, ev.owner ≠ some c.id) →
    (∀ b, c.refersTo b → ∀ i, tcpOffset + headerLen ≤ i → mem' b i = mem b i) →
    J c mem log → J c mem' (new ++ log)
  told : ∀ {l : Label} {s t : Slot H}, l ∉ Label.opening → Act handler l s t → good t.log →
    s.toCore.Placed → J s.toCore s.mem s.log → K s.log → K t.log
  told_opened : ∀ {peer : Peer} {st : State} {iss : UInt32} {p : Ptr} {s t : Slot H},
    Opened handler peer st iss p s t → p.off = tcpOffset → good t.log → K s.log → K t.log
  told_other : ∀ {log new : List Event}, (∀ ev ∈ new, ev.owner = none) → K log → K (new ++ log)

/-- Every open connection has its send buffer for itself, and the properties hold. -/
structure Table.Housed (J : Core → BlockMemory → List Event → Prop) (K : List Event → Prop)
    (T : Table H n) : Prop where
  sole : T.Sole
  kept : ∀ i, J (T.cores i) T.mem T.log
  told : K T.log

section Housed

variable {handler : EventHandler H} {good : List Event → Prop}
  {J : Core → BlockMemory → List Event → Prop} {K : List Event → Prop}
  {T U : Table H n} {i : Fin n} {s : Slot H} {new : List Event} {l : Label}

/-- The other connections do not notice what an act of one stores. -/
theorem Table.Housed.others (h : T.Housed J K) (hkept : KeptIn handler good J K) (hn : n < 2 ^ 16)
    (hid : T.Numbered) (hplaced : ∀ i, (T.cores i).Placed) (hlog : s.log = new ++ T.log)
    (howner : ∀ ev ∈ new, ev.owner = none ∨ ev.owner = some (T.slot i).id) {j : Fin n}
    (hj : j ≠ i) (hmem : ∀ b, (T.cores j).state ≠ .closed → (T.cores j).refersTo b →
      ∀ k, tcpOffset + headerLen ≤ k → s.mem b k = T.mem b k) :
    J (T.cores j) s.mem s.log := by
  by_cases hclosed : (T.cores j).state = .closed
  · exact hkept.closed hclosed
  · rw [hlog]
    refine hkept.other (hplaced j) (fun ev hev hown => ?_) (fun b => hmem b hclosed) (h.kept j)
    rcases howner ev hev with hnone | hsome
    · rw [hnone] at hown
      cases hown
    · rw [hsome] at hown
      exact hid.id_ne hn (Ne.symm hj) (Option.some_inj.mp hown)

theorem Table.Housed.act (h : T.Housed J K) (hkept : KeptIn handler good J K) (hn : n < 2 ^ 16)
    (hid : T.Numbered) (hplaced : ∀ i, (T.cores i).Placed) (hl : l ∉ Label.opening)
    (hact : Act handler l (T.slot i) s) (hlog : s.log = new ++ T.log) (hfresh : T.Fresh new)
    (hgood : good s.log) :
    (T.set i s).Housed J K ∧ ∀ b, (T.set i s).refers b → T.refers b ∨ b ∈ prepared new := by
  obtain ⟨new', hhandles⟩ := hact.handles hl (hplaced i)
  have hnew : new' = new := List.append_cancel_right (hhandles.log.symm.trans hlog)
  subst hnew
  have hopen : s.state ≠ .closed → (T.cores i).state ≠ .closed := fun hs hclosed =>
    hs ((hact.change hl).closed hclosed)
  obtain ⟨-, more, hmore, howner⟩ := hact.adds
  have hsame : more = new' := List.append_cancel_right (hmore.symm.trans hlog)
  subst hsame
  refine ⟨⟨h.sole.set hhandles hopen hfresh, fun j => ?_, ?_⟩, fun b =>
    Table.refers_set hhandles hopen⟩
  · by_cases hj : j = i
    · subst hj
      rw [Table.cores_set_self]
      by_cases hclosed : (T.cores j).state = .closed
      · exact hkept.closed ((hact.change hl).closed hclosed)
      · refine hkept.act hl hact hgood (hplaced j) hclosed
          (fun p hp => h.sole.keeps j j p hclosed hclosed hp) hhandles (fun b hb href => ?_)
          (h.kept j)
        exact hfresh.2 b hb ⟨j, hclosed, href⟩
    · rw [Table.cores_set_of_ne hj]
      refine h.others hkept hn hid hplaced hlog (fun ev hev => (howner ev hev).1) hj
        fun b hjopen href k hk => ?_
      refine hhandles.mem b (fun hb => hfresh.2 b hb ⟨j, hjopen, href⟩) (fun hi hsdat => ?_) k hk
      obtain ⟨p, hp, hbuf⟩ := Option.map_eq_some_iff.mp hsdat
      rcases href with hj' | hkeep
      · obtain ⟨q, hq, hbuf'⟩ := Option.map_eq_some_iff.mp hj'
        exact h.sole.sdat i j p q (Ne.symm hj) hi hjopen hp hq (hbuf.trans hbuf'.symm)
      · exact h.sole.keeps i j p hi hjopen hp (hbuf ▸ hkeep)
  · exact hkept.told hl hact hgood (hplaced i) (h.kept i) h.told

/-- A buffer that is new is fetched. -/
theorem Table.Housed.fetched (h : T.Housed J K) (hkept : KeptIn handler good J K)
    (hplaced : ∀ i, (T.cores i).Placed) {buf : Nat} {mem : BlockMemory} {writes notes : List Event}
    (hwrites : ∀ ev ∈ writes, ev = .write none buf) (hnotes : ∀ ev ∈ notes, ev.owner = none)
    (hmem : BlockMemory.SameOff buf T.mem mem) (hfresh : ¬T.refers buf) :
    (T.fetched buf mem writes notes).Housed J K := by
  have howner : ∀ ev ∈ notes ++ (writes ++ [.prepare none (some buf)]), ev.owner = none := by
    intro ev hev
    rcases List.mem_append.mp hev with hev | hev
    · exact hnotes ev hev
    · rcases List.mem_append.mp hev with hev | hev
      · rw [hwrites ev hev]
        rfl
      · rw [List.mem_singleton.mp hev]
        rfl
  have hlog : (T.fetched buf mem writes notes).log =
      (notes ++ (writes ++ [.prepare none (some buf)])) ++ T.log := by
    simp [Table.fetched]
  refine ⟨⟨h.sole.keeps, h.sole.sdat⟩, fun j => ?_, ?_⟩
  · by_cases hclosed : (T.cores j).state = .closed
    · exact hkept.closed hclosed
    · rw [hlog]
      refine hkept.other (hplaced j) (fun ev hev => by rw [howner ev hev]; simp)
        (fun b href k _ => ?_) (h.kept j)
      refine hmem b k ?_
      rintro rfl
      exact hfresh ⟨j, hclosed, href⟩
  · rw [hlog]
    exact hkept.told_other howner h.told

/-- A connection is opened with a buffer that is new. -/
theorem Table.Housed.opened (h : U.Housed J K) (hkept : KeptIn handler good J K)
    (hn : n < 2 ^ 16) (hid : U.Numbered) (hplaced : ∀ i, (U.cores i).Placed) {peer : Peer}
    {st : State} {iss : UInt32} {buf : Nat} {t : Slot H} {last : List Event}
    (hopen : Opened handler peer st iss ⟨buf, tcpOffset⟩ (U.slot i) s)
    (ht : t = s ∧ (st = .synRcvd ∨ st = .synSent ∧ Replenished s) ∨
      ∃ port, t = (s.logged (.unlisten port)).moved .closed)
    (hlog : t.log = last ++ U.log) (hbuf : ¬U.refers buf) (hnew : buf ∉ prepared last)
    (hfresh : U.Fresh last) (hgood : good t.log) :
    (U.set i t).Housed J K ∧
      ∀ b, (U.set i t).refers b → U.refers b ∨ b = buf ∨ b ∈ prepared last := by
  -- Either way the memory, the ring and the send buffer are as the opening left them.
  have hsame : t.mem = s.mem ∧ t.segments = s.segments ∧ t.sdat = s.sdat := by
    rcases ht with ⟨rfl, -⟩ | ⟨port, rfl⟩
    · exact ⟨rfl, rfl, rfl⟩
    · exact ⟨rfl, rfl, rfl⟩
  have hgoods : good s.log := by
    rcases ht with ⟨rfl, -⟩ | ⟨port, rfl⟩
    · exact hgood
    · have hgood' : good ([.unlisten port] ++ s.log) := hgood
      exact hkept.suffix hgood'
  have hempty : ∀ k, ((U.slot i).segments k).isFree = true := by
    obtain ⟨leftover, _, synced, _, hleft, -, -, hsend⟩ := hopen
    obtain ⟨new, hsends⟩ := hsend.sends
    have hcreate : .create (U.slot i).id iss buf leftover ∈ s.log := by
      rw [hsends.log]
      simp [Slot.pushedSyn, Slot.opened]
    have hfalse := hkept.vacated hgoods hcreate
    intro k
    by_contra hbusy
    have htrue := hleft.mpr ⟨k, by simpa using hbusy⟩
    rw [hfalse] at htrue
    cases htrue
  obtain ⟨new, hslog, hkeep, hsdat, hmem⟩ := hopen.founds hempty
  have hprepared : prepared last = prepared new := by
    rcases ht with ⟨rfl, -⟩ | ⟨port, rfl⟩
    · rw [List.append_cancel_right (hlog.symm.trans hslog)]
    · have hlast : last = .unlisten port :: new := by
        refine List.append_cancel_right (hlog.symm.trans ?_)
        exact congrArg (List.cons _) hslog
      rw [hlast, prepared_cons_of_none rfl]
  have howner : ∀ ev ∈ last, ev.owner = none ∨ ev.owner = some (U.slot i).id := by
    obtain ⟨-, more, hmore, howned⟩ := hopen.owned
    rcases ht with ⟨rfl, -⟩ | ⟨port, rfl⟩
    · rwa [List.append_cancel_right (hlog.symm.trans hmore)]
    · have hlast : last = .unlisten port :: more := by
        refine List.append_cancel_right (hlog.symm.trans ?_)
        exact congrArg (List.cons _) hmore
      rw [hlast]
      intro ev hev
      rcases List.mem_cons.mp hev with rfl | hev
      · exact .inl rfl
      · exact howned ev hev
  have hkeep' : ∀ b, t.keeps b → b = buf := fun b hb =>
    hkeep b (Core.keeps_of_segments hsame.2.1 hb)
  have hsdat' : ∀ q, t.sdat = some q → q.buf ∈ prepared last := by
    rw [hsame.2.2, hprepared]
    exact hsdat
  refine ⟨⟨h.sole.renew hkeep' hsdat' hbuf hnew hfresh, fun j => ?_, ?_⟩,
    fun b => Table.refers_renew hkeep' hsdat'⟩
  · by_cases hj : j = i
    · subst hj
      rw [Table.cores_set_self]
      rcases ht with ⟨rfl, hst⟩ | ⟨port, rfl⟩
      · exact hkept.opened hopen hst hgood
      · exact hkept.closed rfl
    · rw [Table.cores_set_of_ne hj]
      refine h.others hkept hn hid hplaced hlog howner hj fun b hjopen href k _ => ?_
      rw [hsame.1]
      refine hmem b (fun hb => ?_) (fun hb => ?_) k
      · exact hfresh.2 b (hprepared ▸ hb) ⟨j, hjopen, href⟩
      · have hb' : b = buf := hb
        exact hbuf ⟨j, hjopen, hb' ▸ href⟩
  · have htold := hkept.told_opened hopen rfl hgoods h.told
    rcases ht with ⟨rfl, -⟩ | ⟨port, rfl⟩
    · exact htold
    · have hnone : ∀ ev ∈ [Event.unlisten port], ev.owner = none := by simp [Event.owner]
      exact hkept.told_other hnone htold

/-- What is known of a table that has been reached from `T`, as long as the history is good
and the buffers handed out on the way are new. -/
structure Table.Lodged (good : List Event → Prop) (J : Core → BlockMemory → List Event → Prop)
    (K : List Event → Prop) (T : Table H n) (new : List Event) (U : Table H n) : Prop where
  log : U.log = new ++ T.log
  numbered : U.Numbered
  placed : ∀ i, (U.cores i).Placed
  housed : T.Fresh new → good U.log →
    U.Housed J K ∧ ∀ b, U.refers b → T.refers b ∨ b ∈ prepared new

/-- The programs of the connections leave every connection what it keeps. -/
theorem SlotStep.lodged (hkept : KeptIn handler good J K) (hn : n < 2 ^ 16) {L : List Label}
    (hL : ∀ l ∈ L, l ∉ Label.opening) (hpath : ReflTransGen (SlotStep handler L) T U)
    (hid : T.Numbered) (hplaced : ∀ i, (T.cores i).Placed)
    (hT : good T.log → T.Housed J K) : ∃ new, T.Lodged good J K new U := by
  induction hpath with
  | refl => exact ⟨[], rfl, hid, hplaced, fun _ hgood => ⟨hT hgood, fun _ => .inl⟩⟩
  | @tail V W _ hstep ih =>
      obtain ⟨new, hV⟩ := ih
      obtain ⟨i, l, s, hl, hact, rfl⟩ := hstep
      obtain ⟨hsid, last, hlast, howner⟩ := hact.adds
      have hlog : s.log = (last ++ new) ++ T.log := by
        rw [hlast, List.append_assoc]
        exact congrArg (last ++ ·) hV.log
      refine ⟨last ++ new, hlog, hV.numbered.set hsid, fun j => ?_, fun hfresh hgood => ?_⟩
      · by_cases hj : j = i
        · subst hj
          rw [Table.cores_set_self]
          exact hact.placed (hV.placed j)
        · rw [Table.cores_set_of_ne hj]
          exact hV.placed j
      · have hgoodV : good V.log := by
          have hsplit : good (last ++ V.log) := hlast ▸ hgood
          exact hkept.suffix hsplit
        obtain ⟨hhoused, href⟩ := hV.housed hfresh.before hgoodV
        obtain ⟨hnext, href'⟩ := hhoused.act hkept hn hV.numbered hV.placed (hL l hl) hact hlast
          (hfresh.after href) hgood
        refine ⟨hnext, fun b hb => ?_⟩
        rw [prepared_append, List.mem_append]
        rcases href' b hb with hold | hrecent
        · exact (href b hold).imp_right .inr
        · exact .inr (.inl hrecent)

end Housed

namespace Processor

section Runs

variable {good : List Event → Prop} {J : Core → BlockMemory → List Event → Prop}
  {K : List Event → Prop} {env : Env D H} {p q : Processor D H n} {op : Op}

/-- The buffers the device hands out in an operation are all different, and no open
connection refers to one of them. -/
def DrawsFresh (env : Env D H) (p : Processor D H n) (op : Op) : Prop :=
  ∀ q, exec env op p = .ok () q → p.table.Fresh (since p q)

theorem owner_of_listens {notes : List Event} (h : ∀ ev ∈ notes, ∃ port, ev = .listen port .ok) :
    ∀ ev ∈ notes, ev.owner = none := by
  intro ev hev
  obtain ⟨port, rfl⟩ := h ev hev
  rfl

theorem exec_housed (hkept : KeptIn env.handler good J K) (hn : n < 2 ^ 16)
    (hok : exec env op p = .ok () q) (hid : p.table.Numbered)
    (hplaced : ∀ i, (p.conns i).core.Placed) (hp : good p.w.log → p.table.Housed J K)
    (hdraws : DrawsFresh env p op) (hgood : good q.w.log) : q.table.Housed J K := by
  have hfresh : ∀ {new}, q.table.log = new ++ p.table.log → p.table.Fresh new := by
    intro new hlog
    rw [← since_eq (p := p) (q := q) hlog]
    exact hdraws q hok
  have hbefore : ∀ {new}, q.table.log = new ++ p.table.log → p.table.Housed J K := by
    intro new hlog
    exact hp (hkept.suffix (hlog ▸ hgood : good (new ++ p.table.log)))
  -- A buffer that is fetched first is new, and different from those that follow.
  have hfetched : ∀ (new : List Event) {buf : Nat} {mem : BlockMemory}
      {writes notes : List Event}, (∀ ev ∈ writes, ev = .write none buf) →
      (∀ ev ∈ notes, ev.owner = none) → BlockMemory.SameOff buf p.table.mem mem →
      q.table.log = new ++ (p.table.fetched buf mem writes notes).log →
      (p.table.fetched buf mem writes notes).Housed J K ∧ ¬p.table.refers buf ∧
        buf ∉ prepared new ∧ p.table.Fresh new := by
    intro new buf mem writes notes hwrites hnotes hmem hlog
    have hall : q.table.log = (new ++ (notes ++ (writes ++ [.prepare none (some buf)]))) ++
        p.table.log := by
      rw [hlog]
      simp [Table.fetched]
    have hnew := hfresh hall
    have hbuf : ¬p.table.refers buf := hnew.2 buf (by simp)
    refine ⟨(hbefore hall).fetched hkept hplaced hwrites hnotes hmem hbuf, hbuf, ?_, ?_⟩
    · have hnodup := hnew.1
      rw [prepared_append] at hnodup
      exact fun hb => (List.nodup_append.mp hnodup).2.2 buf hb buf (by simp) rfl
    · rw [Table.Fresh, prepared_append] at hnew
      exact ⟨(List.nodup_append.mp hnew.1).1, fun b hb => hnew.2 b (List.mem_append_left _ hb)⟩
  cases exec_course hok with
  | skip hq =>
      have hlog : q.table.log = [] ++ p.table.log := by rw [hq]; rfl
      rw [hq]
      exact hbefore hlog
  | @note _ ev _ howner hq =>
      have hlog : q.table.log = [ev] ++ p.table.log := by rw [hq]; rfl
      have h := hbefore hlog
      have hnone : ∀ ev' ∈ [ev], ev'.owner = none := by simpa using howner
      rw [hq]
      refine ⟨⟨h.sole.keeps, h.sole.sdat⟩, fun i => ?_, hkept.told_other hnone h.told⟩
      exact hkept.other (hplaced i) (fun ev' hev => by rw [hnone ev' hev]; simp)
        (fun _ _ _ _ => rfl) (h.kept i)
  | slots hpath =>
      have hL : ∀ l ∈ op.labels, l ∉ Label.opening := op.labels_not_opening
      obtain ⟨new, hlodged⟩ := SlotStep.lodged hkept hn hL hpath hid hplaced hp
      exact (hlodged.housed (hfresh hlodged.log) hgood).1
  | reset hwrites hmem hq =>
      rw [hq]
      exact (hfetched [] hwrites (by simp [Event.owner]) hmem (by rw [hq]; rfl)).1
  | wasted hwhy hwrites hmem hq =>
      rw [hq]
      refine (hfetched [] hwrites ?_ hmem (by rw [hq]; rfl)).1
      cases hwhy <;> simp [Event.owner]
  | opened _ hwrites hnotes hmem hopen hst hq =>
      obtain ⟨-, last, hlast, -⟩ := hopen.owned
      obtain ⟨hhoused, hbuf, hnew, hlater⟩ := hfetched last hwrites (owner_of_listens hnotes) hmem
        (by rw [hq]; exact hlast)
      rw [hq]
      refine (hhoused.opened hkept hn hid hplaced hopen (.inl ⟨rfl, hst⟩) hlast hbuf hnew hlater
        ?_).1
      have hgood' : good q.table.log := hgood
      rwa [hq] at hgood'
  | @failed _ _ _ buf mem writes notes i s port _ hwrites hnotes hmem hopen hfail hq =>
      obtain ⟨-, last, hlast, -⟩ := hopen.owned
      have hlog : ((s.logged (.unlisten port)).moved .closed).log =
          (.unlisten port :: last) ++ (p.table.fetched buf mem writes notes).log :=
        congrArg (List.cons _) hlast
      obtain ⟨hhoused, hbuf, hnew, hlater⟩ := hfetched _ hwrites (owner_of_listens hnotes) hmem
        (by rw [hq]; exact hlog)
      rw [hq]
      refine (hhoused.opened hkept hn hid hplaced hopen (.inr ⟨port, rfl⟩) hlog hbuf hnew hlater
        ?_).1
      have hgood' : good q.table.log := hgood
      rwa [hq] at hgood'

/-- In every run in which the device hands out new buffers only, the properties hold of every
connection, and every open connection has its send buffer for itself. -/
theorem ReachableBy.housed (hkept : KeptIn env.handler good J K) (hnil : K [])
    (hp : ReachableBy env (DrawsFresh env) p) (hgood : good p.w.log) : p.table.Housed J K := by
  induction hp with
  | initial hn dev hdl =>
      refine ⟨⟨fun i _ _ hi => absurd rfl hi, fun i _ _ _ _ hi => absurd rfl hi⟩, fun i => ?_, hnil⟩
      exact hkept.closed rfl
  | exec hp hdraws hop ih =>
      have hreach := hp.reachable
      exact exec_housed hkept hreach.1 hop hreach.numbered hreach.placed ih hdraws hgood

end Runs

end Processor

end Tulips.Tcpv4
