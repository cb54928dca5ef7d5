import Tulips.Machine.Runs

/-!
# Where segments stand

Every pointer a connection keeps comes from a buffer the device has handed out
and designates the place behind the two lower headers.
-/

namespace Tulips.Tcpv4

variable {D H : Type} {handler : EventHandler H} {s t : Slot H}

/-- Every pointer of a connection stands behind the two lower headers. -/
structure Core.Placed (c : Core) : Prop where
  sdat : ∀ p, c.sdat = some p → p.off = tcpOffset
  dat : ∀ i p, (c.segments i).dat = some p → p.off = tcpOffset

namespace Core.Placed

variable {c : Core}

/-- A segment that is replaced by one in its place. -/
theorem update (h : c.Placed) {k : Fin segmentCount} {seg : Segment}
    (hseg : ∀ p, seg.dat = some p → p.off = tcpOffset) (i : Fin segmentCount) (p : Ptr)
    (hdat : (Function.update c.segments k seg i).dat = some p) : p.off = tcpOffset := by
  by_cases hi : i = k
  · subst hi
    rw [Function.update_self] at hdat
    exact hseg p hdat
  · rw [Function.update_of_ne hi] at hdat
    exact h.dat i p hdat

end Core.Placed

theorem Refilled.placed {first : Bool} (h : Refilled first s t) (hs : s.toCore.Placed) :
    t.toCore.Placed := by
  rcases h with rfl | ⟨buf, mem, writes, clash, -, -, -, rfl⟩
  · exact hs
  · refine ⟨fun p hp => ?_, hs.dat⟩
    cases hp
    rfl

theorem Transmitted.placed {known : Prop} {k : Fin segmentCount} {hlen n : Nat}
    (h : Transmitted handler known k hlen n s t) (hs : s.toCore.Placed) : t.toCore.Placed := by
  obtain ⟨p, u, ret, -, hcommit, hout⟩ := h
  have hu : u.toCore.Placed := hcommit.toCore_eq ▸ hs
  rcases hout with ⟨-, rfl⟩ | ⟨-, x, hx, hrefill⟩
  · exact hu
  · refine hrefill.placed ?_
    split at hx
    · rw [hx]
      exact hu
    · rw [hx.toCore_eq]
      exact ⟨hu.sdat, hu.dat⟩

theorem SentControl.placed {known : Prop} (h : SentControl known s t) (hs : s.toCore.Placed) :
    t.toCore.Placed := by
  obtain ⟨p, u, ret, -, hcommit, hout⟩ := h
  have hu : u.toCore.Placed := by
    rw [hcommit.toCore_eq]
    exact hs
  rcases hout with ⟨-, rfl⟩ | ⟨-, hrefill⟩
  · exact hu
  · exact hrefill.placed hu

theorem Slot.pushed_placed (hs : s.toCore.Placed) (k : Fin segmentCount) (len : UInt32) :
    (s.pushed k len).toCore.Placed :=
  ⟨fun _ hp => (by cases hp), hs.update hs.sdat⟩

theorem Slot.swapped_placed (hs : s.toCore.Placed) : s.swapped.toCore.Placed :=
  ⟨fun _ hp => (by cases hp), hs.update hs.sdat⟩

theorem Opened.placed {peer : Peer} {st : State} {iss : UInt32} {p : Ptr}
    (h : Opened handler peer st iss p s t) (hoff : p.off = tcpOffset) (hs : s.toCore.Placed) :
    t.toCore.Placed := by
  obtain ⟨leftover, rcvNxt, synced, k, -, -, -, hsend⟩ := h
  refine hsend.placed ⟨fun _ hp => (by cases hp), hs.update fun q hq => ?_⟩
  cases hq
  exact hoff

theorem Act.placed {l : Label} (h : Act handler l s t) (hs : s.toCore.Placed) :
    t.toCore.Placed := by
  cases h with
  | note => exact hs
  | life _ hcall => exact hcall.toCore_eq ▸ hs
  | data _ hcall => exact hcall.toCore_eq ▸ hs
  | move => exact ⟨hs.sdat, hs.dat⟩
  | settle => exact ⟨hs.sdat, hs.dat⟩
  | rcv => exact ⟨hs.sdat, hs.dat⟩
  | news => exact ⟨hs.sdat, hs.dat⟩
  | clear => exact ⟨hs.sdat, hs.update fun _ hp => by cases hp⟩
  | store _ _ _ hstore => exact hstore.toCore_eq ▸ hs
  | append => exact ⟨hs.sdat, hs.dat⟩
  | emit _ _ hsend => exact hsend.placed (Slot.pushed_placed hs _ _)
  | @fin s t st k _ _ _ hsend =>
      have hmoved : (s.moved st).toCore.Placed := ⟨hs.sdat, hs.dat⟩
      exact hsend.placed (Slot.pushed_placed hmoved k 1)
  | resend _ _ _ _ hstore _ hsend =>
      exact hsend.placed (Slot.swapped_placed (hstore.toCore_eq ▸ ⟨hs.sdat, hs.dat⟩))
  | control _ _ _ hstore hsend => exact hsend.placed (hstore.toCore_eq ▸ hs)
  | spare _ _ hspare hsend => exact hsend.placed (hspare.toCore_eq ▸ hs)
  | kill _ _ hstore hsend => exact hsend.placed (hstore.toCore_eq ▸ ⟨hs.sdat, hs.dat⟩)
  | abort hcall _ hflags hstore hsend =>
      have hu := hcall.toCore_eq.symm ▸ (⟨hs.sdat, hs.dat⟩ : (s.moved .closed).toCore.Placed)
      have hv := hflags.toCore_eq.symm ▸ hu
      exact hsend.placed (hstore.toCore_eq.symm ▸ ⟨hv.sdat, hv.dat⟩)
  | create _ _ hoff _ hopen => exact hopen.placed hoff hs
  | createFailed _ hoff _ hopen ht =>
      subst ht
      have hu := hopen.placed hoff hs
      exact ⟨hu.sdat, hu.dat⟩

/-- Placement needs no good history. -/
theorem placed_kept (handler : EventHandler H) :
    Kept handler (fun _ => True) fun c _ => c.Placed where
  suffix := fun _ => trivial
  act := fun hact _ hs => hact.placed hs
  other := fun _ hs => hs

/-- The pointers of every connection of a reached processor are in their place. -/
theorem Processor.Reachable.placed {n : Nat} {env : Env D H} {p : Processor D H n}
    (hp : Reachable env p) (i : Fin n) : (p.conns i).core.Placed :=
  (hp.each (placed_kept env.handler) fun _ =>
    ⟨fun _ h => (by cases h), fun _ _ h => by cases h⟩).2 trivial i

end Tulips.Tcpv4
