import Mathlib.Logic.Relation

/-!
# Programs with state and faults

A program runs on a state and either returns a value or stops at a fault; in
both cases the state it has reached is kept. The rules below take a run apart
at its sequencing points and compose the transitions its parts perform into one
path of a step relation.
-/

/-- A program over the state `σ` that returns an `α` or stops at a fault `ε`. -/
abbrev Program (ε σ α : Type) := EStateM ε σ α

namespace Program

open Relation

variable {ε σ τ α β : Type}

/-- Read a value off the state. -/
def gets (f : σ → α) : Program ε σ α := fun s => .ok (f s) s

/-- Change the state. -/
def update (f : σ → σ) : Program ε σ Unit := fun s => .ok () (f s)

/-- Stop at a fault. -/
def fault (e : ε) : Program ε σ α := fun s => .error e s

/-- Run a program only under a condition. -/
def when (c : Prop) [Decidable c] (m : Program ε σ Unit) : Program ε σ Unit :=
  if c then m else pure ()

/-- Run a program on a part of the state. -/
def zoom (view : σ → τ) (put : σ → τ → σ) (m : Program ε τ α) : Program ε σ α := fun s =>
  match m (view s) with
  | .ok a t => .ok a (put s t)
  | .error e t => .error e (put s t)

/-! ## Taking a run apart -/

@[simp] theorem gets_apply (f : σ → α) (s : σ) :
    (gets f : Program ε σ α) s = .ok (f s) s := rfl

@[simp] theorem update_apply (f : σ → σ) (s : σ) :
    (update f : Program ε σ Unit) s = .ok () (f s) := rfl

@[simp] theorem fault_apply (e : ε) (s : σ) : (fault e : Program ε σ α) s = .error e s := rfl

@[simp] theorem pure_apply (a : α) (s : σ) : (pure a : Program ε σ α) s = .ok a s := rfl

theorem bind_apply (m : Program ε σ α) (f : α → Program ε σ β) (s : σ) :
    (m >>= f) s = match m s with
      | .ok a t => f a t
      | .error e t => .error e t := rfl

@[simp] theorem bind_gets (f : σ → α) (k : α → Program ε σ β) (s : σ) :
    (gets f >>= k) s = k (f s) s := rfl

@[simp] theorem bind_gets_id (k : σ → Program ε σ β) (s : σ) :
    (gets id >>= k) s = k s s := rfl

@[simp] theorem bind_update (f : σ → σ) (k : Unit → Program ε σ β) (s : σ) :
    (update f >>= k) s = k () (f s) := rfl

@[simp] theorem bind_pure_apply (a : α) (k : α → Program ε σ β) (s : σ) :
    ((pure a : Program ε σ α) >>= k) s = k a s := rfl

@[simp] theorem bind_assoc_apply {γ : Type} (m : Program ε σ α) (f : α → Program ε σ β)
    (g : β → Program ε σ γ) (s : σ) : ((m >>= f) >>= g) s = (m >>= fun a => f a >>= g) s := by
  simp only [bind_apply]
  cases m s <;> rfl

/-- A sequence whose first part returns goes on with the second. -/
theorem bind_of_ok {m : Program ε σ α} {f : α → Program ε σ β} {s t : σ} {a : α}
    (h : m s = .ok a t) : (m >>= f) s = f a t := by
  rw [bind_apply, h]

theorem bind_of_error {m : Program ε σ α} {f : α → Program ε σ β} {s t : σ} {e : ε}
    (h : m s = .error e t) : (m >>= f) s = .error e t := by
  rw [bind_apply, h]

theorem zoom_of_ok {view : σ → τ} {put : σ → τ → σ} {m : Program ε τ α} {s : σ} {t : τ} {a : α}
    (h : m (view s) = .ok a t) : zoom view put m s = .ok a (put s t) := by
  rw [zoom, h]

theorem zoom_of_error {view : σ → τ} {put : σ → τ → σ} {m : Program ε τ α} {s : σ} {t : τ}
    {e : ε} (h : m (view s) = .error e t) : zoom view put m s = .error e (put s t) := by
  rw [zoom, h]

/-- A sequence returns exactly when both its parts do. -/
theorem bind_eq_ok {m : Program ε σ α} {f : α → Program ε σ β} {s u : σ} {b : β} :
    (m >>= f) s = .ok b u ↔ ∃ a t, m s = .ok a t ∧ f a t = .ok b u := by
  rw [bind_apply]
  constructor
  · intro h
    cases hm : m s with
    | ok a t => rw [hm] at h; exact ⟨a, t, rfl, h⟩
    | error e t => rw [hm] at h; cases h
  · rintro ⟨a, t, hm, hf⟩
    rw [hm]
    exact hf

theorem map_eq_ok {m : Program ε σ α} {f : α → β} {s t : σ} {b : β} :
    (f <$> m) s = .ok b t ↔ ∃ a, m s = .ok a t ∧ f a = b := by
  change (m >>= fun a => pure (f a)) s = .ok b t ↔ _
  rw [bind_eq_ok]
  constructor
  · rintro ⟨a, u, hm, hf⟩
    cases hf
    exact ⟨a, hm, rfl⟩
  · rintro ⟨a, hm, rfl⟩
    exact ⟨a, t, hm, rfl⟩

theorem zoom_eq_ok {view : σ → τ} {put : σ → τ → σ} {m : Program ε τ α} {s u : σ} {a : α} :
    zoom view put m s = .ok a u ↔ ∃ t, m (view s) = .ok a t ∧ put s t = u := by
  unfold zoom
  cases m (view s) with
  | ok b t =>
      constructor
      · intro h; cases h; exact ⟨t, rfl, rfl⟩
      · rintro ⟨_, h, rfl⟩; cases h; rfl
  | error e t => simp

theorem when_eq_ok {c : Prop} [Decidable c] {m : Program ε σ Unit} {s t : σ} {a : Unit} :
    when c m s = .ok a t ↔ c ∧ m s = .ok () t ∨ ¬c ∧ t = s := by
  unfold when
  by_cases h : c
  · rw [if_pos h]
    simp [h]
  · rw [if_neg h]
    constructor
    · intro hok
      cases hok
      exact .inr ⟨h, rfl⟩
    · rintro (⟨hc, -⟩ | ⟨-, rfl⟩)
      · exact absurd hc h
      · rfl

/-! ## Keeping an invariant -/

section Keeps

variable {I : σ → Prop}

/-- Whether it returns or stops at a fault, the program keeps an invariant. -/
def Keeps (I : σ → Prop) (m : Program ε σ α) : Prop :=
  ∀ s, I s → match m s with
    | .ok _ t | .error _ t => I t

theorem Keeps.ok {m : Program ε σ α} (h : Keeps I m) {s t : σ} {a : α} (hok : m s = .ok a t)
    (hs : I s) : I t := by
  have := h s hs
  rwa [hok] at this

theorem Keeps.pure (a : α) : Keeps I (Pure.pure a : Program ε σ α) := fun _ hs => hs

theorem Keeps.gets (f : σ → α) : Keeps I (Program.gets f : Program ε σ α) := fun _ hs => hs

theorem Keeps.fault (e : ε) : Keeps I (Program.fault e : Program ε σ α) := fun _ hs => hs

theorem Keeps.update {f : σ → σ} (h : ∀ s, I s → I (f s)) :
    Keeps I (Program.update f : Program ε σ Unit) := h

theorem Keeps.bind {m : Program ε σ α} {f : α → Program ε σ β} (hm : Keeps I m)
    (hf : ∀ a, Keeps I (f a)) : Keeps I (m >>= f) := by
  intro s hs
  have ht := hm s hs
  rw [bind_apply]
  cases hms : m s with
  | error e t => rw [hms] at ht; exact ht
  | ok a t => rw [hms] at ht; exact hf a t ht

theorem Keeps.map {m : Program ε σ α} (hm : Keeps I m) (f : α → β) : Keeps I (f <$> m) :=
  Keeps.bind hm fun a => Keeps.pure (f a)

theorem Keeps.ite {c : Prop} [Decidable c] {m n : Program ε σ α} (hm : Keeps I m)
    (hn : Keeps I n) : Keeps I (if c then m else n) := by
  split
  · exact hm
  · exact hn

theorem Keeps.when {c : Prop} [Decidable c] {m : Program ε σ Unit} (hm : Keeps I m) :
    Keeps I (Program.when c m) := Keeps.ite hm (Keeps.pure ())

/-- A part of the state carries the invariant. -/
theorem Keeps.zoom {view : σ → τ} {put : σ → τ → σ} {m : Program ε τ α} {J : τ → Prop}
    (hview : ∀ s, I s → J (view s)) (hput : ∀ s t, I s → J t → I (put s t)) (hm : Keeps J m) :
    Keeps I (Program.zoom view put m) := by
  intro s hs
  have ht := hm (view s) (hview s hs)
  unfold Program.zoom
  cases hms : m (view s) with
  | ok a t => rw [hms] at ht; exact hput s t hs ht
  | error e t => rw [hms] at ht; exact hput s t hs ht

end Keeps

/-! ## Giving an invariant up -/

section Leads

variable {I J : σ → Prop}

/-- The state a run ends in. -/
def final : EStateM.Result ε σ α → σ
  | .ok _ t => t
  | .error _ t => t

/-- From where the first property holds, a run ends where the second one does. -/
def Leads (I J : σ → Prop) (m : Program ε σ α) : Prop := ∀ s, I s → J (final (m s))

theorem leads_self {m : Program ε σ α} : Leads I I m ↔ Keeps I m := by
  refine forall₂_congr fun s _ => ?_
  cases m s <;> exact Iff.rfl

theorem Keeps.leads {m : Program ε σ α} (hm : Keeps J m) (hIJ : ∀ s, I s → J s) : Leads I J m :=
  fun s hs => leads_self.mpr hm s (hIJ s hs)

/-- The invariant is kept up to a point. -/
theorem Keeps.bind_leads {m : Program ε σ α} {f : α → Program ε σ β} (hm : Keeps I m)
    (hf : ∀ a, Leads I J (f a)) (hIJ : ∀ s, I s → J s) : Leads I J (m >>= f) := by
  intro s hs
  have ht := leads_self.mpr hm s hs
  rw [bind_apply]
  cases hms : m s with
  | error e t => rw [hms] at ht; exact hIJ t ht
  | ok a t => rw [hms] at ht; exact hf a t ht

/-- What holds once the invariant has been given up is kept from there on. -/
theorem Leads.bind_keeps {m : Program ε σ α} {f : α → Program ε σ β} (hm : Leads I J m)
    (hf : ∀ a, Keeps J (f a)) : Leads I J (m >>= f) := by
  intro s hs
  have ht := hm s hs
  rw [bind_apply]
  cases hms : m s with
  | error e t => rw [hms] at ht; exact ht
  | ok a t => rw [hms] at ht; exact leads_self.mpr (hf a) t ht

theorem Leads.ite {c : Prop} [Decidable c] {m n : Program ε σ α} (hm : Leads I J m)
    (hn : Leads I J n) : Leads I J (if c then m else n) := by
  split
  · exact hm
  · exact hn

end Leads

/-! ## Relating the ends of a run -/

section Relates

variable {R : σ → σ → Prop}

/-- A relation that can be followed along a run. -/
structure Walk (R : σ → σ → Prop) : Prop where
  refl : ∀ s, R s s
  trans : ∀ {s t u}, R s t → R t u → R s u

/-- The state a run ends in is related to the one it starts from. -/
def Relates (R : σ → σ → Prop) (m : Program ε σ α) : Prop := ∀ s, R s (final (m s))

theorem Relates.ok {m : Program ε σ α} (h : Relates R m) {s t : σ} {a : α}
    (hok : m s = .ok a t) : R s t := by
  have hs := h s
  rwa [hok] at hs

theorem Relates.update {f : σ → σ} (h : ∀ s, R s (f s)) :
    Relates R (Program.update f : Program ε σ Unit) := h

namespace Walk

variable (hR : Walk R)

include hR

theorem pure (a : α) : Relates R (Pure.pure a : Program ε σ α) := hR.refl

theorem gets (f : σ → α) : Relates R (Program.gets f : Program ε σ α) := hR.refl

theorem fault (e : ε) : Relates R (Program.fault e : Program ε σ α) := hR.refl

/-- What follows may depend on what the first program has led to. -/
theorem bind_at {m : Program ε σ α} {f : α → Program ε σ β} {s : σ} (hs : R s (final (m s)))
    (hf : ∀ a t, m s = .ok a t → R t (final (f a t))) : R s (final ((m >>= f) s)) := by
  rw [bind_apply]
  cases hrun : m s with
  | error e t => rwa [hrun] at hs
  | ok a t =>
      rw [hrun] at hs
      exact hR.trans hs (hf a t hrun)

theorem bind {m : Program ε σ α} {f : α → Program ε σ β} (hm : Relates R m)
    (hf : ∀ a, Relates R (f a)) : Relates R (m >>= f) :=
  fun s => hR.bind_at (hm s) fun a t _ => hf a t

theorem when {c : Prop} [Decidable c] {m : Program ε σ Unit} (hm : Relates R m) :
    Relates R (Program.when c m) := by
  unfold Program.when
  split
  · exact hm
  · exact hR.pure ()

end Walk

/-- The state in which a run returns is related to the one it starts from. -/
def Returns (R : σ → σ → Prop) (m : Program ε σ α) : Prop := ∀ ⦃s a t⦄, m s = .ok a t → R s t

theorem Relates.returns {m : Program ε σ α} (h : Relates R m) : Returns R m :=
  fun _ _ _ hok => h.ok hok

theorem Walk.seq (hR : Walk R) {m : Program ε σ α} {f : α → Program ε σ β} (hm : Returns R m)
    (hf : ∀ a, Returns R (f a)) : Returns R (m >>= f) := by
  intro s b u hok
  obtain ⟨a, t, hfirst, hrest⟩ := bind_eq_ok.mp hok
  exact hR.trans (hm hfirst) (hf a hrest)

theorem Returns.ite {c : Prop} [Decidable c] {m n : Program ε σ α} (hm : Returns R m)
    (hn : Returns R n) : Returns R (if c then m else n) := by
  split
  · exact hm
  · exact hn

theorem Walk.seqWhen (hR : Walk R) {c : Prop} [Decidable c] {m : Program ε σ Unit}
    (hm : Returns R m) : Returns R (Program.when c m) :=
  Returns.ite hm (hR.pure ()).returns

theorem Returns.gets_bind {f : σ → β} {k : β → Program ε σ α} (h : ∀ b, Returns R (k b)) :
    Returns R (Program.gets f >>= k) := fun s _ _ hok => h (f s) hok

theorem Relates.gets_bind {f : σ → β} {k : β → Program ε σ α} (h : ∀ b, Relates R (k b)) :
    Relates R (Program.gets f >>= k) := fun s => h (f s) s

theorem Relates.update_bind {f : σ → σ} {k : Unit → Program ε σ α} (hR : Walk R)
    (hf : ∀ s, R s (f s)) (hk : Relates R (k ())) : Relates R (Program.update f >>= k) :=
  hR.bind (Relates.update hf) fun _ => hk

theorem Relates.ite {c : Prop} [Decidable c] {m n : Program ε σ α} (hm : Relates R m)
    (hn : Relates R n) : Relates R (if c then m else n) := by
  split
  · exact hm
  · exact hn

/-- What the related states have in common keeps an invariant. -/
theorem Relates.keeps {I : σ → Prop} {m : Program ε σ α} (h : Relates R m)
    (hI : ∀ {s t}, R s t → I s → I t) : Keeps I m := by
  intro s hs
  have ht := hI (h s) hs
  cases hrun : m s with
  | ok a t => rwa [hrun] at ht
  | error e t => rwa [hrun] at ht

end Relates

/-! ## Following an abstract machine -/

section Follows

variable {ν : Type} (view : σ → ν) (Step : ν → ν → Prop) (Stuck : ε → ν → ν → Prop)

/-- The result of a run from `s` follows the abstract machine: a run that
returns performs a path of abstract steps, and a run that faults performs a
path to an abstract state where the fault is explained. -/
def Follows (s : σ) : EStateM.Result ε σ α → Prop
  | .ok _ t => ReflTransGen Step (view s) (view t)
  | .error e t => ∃ u, ReflTransGen Step (view s) u ∧ Stuck e u (view t)

variable {view Step Stuck}

theorem Follows.pure (a : α) (s : σ) :
    Follows view Step Stuck s ((Pure.pure a : Program ε σ α) s) :=
  ReflTransGen.refl

theorem Follows.update {f : σ → σ} {s : σ} (h : ReflTransGen Step (view s) (view (f s))) :
    Follows view Step Stuck s ((Program.update f : Program ε σ Unit) s) :=
  h

/-- Sequencing: the continuation follows the machine from wherever the first
part has returned. -/
theorem Follows.bind {m : Program ε σ α} {f : α → Program ε σ β} {s : σ}
    (hm : Follows view Step Stuck s (m s))
    (hf : ∀ a t, m s = .ok a t → Follows view Step Stuck t (f a t)) :
    Follows view Step Stuck s ((m >>= f) s) := by
  rw [bind_apply]
  cases hms : m s with
  | error e t => rw [hms] at hm; exact hm
  | ok a t =>
      rw [hms] at hm
      have hft := hf a t hms
      simp only
      cases hfs : f a t with
      | ok b u => rw [hfs] at hft; exact hm.trans hft
      | error e u =>
          rw [hfs] at hft
          obtain ⟨v, hv, hstuck⟩ := hft
          exact ⟨v, hm.trans hv, hstuck⟩

theorem Follows.ite {c : Prop} [Decidable c] {m n : Program ε σ α} {s : σ}
    (hm : c → Follows view Step Stuck s (m s)) (hn : ¬c → Follows view Step Stuck s (n s)) :
    Follows view Step Stuck s ((if c then m else n) s) := by
  split
  · next h => exact hm h
  · next h => exact hn h

theorem Follows.when {c : Prop} [Decidable c] {m : Program ε σ Unit} {s : σ}
    (hm : c → Follows view Step Stuck s (m s)) :
    Follows view Step Stuck s (Program.when c m s) := by
  unfold Program.when
  exact Follows.ite hm fun _ => Follows.pure () s

/-- A path to where the run is seen to start comes first. -/
theorem Follows.after {s s' : σ} {r : EStateM.Result ε σ α}
    (hpath : ReflTransGen Step (view s) (view s')) (h : Follows view Step Stuck s' r) :
    Follows view Step Stuck s r := by
  cases r with
  | ok a t => exact hpath.trans h
  | error e t =>
      obtain ⟨u, hu, hstuck⟩ := h
      exact ⟨u, hpath.trans hu, hstuck⟩

/-- A path of a sparser machine is a path of a denser one. -/
theorem Follows.mono {Step' : ν → ν → Prop} {Stuck' : ε → ν → ν → Prop} {s : σ}
    {r : EStateM.Result ε σ α} (hstep : ∀ u v, Step u v → Step' u v)
    (hstuck : ∀ e u v, Stuck e u v → Stuck' e u v)
    (h : Follows view Step Stuck s r) : Follows view Step' Stuck' s r := by
  cases r with
  | ok a t => exact ReflTransGen.mono hstep _ _ h
  | error e t =>
      obtain ⟨u, hu, hu'⟩ := h
      exact ⟨u, ReflTransGen.mono hstep _ _ hu, hstuck e u _ hu'⟩

/-- What every abstract step preserves, a path preserves. -/
theorem path_invariant {I : ν → Prop} {u v : ν} (hstep : ∀ u v, Step u v → I u → I v)
    (hpath : ReflTransGen Step u v) (hI : I u) : I v := by
  induction hpath with
  | refl => exact hI
  | tail _ hlast ih => exact hstep _ _ hlast ih

end Follows

end Program
