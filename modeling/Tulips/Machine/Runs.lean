import Tulips.Machine.Summary

/-!
# Runs of the processor

A processor is reached when operations that all return lead to it from a new
one. What every act of a connection preserves, and no event of another
connection disturbs, holds of every connection of a reached processor. The good
events of a history are those an invariant depends on; since the history only
grows, a history of good events has only ever had good events.
-/

namespace Tulips.Tcpv4

open Relation

variable {D H : Type} {n : Nat}

/-! ## Reached processors -/

namespace Processor

/-- The constructor counts the connections with 16 bits, and does not return
when there are more. -/
def Reachable (env : Env D H) (p : Processor D H n) : Prop :=
  n < 2 ^ 16 ∧ ∃ dev hdl ops, execAll env ops (initial n dev hdl) = .ok () p

variable {env : Env D H} {p q : Processor D H n}

theorem execAll_invariant {I : Processor D H n → Prop}
    (hstep : ∀ p q op, exec env op p = .ok () q → I p → I q) (ops : List Op)
    (h : execAll env ops p = .ok () q) (hp : I p) : I q := by
  induction ops generalizing p with
  | nil =>
      cases h
      exact hp
  | cons op ops ih =>
      obtain ⟨_, r, hop, hrest⟩ := Program.bind_eq_ok.mp h
      exact ih hrest (hstep p r op hop hp)

theorem execAll_append (ops ops' : List Op) {r : Processor D H n}
    (h : execAll env ops p = .ok () q) (h' : execAll env ops' q = .ok () r) :
    execAll env (ops ++ ops') p = .ok () r := by
  induction ops generalizing p with
  | nil =>
      cases h
      exact h'
  | cons op ops ih =>
      obtain ⟨_, s, hop, hrest⟩ := Program.bind_eq_ok.mp h
      exact Program.bind_eq_ok.mpr ⟨_, s, hop, ih hrest⟩

/-- What holds at the start and after every operation holds of every reached
processor. -/
theorem Reachable.induction {I : Processor D H n → Prop}
    (hinit : ∀ dev hdl, I (initial n dev hdl))
    (hstep : ∀ p q op, exec env op p = .ok () q → I p → I q) (h : Reachable env p) : I p := by
  obtain ⟨-, dev, hdl, ops, hrun⟩ := h
  exact execAll_invariant hstep ops hrun (hinit dev hdl)

theorem Reachable.exec {op : Op} (h : Reachable env p) (hop : exec env op p = .ok () q) :
    Reachable env q := by
  obtain ⟨hn, dev, hdl, ops, hrun⟩ := h
  have hone : execAll env [op] p = .ok () q := Program.bind_eq_ok.mpr ⟨(), q, hop, rfl⟩
  exact ⟨hn, dev, hdl, ops ++ [op], execAll_append ops [op] hrun hone⟩

/-- Reached by operations that all meet a condition on what they find. -/
inductive ReachableBy (env : Env D H) (good : Processor D H n → Op → Prop) :
    Processor D H n → Prop
  | initial (hn : n < 2 ^ 16) (dev : D) (hdl : H) : ReachableBy env good (initial n dev hdl)
  | exec {p q : Processor D H n} {op : Op} (hp : ReachableBy env good p) (hgood : good p op)
      (hop : exec env op p = .ok () q) : ReachableBy env good q

theorem ReachableBy.reachable {good : Processor D H n → Op → Prop}
    (h : ReachableBy env good p) : Reachable env p := by
  induction h with
  | initial hn dev hdl => exact ⟨hn, dev, hdl, [], rfl⟩
  | exec _ _ hop ih => exact ih.exec hop

/-- What has happened since `p`. -/
def since (p q : Processor D H n) : List Event :=
  q.w.log.take (q.w.log.length - p.w.log.length)

theorem since_eq {new : List Event} (h : q.w.log = new ++ p.w.log) : since p q = new := by
  simp [since, h]

end Processor

/-! ## The history of one connection -/

def Event.creates (id : UInt16) : Event → Bool
  | .create id' _ _ _ => id' == id
  | _ => false

/-- What has happened since the slot last started a connection. -/
def sinceCreate (id : UInt16) (log : List Event) : List Event :=
  log.takeWhile fun ev => !ev.creates id

variable {id : UInt16} {new log : List Event}

theorem Event.creates_of_owner {ev : Event} (h : ev.owner ≠ some id) :
    ev.creates id = false := by
  cases ev with
  | create id' iss buf leftover =>
      have hne : id' ≠ id := fun heq => h (by rw [← heq]; rfl)
      simpa [Event.creates] using hne
  | _ => rfl

theorem Event.From.not_creates {l : Label} {ev : Event} (h : ev.From l id)
    (hl : l ∉ Label.opening) (id' : UInt16) : ev.creates id' = false := by
  cases ev with
  | create => exact absurd h.2 hl
  | _ => rfl

theorem sinceCreate_append (h : ∀ ev ∈ new, ev.creates id = false) :
    sinceCreate id (new ++ log) = new ++ sinceCreate id log := by
  unfold sinceCreate
  rw [List.takeWhile_append_of_pos]
  intro ev hev
  rw [h ev hev]
  rfl

@[simp] theorem sinceCreate_create (iss : UInt32) (buf : Nat) (leftover : Bool) :
    sinceCreate id (.create id iss buf leftover :: log) = [] := by
  simp [sinceCreate, Event.creates]

/-! ## The table -/

/-- The connections carry the numbers of their slots. -/
def Table.Numbered {H : Type} (T : Table H n) : Prop :=
  ∀ i, (T.cores i).id = UInt16.ofNat i

theorem Table.Numbered.id_ne {T : Table H n} (h : T.Numbered) (hn : n < 2 ^ 16) {i j : Fin n}
    (hij : i ≠ j) : (T.cores i).id ≠ (T.cores j).id := by
  rw [h i, h j]
  intro heq
  have hval := congrArg UInt16.toNat heq
  rw [UInt16.toNat_ofNat', UInt16.toNat_ofNat', Nat.mod_eq_of_lt (by omega),
    Nat.mod_eq_of_lt (by omega)] at hval
  exact hij (Fin.ext hval)

theorem WorldAct.summary {T T' : Table H n} (h : WorldAct T T') :
    T'.cores = T.cores ∧ ∃ new, T'.log = new ++ T.log ∧ ∀ ev ∈ new, ev.owner = none := by
  cases h with
  | @note ev hev howner =>
      exact ⟨rfl, [ev], rfl, by simpa using howner⟩
  | @fetch buf mem writes hwrites hmem =>
      refine ⟨rfl, writes ++ [.prepare none (some buf)], by simp, fun x hx => ?_⟩
      rcases List.mem_append.mp hx with h | h
      · rw [hwrites x h]; rfl
      · rw [List.mem_singleton.mp h]; rfl
  | @reset buf mem writes frame mss ret hwrites hmem =>
      refine ⟨rfl, .commit none buf frame mss ret :: (writes ++ [.prepare none (some buf)]),
        by simp, fun x hx => ?_⟩
      rcases List.mem_cons.mp hx with rfl | h
      · rfl
      · rcases List.mem_append.mp h with h | h
        · rw [hwrites x h]; rfl
        · rw [List.mem_singleton.mp h]; rfl

theorem Table.Numbered.set {T : Table H n} {i : Fin n} {s : Slot H} (h : T.Numbered)
    (hs : s.id = (T.slot i).id) : (T.set i s).Numbered := by
  intro j
  by_cases hj : j = i
  · subst hj
    simp only [Table.set, Function.update_self]
    exact hs.trans (h j)
  · simp only [Table.set, Function.update_of_ne hj]
    exact h j

/-- A path of the table extends the history by events of its kinds. -/
theorem TableStep.adds {handler : EventHandler H} {L : List Label} {P : Event → Prop}
    {T T' : Table H n} (hact : ∀ l ∈ L, ∀ id ev, Event.From l id ev → P ev)
    (hworld : ∀ ev, ev.owner = none → P ev) (h : ReflTransGen (TableStep handler L) T T') :
    ∃ new, T'.log = new ++ T.log ∧ ∀ ev ∈ new, P ev := by
  induction h with
  | refl => exact ⟨[], rfl, by simp⟩
  | @tail U V _ hstep ih =>
      obtain ⟨new, hlog, hnew⟩ := ih
      have hlast : ∃ new', V.log = new' ++ U.log ∧ ∀ ev ∈ new', P ev := by
        cases hstep with
        | slot hl h =>
            obtain ⟨-, new', hlog', hnew'⟩ := h.adds
            exact ⟨new', hlog', fun ev hev => hact _ hl _ ev (hnew' ev hev)⟩
        | world h =>
            obtain ⟨-, new', hlog', hnew'⟩ := h.summary
            exact ⟨new', hlog', fun ev hev => hworld ev (hnew' ev hev)⟩
      obtain ⟨new', hlog', hnew'⟩ := hlast
      refine ⟨new' ++ new, by rw [hlog', hlog, List.append_assoc], fun ev hev => ?_⟩
      rcases List.mem_append.mp hev with h | h
      · exact hnew' ev h
      · exact hnew ev h

theorem Processor.Op.labels_cases (op : Op) :
    op.labels = [.note, .abort] ∨ op.labels = Label.segment ∨ op.labels = Label.own := by
  cases op <;> simp [Op.labels]

theorem Processor.Op.labels_not_opening (op : Op) : ∀ l ∈ op.labels, l ∉ Label.opening := by
  rcases op.labels_cases with h | h | h <;> rw [h] <;> decide

/-- Only the last step of an operation can create a connection. -/
theorem TableStep.no_create {handler : EventHandler H} {op : Processor.Op} {T T' : Table H n}
    (h : ReflTransGen (TableStep handler op.labels) T T') :
    ∃ new, T'.log = new ++ T.log ∧ ∀ ev ∈ new, ∀ id, ev.creates id = false :=
  TableStep.adds (fun l hl _ _ hev => hev.not_creates (op.labels_not_opening l hl))
    (fun ev hev id => Event.creates_of_owner (by rw [hev]; simp)) h

/-- The history only grows. -/
theorem Outcome.extends {handler : EventHandler H} {L : List Label} {may : Fin n → Prop}
    {T T' : Table H n} (h : Outcome handler L may T T') : ∃ new, T'.log = new ++ T.log := by
  have hgrow : ∀ {U V : Table H n}, (∃ new, U.log = new ++ T.log) →
      (∃ new, V.log = new ++ U.log) → ∃ new, V.log = new ++ T.log := by
    rintro U V ⟨new, hU⟩ ⟨new', hV⟩
    exact ⟨new' ++ new, by rw [hV, hU, List.append_assoc]⟩
  refine h.invariant (I := fun U => ∃ new, U.log = new ++ T.log) ?_ ?_ ⟨[], rfl⟩
  · intro U i l s _ hact hU
    obtain ⟨-, new, hlog, -⟩ := hact.adds
    exact hgrow hU ⟨new, hlog⟩
  · intro U V hact hU
    obtain ⟨-, new, hlog, -⟩ := hact.summary
    exact hgrow hU ⟨new, hlog⟩

/-- What creates a connection is the last act of an operation, in a slot that
may be taken. -/
theorem Outcome.of_create {handler : EventHandler H} {op : Processor.Op} {may : Fin n → Prop}
    {T T' : Table H n} (h : Outcome handler op.labels may T T') {new : List Event}
    (hlog : T'.log = new ++ T.log) {id : UInt16} {iss : UInt32} {buf : Nat} {leftover : Bool}
    (hev : .create id iss buf leftover ∈ new) :
    ∃ U j l s last, may j ∧ Act handler l (Table.slot U j) s ∧ T' = U.set j s ∧
      s.log = last ++ U.log ∧ .create id iss buf leftover ∈ last ∧ s.id = id := by
  obtain ⟨U, hpath, hlast⟩ := h
  obtain ⟨quiet, hquiet, hnone⟩ := TableStep.no_create hpath
  have hnot : .create id iss buf leftover ∉ quiet := by
    intro h
    have := hnone _ h id
    simp [Event.creates] at this
  rcases hlast with rfl | ⟨j, l, s, hmay, -, hact, rfl⟩
  · rw [List.append_cancel_right (hlog.symm.trans hquiet)] at hev
    exact absurd hev hnot
  · obtain ⟨hsid, last, hlast, hfrom⟩ := hact.adds
    have hnew : new = last ++ quiet := by
      have hlogs : new ++ T.log = (last ++ quiet) ++ T.log := by
        rw [← hlog, List.append_assoc, ← hquiet]
        exact hlast
      exact List.append_cancel_right hlogs
    rw [hnew] at hev
    have hmem := (List.mem_append.mp hev).resolve_right hnot
    have howner := (hfrom _ hmem).1.resolve_left (by simp [Event.owner])
    exact ⟨U, j, l, s, last, hmay, hact, rfl, hlast, hmem,
      hsid.trans (Option.some_inj.mp howner).symm⟩

section EachSlot

variable {handler : EventHandler H} {good : List Event → Prop} {J : Core → List Event → Prop}
  {T T' : Table H n}

/-- A property of a connection and the history, kept by the connection's own
acts as long as the history is good, and by the events of others. -/
structure Kept (handler : EventHandler H) (good : List Event → Prop)
    (J : Core → List Event → Prop) : Prop where
  suffix : ∀ {new log : List Event}, good (new ++ log) → good log
  act : ∀ {l : Label} {s t : Slot H}, Act handler l s t → good t.log →
    J s.toCore s.log → J t.toCore t.log
  other : ∀ {c : Core} {new log : List Event}, (∀ ev ∈ new, ev.owner ≠ some c.id) →
    J c log → J c (new ++ log)

theorem Kept.slot (hkept : Kept handler good J) (hn : n < 2 ^ 16) {i : Fin n} {l : Label}
    {s : Slot H} (hact : Act handler l (T.slot i) s) (hid : T.Numbered)
    (hT : good T.log → ∀ i, J (T.cores i) T.log) :
    (T.set i s).Numbered ∧ (good s.log → ∀ j, J ((T.set i s).cores j) s.log) := by
  obtain ⟨hsid, new, hlog, hnew⟩ := hact.adds
  refine ⟨hid.set hsid, fun hgood j => ?_⟩
  have hgood' : good T.log := hkept.suffix (hlog ▸ hgood)
  by_cases hj : j = i
  · subst hj
    simp only [Table.set, Function.update_self]
    exact hkept.act hact hgood (hT hgood' j)
  · simp only [Table.set, Function.update_of_ne hj, hlog]
    refine hkept.other (fun ev hev hown => ?_) (hT hgood' j)
    rcases (hnew ev hev).1 with hnone | hsome
    · rw [hnone] at hown
      cases hown
    · rw [hsome] at hown
      exact hid.id_ne hn (Ne.symm hj) (Option.some_inj.mp hown)

theorem Kept.world (hkept : Kept handler good J) (hact : WorldAct T T') (hid : T.Numbered)
    (hT : good T.log → ∀ i, J (T.cores i) T.log) :
    T'.Numbered ∧ (good T'.log → ∀ i, J (T'.cores i) T'.log) := by
  obtain ⟨hcores, new, hlog, hnew⟩ := hact.summary
  refine ⟨fun i => by rw [hcores]; exact hid i, fun hgood i => ?_⟩
  rw [hlog] at hgood
  rw [hcores, hlog]
  refine hkept.other (fun ev hev hown => ?_) (hT (hkept.suffix hgood) i)
  rw [hnew ev hev] at hown
  cases hown

theorem Outcome.each {L : List Label} {may : Fin n → Prop} (hkept : Kept handler good J)
    (hn : n < 2 ^ 16) (h : Outcome handler L may T T') (hid : T.Numbered)
    (hT : good T.log → ∀ i, J (T.cores i) T.log) :
    T'.Numbered ∧ (good T'.log → ∀ i, J (T'.cores i) T'.log) := by
  let I (T : Table H n) : Prop := T.Numbered ∧ (good T.log → ∀ i, J (T.cores i) T.log)
  have hI : I T := ⟨hid, hT⟩
  exact h.invariant (fun T i l s _ hact ⟨hid, hJ⟩ => hkept.slot hn hact hid hJ)
    (fun T T' hact ⟨hid, hJ⟩ => hkept.world hact hid hJ) hI

theorem Processor.initial_numbered (dev : D) (hdl : H) :
    (Processor.initial n dev hdl).table.Numbered := fun _ => rfl

/-- A kept property holds of every connection of a reached processor whose
history is good. -/
theorem Processor.Reachable.each {env : Env D H} {p : Processor D H n}
    (hp : Reachable env p) (hkept : Kept env.handler good J)
    (hinit : ∀ id, J (Connection.initial id).core []) :
    p.table.Numbered ∧ (good p.w.log → ∀ i, J (p.conns i).core p.w.log) := by
  have hn := hp.1
  let I (p : Processor D H n) : Prop :=
    p.table.Numbered ∧ (good p.w.log → ∀ i, J (p.conns i).core p.w.log)
  refine Reachable.induction (I := I) ?_ ?_ hp
  · exact fun dev hdl => ⟨initial_numbered dev hdl, fun _ i => hinit _⟩
  · exact fun p q op hop ⟨hid, hJ⟩ => (exec_outcome hop).each hkept hn hid hJ

end EachSlot

end Tulips.Tcpv4
