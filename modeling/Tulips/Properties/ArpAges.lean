import Tulips.Lib.KeyedSlots
import Tulips.Stack.Arp

/-!
# How the translations of ARP age

The clock of the table and the times of its entries have 8 bits. Beside them the
ticks are counted from the start, with the tick at which each entry was last
written.
-/

namespace Tulips.Arp.Processor

/-- What happens to the table. -/
inductive Event
  | tick
  | update (ipaddr : Ipv4.Address) (ethaddr : Ethernet.Address)

/-- The processor, the ticks so far, and the ticks at which its entries were
last written. -/
structure Aged where
  arp : Processor
  ticks : Nat
  written : Nat → Nat

namespace Aged

def initial : Aged := ⟨.initial, 0, fun _ => 0⟩

def step (s : Aged) : Event → Aged
  | .tick => { s with arp := s.arp.run true, ticks := s.ticks + 1 }
  | .update ipaddr ethaddr =>
      { s with
        arp := s.arp.update ipaddr ethaddr
        written := match s.arp.slotFor ipaddr with
          | none => s.written
          | some i => Function.update s.written i s.ticks }

def run (s : Aged) : List Event → Aged
  | [] => s
  | ev :: evs => (s.step ev).run evs

def Reached (s : Aged) : Prop := ∃ evs, s = initial.run evs

/-- The entry translates an address. -/
def Used (s : Aged) (i : Nat) : Prop :=
  ∃ e ∈ s.arp.table[i]?, e.ipaddr.empty = false

/-- The event does not write the entry. -/
def Spares (s : Aged) (i : Nat) : Event → Prop
  | .tick => True
  | .update ipaddr _ => s.arp.slotFor ipaddr ≠ some i

/-- None of the events writes the entry. -/
def Leaves (i : Nat) : Aged → List Event → Prop
  | _, [] => True
  | s, ev :: evs => s.Spares i ev ∧ Leaves i (s.step ev) evs

/-- Unless it is written again, the entry is cleared by the tick at which it
reaches its greatest age, and not before. -/
def Expires (s : Aged) (i : Nat) : Prop :=
  ∀ evs, Leaves i s evs →
    ((s.run evs).Used i ↔ ((s.run evs).ticks : Int) < s.written i + maxAge)

/-- The update replaces an entry no other of which is older, and leaves the others
as they were. -/
def EvictsOldest (s : Aged) (ipaddr : Ipv4.Address) (ethaddr : Ethernet.Address) : Prop :=
  let after := (s.arp.update ipaddr ethaddr).table
  ∃ i, i < tableSize ∧ after[i]? = some ⟨ipaddr, ethaddr, s.arp.time⟩ ∧
    (∀ j, j ≠ i → after[j]? = s.arp.table[j]?) ∧ ∀ j, j < tableSize → s.written i ≤ s.written j

/-- An entry no other of which is older was written at the time of the last one of
the table, as far as 8 bits tell, and so was no younger one before it. -/
def OldestLast (s : Aged) : Prop :=
  ∃ i, i < tableSize ∧ (∀ j, j < tableSize → s.written i ≤ s.written j) ∧
    s.written i % 256 = s.written (tableSize - 1) % 256 ∧
    ∀ j, j < i → s.written j % 256 = s.written (tableSize - 1) % 256 → s.written j = s.written i

instance (s : Aged) (i : Nat) : Decidable (s.Used i) :=
  match h : s.arp.table[i]? with
  | none => .isFalse (by simp [Used, h])
  | some e => decidable_of_iff (e.ipaddr.empty = false) (by simp [Used, h])

/-! ## Times -/

/-- The 8-bit times are those of the ticks. -/
structure Dated (s : Aged) : Prop where
  length : s.arp.table.length = tableSize
  time : s.arp.time.toNat = s.ticks % 256
  entry : ∀ i e, s.arp.table[i]? = some e → e.time.toNat = s.written i % 256
  past : ∀ i, s.written i ≤ s.ticks

theorem expire_time (time : UInt8) (e : Entry) : (expire time e).time = e.time := by
  unfold expire
  split
  · rfl
  · split <;> rfl

theorem step_tick_entry (s : Aged) (i : Nat) : (s.step .tick).arp.table[i]? =
    (s.arp.table[i]?).map (expire (s.arp.time + 1)) := List.getElem?_map ..

section Updating

variable {s : Aged} {ipaddr : Ipv4.Address} (ethaddr : Ethernet.Address)

theorem step_update_none (h : s.arp.slotFor ipaddr = none) :
    s.step (.update ipaddr ethaddr) = s := by
  simp only [step, update, h]

theorem step_update_some {i : Nat} (h : s.arp.slotFor ipaddr = some i) :
    s.step (.update ipaddr ethaddr) =
      { s with
        arp := { s.arp with table := s.arp.table.set i ⟨ipaddr, ethaddr, s.arp.time⟩ }
        written := Function.update s.written i s.ticks } := by
  simp only [step, update, h]

end Updating

theorem Dated.tick {s : Aged} (h : s.Dated) : (s.step .tick).Dated where
  length := (List.length_map _).trans h.length
  time := by
    show (s.arp.time + 1).toNat = (s.ticks + 1) % 256
    rw [UInt8.toNat_add, h.time, UInt8.toNat_one]
    omega
  entry := by
    intro i e he
    rw [step_tick_entry] at he
    obtain ⟨e', he', rfl⟩ := Option.map_eq_some_iff.mp he
    rw [expire_time]
    exact h.entry i e' he'
  past := fun i => (h.past i).trans (Nat.le_succ _)

theorem Dated.update {s : Aged} (h : s.Dated) (ipaddr : Ipv4.Address)
    (ethaddr : Ethernet.Address) : (s.step (.update ipaddr ethaddr)).Dated := by
  cases hslot : s.arp.slotFor ipaddr with
  | none =>
      rw [step_update_none ethaddr hslot]
      exact h
  | some i =>
      rw [step_update_some ethaddr hslot]
      refine ⟨(List.length_set ..).trans h.length, h.time, fun j e he => ?_, fun j => ?_⟩
      · dsimp only at he ⊢
        rcases KeyedSlots.getElem?_set_cases he with ⟨rfl, rfl⟩ | ⟨hji, he⟩
        · rw [Function.update_self]
          exact h.time
        · rw [Function.update_of_ne hji]
          exact h.entry j e he
      · by_cases hij : j = i
        · subst hij
          exact (Function.update_self ..).le
        · exact (Function.update_of_ne hij _ _).le.trans (h.past j)

theorem Dated.step {s : Aged} (h : s.Dated) (ev : Event) : (s.step ev).Dated := by
  cases ev with
  | tick => exact h.tick
  | update ipaddr ethaddr => exact h.update ipaddr ethaddr

theorem Dated.run {s : Aged} (h : s.Dated) (evs : List Event) : (s.run evs).Dated := by
  induction evs generalizing s with
  | nil => exact h
  | cons ev evs ih => exact ih (h.step ev)

theorem initial_dated : initial.Dated where
  length := List.length_replicate ..
  time := rfl
  entry := by
    intro i e he
    rw [List.eq_of_mem_replicate (List.mem_of_getElem? he)]
    rfl
  past := fun _ => Nat.le_refl 0

theorem Reached.dated {s : Aged} (h : Reached s) : s.Dated := by
  obtain ⟨evs, rfl⟩ := h
  exact initial_dated.run evs

/-! ## Expiry -/

/-- The last tick an entry can be written at to be cleared in time. -/
def lastTick : Nat := 255 - maxAge.toNat

variable {s : Aged} {i : Nat}

/-- A tick clears an entry in use when its age as the 8 bits have it is the
greatest. -/
theorem used_tick (h : s.Dated) : (s.step .tick).Used i ↔
    s.Used i ∧ (s.ticks + 1) % 256 < s.written i % 256 + maxAge.toNat := by
  have htime : (s.arp.time + 1).toNat = (s.ticks + 1) % 256 := h.tick.time
  unfold Used
  rw [step_tick_entry]
  constructor
  · rintro ⟨e', he', hused⟩
    obtain ⟨e, he, rfl⟩ := Option.mem_map.mp he'
    have hdate := h.entry i e he
    unfold expire at hused
    split at hused
    · next hempty =>
        rw [hempty] at hused
        cases hused
    · next hempty =>
        split at hused
        · cases hused
        · next hyoung =>
            refine ⟨⟨e, he, hused⟩, ?_⟩
            rw [htime, hdate, maxAge] at hyoung
            simp only [maxAge]
            omega
  · rintro ⟨⟨e, he, hused⟩, hyoung⟩
    have hdate := h.entry i e he
    refine ⟨e, Option.mem_map.mpr ⟨e, he, ?_⟩, hused⟩
    unfold expire
    rw [if_neg (by rw [hused]; exact Bool.false_ne_true), if_neg]
    rw [htime, hdate, maxAge]
    simp only [maxAge] at hyoung
    omega

theorem step_spares {ev : Event} (h : s.Spares i ev) (hev : ev ≠ .tick) :
    (s.step ev).arp.table[i]? = s.arp.table[i]? ∧ (s.step ev).written i = s.written i ∧
      (s.step ev).ticks = s.ticks := by
  cases ev with
  | tick => exact absurd rfl hev
  | update ipaddr ethaddr =>
      cases hslot : s.arp.slotFor ipaddr with
      | none =>
          rw [step_update_none ethaddr hslot]
          exact ⟨rfl, rfl, rfl⟩
      | some j =>
          have hji : j ≠ i := fun heq => h (heq ▸ hslot)
          rw [step_update_some ethaddr hslot]
          exact ⟨List.getElem?_set_ne hji, Function.update_of_ne (Ne.symm hji) _ _, rfl⟩

theorem lastTick_eq : lastTick = 135 := rfl

theorem maxAge_eq : maxAge = 120 := rfl

theorem used_congr {t : Aged} (h : t.arp.table[i]? = s.arp.table[i]?) : t.Used i ↔ s.Used i := by
  unfold Used
  rw [h]

/-- The entries in use that were written early enough have not reached their
greatest age. -/
def Young (s : Aged) : Prop :=
  ∀ i, s.Used i → s.written i % 256 ≤ lastTick → (s.ticks : Int) < s.written i + maxAge

theorem Young.step (h : s.Young) (hdated : s.Dated) (ev : Event) : (s.step ev).Young := by
  intro i hused hlast
  cases ev with
  | tick =>
      obtain ⟨hbefore, hyoung⟩ := (used_tick hdated).mp hused
      have hage := h i hbefore hlast
      have hpast := hdated.past i
      rw [lastTick_eq] at hlast
      simp only [maxAge] at hyoung hage ⊢
      simp only [Aged.step] at hlast ⊢
      omega
  | update ipaddr ethaddr =>
      by_cases hspares : s.Spares i (.update ipaddr ethaddr)
      · obtain ⟨hentry, hwritten, hticks⟩ := step_spares hspares (by simp)
        rw [hwritten] at hlast ⊢
        rw [hticks]
        exact h i ((used_congr hentry).mp hused) hlast
      · have hnew : (s.step (.update ipaddr ethaddr)).written i = s.ticks := by
          rw [step_update_some ethaddr (not_not.mp hspares)]
          exact Function.update_self ..
        rw [hnew, maxAge_eq]
        simp only [Aged.step]
        omega

theorem initial_young : initial.Young := by
  rintro i ⟨e, he, hused⟩
  rw [List.eq_of_mem_replicate (List.mem_of_getElem? he)] at hused
  cases hused

theorem Young.run (h : s.Young) (hdated : s.Dated) (evs : List Event) : (s.run evs).Young := by
  induction evs generalizing s with
  | nil => exact h
  | cons ev evs ih => exact ih (h.step hdated ev) (hdated.step ev)

theorem Reached.young (h : Reached s) : s.Young := by
  obtain ⟨evs, rfl⟩ := h
  exact initial_young.run initial_dated evs

/-- While nothing writes an entry that was written early enough, its age decides
whether it is in use. -/
theorem Leaves.used_iff {evs : List Event} (hleaves : Leaves i s evs) (h : s.Dated)
    (hlast : s.written i % 256 ≤ lastTick)
    (hage : s.Used i ↔ (s.ticks : Int) < s.written i + maxAge) :
    (s.run evs).Used i ↔ ((s.run evs).ticks : Int) < s.written i + maxAge := by
  induction evs generalizing s with
  | nil => exact hage
  | cons ev evs ih =>
      obtain ⟨hspares, hrest⟩ := hleaves
      have hwritten : (s.step ev).written i = s.written i := by
        cases ev with
        | tick => rfl
        | update ipaddr ethaddr => exact (step_spares hspares (by simp)).2.1
      rw [← hwritten] at hlast ⊢
      refine ih hrest (h.step ev) hlast ?_
      cases ev with
      | tick =>
          have hpast := h.past i
          rw [used_tick h, hage]
          rw [hwritten, lastTick_eq] at hlast
          simp only [step, maxAge]
          omega
      | update ipaddr ethaddr =>
          obtain ⟨hentry, -, hticks⟩ := step_spares hspares (by simp)
          rw [used_congr hentry, hage, hwritten, hticks]

/-- An entry that was written later is not cleared by any number of ticks. -/
theorem used_ticks (h : s.Dated) (hlast : lastTick < s.written i % 256) (hused : s.Used i)
    (k : Nat) : let evs := List.replicate k Event.tick
      Leaves i s evs ∧ (s.run evs).Used i ∧ (s.run evs).ticks = s.ticks + k := by
  induction k generalizing s with
  | zero => exact ⟨trivial, hused, rfl⟩
  | succ k ih =>
      have hnext : (s.step .tick).Used i := by
        refine (used_tick h).mpr ⟨hused, ?_⟩
        rw [lastTick_eq] at hlast
        simp only [maxAge]
        omega
      obtain ⟨hleaves, hlater, hticks⟩ := ih h.tick hlast hnext
      refine ⟨⟨trivial, hleaves⟩, hlater, hticks.trans ?_⟩
      simp only [step]
      omega

/-- In every reached state, an entry in use is cleared by the tick at which it
reaches its greatest age, and not before, just when it was written at a tick that
leaves the clock room to count that far. -/
theorem expires_iff (hs : Reached s) (hused : s.Used i) :
    s.Expires i ↔ s.written i % 256 ≤ lastTick := by
  have hdated := hs.dated
  constructor
  · intro hexpires
    by_contra hlate
    obtain ⟨hleaves, hlater, hticks⟩ := used_ticks hdated (not_le.mp hlate) hused 120
    have hage := (hexpires _ hleaves).mp hlater
    have hpast := hdated.past i
    rw [hticks, maxAge_eq] at hage
    omega
  · intro hlast evs hleaves
    refine hleaves.used_iff hdated hlast ?_
    exact ⟨fun hused => hs.young i hused hlast, fun _ => hused⟩

/-- Two entries, the second of which is two ticks younger than the first. -/
theorem expires_iff_second :
    let s := initial.run [.update ⟨7⟩ .zero, .tick, .tick, .update ⟨8⟩ .zero, .tick]
    s.written 0 = 0 ∧ s.written 1 = 2 ∧ s.ticks = 3 ∧ s.Expires 0 ∧ s.Expires 1 := by
  intro s
  have hs : s.Reached := ⟨_, rfl⟩
  refine ⟨by decide, by decide, by decide, ?_, ?_⟩
  · exact (expires_iff hs (by decide)).mpr (by decide)
  · exact (expires_iff hs (by decide)).mpr (by decide)

/-- An entry that is written at the tick 136 is still there 120 ticks later. -/
theorem not_expires : ¬ ∀ (s : Aged) (i : Nat), Reached s → s.Used i → s.Expires i := by
  intro hall
  let s := initial.run (List.replicate 136 .tick ++ [.update ⟨7⟩ .zero])
  have hs : Reached s := ⟨_, rfl⟩
  have hused : s.Used 0 := by decide +kernel
  have hticks : s.ticks = 136 := by decide +kernel
  have hwritten : s.written 0 = 136 := by decide +kernel
  have hlast : lastTick < s.written 0 % 256 := by
    rw [hwritten]
    decide
  obtain ⟨hleaves, hlater, hafter⟩ := used_ticks hs.dated hlast hused 120
  have hage := (hall s 0 hs hused _ hleaves).mp hlater
  rw [hafter, hticks, hwritten] at hage
  exact absurd hage (by decide)

/-! ## Eviction -/

/-- When the table is full, a new address goes to the first entry that is as old
as the last one, as far as 8 bits tell. -/
theorem slotFor_full {ipaddr : Ipv4.Address} (h : s.Dated)
    (hfull : ∀ i, i < tableSize → s.Used i) (hnew : ∀ e ∈ s.arp.table, e.ipaddr ≠ ipaddr) :
    ∃ i, s.arp.slotFor ipaddr = some i ∧ i < tableSize ∧
      s.written i % 256 = s.written (tableSize - 1) % 256 ∧
      ∀ j, j < i → s.written j % 256 ≠ s.written (tableSize - 1) % 256 := by
  have hused : ∀ e ∈ s.arp.table, e.ipaddr.empty = false := by
    intro e he
    obtain ⟨i, hi⟩ := List.mem_iff_getElem?.mp he
    have hlt : i < tableSize := by
      rw [← h.length]
      exact (List.getElem?_eq_some_iff.mp hi).1
    obtain ⟨e', he', hempty⟩ := hfull i hlt
    rw [Option.mem_def, hi, Option.some_inj] at he'
    rwa [he']
  have hself : s.arp.table.findIdx? (fun e => !e.ipaddr.empty && ipaddr == e.ipaddr) = none := by
    apply List.findIdx?_eq_none_iff.mpr
    intro e he
    simp [Ne.symm (hnew e he)]
  have hunused : s.arp.table.findIdx? (·.ipaddr.empty) = none :=
    List.findIdx?_eq_none_iff.mpr hused
  obtain ⟨last, hlast, -⟩ := hfull (tableSize - 1) (by decide)
  have hget : s.arp.table.getLast? = some last := by
    rw [List.getLast?_eq_getElem?, h.length]
    exact hlast
  have hdate := h.entry (tableSize - 1) last hlast
  -- The entries are compared by their times, which are the dates of their writing.
  have hsame : ∀ i e, s.arp.table[i]? = some e →
      ((e.time == last.time) = true ↔ s.written i % 256 = s.written (tableSize - 1) % 256) := by
    intro i e he
    rw [beq_iff_eq, ← UInt8.toNat_inj, h.entry i e he, hdate]
  have hfound : (s.arp.table.findIdx? (·.time == last.time)).isSome = true := by
    rw [List.findIdx?_isSome, List.any_eq_true]
    exact ⟨last, List.mem_of_getElem? hlast, beq_self_eq_true _⟩
  obtain ⟨i, hi⟩ := Option.isSome_iff_exists.mp hfound
  obtain ⟨hlt, htime, hfirst⟩ := List.findIdx?_eq_some_iff_getElem.mp hi
  refine ⟨i, ?_, h.length ▸ hlt, ?_, fun j hj heq => ?_⟩
  · simp only [slotFor, hself, hunused, hget, hi]
  · exact (hsame i _ (List.getElem?_eq_getElem hlt)).mp htime
  · have hjlt : j < s.arp.table.length := hj.trans hlt
    exact hfirst j hj ((hsame j _ (List.getElem?_eq_getElem hjlt)).mpr heq)

/-- In every reached state with a full table, an update for a new address replaces
an oldest entry just when one of the oldest entries has the 8-bit time of the last
one, and no younger one before it has. -/
theorem evicts_oldest_iff (hs : Reached s) (hfull : ∀ i, i < tableSize → s.Used i)
    {ipaddr : Ipv4.Address} (hnew : ∀ e ∈ s.arp.table, e.ipaddr ≠ ipaddr)
    (ethaddr : Ethernet.Address) : s.EvictsOldest ipaddr ethaddr ↔ s.OldestLast := by
  have hdated := hs.dated
  obtain ⟨i, hslot, hlt, hsame, hfirst⟩ := slotFor_full hdated hfull hnew
  have htable : (s.arp.update ipaddr ethaddr).table =
      s.arp.table.set i ⟨ipaddr, ethaddr, s.arp.time⟩ := by
    simp only [update, hslot]
  have hself : (s.arp.update ipaddr ethaddr).table[i]? = some ⟨ipaddr, ethaddr, s.arp.time⟩ := by
    rw [htable, List.getElem?_set_self]
    rw [hdated.length]
    exact hlt
  constructor
  · rintro ⟨j, hj, hat, hother, holdest⟩
    have hij : i = j := by
      by_contra hne
      rw [hother i hne] at hself
      exact hnew _ (List.mem_of_getElem? hself) rfl
    subst hij
    exact ⟨i, hlt, holdest, hsame, fun j hj heq => absurd heq (hfirst j hj)⟩
  · rintro ⟨j, hj, holdest, hjsame, hbefore⟩
    have hold : s.written i = s.written j := by
      rcases lt_trichotomy i j with h | h | h
      · exact hbefore i h hsame
      · rw [h]
      · exact absurd hjsame (hfirst j h)
    refine ⟨i, hlt, hself, fun k hk => ?_, fun k hk => ?_⟩
    · rw [htable]
      exact List.getElem?_set_ne (Ne.symm hk)
    · rw [hold]
      exact holdest k hk

/-- The first neighbours say where they are. -/
def neighbours (ks : List Nat) : List Event :=
  ks.map fun k => .update ⟨UInt32.ofNat (k + 1)⟩ .zero

/-- After a tick the first five entries are written again, so that the oldest one is the
sixth. -/
theorem evicts_oldest_iff_sixth :
    let s := initial.run (neighbours (List.range 32) ++ .tick :: neighbours (List.range 5))
    s.written 4 = 1 ∧ s.written 5 = 0 ∧ s.EvictsOldest ⟨100⟩ .zero := by
  intro s
  have hs : s.Reached := ⟨_, rfl⟩
  have hfull : ∀ i, i < tableSize → s.Used i := by decide +kernel
  have hnew : ∀ e ∈ s.arp.table, e.ipaddr ≠ ⟨100⟩ := by decide +kernel
  refine ⟨by decide +kernel, by decide +kernel, (evicts_oldest_iff hs hfull hnew .zero).mpr ?_⟩
  exact ⟨5, by decide, by decide +kernel, by decide +kernel, by decide +kernel⟩

/-- The oldest entry is the first, and the second is replaced. -/
theorem not_evicts_oldest : ¬ ∀ (s : Aged) (ipaddr : Ipv4.Address) (ethaddr : Ethernet.Address),
    Reached s → (∀ i, i < tableSize → s.Used i) → (∀ e ∈ s.arp.table, e.ipaddr ≠ ipaddr) →
    s.EvictsOldest ipaddr ethaddr := by
  intro hall
  let s := initial.run (neighbours [0] ++ .tick :: neighbours (List.range' 1 31))
  have hfull : ∀ i, i < tableSize → s.Used i := by decide +kernel
  have hnew : ∀ e ∈ s.arp.table, e.ipaddr ≠ ⟨100⟩ := by decide +kernel
  obtain ⟨i, hlt, hat, -, holdest⟩ := hall s ⟨100⟩ .zero ⟨_, rfl⟩ hfull hnew
  have hwritten : ∀ j, j < tableSize → j = 0 ∨ s.written 0 < s.written j := by decide +kernel
  rcases hwritten i hlt with rfl | hlater
  · have hkept : (s.arp.update ⟨100⟩ .zero).table[0]? ≠ some ⟨⟨100⟩, .zero, s.arp.time⟩ := by
      decide +kernel
    exact hkept hat
  · exact absurd (holdest 0 (by decide)) (not_le.mpr hlater)

end Aged

end Tulips.Arp.Processor
