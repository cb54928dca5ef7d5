import Tulips.Machine.Ownership
import Tulips.Machine.Testbed

/-!
# The owners of the send buffers

As long as the device takes every segment of a ring and replaces every buffer it
has taken, the processor stores to and commits only buffers it holds for the
connection at hand, and every open connection has a send buffer of its own.
-/

namespace Tulips.Tcpv4

open History Ledger

/-! ## Good answers of the device -/

def Event.transmits (id : UInt16) : Event → Bool
  | .transmit id' _ _ _ _ _ => id' == id
  | _ => false

/-- How many segments the connection has sent since it was created. -/
def sentCount (id : UInt16) (log : List Event) : Nat :=
  (sinceCreate id log).countP (Event.transmits id)

/-- The device has taken the segment, or has given the next buffer. Only the SYN
of `Processor::connect`, whose failure closes the connection again, may fail. -/
def Event.SuppliedAfter (log : List Event) : Event → Prop
  | .transmit id st _ _ _ ret => ret = .ok ∨ st = .synSent ∧ sentCount id log = 0
  | .refill id st first buf _ =>
      buf ≠ none ∨ st = .synSent ∧ first = true ∧ sentCount id log = 1
  | _ => True

def Supplied : List Event → Prop := Always Event.SuppliedAfter

instance (log : List Event) : DecidablePred (Event.SuppliedAfter log) := fun ev =>
  match ev with
  | .transmit id st _ _ _ ret =>
      inferInstanceAs (Decidable (ret = .ok ∨ st = .synSent ∧ sentCount id log = 0))
  | .refill id st first buf _ =>
      inferInstanceAs (Decidable (buf ≠ none ∨ st = .synSent ∧ first = true ∧ sentCount id log = 1))
  | .prepare _ _ | .write _ _ | .commit _ _ _ _ _ | .listen _ _ | .unlisten _
  | .callback _ _ _ | .create _ _ _ _ | .synced _ _ | .rexmit _ _ _ _ _ | .control _ _ _
  | .immediateAck _ _ | .append _ _ _ => isTrue trivial

instance : DecidablePred Supplied := inferInstanceAs (DecidablePred (Always Event.SuppliedAfter))

variable {new log : List Event} {id : UInt16}

theorem sentCount_append (h : ∀ ev ∈ new, ev.creates id = false) :
    sentCount id (new ++ log) = new.countP (Event.transmits id) + sentCount id log := by
  rw [sentCount, sinceCreate_append h, List.countP_append]
  rfl

theorem sentCount_pos_append (h : ∀ ev ∈ new, ev.creates id = false)
    (hpos : 0 < sentCount id log) : 0 < sentCount id (new ++ log) := by
  rw [sentCount_append h]
  exact Nat.lt_add_left _ hpos

/-! ## The connections -/

/-- The send buffer of a connection is its own, an open connection has one and
has sent something, and its segments in flight have a buffer. -/
structure Core.Equipped (c : Core) (log : List Event) : Prop where
  held : ∀ p, c.sdat = some p → Holds (some c.id) p.buf (ledger log)
  ready : c.state ≠ .closed → c.sdat ≠ none
  sent : c.state ≠ .closed → 0 < sentCount c.id log
  bound : ∀ i, (c.segments i).isFree = false → (c.segments i).dat ≠ none

section Act

variable {H : Type} {handler : EventHandler H} {s t : Slot H} {c c' : Core}

/-- What the later core of an equipped connection needs to be equipped. -/
theorem Core.Equipped.later (h : c.Equipped log) (hid : c'.id = c.id)
    (hheld : ∀ p, c'.sdat = some p → Holds (some c.id) p.buf (ledger (new ++ log)))
    (hready : c'.state ≠ .closed → c.state ≠ .closed ∧ c'.sdat ≠ none)
    (hbound : ∀ i, (c'.segments i).isFree = false → (c'.segments i).dat ≠ none)
    (hnew : ∀ ev ∈ new, ev.creates c.id = false) : c'.Equipped (new ++ log) where
  held p hp := hid ▸ hheld p hp
  ready hopen := (hready hopen).2
  sent hopen := hid ▸ sentCount_pos_append hnew (h.sent (hready hopen).1)
  bound := hbound

/-- A connection that keeps its buffer stays equipped. -/
theorem Core.Equipped.kept (h : c.Equipped log) (hid : c'.id = c.id) (hsdat : c'.sdat = c.sdat)
    (hstate : c'.state ≠ .closed → c.state ≠ .closed)
    (hbound : ∀ i, (c'.segments i).isFree = false → (c'.segments i).dat ≠ none)
    (hledger : ledger (new ++ log) = ledger log)
    (hnew : ∀ ev ∈ new, ev.creates c.id = false) : c'.Equipped (new ++ log) := by
  refine h.later hid (fun p hp => ?_) (fun hopen => ⟨hstate hopen, ?_⟩) hbound hnew
  · rw [hledger]
    exact h.held p (hsdat ▸ hp)
  · rw [hsdat]
    exact h.ready (hstate hopen)

/-- An equipped connection sends a segment of its ring from its send buffer. -/
theorem Transmitted.equipped {known : Prop} {g : List Event} {k : Fin segmentCount}
    {hlen n : Nat} {r : Slot H} (h : Transmitted handler known k hlen n r t)
    (he : c.Equipped log) (hopen : c.state ≠ .closed)
    (hid : r.id = c.id) (hdat : (r.segments k).dat = c.sdat)
    (hbound : ∀ i, (r.segments i).isFree = false → (r.segments i).dat ≠ none)
    (hlog : r.log = g ++ log) (hnew : ∀ ev ∈ g, ev.creates c.id = false)
    (hlaw : LawfulLog r.log) (hledger : ledger r.log = ledger log) (hsup : Supplied t.log) :
    LawfulLog t.log ∧ t.toCore.Equipped t.log := by
  have hsent : 0 < sentCount r.id r.log := by
    rw [hid, hlog]
    exact sentCount_pos_append hnew (he.sent hopen)
  obtain ⟨_, _, -, ⟨more, hmore, hmem, hfrom⟩, -⟩ := h.summary (l := .emit) (by decide)
  have hquiet : ∀ ev ∈ more, ev.creates r.id = false := fun ev hev =>
    (hfrom ev hev).not_creates (by decide) _
  refine ⟨h.lawful (fun p hp => by
    rw [hid, hledger]
    exact he.held p (hdat ▸ hp)) hlaw, ?_⟩
  obtain ⟨p, -, hout⟩ := h.ledger_eq
  rcases hout with ⟨ret, hret, -, -, mid, hends⟩ | ⟨-, -, mid, hends⟩ |
    ⟨buf, hsdat, -, hled⟩
  -- A supplied run refuses a connection its first frame at most, and this one has sent before.
  · have hmid : more = _ :: mid := List.append_cancel_right (hmore.symm.trans hends)
    rw [hends] at hsup
    refine absurd (hsup.1.resolve_left hret).2 (Nat.pos_iff_ne_zero.mp ?_)
    exact sentCount_pos_append (fun ev hev => hquiet ev (hmid ▸ List.mem_cons_of_mem _ hev)) hsent
  · have hmid : more = _ :: mid := List.append_cancel_right (hmore.symm.trans hends)
    rw [hends] at hsup
    have hone := (hsup.1.resolve_left fun h => h rfl).2.2
    rw [sentCount_append fun ev hev => hquiet ev (hmid ▸ List.mem_cons_of_mem _ hev)] at hone
    rw [hmid] at hmem
    have hcount : 0 < mid.countP (Event.transmits r.id) := by
      refine List.countP_pos_iff.mpr ⟨_, (List.mem_cons.mp hmem).resolve_left ?_, ?_⟩
      · intro heq
        cases heq
      · simp [Event.transmits]
    omega
  · obtain ⟨sndNxt, sdat, hcore⟩ := h.core_eq
    have htlog : t.log = (more ++ g) ++ log := by rw [hmore, hlog, List.append_assoc]
    rw [htlog] at hled ⊢
    refine he.later ((congrArg Core.id hcore :).trans hid) (fun q hq => ?_)
      (fun _ => ⟨hopen, by rw [hsdat]; simp⟩) ?_ fun ev hev => ?_
    · rw [hsdat] at hq
      cases hq
      rw [hled, hid]
      exact Or.inl ⟨rfl, rfl⟩
    · rw [show t.segments = r.segments from (congrArg Core.segments hcore :)]
      exact hbound
    · rcases List.mem_append.mp hev with hev | hev
      · exact hid ▸ hquiet ev hev
      · exact hnew ev hev

/-- An equipped connection sends a segment without data. -/
theorem SentControl.equipped {known : Prop} {r : Slot H} (h : SentControl known r t)
    (he : c.Equipped log) (hid : r.id = c.id) (hsdat : r.sdat = c.sdat)
    (hstate : r.state ≠ .closed → c.state ≠ .closed)
    (hbound : ∀ i, (r.segments i).isFree = false → (r.segments i).dat ≠ none)
    (hlog : r.log = new ++ log) (hnew : ∀ ev ∈ new, ev.creates c.id = false)
    (hlaw : LawfulLog r.log)
    (hheld : ∀ p, c.sdat = some p → Holds (some c.id) p.buf (ledger r.log))
    (hsup : Supplied t.log) : LawfulLog t.log ∧ t.toCore.Equipped t.log := by
  obtain ⟨sdat, hcore⟩ := h.core_eq
  -- Which label the commit has depends on the state: a closed connection is being killed.
  obtain ⟨l, hl, hlabel⟩ : ∃ l ∈ (Event.control r.id r.state r.slen).labels,
      l ∉ Label.opening := by
    by_cases hclosed : r.state = .closed
    · exact ⟨.kill, by simp [Event.labels, hclosed], by decide⟩
    · exact ⟨.control, by simp [Event.labels, hclosed], by decide⟩
  obtain ⟨more, hmore, hfrom⟩ := h.adds hl
  have hlawt := h.lawful (fun p hp => by
    rw [hid]
    exact hheld p (hsdat ▸ hp)) hlaw
  obtain ⟨q, hq, -, hout⟩ := h.ledger_eq
  have htlog : t.log = (more ++ new) ++ log := by rw [hmore, hlog, List.append_assoc]
  have hfresh : ∀ ev ∈ more ++ new, ev.creates c.id = false := by
    intro ev hev
    rcases List.mem_append.mp hev with hev | hev
    · exact (hfrom ev hev).not_creates hlabel _
    · exact hnew ev hev
  have htid : t.id = c.id := (congrArg Core.id hcore :).trans hid
  have htstate : t.state ≠ .closed → c.state ≠ .closed := by
    rw [show t.state = r.state from (congrArg Core.state hcore :)]
    exact hstate
  have htbound : ∀ i, (t.segments i).isFree = false → (t.segments i).dat ≠ none := by
    rw [show t.segments = r.segments from (congrArg Core.segments hcore :)]
    exact hbound
  refine ⟨hlawt, ?_⟩
  rcases hout with ⟨-, -, -, -, -, hkeep, hled, -⟩ | ⟨mid, -, -, hends, -⟩ | ⟨buf, hbuf, -, hled⟩
  · rw [htlog] at hled ⊢
    refine he.later htid (fun x hx => ?_) (fun hopen => ⟨htstate hopen, ?_⟩) htbound hfresh
    · rw [hled]
      exact hheld x (by rw [← hsdat, ← hkeep]; exact hx)
    · rw [hkeep, hsdat]
      exact he.ready (htstate hopen)
  · rw [hends] at hsup
    have hfirst := (hsup.1.resolve_left fun h => h rfl).2.1
    cases hfirst
  · rw [htlog] at hled ⊢
    refine he.later htid (fun x hx => ?_) (fun hopen => ⟨htstate hopen, by rw [hbuf]; simp⟩)
      htbound hfresh
    rw [hbuf] at hx
    cases hx
    rw [hled, hid]
    exact Or.inl ⟨rfl, rfl⟩

theorem Opened.equipped {peer : Peer} {st : State} {iss : UInt32} {p : Ptr}
    (h : Opened handler peer st iss p s t) (hfetched : Fetched p.buf s.log)
    (he : s.toCore.Equipped s.log) (hlaw : LawfulLog s.log) (hsup : Supplied t.log) :
    LawfulLog t.log ∧ (∀ q, t.sdat = some q → Holds (some t.id) q.buf (ledger t.log)) ∧
      (∀ i, (t.segments i).isFree = false → (t.segments i).dat ≠ none) ∧
      ((st = .synRcvd ∨ st = .synSent ∧ Replenished t) → t.toCore.Equipped t.log) := by
  obtain ⟨leftover, rcvNxt, synced, k, ret, -, hsynced, -, ⟨new, hnew, hmem, hfrom⟩, hcore⟩ :=
    h.summary
  have hlawt := h.lawful hfetched.holds hlaw
  have hout := h.ledger_eq
  have hid : t.id = s.id := by
    rcases hcore with ⟨-, -, hcore⟩ | ⟨-, sdat, hcore⟩
    · exact (congrArg Core.id hcore :)
    · exact (congrArg Core.id hcore :)
  have hsegs : t.segments = Function.update s.segments k ⟨1, iss, some p⟩ := by
    rcases hcore with ⟨-, -, hcore⟩ | ⟨-, sdat, hcore⟩
    · exact (congrArg Core.segments hcore :)
    · exact (congrArg Core.segments hcore :)
  have hbound : ∀ i, (t.segments i).isFree = false → (t.segments i).dat ≠ none := by
    intro i hbusy
    rw [hsegs] at hbusy ⊢
    by_cases hi : i = k
    · subst hi
      simp
    · rw [Function.update_of_ne hi] at hbusy ⊢
      exact he.bound i hbusy
  have hsent : 0 < sentCount t.id t.log := by
    rw [hid, hnew, sentCount_append fun ev hev => (hfrom ev hev).not_creates (by decide) _]
    refine Nat.lt_add_right _ (List.countP_pos_iff.mpr ⟨_, hmem, ?_⟩)
    simp [Event.transmits]
  -- A history that ends with a failure of the device is not a good one.
  have hlast : ∀ ev, EndsWith ev s.log t → (∀ log, ev.SuppliedAfter log → st = .synSent) →
      (∀ id st first buf clash, ev ≠ .refill id st first (some buf) clash) →
      ¬(st = .synRcvd ∨ st = .synSent ∧ Replenished t) := by
    rintro ev hends hev hnot (rfl | ⟨-, hfull⟩)
    · obtain ⟨mid, hlog⟩ := hends
      rw [hlog] at hsup
      cases hev _ hsup.1
    · exact hends.not_replenished hnot hfull
  refine ⟨hlawt, ?_, hbound, ?_⟩
  · intro q hq
    rcases hout with ⟨_, -, hsdat, -⟩ | ⟨hsdat, -⟩ | ⟨buf, hsdat, -, hled⟩
    · rw [hsdat] at hq; cases hq
    · rw [hsdat] at hq; cases hq
    · rw [hsdat] at hq
      cases hq
      rw [hled, hid]
      exact Or.inl ⟨rfl, rfl⟩
  · intro hst
    rcases hout with ⟨ret', hret, -, -, hends⟩ | ⟨-, -, hends⟩ | ⟨buf, hsdat, -, hled⟩
    · exact absurd hst (hlast _ hends (fun _ h => (h.resolve_left hret).1) (by simp))
    · exact absurd hst (hlast _ hends (fun _ h => (h.resolve_left fun h => h rfl).1) (by simp))
    · refine ⟨fun q hq => ?_, fun _ => by rw [hsdat]; simp, fun _ => hsent, hbound⟩
      rw [hsdat] at hq
      cases hq
      rw [hled, hid]
      exact Or.inl ⟨rfl, rfl⟩

/-- Every act of an equipped connection that is supplied is lawful and leaves it
equipped. -/
theorem Act.equipped {l : Label} (h : Act handler l s t) (he : s.toCore.Equipped s.log)
    (hlaw : LawfulLog s.log) (hsup : Supplied t.log) :
    LawfulLog t.log ∧ t.toCore.Equipped t.log := by
  -- Most acts keep the buffers and enter nothing.
  have hquiet : l ∉ Label.opening → t.sdat = s.sdat →
      (∀ i, (t.segments i).isFree = false → (t.segments i).dat ≠ none) →
      LawfulLog t.log ∧ ledger t.log = ledger s.log →
      LawfulLog t.log ∧ t.toCore.Equipped t.log := by
    intro hl hsdat hbound ⟨hlawt, hledger⟩
    obtain ⟨hid, new, hlog, hfrom⟩ := h.adds
    rw [hlog] at hlawt hledger ⊢
    exact ⟨hlawt, he.kept hid hsdat (fun hopen hclosed => hopen ((h.change hl).closed hclosed))
      hbound hledger fun ev hev => (hfrom ev hev).not_creates hl _⟩
  have hcore : l ∉ Label.opening → t.toCore = s.toCore →
      LawfulLog t.log ∧ ledger t.log = ledger s.log →
      LawfulLog t.log ∧ t.toCore.Equipped t.log := by
    intro hl hcore
    refine hquiet hl (congrArg Core.sdat hcore :) ?_
    rw [show t.segments = s.segments from (congrArg Core.segments hcore :)]
    exact he.bound
  -- A slot of the ring is filled from the send buffer of an open connection.
  have hfill : ∀ k (x : Segment), s.state ≠ .closed → x.dat = s.sdat → ∀ i,
      (Function.update s.segments k x i).isFree = false →
      (Function.update s.segments k x i).dat ≠ none := by
    intro k x hopen hx i hbusy
    by_cases hi : i = k
    · subst hi
      rw [Function.update_self, hx]
      exact he.ready hopen
    · rw [Function.update_of_ne hi] at hbusy ⊢
      exact he.bound i hbusy
  have hcontrol : ∀ {known : Prop} {u : Slot H} {st : State} {l : Label}, SentControl known u t →
      (st ≠ .closed → s.state ≠ .closed) → u.toCore = (s.moved st).toCore → l ∉ Label.opening →
      Adds (Event.From l s.id) s u → LawfulLog u.log →
      (∀ p, s.sdat = some p → Holds (some s.id) p.buf (ledger u.log)) →
      LawfulLog t.log ∧ t.toCore.Equipped t.log := by
    intro known u st l hsend hst hu hl ⟨new, hlog, hfrom⟩ hlawu hheld
    refine hsend.equipped he (congrArg Core.id hu :) (congrArg Core.sdat hu :) ?_ ?_ hlog
      (fun ev hev => (hfrom ev hev).not_creates hl _) hlawu hheld hsup
    · rw [show u.state = st from (congrArg Core.state hu :)]
      exact hst
    · rw [show u.segments = s.segments from (congrArg Core.segments hu :)]
      exact he.bound
  cases h with
  | note hev =>
      have hidle := hlaw.idle (g := [_]) fun ev hmem => by
        rw [List.mem_singleton.mp hmem]
        exact Event.idle_of_isNote hev
      exact hcore (by decide) rfl hidle
  | life _ hcall =>
      exact hcore (by decide) hcall.toCore_eq ⟨hcall.lawful hlaw, hcall.ledger_eq⟩
  | data _ hcall =>
      exact hcore (by decide) hcall.toCore_eq ⟨hcall.lawful hlaw, hcall.ledger_eq⟩
  | move => exact hquiet (by decide) rfl he.bound ⟨hlaw, rfl⟩
  | settle => exact hquiet (by decide) rfl he.bound ⟨hlaw, rfl⟩
  | rcv hsynced =>
      exact hquiet (by decide) rfl he.bound
        (hlaw.idle fun ev hev => Event.idle_of_synced (hsynced ev hev))
  | news => exact hquiet (by decide) rfl he.bound ⟨hlaw, rfl⟩
  | clear =>
      refine hquiet (by decide) rfl (fun i hbusy => ?_) ⟨hlaw, rfl⟩
      by_cases hi : i = s.segidx
      · subst hi
        simp [Slot.cleared, Segment.isFree, Segment.cleared] at hbusy
      · simp only [Slot.cleared, Function.update_of_ne hi] at hbusy ⊢
        exact he.bound i hbusy
  | store hstate hsdat hrange hstore =>
      exact hcore (by decide) hstore.toCore_eq
        ⟨hstore.lawful (he.held _ hsdat) hlaw, hstore.ledger_eq⟩
  | append => exact hquiet (by decide) rfl he.bound ⟨⟨trivial, hlaw⟩, rfl⟩
  | @emit s t k hstate hfree hsend =>
      have hopen : s.state ≠ .closed := by rw [hstate]; decide
      exact hsend.equipped he hopen rfl (by rw [Slot.pushed_segments_self])
        (hfill k _ hopen rfl) (List.nil_append _).symm (by simp) hlaw rfl hsup
  | @fin s t st k hstate hst hfree hsend =>
      have hopen : s.state ≠ .closed := by rcases hstate with h | h <;> rw [h] <;> decide
      exact hsend.equipped he hopen rfl (by rw [Slot.pushed_segments_self]; rfl)
        (hfill k _ hopen rfl) (List.nil_append _).symm (by simp) hlaw rfl hsup
  | @resend s u t intact p hlen n hstate hsdat hintact hcopy hstore hkind hsend =>
      have hu : u.toCore = s.toCore := hstore.toCore_eq
      obtain ⟨writes, hlog, hfrom⟩ := hstore.adds (l := .resend)
      have hlawu := hstore.lawful (he.held p hsdat) ⟨trivial, hlaw⟩
      have hledger : ledger u.log = ledger s.log := hstore.ledger_eq
      set mark := Event.rexmit s.id s.state s.slen (s.segments s.segidx) intact
      have hswap : u.swapped.segments = Function.update s.segments s.segidx
          { s.segments s.segidx with dat := s.sdat } := by simp only [Slot.swapped, hu]
      refine hsend.equipped (g := writes ++ [mark]) he hstate (congrArg Core.id hu :) ?_ ?_ ?_ ?_
        hlawu hledger hsup
      · rw [hswap, Function.update_self]
      · rw [hswap]
        exact hfill _ _ hstate rfl
      · show u.log = _
        rw [hlog]
        simp [Slot.logged]
      · intro ev hev
        rcases List.mem_append.mp hev with hev | hev
        · exact (hfrom ev hev).not_creates (by decide) _
        · rw [List.mem_singleton.mp hev]
          rfl
  | control hstate hslen hsdat hstore hsend =>
      exact hcontrol (l := .control) hsend (fun h => h) hstore.toCore_eq (by decide) hstore.adds
        (hstore.lawful (he.held _ hsdat) hlaw) fun p hp => hstore.ledger_eq ▸ he.held p hp
  | spare hstate hslen hspare hsend =>
      obtain ⟨buf, hledger⟩ := hspare.ledger_eq
      refine hcontrol (l := .spare) hsend (fun h => h) hspare.toCore_eq (by decide) hspare.adds
        (hspare.lawful hlaw) fun p hp => ?_
      rw [hledger]
      exact Or.inr (he.held p hp)
  | kill hstate hsdat hstore hsend =>
      have hledger : ledger _ = ledger s.log := hstore.ledger_eq
      exact hcontrol (l := .kill) hsend (by simp) hstore.toCore_eq (by decide) hstore.adds
        (hstore.lawful (he.held _ hsdat) hlaw) fun p hp => hledger ▸ he.held p hp
  | @abort s u v w t p port hcall hsdat hflags hstore hsend =>
      have hu : u.toCore = (s.moved .closed).toCore := hcall.toCore_eq
      have hv : v.toCore = (s.moved .closed).toCore := hflags.toCore_eq.trans hu
      have hw : w.toCore = (s.moved .closed).toCore := hstore.toCore_eq.trans hv
      have hid : u.id = s.id := (congrArg Core.id hu :)
      have hid' : v.id = s.id := (congrArg Core.id hv :)
      have hledgeru : ledger u.log = ledger s.log := hcall.ledger_eq
      have hledger : ledger v.log = ledger s.log := hflags.ledger_eq.trans hledgeru
      have hlawv := hflags.lawful (by rw [hid, hledgeru]; exact he.held p hsdat)
        (hcall.lawful hlaw)
      have hlaww := hstore.lawful (by
        show Holds (some v.id) p.buf (ledger v.log)
        rw [hid', hledger]
        exact he.held p hsdat) ⟨trivial, hlawv⟩
      have hadds : Adds (Event.From .abort s.id) s w := by
        have hsu : Adds (Event.From .abort s.id) s u := hcall.adds fun id a => by
          simp [Event.labels, Callback.isData]
        have huv : Adds (Event.From .abort s.id) u v := hid ▸ hflags.adds
        have hnote : Adds (Event.From .abort s.id) v (v.logged (.unlisten port)) :=
          .logged ⟨.inl rfl, Event.mem_labels_of_plain rfl⟩
        have hvw : Adds (Event.From .abort s.id) (v.logged (.unlisten port)) w :=
          hid' ▸ hstore.adds
        exact ((hsu.trans huv).trans hnote).trans hvw
      refine hcontrol (l := .abort) hsend (by simp) hw (by decide) hadds hlaww fun q hq => ?_
      rw [show ledger w.log = ledger v.log from hstore.ledger_eq, hledger]
      exact he.held q hq
  | create hstate hst hoff hfetched hopen =>
      obtain ⟨hlawt, -, -, hall⟩ := hopen.equipped hfetched he hlaw hsup
      exact ⟨hlawt, hall hst⟩
  | @createFailed s u t peer iss p port hstate hoff hfetched hopen ht =>
      subst ht
      obtain ⟨hlawu, hheld, hbound, -⟩ := hopen.equipped hfetched he hlaw hsup.2
      exact ⟨⟨trivial, hlawu⟩, hheld, fun h => absurd rfl h, fun h => absurd rfl h, hbound⟩

end Act

/-! ## The table -/

section Table

variable {D H : Type} {n : Nat} {T T' : Table H n} {c : Core}

/-- What other connections do leaves a connection equipped. -/
theorem Core.Equipped.other (h : c.Equipped log) (hnew : ∀ ev ∈ new, ev.owner ≠ some c.id) :
    c.Equipped (new ++ log) where
  held p hp := (holds_append_of_owner_ne hnew).mpr (h.held p hp)
  ready := h.ready
  sent hopen := sentCount_pos_append
    (fun ev hev => Event.creates_of_owner (hnew ev hev)) (h.sent hopen)
  bound := h.bound

theorem WorldAct.lawful (h : WorldAct T T') (hlaw : LawfulLog T.log) : LawfulLog T'.log := by
  have hfetched : ∀ {buf : Nat} {writes : List Event},
      (∀ ev ∈ writes, ev = .write none buf) →
      LawfulLog (writes ++ .prepare none (some buf) :: T.log) ∧
        Holds none buf (ledger (writes ++ .prepare none (some buf) :: T.log)) := by
    intro buf writes hwrites
    have hheld : Holds none buf (ledger (.prepare none (some buf) :: T.log)) := Or.inl ⟨rfl, rfl⟩
    have hprepared : LawfulLog (.prepare none (some buf) :: T.log) := ⟨trivial, hlaw⟩
    refine ⟨hprepared.writes hwrites hheld, ?_⟩
    rwa [ledger_writes hwrites]
  cases h with
  | @note ev hev howner =>
      exact (hlaw.idle (g := [ev]) fun x hx => by
        rw [List.mem_singleton.mp hx]
        exact Event.idle_of_isNote hev).1
  | fetch hwrites hmem => exact (hfetched hwrites).1
  | reset hwrites hmem => exact ⟨(hfetched hwrites).2, (hfetched hwrites).1⟩

/-- The connections carry their numbers and, as long as the device supplies them,
are equipped. -/
def Table.Equipped (T : Table H n) : Prop :=
  T.Numbered ∧ (Supplied T.log → LawfulLog T.log ∧ ∀ i, (T.cores i).Equipped T.log)

theorem Table.Equipped.slot {handler : EventHandler H} {i : Fin n} {l : Label} {s : Slot H}
    (hn : n < 2 ^ 16) (hact : Act handler l (T.slot i) s) (hT : T.Equipped) :
    (T.set i s).Equipped := by
  obtain ⟨hid, hT⟩ := hT
  obtain ⟨hsid, new, hlog, hnew⟩ := hact.adds
  refine ⟨hid.set hsid, fun hsup => ?_⟩
  change Supplied s.log at hsup
  have hsup' : Supplied T.log := Always.suffix (g := new) (hlog ▸ hsup)
  obtain ⟨hlaw, hall⟩ := hT hsup'
  obtain ⟨hlaws, hs⟩ := hact.equipped (hall i) hlaw hsup
  refine ⟨hlaws, fun j => ?_⟩
  by_cases hj : j = i
  · subst hj
    simp only [Table.set, Function.update_self]
    exact hs
  · simp only [Table.set, Function.update_of_ne hj, hlog]
    refine (hall j).other fun ev hev hown => ?_
    rcases (hnew ev hev).1 with hnone | hsome
    · rw [hnone] at hown
      cases hown
    · rw [hsome] at hown
      exact hid.id_ne hn (Ne.symm hj) (Option.some_inj.mp hown)

theorem Table.Equipped.world (hact : WorldAct T T') (hT : T.Equipped) : T'.Equipped := by
  obtain ⟨hid, hT⟩ := hT
  obtain ⟨hcores, new, hlog, hnew⟩ := hact.summary
  refine ⟨fun i => by rw [hcores]; exact hid i, fun hsup => ?_⟩
  obtain ⟨hlaw, hall⟩ := hT (Always.suffix (g := new) (hlog ▸ hsup))
  refine ⟨hact.lawful hlaw, fun i => ?_⟩
  rw [hcores, hlog]
  exact (hall i).other fun ev hev hown => by
    rw [hnew ev hev] at hown
    cases hown

theorem Core.Equipped.initial (id : UInt16) : (Connection.initial id).core.Equipped [] where
  held _ hp := by cases hp
  ready hopen := absurd rfl hopen
  sent hopen := absurd rfl hopen
  bound _ hbusy := by cases hbusy

namespace Processor

variable {env : Env D H} {p q : Processor D H n}

theorem Reachable.equipped (hp : Reachable env p) : p.table.Equipped := by
  have hn := hp.1
  refine hp.induction (I := fun p => p.table.Equipped) ?_ ?_
  · exact fun dev hdl => ⟨initial_numbered dev hdl, fun _ => ⟨trivial, fun i => .initial _⟩⟩
  · intro p q op hop hp
    exact (exec_outcome hop).invariant (fun _ _ _ _ _ hact => .slot hn hact)
      (fun _ _ hact => .world hact) hp

/-- Stores and commits were made to buffers that the party at hand held, and no
other, and every open connection holds its send buffer alone. -/
structure OwnsBuffers (p : Processor D H n) : Prop where
  uses : ∀ later ev earlier who buf, p.w.log = later ++ ev :: earlier →
    ev.uses = some (who, buf) → ∀ who', Holds who' buf (ledger earlier) ↔ who' = who
  ready : ∀ i, (p.conns i).state ≠ .closed → ∃ ptr, (p.conns i).sdat = some ptr ∧
    ∀ who, Holds who ptr.buf (ledger p.w.log) ↔ who = some (p.conns i).id

theorem not_supplied_of_stuck {T T' : Table H n} (h : TableStuck .nullPointer T T')
    (hT : T.Equipped) : ¬Supplied T'.log := by
  obtain ⟨i, s, ⟨⟨new, hlog⟩, hopen, hnone⟩, hs⟩ := h
  intro hsup
  obtain ⟨-, hall⟩ := hT.2 (Always.suffix (g := new) (hlog ▸ hs ▸ hsup))
  rcases hnone with hsdat | ⟨hdat, hbusy⟩
  · exact (hall i).ready hopen hsdat
  · exact (hall i).bound _ hbusy hdat

/-- As long as the device supplies every connection and shares no buffer, stores
and commits go to buffers held by the party at hand, every open connection has a
send buffer of its own, and only aborting a connection that is closed and has no
send buffer ends in a null pointer. -/
theorem buffers_owned (hp : Reachable env p) (hdev : Unshared p.w.log)
    (hsup : Supplied p.w.log) :
    p.OwnsBuffers ∧ ∀ op q, exec env op p = .error .nullPointer q → Supplied q.w.log →
      ∃ id, op = .abort id ∧ ¬p.Abortable id := by
  obtain ⟨hlaw, hall⟩ := hp.equipped.2 hsup
  change LawfulLog p.w.log at hlaw
  refine ⟨⟨?_, ?_⟩, ?_⟩
  · intro later ev earlier who buf hlog huses
    rw [hlog] at hlaw hdev
    exact ev.alone_of_uses huses (Always.at hlaw)
      (LawfulLog.exclusive (Always.suffix (g := later) hlaw).2
        (Always.suffix (g := later) hdev).2)
  · intro i hopen
    obtain ⟨ptr, hptr⟩ := Option.ne_none_iff_exists'.mp ((hall i).ready hopen)
    have hheld := (hall i).held ptr hptr
    refine ⟨ptr, hptr, fun who =>
      ⟨fun hwho => (hlaw.exclusive hdev).unique hwho hheld, ?_⟩⟩
    rintro rfl
    exact hheld
  · intro op q hop hsup'
    by_contra hnot
    push Not at hnot
    have hexec := exec_executes env op hnot
    rw [hop] at hexec
    obtain ⟨T, hpath, hstuck⟩ := hexec
    refine not_supplied_of_stuck hstuck (Program.path_invariant (fun U V hstep hU => ?_) hpath
      hp.equipped) hsup'
    cases hstep with
    | slot hl hact => exact hU.slot hp.1 hact
    | world hact => exact hU.world hact

open Testbed in
/-- A connection that was opened and has sent two bytes. -/
theorem buffers_owned_sending :
    ∃ p : Processor Script Answers 1, (p.conns 0).state = .established ∧ p.OwnsBuffers := by
  obtain ⟨p, -, hp, hstate, hdev, hsup⟩ := reaches 1 .empty []
    [connectFrom 6000, segment 6000 (tcpSyn ||| tcpAck) 7 2 [],
      .send 0 2 (some fun i => UInt8.ofNat i) 0]
    (fun p => (p.conns 0).state = .established ∧ Unshared p.w.log ∧ Supplied p.w.log)
    (by decide) (by decide +kernel)
  exact ⟨p, hstate, (buffers_owned hp hdev hsup).1⟩

open Testbed in
/-- A device without a buffer to replace the one of an acknowledgement leaves the
connection with a committed send buffer. -/
theorem buffers_not_owned : ¬ ∀ (D H : Type) (n : Nat) (env : Env D H) (p : Processor D H n),
    Reachable env p → Unshared p.w.log → p.OwnsBuffers := by
  intro hall
  obtain ⟨p, -, hp, hstate, hdev, hfree⟩ := reaches 1 ⟨0, [true, true, false], []⟩ []
    [connectFrom 6000, segment 6000 (tcpSyn ||| tcpAck) 7 2 []]
    (fun p => (p.conns 0).state = .established ∧ Unshared p.w.log ∧
      ∀ ptr ∈ (p.conns 0).sdat, ¬Holds (some (p.conns 0).id) ptr.buf (ledger p.w.log))
    (by decide) (by decide +kernel)
  obtain ⟨ptr, hptr, hheld⟩ := (hall _ _ _ _ p hp hdev).ready 0 (by rw [hstate]; decide)
  exact hfree ptr hptr ((hheld _).mpr rfl)

end Processor

end Table

end Tulips.Tcpv4
