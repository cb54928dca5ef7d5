import Tulips.Machine.Courses
import Tulips.Machine.Ownership
import Tulips.Machine.Testbed
import Tulips.Transport.Tap

/-!
# The conservation of send buffers

Unless a buffer is left behind, the buffers that are prepared and not committed
are the send buffers of the open connections. Resets that answer resets, refused
connections, acknowledgements while data is pending, refused frames and the ends
of connections are what leaves buffers behind.
-/

namespace Tulips.Tcpv4

open History Ledger Relation

/-! ## Events that leave no buffer behind -/

def Event.controlState : Event → Option State
  | .control _ st _ => some st
  | _ => none

/-- The state in which a connection last sent a segment without data, unless it
has sent one of its ring since. -/
def lastControl (id : UInt16) (log : List Event) : Option State :=
  (log.find? (Event.sends id)).bind Event.controlState

/-- The device takes the segments of the rings and all resets, and replaces the
buffer of an acknowledgement but not the one of a connection's own reset; no
acknowledgement is sent while data is pending, and a slot is only taken again
when it holds no buffer. -/
def Event.Thrifty (log : List Event) : Event → Prop
  | .transmit _ _ _ _ _ ret | .commit none _ _ _ ret => ret = .ok
  | .commit (some id) _ _ _ ret => ret = .ok ∨ lastControl id log ≠ some .closed
  | .create id _ _ _ => ∀ buf, ¬Holds (some id) buf (ledger log)
  | .control _ st slen => st = .closed ∨ slen = 0
  | .refill id st _ buf _ =>
      if st = .closed then buf = none else buf ≠ none ∨ lastControl id log = none
  | _ => True

/-- The connection ends with a reset of its own. -/
def Event.resets (id : UInt16) : Event → Bool
  | .control id' st _ => id' == id && st == .closed
  | _ => false

variable {id : UInt16} {new log mid : List Event}

theorem lastControl_append {st : State} {slen : BitVec 24}
    (hmid : ∀ ev ∈ mid, ev.sends id = false) :
    lastControl id (mid ++ .control id st slen :: log) = some st := by
  have hnone : mid.find? (Event.sends id) = none :=
    List.find?_eq_none.mpr fun ev hev => by simp [hmid ev hev]
  rw [lastControl, List.find?_append, hnone]
  simp [Event.sends, Event.controlState]

theorem Event.not_resets_of_owner {ev : Event} (h : ev.owner ≠ some id) :
    ev.resets id = false := by
  cases ev with
  | control id' st slen =>
      have hne : id' ≠ id := fun heq => h (by rw [← heq]; rfl)
      simp [Event.resets, hne]
  | _ => rfl

/-- Only a connection that ends sends a reset of its own. -/
theorem Event.From.not_resets {l : Label} {ev : Event} {id' : UInt16} (h : ev.From l id')
    (hl : l ∉ [Label.kill, .abort]) : ev.resets id = false := by
  cases ev with
  | control id'' st slen =>
      have hlabel := h.2
      by_cases hst : st = .closed
      · rw [Event.labels, if_pos hst] at hlabel
        exact absurd hlabel hl
      · simp [Event.resets, hst]
  | _ => rfl

/-! ## What a connection holds -/

/-- A connection holds its send buffer and nothing else, and a closed one
nothing. -/
def Core.Settled (c : Core) (log : List Event) : Prop :=
  ∀ buf, Holds (some c.id) buf (ledger log) ↔ c.state ≠ .closed ∧ c.sdat.map Ptr.buf = some buf

/-- The new entries are about one connection. -/
def Enters (id : UInt16) (log log' : List Event) : Prop :=
  ∃ es, ledger log' = es ++ ledger log ∧ ∀ e ∈ es, ∀ who, e.Involves who → who = some id

theorem Enters.of_eq (h : ledger new = ledger log) : Enters id log new :=
  ⟨[], h, by simp⟩

theorem Enters.trans {log' log'' : List Event} (h : Enters id log log')
    (h' : Enters id log' log'') : Enters id log log'' := by
  obtain ⟨es, hes, hinv⟩ := h
  obtain ⟨es', hes', hinv'⟩ := h'
  refine ⟨es' ++ es, by rw [hes', hes, List.append_assoc], fun e he => ?_⟩
  rcases List.mem_append.mp he with he | he
  · exact hinv' e he
  · exact hinv e he

theorem Enters.take {buf : Nat} (h : ledger new = .take (some id) buf :: ledger log) :
    Enters id log new :=
  ⟨[.take (some id) buf], h, by simp [Entry.Involves, eq_comm]⟩

theorem Enters.drop {buf : Nat} (h : ledger new = .drop (some id) buf :: ledger log) :
    Enters id log new :=
  ⟨[.drop (some id) buf], h, by simp [Entry.Involves, eq_comm]⟩

theorem Enters.replace {buf buf' : Nat}
    (h : ledger new = .take (some id) buf' :: .drop (some id) buf :: ledger log) :
    Enters id log new :=
  ⟨[.take (some id) buf', .drop (some id) buf], h, by simp [Entry.Involves, eq_comm]⟩

/-- What others hold does not change. -/
theorem Enters.holds_iff {log' : List Event} {who : Party} {buf : Nat} (h : Enters id log log')
    (hwho : who ≠ some id) : Holds who buf (ledger log') ↔ Holds who buf (ledger log) := by
  obtain ⟨es, hes, hinv⟩ := h
  rw [hes]
  exact holds_append_of_not_involves fun e he hinvolves => hwho (hinv e he who hinvolves)

section Act

variable {H : Type} {handler : EventHandler H} {s t r : Slot H} {c c' : Core} {l : Label}

theorem Core.Settled.kept (h : c.Settled log) (hid : c'.id = c.id) (hsdat : c'.sdat = c.sdat)
    (hstate : c'.state = .closed ↔ c.state = .closed) (hledger : ledger new = ledger log) :
    c'.Settled new := by
  intro buf
  rw [hid, hsdat, hledger, ne_eq, hstate]
  exact h buf

/-- A connection that has committed its send buffer and has no other. -/
theorem Core.Settled.spent (h : c.Settled log) (hid : c'.id = c.id) {p : Ptr}
    (hp : c.sdat = some p) (hgone : c'.state = .closed ∨ c'.sdat = none)
    (hledger : ledger new = .drop (some c.id) p.buf :: ledger log) : c'.Settled new := by
  intro buf
  rw [hid, hledger]
  constructor
  · rintro ⟨hne, hheld⟩
    have hbuf := ((h buf).mp hheld).2
    rw [hp] at hbuf
    exact absurd ⟨rfl, Option.some_inj.mp hbuf⟩ hne
  · rintro ⟨hopen, hbuf⟩
    rcases hgone with hclosed | hnone
    · exact absurd hclosed hopen
    · rw [hnone] at hbuf
      cases hbuf

/-- A connection that has committed its send buffer and got another. -/
theorem Core.Settled.replaced (h : c.Settled log) (hid : c'.id = c.id) {p q : Ptr}
    (hp : c.sdat = some p) (hq : c'.sdat = some q) (hopen : c'.state ≠ .closed)
    (hledger : ledger new = .take (some c.id) q.buf :: .drop (some c.id) p.buf :: ledger log) :
    c'.Settled new := by
  intro buf
  rw [hid, hledger, hq]
  constructor
  · rintro (⟨-, hbuf⟩ | ⟨hne, hheld⟩)
    · exact ⟨hopen, congrArg some hbuf⟩
    · have hbuf := ((h buf).mp hheld).2
      rw [hp] at hbuf
      exact absurd ⟨rfl, Option.some_inj.mp hbuf⟩ hne
  · exact fun ⟨_, hbuf⟩ => Or.inl ⟨rfl, Option.some_inj.mp hbuf⟩

/-- A segment of the ring leaves with the send buffer. -/
theorem Transmitted.settled {known : Prop} {k : Fin segmentCount} {m hlen : Nat}
    (h : Transmitted handler known k hlen m r t) (hs : s.toCore.Settled s.log)
    (hopen : r.state ≠ .closed) (hid : r.id = s.id) (hdat : (r.segments k).dat = s.sdat)
    (hsdat : r.sdat = none) (hledger : ledger r.log = ledger s.log)
    (hgood : Always Event.Thrifty t.log) : t.toCore.Settled t.log := by
  obtain ⟨sndNxt, sdat, hcore⟩ := h.core_eq
  have htid : t.id = s.id := (congrArg Core.id hcore :).trans hid
  have htopen : t.state ≠ .closed := by
    rwa [show t.state = r.state from (congrArg Core.state hcore :)]
  obtain ⟨p, hp, hout⟩ := h.ledger_eq
  rw [hdat] at hp
  rcases hout with ⟨ret, hret, -, -, mid, hends⟩ | ⟨htsdat, hled, -⟩ | ⟨buf, htsdat, -, hled⟩
  · rw [hends] at hgood
    exact absurd hgood.1 hret
  · rw [hid, hledger] at hled
    exact hs.spent htid hp (.inr (htsdat.trans hsdat)) hled
  · rw [hid, hledger] at hled
    exact hs.replaced htid hp htsdat htopen hled

/-- A segment without data leaves from the send buffer. -/
theorem SentControl.settled {known : Prop} (h : SentControl known r t)
    (hs : s.toCore.Settled s.log) (hstate : r.state = .closed ∨ s.state ≠ .closed)
    (hid : r.id = s.id) (hsdat : r.sdat = s.sdat) (hledger : ledger r.log = ledger s.log)
    (hgood : Always Event.Thrifty t.log) : t.toCore.Settled t.log := by
  obtain ⟨sdat, hcore⟩ := h.core_eq
  have htid : t.id = s.id := (congrArg Core.id hcore :).trans hid
  have htstate : t.state = r.state := (congrArg Core.state hcore :)
  obtain ⟨p, hp, -, hout⟩ := h.ledger_eq
  rw [hsdat] at hp
  rcases hout with ⟨frame, mss, ret, mid, hret, hkeep, hled, hlog, hmid⟩ |
    ⟨mid, -, hled, hlog, hmid⟩ | ⟨buf, hbuf, ⟨clash, mid, hends⟩, hled⟩
  · rw [hlog] at hgood
    have hnot := hgood.1.resolve_left hret
    rw [lastControl_append hmid] at hnot
    have hopen : r.state ≠ .closed := fun h => hnot (congrArg some h)
    refine hs.kept htid (hkeep.trans hsdat) ?_ (hled.trans hledger)
    rw [htstate]
    exact ⟨fun h => absurd h hopen, fun h => absurd h (hstate.resolve_left hopen)⟩
  · rw [hid, hledger] at hled
    refine hs.spent htid hp (.inl ?_) hled
    by_contra hopen
    rw [htstate] at hopen
    rw [hlog] at hgood
    have hrefill := hgood.1
    rw [Event.Thrifty, if_neg hopen, lastControl_append hmid] at hrefill
    rcases hrefill with h | h
    · exact h rfl
    · cases h
  · rw [hid, hledger] at hled
    refine hs.replaced htid hp hbuf ?_ hled
    rw [htstate]
    intro hclosed
    rw [hends] at hgood
    have hrefill := hgood.1
    rw [Event.Thrifty, if_pos hclosed] at hrefill
    cases hrefill

/-- Every act that leaves no buffer behind keeps a connection settled, but for
the end of one that has a send buffer. -/
theorem Act.settled (h : Act handler l s t) (hl : l ∉ Label.opening)
    (hs : s.toCore.Settled s.log) (hgood : Always Event.Thrifty t.log)
    (hend : l = .move → t.state = .closed → s.state = .closed ∨ s.sdat = none) :
    t.toCore.Settled t.log := by
  -- Most acts keep the buffer and enter nothing.
  have hquiet : t.id = s.id → t.sdat = s.sdat → (t.state = .closed ↔ s.state = .closed) →
      ledger t.log = ledger s.log → t.toCore.Settled t.log := hs.kept
  have hcore : t.toCore = s.toCore → ledger t.log = ledger s.log →
      t.toCore.Settled t.log := fun hcore hledger =>
    hquiet (congrArg Core.id hcore :) (congrArg Core.sdat hcore :)
      (by rw [show t.state = s.state from (congrArg Core.state hcore :)]) hledger
  have hcontrol : ∀ {known : Prop} {u : Slot H} {st : State}, SentControl known u t →
      (st = .closed ∨ s.state ≠ .closed) → u.toCore = (s.moved st).toCore →
      ledger u.log = ledger s.log → t.toCore.Settled t.log := by
    intro known u st hsend hst hu hledger
    refine hsend.settled hs ?_ (congrArg Core.id hu :) (congrArg Core.sdat hu :) hledger hgood
    rw [show u.state = st from (congrArg Core.state hu :)]
    exact hst
  cases h with
  | @note _ ev hev =>
      refine hcore rfl ?_
      exact ledger_append_of_none (g := [ev]) fun x hx => by
        rw [List.mem_singleton.mp hx]
        exact (Event.idle_of_isNote hev).1
  | life _ hcall => exact hcore hcall.toCore_eq hcall.ledger_eq
  | data _ hcall => exact hcore hcall.toCore_eq hcall.ledger_eq
  | @move _ st hst =>
      by_cases hclosed : st = .closed
      · intro buf
        refine (hs buf).trans ?_
        rcases hend rfl hclosed with h | h
        · simp [Slot.moved, hclosed, h]
        · simp [Slot.moved, h]
      · refine hquiet rfl rfl ⟨fun h => absurd h hclosed, fun h => ?_⟩ rfl
        rw [h] at hst
        cases st <;> cases hst
  | @settle _ st hst =>
      refine hquiet rfl rfl ⟨fun h => ?_, fun h => ?_⟩ rfl
      · have hst' : st = .closed := h
        rw [hst'] at hst
        cases hs' : s.state <;> rw [hs'] at hst <;> cases hst
      · rw [h] at hst
        cases st <;> cases hst
  | rcv hsynced =>
      refine hquiet rfl rfl Iff.rfl (ledger_append_of_none fun ev hev => ?_)
      exact (Event.idle_of_synced (hsynced ev hev)).1
  | news => exact hquiet rfl rfl Iff.rfl rfl
  | clear => exact hquiet rfl rfl Iff.rfl rfl
  | store _ _ _ hstore => exact hcore hstore.toCore_eq hstore.ledger_eq
  | append => exact hquiet rfl rfl Iff.rfl rfl
  | emit hstate _ hsend =>
      refine hsend.settled hs ?_ rfl (by rw [Slot.pushed_segments_self]) rfl rfl hgood
      rw [show (s.pushed _ _).state = s.state from rfl, hstate]
      decide
  | fin _ hst _ hsend =>
      refine hsend.settled hs ?_ rfl (by rw [Slot.pushed_segments_self]; rfl) rfl rfl hgood
      rcases hst with rfl | rfl <;> simp [Slot.pushed, Slot.moved]
  | @resend _ u _ intact p hlen m hstate hsdat _ _ hstore _ hsend =>
      have hu : u.toCore = s.toCore := hstore.toCore_eq
      refine hsend.settled hs ?_ (congrArg Core.id hu :) ?_ rfl hstore.ledger_eq hgood
      · rw [show u.swapped.state = s.state from (congrArg Core.state hu :)]
        exact hstate
      · simp only [Slot.swapped, hu, Function.update_self]
  | control hstate _ _ hstore hsend =>
      exact hcontrol hsend (.inr hstate) hstore.toCore_eq hstore.ledger_eq
  | @spare _ u _ hstate hslen hspare hsend =>
      obtain ⟨_, -, ⟨later, hlog⟩, -⟩ := hsend.ledger_eq
      have hu := hspare.toCore_eq
      rw [hlog] at hgood
      have hcases := Always.at hgood
      rw [Event.Thrifty, show u.state = s.state from (congrArg Core.state hu :),
        show u.slen = s.slen from (congrArg Core.slen hu :)] at hcases
      rcases hcases with h | h
      · exact absurd h hstate
      · exact absurd h hslen
  | kill _ _ hstore hsend =>
      exact hcontrol hsend (.inl rfl) hstore.toCore_eq hstore.ledger_eq
  | @abort _ _ _ w _ _ _ hcall _ hflags hstore hsend =>
      have hw : w.toCore = (s.moved .closed).toCore :=
        hstore.toCore_eq.trans (hflags.toCore_eq.trans hcall.toCore_eq)
      refine hcontrol hsend (.inl rfl) hw ?_
      exact hstore.ledger_eq.trans (hflags.ledger_eq.trans hcall.ledger_eq)
  | create => exact absurd hl (by decide)
  | createFailed => exact absurd hl (by decide)

/-- An act enters nothing about others. -/
theorem Act.enters (h : Act handler l s t) (hl : l ∉ Label.opening) : Enters s.id s.log t.log := by
  have hsent : ∀ {known : Prop} {k : Fin segmentCount} {hlen m : Nat} {u : Slot H},
      Transmitted handler known k hlen m u t → u.id = s.id → ledger u.log = ledger s.log →
      Enters s.id s.log t.log := by
    intro known k hlen m u hsend hid hledger
    obtain ⟨p, -, hout⟩ := hsend.ledger_eq
    rw [hid, hledger] at hout
    rcases hout with ⟨_, -, -, hled, -⟩ | ⟨-, hled, -⟩ | ⟨buf, -, -, hled⟩
    · exact .of_eq hled
    · exact .drop hled
    · exact .replace hled
  have hcontrol : ∀ {known : Prop} {u : Slot H}, SentControl known u t → u.id = s.id →
      Enters s.id s.log u.log → Enters s.id s.log t.log := by
    intro known u hsend hid hu
    refine hu.trans ?_
    obtain ⟨p, -, -, hout⟩ := hsend.ledger_eq
    rw [hid] at hout
    rcases hout with ⟨_, _, _, _, -, -, hled, -⟩ | ⟨_, -, hled, -⟩ | ⟨buf, -, -, hled⟩
    · exact .of_eq hled
    · exact .drop hled
    · exact .replace hled
  cases h with
  | @note _ ev hev =>
      refine .of_eq (ledger_append_of_none (g := [ev]) fun x hx => ?_)
      rw [List.mem_singleton.mp hx]
      exact (Event.idle_of_isNote hev).1
  | life _ hcall | data _ hcall => exact .of_eq hcall.ledger_eq
  | move | settle | news | clear | append => exact .of_eq rfl
  | rcv hsynced =>
      refine .of_eq (ledger_append_of_none fun ev hev => ?_)
      exact (Event.idle_of_synced (hsynced ev hev)).1
  | store _ _ _ hstore => exact .of_eq hstore.ledger_eq
  | emit _ _ hsend | fin _ _ _ hsend => exact hsent hsend rfl rfl
  | resend _ _ _ _ hstore _ hsend =>
      exact hsent hsend (congrArg Core.id hstore.toCore_eq :) hstore.ledger_eq
  | control _ _ _ hstore hsend | kill _ _ hstore hsend =>
      exact hcontrol hsend (congrArg Core.id hstore.toCore_eq :) (.of_eq hstore.ledger_eq)
  | spare _ _ hspare hsend =>
      obtain ⟨buf, hled⟩ := hspare.ledger_eq
      exact hcontrol hsend (congrArg Core.id hspare.toCore_eq :) (.take hled)
  | abort hcall _ hflags hstore hsend =>
      refine hcontrol hsend (congrArg Core.id
        (hstore.toCore_eq.trans (hflags.toCore_eq.trans hcall.toCore_eq)) :) (.of_eq ?_)
      exact hstore.ledger_eq.trans (hflags.ledger_eq.trans hcall.ledger_eq)
  | create => exact absurd hl (by decide)
  | createFailed => exact absurd hl (by decide)

/-- Without a send buffer nothing is sent, and none is got. -/
theorem Act.bare (h : Act handler l s t) (hl : l ∉ Label.opening) (hs : s.sdat = none) :
    t.sdat = none := by
  cases h with
  | note | news | clear | move | settle | rcv | append => exact hs
  | life _ hcall | data _ hcall =>
      have hsdat : t.sdat = s.sdat := (congrArg Core.sdat hcall.toCore_eq :)
      rwa [hsdat]
  | store _ hsdat => rw [hs] at hsdat; cases hsdat
  | emit _ _ hsend =>
      obtain ⟨p, _, _, hdat, -⟩ := hsend
      rw [Slot.pushed_segments_self] at hdat
      cases hs.symm.trans hdat
  | fin _ _ _ hsend =>
      obtain ⟨p, _, _, hdat, -⟩ := hsend
      rw [Slot.pushed_segments_self] at hdat
      cases hs.symm.trans hdat
  | resend _ hsdat | control _ _ hsdat | kill _ hsdat => rw [hs] at hsdat; cases hsdat
  | abort _ hsdat => rw [hs] at hsdat; cases hsdat
  | spare _ _ hspare hsend =>
      obtain ⟨p, _, _, hsdat, -⟩ := hsend
      cases (hs.symm.trans (congrArg Core.sdat hspare.toCore_eq :).symm).trans hsdat
  | create => exact absurd hl (by decide)
  | createFailed => exact absurd hl (by decide)

/-! ## Paths -/

/-- On its way since `c₀`, with `new` events, a connection is settled, or it has
ended without a reset of its own although it had a send buffer. -/
structure Core.Underway (L : List Label) (c₀ c : Core) (new log : List Event) : Prop where
  fine : c.Settled log ∨ (Label.move ∈ L ∧ c₀.state ≠ .closed ∧ c₀.sdat ≠ none ∧
    c.state = .closed ∧ ∀ ev ∈ new, ev.resets c.id = false)
  quiet : c.state ≠ .closed → ∀ ev ∈ new, ev.resets c.id = false
  bare : c₀.sdat = none → c.sdat = none
  stays : c₀.state = .closed → c.state = .closed

variable {L : List Label} {c₀ : Core} {more : List Event}

theorem Core.Underway.act (h : Core.Underway L c₀ s.toCore new s.log)
    (hact : Act handler l s t) (hl : l ∈ L) (hopening : l ∉ Label.opening)
    (hexcl : .abort ∈ L → .move ∉ L)
    (hfrom : ∀ ev ∈ more, ev.From l s.id) (hgood : Always Event.Thrifty t.log) :
    Core.Underway L c₀ t.toCore (more ++ new) t.log := by
  have hchange := hact.change hopening
  have hid : t.id = s.id := hact.adds.1
  have hkill : t.state ≠ .closed → l ∉ [Label.kill, .abort] := by
    intro hopen hmem
    have hending : ∀ l, Core.Change l s.toCore t.toCore → l ∈ [Label.kill, .abort] →
        t.state = .closed := by
      intro l hchange hmem
      generalize t.toCore = c at hchange
      cases hchange with
      | kill => rfl
      | buffer _ hl => revert hl hmem; cases l <;> simp
      | _ => simp at hmem
    exact hopen (hending l hchange hmem)
  have hold : t.state ≠ .closed → s.state ≠ .closed := fun h hs => h (hchange.closed hs)
  have hquiet : l ∉ [Label.kill, .abort] → (∀ ev ∈ new, ev.resets s.id = false) →
      ∀ ev ∈ more ++ new, ev.resets t.id = false := by
    intro hl hnew ev hev
    rw [hid]
    rcases List.mem_append.mp hev with hev | hev
    · exact (hfrom ev hev).not_resets hl
    · exact hnew ev hev
  refine ⟨?_, fun hopen => hquiet (hkill hopen) (h.quiet (hold hopen)),
    fun hbare => hact.bare hopening (h.bare hbare), fun hclosed => hchange.closed (h.stays hclosed)⟩
  rcases h.fine with hsettled | ⟨hmove, hopen₀, hsdat₀, hclosed, hnew⟩
  · by_cases hend : l = .move ∧ t.state = .closed ∧ s.state ≠ .closed ∧ s.sdat ≠ none
    · obtain ⟨rfl, hclosed, hopen, hsdat⟩ := hend
      exact .inr ⟨hl, fun h' => hopen (h.stays h'), fun h' => hsdat (h.bare h'), hclosed,
        hquiet (by decide) (h.quiet hopen)⟩
    · refine .inl (hact.settled hopening hsettled hgood fun hl hclosed => ?_)
      by_contra hnot
      rw [not_or] at hnot
      exact hend ⟨hl, hclosed, hnot.1, hnot.2⟩
  · refine .inr ⟨hmove, hopen₀, hsdat₀, hchange.closed hclosed, hquiet ?_ hnew⟩
    intro hmem
    rcases List.mem_cons.mp hmem with rfl | hmem
    · cases hact with
      | kill hstate => exact hstate hclosed
    · rw [List.mem_singleton.mp hmem] at hl
      exact hexcl hl hmove

theorem Core.Underway.other (h : Core.Underway L c₀ c new log)
    (hmore : ∀ ev ∈ more, ev.owner ≠ some c.id) :
    Core.Underway L c₀ c (more ++ new) (more ++ log) := by
  have hquiet : (∀ ev ∈ new, ev.resets c.id = false) →
      ∀ ev ∈ more ++ new, ev.resets c.id = false := by
    intro hnew ev hev
    rcases List.mem_append.mp hev with hev | hev
    · exact Event.not_resets_of_owner (hmore ev hev)
    · exact hnew ev hev
  refine ⟨h.fine.imp (fun hs buf => ?_) fun ⟨hmove, hopen, hsdat, hclosed, hnew⟩ =>
    ⟨hmove, hopen, hsdat, hclosed, hquiet hnew⟩, fun hopen => hquiet (h.quiet hopen), h.bare,
    h.stays⟩
  rw [holds_append_of_owner_ne hmore]
  exact hs buf

end Act

section Table

variable {D H : Type} {n : Nat} {handler : EventHandler H} {P T U : Table H n} {L : List Label}

/-- The connections hold their send buffers, and nobody else holds any. -/
structure Table.Settled (T : Table H n) : Prop where
  numbered : T.Numbered
  each : ∀ i, (T.cores i).Settled T.log
  only : ∀ who buf, Holds who buf (ledger T.log) → ∃ i, who = some (T.cores i).id

/-- What holds on the way from `P` along steps that open no connection. -/
structure Table.Underway (L : List Label) (P T : Table H n) (new : List Event) : Prop where
  numbered : T.Numbered
  grown : T.log = new ++ P.log
  each : ∀ i, Core.Underway L (P.cores i) (T.cores i) new T.log
  only : ∀ who buf, Holds who buf (ledger T.log) → ∃ i, who = some (T.cores i).id

theorem Table.Settled.underway (h : T.Settled) : Table.Underway L T T [] where
  numbered := h.numbered
  grown := rfl
  each i := ⟨.inl (h.each i), by simp, fun h => h, fun h => h⟩
  only := h.only

theorem Table.Underway.slot (h : Table.Underway L P T new) (hn : n < 2 ^ 16) {i : Fin n}
    {l : Label} {s : Slot H} (hact : Act handler l (T.slot i) s) (hl : l ∈ L)
    (hopening : l ∉ Label.opening) (hexcl : .abort ∈ L → .move ∉ L)
    (hgood : Always Event.Thrifty s.log) : ∃ new', Table.Underway L P (T.set i s) new' := by
  obtain ⟨hid, more, hlog, hfrom⟩ := hact.adds
  have hnum := h.numbered.set (i := i) hid
  refine ⟨more ++ new, hnum, ?_, fun j => ?_, fun who buf hheld => ?_⟩
  · show s.log = _
    rw [hlog, List.append_assoc, ← h.grown]
    rfl
  · by_cases hj : j = i
    · subst hj
      simp only [Table.set, Function.update_self]
      exact (h.each j).act hact hl hopening hexcl hfrom hgood
    · simp only [Table.set, Function.update_of_ne hj, hlog]
      refine (h.each j).other fun ev hev hown => ?_
      rcases (hfrom ev hev).1 with hnone | hsome
      · rw [hnone] at hown
        cases hown
      · rw [hsome] at hown
        exact h.numbered.id_ne hn (Ne.symm hj) (Option.some_inj.mp hown)
  · by_cases hwho : who = some (T.slot i).id
    · refine ⟨i, ?_⟩
      rw [hnum i, hwho]
      exact congrArg some (h.numbered i)
    · obtain ⟨j, hj⟩ := h.only who buf (((hact.enters hopening).holds_iff hwho).mp hheld)
      exact ⟨j, by rw [hnum j, hj, h.numbered j]⟩

theorem Table.Settled.along (hP : P.Settled) (hn : n < 2 ^ 16)
    (hL : ∀ l ∈ L, l ∉ Label.opening) (hexcl : .abort ∈ L → .move ∉ L)
    (hpath : ReflTransGen (SlotStep handler L) P T) (hgood : Always Event.Thrifty T.log) :
    ∃ new, Table.Underway L P T new := by
  induction hpath with
  | refl => exact ⟨[], hP.underway⟩
  | @tail U V _ hstep ih =>
      obtain ⟨i, l, s, hl, hact, rfl⟩ := hstep
      obtain ⟨-, more, hlog, -⟩ := hact.adds
      have hgoods : Always Event.Thrifty s.log := hgood
      obtain ⟨new, hU⟩ := ih (Always.suffix (g := more) (hlog ▸ hgoods))
      exact hU.slot hn hact hl (hL l hl) hexcl hgoods

/-- When no connection ends with a send buffer, but for those that reset their
peer, the table is settled at the end of a path. -/
theorem Table.Settled.path (hP : P.Settled) (hn : n < 2 ^ 16)
    (hL : ∀ l ∈ L, l ∉ Label.opening) (hexcl : .abort ∈ L → .move ∉ L)
    (hpath : ReflTransGen (SlotStep handler L) P T) (hgood : Always Event.Thrifty T.log)
    (hends : ∀ i new, T.log = new ++ P.log → (P.cores i).state ≠ .closed →
      (T.cores i).state = .closed →
      (P.cores i).sdat = none ∨ ∃ ev ∈ new, ev.resets (P.cores i).id = true) : T.Settled := by
  obtain ⟨new, hnum, hgrown, heach, honly⟩ := hP.along hn hL hexcl hpath hgood
  refine ⟨hnum, fun i => ?_, honly⟩
  rcases (heach i).fine with hs | ⟨-, hopen, hsdat, hclosed, hquiet⟩
  · exact hs
  · rcases hends i new hgrown hopen hclosed with hnone | ⟨ev, hev, hreset⟩
    · exact absurd hnone hsdat
    · rw [hP.numbered i, ← hnum i, hquiet ev hev] at hreset
      cases hreset

/-! ## Courses -/

section Opened

variable {s u : Slot H} {peer : Peer} {st : State} {iss : UInt32} {p : Ptr}

theorem Opened.create_at (h : Opened handler peer st iss p s u) :
    ∃ later leftover, u.log = later ++ .create s.id iss p.buf leftover :: s.log := by
  obtain ⟨leftover, rcvNxt, synced, k, -, -, -, hsend⟩ := h
  obtain ⟨_, _, -, ⟨more, hmore, -⟩, -⟩ := hsend.summary (l := .emit) (by decide)
  exact ⟨more ++ synced, leftover, hmore.trans (List.append_assoc more synced _).symm⟩

/-- Besides taking over the buffer of its SYN a new connection enters nothing
about others. -/
theorem Opened.enters (h : Opened handler peer st iss p s u) :
    Enters s.id (.create s.id iss p.buf true :: s.log) u.log := by
  rcases h.ledger_eq with ⟨_, -, -, hled, -⟩ | ⟨-, hled, -⟩ | ⟨buf, -, -, hled⟩
  · exact .of_eq hled
  · exact .drop hled
  · exact .replace hled

theorem Opened.id_state (h : Opened handler peer st iss p s u) : u.id = s.id ∧ u.state = st := by
  obtain ⟨_, _, _, _, _, -, -, -, -, ⟨-, -, hcore⟩ | ⟨-, _, hcore⟩⟩ := h.summary
  · exact ⟨(congrArg Core.id hcore :), (congrArg Core.state hcore :)⟩
  · exact ⟨(congrArg Core.id hcore :), (congrArg Core.state hcore :)⟩

/-- A new connection holds the send buffer it has got in the end. -/
theorem Opened.settled (h : Opened handler peer st iss p s u)
    (hgood : Always Event.Thrifty u.log) :
    (∀ buf, Holds (some s.id) buf (ledger u.log) ↔ u.sdat.map Ptr.buf = some buf) ∧
      (¬Replenished u → u.sdat = none) := by
  have hnone : ∀ buf, ¬Holds (some s.id) buf (ledger s.log) := by
    obtain ⟨later, leftover, hlog⟩ := h.create_at
    rw [hlog] at hgood
    exact Always.at hgood
  rcases h.ledger_eq with ⟨ret, hret, -, -, mid, hends⟩ | ⟨hsdat, hled, -⟩ |
    ⟨buf', hsdat, ⟨clash, mid, hends⟩, hled⟩
  · rw [hends] at hgood
    exact absurd hgood.1 hret
  · refine ⟨fun buf => ?_, fun _ => hsdat⟩
    rw [hsdat, hled]
    simp [Holds, hnone buf]
  · refine ⟨fun buf => ?_, fun h => absurd ⟨_, _, _, _, _, _, hends⟩ h⟩
    rw [hsdat, hled]
    simp [Holds, hnone buf]

end Opened

/-- What nobody but connections holds, the processor does not hold. -/
theorem Table.Settled.not_holds_none (h : T.Settled) (buf : Nat) : ¬Holds none buf (ledger T.log) :=
  fun hheld => by obtain ⟨i, hi⟩ := h.only none buf hheld; cases hi

theorem Table.Settled.of_holds_iff (h : T.Settled) (hcores : U.cores = T.cores)
    (hiff : ∀ who buf, Holds who buf (ledger U.log) ↔ Holds who buf (ledger T.log)) :
    U.Settled where
  numbered i := by rw [hcores]; exact h.numbered i
  each i buf := by rw [hcores, hiff]; exact h.each i buf
  only who buf hheld := by rw [hcores]; exact h.only who buf ((hiff who buf).mp hheld)

/-- A buffer that is fetched and passed on leaves the processor without any. -/
theorem Table.Settled.opened (h : T.Settled) (hn : n < 2 ^ 16) {i : Fin n} {s u t : Slot H}
    {peer : Peer} {st : State} {iss : UInt32} {buf : Nat} {mem : BlockMemory}
    {writes notes : List Event} (hwrites : ∀ ev ∈ writes, ev = .write none buf)
    (hnotes : ∀ ev ∈ notes, ∃ port, ev = .listen port .ok)
    (hs : s = (T.fetched buf mem writes notes).slot i)
    (hopen : Opened handler peer st iss ⟨buf, tcpOffset⟩ s u) (hid : t.id = u.id)
    (hledger : ledger t.log = ledger u.log) (ht : t.toCore.Settled u.log) :
    ((T.fetched buf mem writes notes).set i t).Settled := by
  have huid : u.id = s.id := hopen.id_state.1
  have hfetched : ledger s.log = .take none buf :: ledger T.log := by
    rw [hs]
    show ledger (notes ++ (writes ++ _)) = _
    rw [ledger_append_of_none, ledger_writes hwrites]
    · rfl
    · intro ev hev
      obtain ⟨port, rfl⟩ := hnotes ev hev
      rfl
  have hsid : s.id = (T.cores i).id := by rw [hs]; rfl
  -- Others hold what they held, and the processor has passed its buffer on.
  have hothers : ∀ who x, who ≠ some s.id →
      (Holds who x (ledger t.log) ↔ Holds who x (ledger T.log)) := by
    intro who x hwho
    rw [hledger, hopen.enters.holds_iff hwho]
    show Holds who x (.pass none (some s.id) buf :: ledger s.log) ↔ _
    rw [hfetched]
    cases who with
    | none =>
        simp only [Holds, reduceCtorEq, false_and, false_or, true_and]
        exact ⟨fun h => h.2.resolve_left h.1, fun hheld => absurd hheld (h.not_holds_none x)⟩
    | some id =>
        have hne : some s.id ≠ some id := fun heq => hwho heq.symm
        simp [Holds, hne]
  have hnum := Table.Numbered.set (T := T.fetched buf mem writes notes) (i := i) (s := t)
    h.numbered (hid.trans (huid.trans hsid))
  refine ⟨hnum, fun j => ?_, fun who x hheld => ?_⟩
  · by_cases hj : j = i
    · subst hj
      simp only [Table.set, Function.update_self]
      intro x
      rw [hledger]
      exact ht x
    · simp only [Table.set, Function.update_of_ne hj]
      intro x
      rw [hothers _ x]
      · exact h.each j x
      · intro heq
        rw [hsid] at heq
        exact h.numbered.id_ne hn hj (Option.some_inj.mp heq)
  · by_cases hwho : who = some s.id
    · refine ⟨i, ?_⟩
      simp only [Table.set, Function.update_self]
      rw [hwho, hid, huid]
    · obtain ⟨j, hj⟩ := h.only who x ((hothers who x hwho).mp hheld)
      exact ⟨j, by rw [hnum j, hj, h.numbered j]⟩

end Table

/-! ## The processor -/

/-- The processor has fetched a buffer for no connection in particular. -/
def Event.fetches : Event → Bool
  | .prepare none (some _) => true
  | _ => false

/-- The device does not listen on a port. -/
def Event.refuses : Event → Bool
  | .listen _ ret => ret != .ok
  | _ => false

instance (log : List Event) : DecidablePred (Event.Thrifty log) := fun ev =>
  match ev with
  | .transmit _ _ _ _ _ ret | .commit none _ _ _ ret => inferInstanceAs (Decidable (ret = .ok))
  | .commit (some id) _ _ _ ret =>
      inferInstanceAs (Decidable (ret = .ok ∨ lastControl id log ≠ some .closed))
  | .create id _ _ _ => inferInstanceAs (Decidable (∀ buf, ¬Holds (some id) buf (ledger log)))
  | .control _ st slen => inferInstanceAs (Decidable (st = .closed ∨ slen = 0))
  | .refill id st _ buf _ => inferInstanceAs (Decidable
      (if st = .closed then buf = none else buf ≠ none ∨ lastControl id log = none))
  | .prepare _ _ | .write _ _ | .listen _ _ | .unlisten _ | .callback _ _ _ | .synced _ _
  | .rexmit _ _ _ _ _ | .immediateAck _ _ | .append _ _ _ => isTrue trivial

namespace Processor

variable {D H : Type} {n : Nat} {env : Env D H} {p q : Processor D H n} {op : Op}

/-- There is a use for a buffer the operation fetches. -/
def Op.Useful (p : Processor D H n) : Op → Prop
  | .process inc => p.demux inc = none → inc.has tcpRst = false
  | .connect _ _ _ _ => p.vacant ≠ none
  | _ => True

instance (p : Processor D H n) : DecidablePred (Op.Useful p) := fun op =>
  match op with
  | .process inc => inferInstanceAs (Decidable (p.demux inc = none → inc.has tcpRst = false))
  | .connect _ _ _ _ => inferInstanceAs (Decidable (p.vacant ≠ none))
  | .listen _ | .unlisten _ | .abort _ | .close _ | .send _ _ _ _ | .run _ => isTrue trivial

/-- The operation that leads from `p` to `q` leaves no buffer behind. -/
structure Thrifty (p : Processor D H n) (op : Op) (q : Processor D H n) : Prop where
  events : Always Event.Thrifty q.w.log
  useful : (∃ ev ∈ since p q, ev.fetches = true) →
    op.Useful p ∧ ∀ ev ∈ since p q, ev.refuses = false
  /-- A connection ends without a send buffer, or resets its peer. -/
  ends : ∀ i, (p.conns i).state ≠ .closed → (q.conns i).state = .closed →
    (p.conns i).sdat = none ∨ ∃ ev ∈ since p q, ev.resets (p.conns i).id = true

theorem thrifty_iff : Thrifty p op q ↔ Always Event.Thrifty q.w.log ∧
    ((∃ ev ∈ since p q, ev.fetches = true) →
      op.Useful p ∧ ∀ ev ∈ since p q, ev.refuses = false) ∧
    ∀ i, (p.conns i).state ≠ .closed → (q.conns i).state = .closed →
      (p.conns i).sdat = none ∨ ∃ ev ∈ since p q, ev.resets (p.conns i).id = true :=
  ⟨fun ⟨h₁, h₂, h₃⟩ => ⟨h₁, h₂, h₃⟩, fun ⟨h₁, h₂, h₃⟩ => ⟨h₁, h₂, h₃⟩⟩

instance : Decidable (Thrifty p op q) := decidable_of_iff _ thrifty_iff.symm

theorem Wasted.not_useful {notes : List Event} (h : p.Wasted op notes) (huseful : op.Useful p) :
    ∃ ev ∈ notes, ev.refuses = true := by
  cases h with
  | reset hdemux hrst =>
      rw [huseful hdemux] at hrst
      cases hrst
  | full hvacant => exact absurd hvacant huseful
  | refused hret => exact ⟨_, List.mem_singleton.mpr rfl, by simpa [Event.refuses] using hret⟩

theorem Op.labels_exclusive (op : Op) : Label.abort ∈ op.labels → Label.move ∉ op.labels := by
  rcases op.labels_cases with h | h | h <;> rw [h] <;> decide

/-- What an operation that leaves no buffer behind keeps. -/
theorem settled_step (hn : n < 2 ^ 16) (hop : exec env op p = .ok () q) (hthrift : Thrifty p op q)
    (hp : p.table.Settled) : q.table.Settled := by
  have hgood : Always Event.Thrifty q.table.log := hthrift.events
  cases exec_course hop with
  | skip hq => rw [hq]; exact hp
  | @note _ ev hev _ hq =>
      rw [hq]
      refine hp.of_holds_iff rfl fun who buf => ?_
      show Holds who buf (ledger ([ev] ++ p.table.log)) ↔ _
      rw [ledger_append_of_none fun x hx => ?_]
      rw [List.mem_singleton.mp hx]
      exact (Event.idle_of_isNote hev).1
  | slots hpath =>
      refine hp.path hn op.labels_not_opening op.labels_exclusive hpath hgood ?_
      intro i new hnew hopen hclosed
      have hsince : since p q = new := since_eq hnew
      exact hsince ▸ hthrift.ends i hopen hclosed
  | @reset _ buf mem writes frame mss ret hwrites hmem hq =>
      rw [hq] at hgood ⊢
      have hret : ret = .ok := hgood.1
      refine hp.of_holds_iff rfl fun who x => ?_
      show Holds who x (ledger (.commit none buf frame mss ret ::
        (writes ++ .prepare none (some buf) :: p.table.log))) ↔ _
      rw [ledger_commit, if_pos hret, ledger_writes hwrites]
      show Holds who x (.drop none buf :: .take none buf :: ledger p.table.log) ↔ _
      -- The buffer of a reset is dropped as soon as it is taken.
      cases who with
      | none =>
          simp only [Holds, true_and]
          exact ⟨fun h => h.2.resolve_left h.1, fun h => absurd h (hp.not_holds_none x)⟩
      | some id => simp [Holds]
  | @wasted _ buf mem writes notes hwhy hwrites hmem hq =>
      have hsince : since p q = notes ++ (writes ++ [.prepare none (some buf)]) := by
        refine since_eq ?_
        show q.table.log = _
        rw [hq]
        simp [Table.fetched, Processor.table]
      have hfetch : ∃ ev ∈ since p q, ev.fetches = true :=
        ⟨.prepare none (some buf), by simp [hsince], rfl⟩
      obtain ⟨huseful, hquiet⟩ := hthrift.useful hfetch
      obtain ⟨ev, hev, hrefuse⟩ := hwhy.not_useful huseful
      rw [hquiet ev (hsince ▸ List.mem_append_left _ hev)] at hrefuse
      cases hrefuse
  | @opened _ peer st iss buf mem writes notes i s _ hwrites hnotes _ hopen hst hq =>
      rw [hq] at hgood ⊢
      obtain ⟨hs, -⟩ := hopen.settled hgood
      refine hp.opened hn hwrites hnotes rfl hopen rfl rfl fun x => ?_
      obtain ⟨hid, hstate⟩ := hopen.id_state
      rw [hid, hs x, and_iff_right]
      rw [hstate]
      rcases hst with rfl | ⟨rfl, -⟩ <;> decide
  | @failed _ peer iss buf mem writes notes i s port _ hwrites hnotes _ hopen hfail hq =>
      rw [hq] at hgood ⊢
      obtain ⟨hs, hnone⟩ := hopen.settled hgood.2
      refine hp.opened hn hwrites hnotes rfl hopen rfl rfl fun x => ?_
      obtain ⟨hid, -⟩ := hopen.id_state
      show Holds (some s.id) x _ ↔ State.closed ≠ .closed ∧ _
      rw [hid, hs x, hnone hfail]
      simp

theorem initial_settled (dev : D) (hdl : H) : (initial n dev hdl).table.Settled where
  numbered := initial_numbered dev hdl
  each _ _ := ⟨False.elim, fun h => absurd rfl h.1⟩
  only _ _ := False.elim

/-- In every run that leaves no buffer behind, the buffers that are prepared and
not committed are the send buffers of the open connections. -/
theorem buffers_conserved
    (hp : ReachableBy env (fun p op => ∀ q, exec env op p = .ok () q → Thrifty p op q) p)
    (buf : Nat) : (∃ who, Holds who buf (ledger p.w.log)) ↔
      ∃ i ptr, (p.conns i).state ≠ .closed ∧ (p.conns i).sdat = some ptr ∧ ptr.buf = buf := by
  have hsettled : p.table.Settled := by
    have hn := hp.reachable.1
    induction hp with
    | initial _ dev hdl => exact initial_settled dev hdl
    | exec _ hgood hop ih => exact settled_step hn hop (hgood _ hop) ih
  constructor
  · rintro ⟨who, hheld⟩
    obtain ⟨i, rfl⟩ := hsettled.only who buf hheld
    obtain ⟨hopen, hbuf⟩ := (hsettled.each i buf).mp hheld
    obtain ⟨ptr, hptr, hbuf⟩ := Option.map_eq_some_iff.mp hbuf
    exact ⟨i, ptr, hopen, hptr, hbuf⟩
  · rintro ⟨i, ptr, hopen, hptr, hbuf⟩
    refine ⟨_, (hsettled.each i buf).mpr ⟨hopen, ?_⟩⟩
    exact Option.map_eq_some_iff.mpr ⟨ptr, hptr, hbuf⟩

open Testbed in
/-- A connection that has sent two bytes holds the one buffer that is prepared. -/
theorem buffers_conserved_sending :
    ∃ p : Processor Script Answers 1, (p.conns 0).state = .established ∧
      ∀ buf, (∃ who, Holds who buf (ledger p.w.log)) ↔
        ∃ i ptr, (p.conns i).state ≠ .closed ∧ (p.conns i).sdat = some ptr ∧ ptr.buf = buf := by
  have hrun : LeadsBy (fun p op => ∀ q, exec env op p = .ok () q → Thrifty p op q)
      (fun p => (p.conns 0).state = .established)
      [connectFrom 6000, segment 6000 (tcpSyn ||| tcpAck) 7 2 [],
        .send 0 2 (some fun i => UInt8.ofNat i) 0] (start 1 .empty []) := by decide +kernel
  obtain ⟨p, hp, hstate⟩ := hrun.reaches (.initial (by decide) _ _)
  exact ⟨p, hstate, buffers_conserved hp⟩

open Testbed in
/-- Without any connection, a reset from the peer takes a buffer of the tap device
away for good. -/
theorem buffers_not_conserved : ¬ ∀ (H : Type) (n : Nat) (env : Env Tap H) (mtu : UInt32)
    (p : Processor Tap H n), env.device = Tap.device mtu → Reachable env p → ∀ buf,
      (∃ who, Holds who buf (ledger p.w.log)) ↔
        ∃ i ptr, (p.conns i).state ≠ .closed ∧ (p.conns i).sdat = some ptr ∧ ptr.buf = buf := by
  intro hall
  have hrun : Program.Passes
      (execAll (net (Tap.device 1500)).toEnv [segment 5000 tcpRst 7 0 []])
      (initial 1 (.initial [] []) []) fun _ p =>
        (∀ i, (p.conns i).state = .closed) ∧ Holds none 0 (ledger p.w.log) := by
    decide +kernel
  obtain ⟨_, p, hok, hclosed, hheld⟩ := hrun.exists
  have hp : Reachable (net (Tap.device 1500)).toEnv p := ⟨by decide, _, _, _, hok⟩
  obtain ⟨i, ptr, hopen, -⟩ := (hall Answers 1 _ 1500 p rfl hp 0).mp ⟨none, hheld⟩
  exact hopen (hclosed i)

end Processor

end Tulips.Tcpv4
