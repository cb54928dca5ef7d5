import Tulips.Lib.History
import Tulips.Lib.Ledger
import Tulips.Machine.Runs

/-!
# Who holds the send buffers

The history is a ledger of send buffers: preparing one takes it, a commit that
the device accepts drops it, and opening a connection passes it on. What the
effects of a slot enter in the ledger decides which stores and commits are made
by a party that holds the buffer.
-/

namespace Tulips.Tcpv4

open History Ledger

/-- A party that may hold a buffer: a connection, or the processor itself. -/
abbrev Party := Option UInt16

def Event.entry : Event → Option (Entry Party Nat)
  | .prepare who (some buf) => some (.take who buf)
  | .commit who buf _ _ ret => if ret = .ok then some (.drop who buf) else none
  | .create id _ buf _ => some (.pass none (some id) buf)
  | _ => none

def ledger (log : List Event) : List (Entry Party Nat) := log.filterMap Event.entry

/-- A store or a commit is made by the holder of the buffer, and a connection is
opened with a buffer the processor holds. -/
def Event.Lawful (log : List Event) : Event → Prop
  | .write who buf | .commit who buf _ _ _ => Holds who buf (ledger log)
  | .create _ _ buf _ => Holds none buf (ledger log)
  | _ => True

def LawfulLog : List Event → Prop := Always Event.Lawful

/-- The device hands out no buffer that somebody holds. -/
def Event.Fresh (log : List Event) : Event → Prop
  | .prepare _ (some buf) => ∀ who, ¬Holds who buf (ledger log)
  | _ => True

def Unshared : List Event → Prop := Always Event.Fresh

instance (log : List Event) : DecidablePred (Event.Fresh log) := fun ev =>
  match ev with
  | .prepare _ (some _) => decidable_of_iff _ holders_eq_nil
  | .prepare _ none | .write _ _ | .commit _ _ _ _ _ | .listen _ _ | .unlisten _
  | .callback _ _ _ | .create _ _ _ _ | .synced _ _ | .transmit _ _ _ _ _ _
  | .rexmit _ _ _ _ _ | .control _ _ _ | .refill _ _ _ _ _ | .immediateAck _ _
  | .append _ _ _ => isTrue trivial

instance : DecidablePred Unshared := inferInstanceAs (DecidablePred (Always Event.Fresh))

variable {log new : List Event} {ev : Event} {id : UInt16} {buf : Nat}

@[simp] theorem ledger_append : ledger (new ++ log) = ledger new ++ ledger log :=
  List.filterMap_append

theorem ledger_commit (who : Party) (frame : List UInt8) (mss : UInt16) (ret : Status) :
    ledger (.commit who buf frame mss ret :: log) =
      if ret = .ok then .drop who buf :: ledger log else ledger log := by
  by_cases hret : ret = .ok
  · rw [if_pos hret]
    exact List.filterMap_cons_some (if_pos hret)
  · rw [if_neg hret]
    exact List.filterMap_cons_none (if_neg hret)

theorem ledger_append_of_none {g : List Event} (h : ∀ ev ∈ g, ev.entry = none) :
    ledger (g ++ log) = ledger log := by
  rw [ledger_append, ledger, List.filterMap_eq_nil_iff.mpr h]
  rfl

/-- Buffers nobody shares are entered in an exclusive ledger. -/
theorem LawfulLog.exclusive (h : LawfulLog log) (hdev : Unshared log) :
    Exclusive (ledger log) := by
  induction log with
  | nil => trivial
  | cons ev log ih =>
      have hrest := ih h.2 hdev.2
      cases ev with
      | prepare who buf =>
          cases buf with
          | none => exact hrest
          | some buf => exact ⟨hdev.1, hrest⟩
      | commit who buf frame mss ret =>
          rw [ledger_commit]
          split
          · exact hrest
          · exact hrest
      | create id iss buf leftover => exact ⟨h.1, hrest⟩
      | _ => exact hrest

/-- The party and the buffer of a store or a commit. -/
def Event.uses : Event → Option (Party × Nat)
  | .write who buf | .commit who buf _ _ _ => some (who, buf)
  | _ => none

/-- A lawful store or commit is to a buffer nobody else holds. -/
theorem Event.alone_of_uses {who : Party} (huses : ev.uses = some (who, buf))
    (hlaw : ev.Lawful log) (hexcl : Exclusive (ledger log)) (who' : Party) :
    Holds who' buf (ledger log) ↔ who' = who := by
  have hheld : Holds who buf (ledger log) := by
    cases ev with
    | write | commit => cases huses; exact hlaw
    | _ => cases huses
  refine ⟨(hexcl.unique · hheld), ?_⟩
  rintro rfl
  exact hheld

/-- The entries of an event are about its owner, or about the processor itself. -/
theorem Event.not_involves (hev : ev.owner ≠ some id) {e : Entry Party Nat}
    (he : ev.entry = some e) : ¬e.Involves (some id) := by
  cases ev with
  | prepare who buf =>
      cases buf with
      | none => cases he
      | some buf => cases he; exact hev
  | commit who buf frame mss ret =>
      by_cases hret : ret = .ok
      · rw [Event.entry, if_pos hret] at he
        cases he
        exact hev
      · rw [Event.entry, if_neg hret] at he
        cases he
  | create id' iss buf leftover =>
      cases he
      rintro (h | h)
      · cases h
      · exact hev h
  | _ => cases he

/-- What a connection holds does not depend on the events of others. -/
theorem holds_append_of_owner_ne (h : ∀ ev ∈ new, ev.owner ≠ some id) :
    Holds (some id) buf (ledger (new ++ log)) ↔ Holds (some id) buf (ledger log) := by
  rw [ledger_append]
  refine holds_append_of_not_involves fun e he => ?_
  obtain ⟨ev, hev, hentry⟩ := List.mem_filterMap.mp he
  exact Event.not_involves (h ev hev) hentry

/-! ## What effects enter -/

section Effects

variable {H : Type} {handler : EventHandler H} {s t : Slot H}

theorem ledger_writes {who : Party} {writes : List Event}
    (hwrites : ∀ ev ∈ writes, ev = .write who buf) : ledger (writes ++ log) = ledger log :=
  ledger_append_of_none fun ev hev => by rw [hwrites ev hev]; rfl

theorem Stored.ledger_eq {p : Ptr} {lo hi : Nat} (h : Stored p lo hi s t) :
    ledger t.log = ledger s.log := by
  obtain ⟨mem, writes, rfl, hwrites, -⟩ := h
  exact ledger_writes hwrites

theorem Called.ledger_eq {cb : Callback} (h : Called handler cb s t) :
    ledger t.log = ledger s.log := by
  obtain ⟨e, -, rfl⟩ := h
  rfl

theorem Counted.ledger_eq {len : UInt32} (h : Counted handler len s t) :
    ledger t.log = ledger s.log := by
  obtain ⟨u, rfl | hcall, rfl⟩ := h
  · rfl
  · exact hcall.ledger_eq

/-- A commit drops the buffer if the device accepts it. -/
theorem Committed.ledger_eq {known : Prop} {p : Ptr} {hlen n : Nat} {seq : UInt32} {ret : Status}
    (h : Committed known p hlen seq n ret s t) : ledger t.log =
      if ret = .ok then .drop (some s.id) p.buf :: ledger s.log else ledger s.log := by
  obtain ⟨u, frame, mss, hstore, rfl, -⟩ := h
  rw [← hstore.ledger_eq]
  exact ledger_commit _ _ _ _

/-- Something has happened since `log`, and lastly the event. -/
def EndsWith (ev : Event) (log : List Event) (t : Slot H) : Prop :=
  ∃ mid, t.log = ev :: (mid ++ log)

theorem EndsWith.of_append (h : EndsWith ev (new ++ log) t) : EndsWith ev log t := by
  obtain ⟨mid, hlog⟩ := h
  exact ⟨mid ++ new, by rw [hlog, List.append_assoc]⟩

theorem EndsWith.not_replenished (h : EndsWith ev log t)
    (hev : ∀ id st first buf clash, ev ≠ .refill id st first (some buf) clash) :
    ¬Replenished t := by
  obtain ⟨mid, hlog⟩ := h
  rintro ⟨_, _, _, _, _, _, hlog'⟩
  rw [hlog] at hlog'
  exact hev _ _ _ _ _ (List.cons.inj hlog').1

/-- The next send buffer is taken, or there is none. -/
theorem Refilled.ledger_eq {first : Bool} (h : Refilled first s t) :
    (t.log = .refill s.id s.state first none false :: .prepare (some s.id) none :: s.log ∧
        t.sdat = s.sdat ∧ ledger t.log = ledger s.log) ∨
      ∃ buf, t.sdat = some ⟨buf, tcpOffset⟩ ∧
        (∃ clash, EndsWith (.refill s.id s.state first (some buf) clash) s.log t) ∧
        ledger t.log = .take (some s.id) buf :: ledger s.log := by
  rcases h with rfl | ⟨buf, mem, writes, clash, -, hwrites, -, rfl⟩
  · exact .inl ⟨rfl, rfl, rfl⟩
  · exact .inr ⟨buf, rfl, ⟨clash, writes ++ [.prepare (some s.id) (some buf)], by simp⟩,
      ledger_writes hwrites⟩

/-- Sending a segment of the ring: the device refuses it, takes it and has no
other buffer, or replaces it. -/
theorem Transmitted.ledger_eq {known : Prop} {k : Fin segmentCount} {hlen n : Nat}
    (h : Transmitted handler known k hlen n s t) :
    ∃ p, (s.segments k).dat = some p ∧
      let again := (s.segments k).seq != s.sndNxt
      ((∃ ret, ret ≠ .ok ∧ t.sdat = s.sdat ∧ ledger t.log = ledger s.log ∧
          EndsWith (.transmit s.id s.state (s.segments k).seq (s.segments k).len again ret)
            s.log t) ∨
        (t.sdat = s.sdat ∧ ledger t.log = .drop (some s.id) p.buf :: ledger s.log ∧
          EndsWith (.refill s.id s.state (!again) none false) s.log t) ∨
        ∃ buf, t.sdat = some ⟨buf, tcpOffset⟩ ∧
          (∃ clash, EndsWith (.refill s.id s.state (!again) (some buf) clash) s.log t) ∧
          ledger t.log = .take (some s.id) buf :: .drop (some s.id) p.buf :: ledger s.log) := by
  obtain ⟨p, u, ret, hdat, hcommit, hout⟩ := h
  have hledger := hcommit.ledger_eq
  have hcore := hcommit.toCore_eq
  obtain ⟨new, hnew, -⟩ := hcommit.adds (l := .emit)
  set ev := Event.transmit s.id s.state (s.segments k).seq (s.segments k).len
    ((s.segments k).seq != s.sndNxt) ret
  refine ⟨p, hdat, ?_⟩
  rcases hout with ⟨hret, rfl⟩ | ⟨hret, x, hx, hrefill⟩
  · rw [if_neg hret] at hledger
    exact .inl ⟨ret, hret, congrArg Core.sdat hcore, hledger, new, congrArg (_ :: ·) hnew⟩
  · rw [if_pos hret] at hledger
    -- Counting a new segment enters nothing and keeps the buffer.
    obtain ⟨hxid, hxstate, hxsdat, hxledger, mid, hmid⟩ : x.id = s.id ∧
        x.state = s.state ∧ x.sdat = s.sdat ∧ ledger x.log = ledger u.log ∧
        ∃ mid, x.log = mid ++ s.log := by
      split at hx
      · subst hx
        exact ⟨(congrArg Core.id hcore :), (congrArg Core.state hcore :),
          (congrArg Core.sdat hcore :), rfl, ev :: new, congrArg (ev :: ·) hnew⟩
      · have hxcore := hx.toCore_eq
        obtain ⟨more, hmore, -⟩ := hx.adds (l := .emit) (by decide)
        refine ⟨(congrArg Core.id hxcore).trans (congrArg Core.id hcore :),
          (congrArg Core.state hxcore).trans (congrArg Core.state hcore :),
          (congrArg Core.sdat hxcore).trans (congrArg Core.sdat hcore :), hx.ledger_eq,
          more ++ ev :: new, ?_⟩
        rw [hmore, Slot.logged, hnew, List.append_assoc]
        rfl
    have hout := hrefill.ledger_eq
    rw [hxid, hxstate, hxsdat, hxledger, hledger] at hout
    rcases hout with ⟨hlog, hsdat, hled⟩ | ⟨buf, hsdat, ⟨clash, hends⟩, hled⟩
    · exact .inr (.inl ⟨hsdat, hled, .prepare (some s.id) none :: mid, by rw [hlog, hmid]; rfl⟩)
    · rw [hmid] at hends
      exact .inr (.inr ⟨buf, hsdat, ⟨clash, hends.of_append⟩, hled⟩)

/-- A segment without data goes out, or is about to. -/
def Event.sends (id : UInt16) : Event → Bool
  | .control id' _ _ | .transmit id' _ _ _ _ _ => id' == id
  | _ => false

/-- Sending a segment without data: the same three cases, but the connection
keeps a buffer that is not replaced. -/
theorem SentControl.ledger_eq {known : Prop} (h : SentControl known s t) :
    ∃ p, s.sdat = some p ∧
      (∃ later, t.log = later ++ .control s.id s.state s.slen :: s.log) ∧
      ((∃ frame mss ret mid, ret ≠ .ok ∧ t.sdat = s.sdat ∧ ledger t.log = ledger s.log ∧
          t.log = .commit (some s.id) p.buf frame mss ret ::
            (mid ++ .control s.id s.state s.slen :: s.log) ∧
          ∀ ev ∈ mid, ev.sends s.id = false) ∨
        (∃ mid, t.sdat = s.sdat ∧ ledger t.log = .drop (some s.id) p.buf :: ledger s.log ∧
          t.log = .refill s.id s.state false none false ::
            (mid ++ .control s.id s.state s.slen :: s.log) ∧
          ∀ ev ∈ mid, ev.sends s.id = false) ∨
        ∃ buf, t.sdat = some ⟨buf, tcpOffset⟩ ∧
          (∃ clash, EndsWith (.refill s.id s.state false (some buf) clash) s.log t) ∧
          ledger t.log = .take (some s.id) buf :: .drop (some s.id) p.buf :: ledger s.log) := by
  obtain ⟨p, u, ret, hsdat, hcommit, hout⟩ := h
  have hledger := hcommit.ledger_eq
  have hcore := hcommit.toCore_eq
  obtain ⟨v, frame, mss, ⟨mem, writes, hv, hwrites, -⟩, hu, -⟩ := hcommit
  have hulog : u.log = .commit (some s.id) p.buf frame mss ret ::
      (writes ++ .control s.id s.state s.slen :: s.log) := by
    rw [hu, hv]
    rfl
  -- Writing the frame sends nothing.
  have hquiet : ∀ ev ∈ writes, ev.sends s.id = false := fun ev hev => by
    rw [hwrites ev hev]
    rfl
  have hlater : ∃ later, t.log = later ++ .control s.id s.state s.slen :: s.log := by
    rcases hout with ⟨-, rfl⟩ | ⟨-, hrefill⟩
    · exact ⟨_ :: writes, hulog⟩
    · obtain ⟨more, hmore, -⟩ := hrefill.adds (l := .control)
      exact ⟨more ++ .commit (some s.id) p.buf frame mss ret :: writes, by
        rw [hmore, hulog]; simp⟩
  refine ⟨p, hsdat, hlater, ?_⟩
  rcases hout with ⟨hret, rfl⟩ | ⟨hret, hrefill⟩
  · rw [if_neg hret] at hledger
    exact .inl ⟨frame, mss, ret, writes, hret, (congrArg Core.sdat hcore :), hledger, hulog,
      hquiet⟩
  · rw [if_pos hret] at hledger
    have hout := hrefill.ledger_eq
    rw [show u.id = s.id from (congrArg Core.id hcore :),
      show u.state = s.state from (congrArg Core.state hcore :),
      show u.sdat = s.sdat from (congrArg Core.sdat hcore :), hledger] at hout
    rcases hout with ⟨hlog, hkeep, hled⟩ | ⟨buf, hbuf, ⟨clash, hends⟩, hled⟩
    · refine .inr (.inl ⟨.prepare (some s.id) none :: .commit (some s.id) p.buf frame mss ret ::
        writes, hkeep, hled, ?_, ?_⟩)
      · rw [hlog, hulog]
        rfl
      · simpa [Event.sends] using hquiet
    · refine .inr (.inr ⟨buf, hbuf, ⟨clash, ?_⟩, hled⟩)
      rw [hulog] at hends
      obtain ⟨mid, hlog⟩ := hends
      exact ⟨mid ++ .commit (some s.id) p.buf frame mss ret ::
        (writes ++ [.control s.id s.state s.slen]), by rw [hlog]; simp⟩

theorem Spared.ledger_eq (h : Spared s t) :
    ∃ buf, ledger t.log = .take (some s.id) buf :: ledger s.log := by
  obtain ⟨buf, mem, writes, hwrites, -, rfl⟩ := h
  exact ⟨buf, ledger_writes hwrites⟩

theorem Slot.pushedSyn_segments_self (s : Slot H) (k : Fin segmentCount) (p : Ptr) :
    (s.pushedSyn k p).segments k = ⟨1, s.sndNxt, some p⟩ :=
  Function.update_self _ _ _

/-- Opening a connection passes it the buffer of its SYN. -/
theorem Opened.ledger_eq {peer : Peer} {st : State} {iss : UInt32} {p : Ptr}
    (h : Opened handler peer st iss p s t) :
      let base := .pass none (some s.id) p.buf :: ledger s.log
      (∃ ret, ret ≠ .ok ∧ t.sdat = none ∧ ledger t.log = base ∧
          EndsWith (.transmit s.id st iss 1 false ret) s.log t) ∨
        (t.sdat = none ∧ ledger t.log = .drop (some s.id) p.buf :: base ∧
          EndsWith (.refill s.id st true none false) s.log t) ∨
        ∃ buf, t.sdat = some ⟨buf, tcpOffset⟩ ∧
          (∃ clash, EndsWith (.refill s.id st true (some buf) clash) s.log t) ∧
          ledger t.log = .take (some s.id) buf :: .drop (some s.id) p.buf :: base := by
  obtain ⟨leftover, rcvNxt, synced, k, -, hsynced, -, hsend⟩ := h
  have hledger : ledger (synced ++ .create s.id iss p.buf leftover :: s.log) =
      .pass none (some s.id) p.buf :: ledger s.log :=
    ledger_append_of_none fun ev hev => by
      obtain ⟨irs, rfl⟩ := hsynced ev hev
      rfl
  obtain ⟨q, hq, hout⟩ := hsend.ledger_eq
  rw [Slot.pushedSyn_segments_self] at hq hout
  obtain rfl := Option.some_inj.mp hq
  have hlogs : synced ++ .create s.id iss p.buf leftover :: s.log =
      (synced ++ [.create s.id iss p.buf leftover]) ++ s.log := by simp
  simp only [Slot.pushedSyn, Slot.opened, hledger, bne_self_eq_false, Bool.not_false] at hout
  rw [hlogs] at hout
  rcases hout with ⟨ret, hret, hsdat, hled, hends⟩ | ⟨hsdat, hled, hends⟩ |
    ⟨buf, hsdat, ⟨clash, hends⟩, hled⟩
  · exact .inl ⟨ret, hret, hsdat, hled, hends.of_append⟩
  · exact .inr (.inl ⟨hsdat, hled, hends.of_append⟩)
  · exact .inr (.inr ⟨buf, hsdat, ⟨clash, hends.of_append⟩, hled⟩)

/-! ## Lawful effects -/

/-- Events that neither use a buffer nor move one are always lawful. -/
theorem LawfulLog.idle {g : List Event} (hg : ∀ ev ∈ g, ev.entry = none ∧ ∀ log, ev.Lawful log)
    (h : LawfulLog log) : LawfulLog (g ++ log) ∧ ledger (g ++ log) = ledger log :=
  ⟨h.append fun ev hev => (hg ev hev).2, ledger_append_of_none fun ev hev => (hg ev hev).1⟩

theorem Event.idle_of_isNote (h : ev.isNote = true) :
    ev.entry = none ∧ ∀ log, ev.Lawful log := by
  cases ev with
  | prepare who buf =>
      cases buf with
      | none => exact ⟨rfl, fun _ => trivial⟩
      | some buf => cases h
  | write | commit | create => cases h
  | _ => exact ⟨rfl, fun _ => trivial⟩

theorem Event.idle_of_synced (h : ∃ irs, ev = .synced id irs) :
    ev.entry = none ∧ ∀ log, ev.Lawful log := by
  obtain ⟨irs, rfl⟩ := h
  exact ⟨rfl, fun _ => trivial⟩

theorem LawfulLog.writes {who : Party} {writes : List Event}
    (hwrites : ∀ ev ∈ writes, ev = .write who buf) (hheld : Holds who buf (ledger log))
    (h : LawfulLog log) : LawfulLog (writes ++ log) := by
  induction writes with
  | nil => exact h
  | cons ev writes ih =>
      have hrest : ∀ ev ∈ writes, ev = .write who buf := fun ev hev =>
        hwrites ev (List.mem_cons_of_mem _ hev)
      refine ⟨?_, ih hrest⟩
      rw [hwrites ev List.mem_cons_self]
      show Holds who buf (ledger (writes ++ log))
      rwa [ledger_writes hrest]

/-- Storing to a buffer the connection holds. -/
theorem Stored.lawful {p : Ptr} {lo hi : Nat} (h : Stored p lo hi s t)
    (hheld : Holds (some s.id) p.buf (ledger s.log)) (hlog : LawfulLog s.log) :
    LawfulLog t.log := by
  obtain ⟨mem, writes, rfl, hwrites, -⟩ := h
  exact hlog.writes hwrites hheld

theorem Called.lawful {cb : Callback} (h : Called handler cb s t) (hlog : LawfulLog s.log) :
    LawfulLog t.log := by
  obtain ⟨e, -, rfl⟩ := h
  exact ⟨trivial, hlog⟩

theorem Counted.lawful {len : UInt32} (h : Counted handler len s t) (hlog : LawfulLog s.log) :
    LawfulLog t.log := by
  obtain ⟨u, rfl | hcall, rfl⟩ := h
  · exact hlog
  · exact hcall.lawful hlog

/-- Committing a buffer the connection holds. -/
theorem Committed.lawful {known : Prop} {p : Ptr} {hlen n : Nat} {seq : UInt32} {ret : Status}
    (h : Committed known p hlen seq n ret s t)
    (hheld : Holds (some s.id) p.buf (ledger s.log)) (hlog : LawfulLog s.log) :
    LawfulLog t.log := by
  obtain ⟨u, frame, mss, hstore, rfl, -⟩ := h
  refine ⟨?_, hstore.lawful hheld hlog⟩
  show Holds (some s.id) p.buf (ledger u.log)
  rwa [hstore.ledger_eq]

theorem Refilled.lawful {first : Bool} (h : Refilled first s t) (hlog : LawfulLog s.log) :
    LawfulLog t.log := by
  rcases h with rfl | ⟨buf, mem, writes, clash, -, hwrites, -, rfl⟩
  · exact ⟨trivial, trivial, hlog⟩
  · have hprepared : LawfulLog (.prepare (some s.id) (some buf) :: s.log) := ⟨trivial, hlog⟩
    have hheld : Holds (some s.id) buf (ledger (.prepare (some s.id) (some buf) :: s.log)) :=
      Or.inl ⟨rfl, rfl⟩
    exact ⟨trivial, hprepared.writes hwrites hheld⟩

/-- Sending a segment from a buffer the connection holds. -/
theorem Transmitted.lawful {known : Prop} {k : Fin segmentCount} {hlen n : Nat}
    (h : Transmitted handler known k hlen n s t)
    (hheld : ∀ p, (s.segments k).dat = some p → Holds (some s.id) p.buf (ledger s.log))
    (hlog : LawfulLog s.log) : LawfulLog t.log := by
  obtain ⟨p, u, ret, hdat, hcommit, hout⟩ := h
  have hu := hcommit.lawful (hheld p hdat) hlog
  rcases hout with ⟨-, rfl⟩ | ⟨-, x, hx, hrefill⟩
  · exact ⟨trivial, hu⟩
  · refine hrefill.lawful ?_
    split at hx
    · subst hx
      exact ⟨trivial, hu⟩
    · exact hx.lawful ⟨trivial, hu⟩

/-- Sending a segment without data from a buffer the connection holds. -/
theorem SentControl.lawful {known : Prop} (h : SentControl known s t)
    (hheld : ∀ p, s.sdat = some p → Holds (some s.id) p.buf (ledger s.log))
    (hlog : LawfulLog s.log) : LawfulLog t.log := by
  obtain ⟨p, u, ret, hsdat, hcommit, hout⟩ := h
  have hu := hcommit.lawful (hheld p hsdat) ⟨trivial, hlog⟩
  rcases hout with ⟨-, rfl⟩ | ⟨-, hrefill⟩
  · exact hu
  · exact hrefill.lawful hu

theorem Spared.lawful (h : Spared s t) (hlog : LawfulLog s.log) : LawfulLog t.log := by
  obtain ⟨buf, mem, writes, hwrites, -, rfl⟩ := h
  have hprepared : LawfulLog (.prepare (some s.id) (some buf) :: s.log) := ⟨trivial, hlog⟩
  exact hprepared.writes hwrites (Or.inl ⟨rfl, rfl⟩)

/-- A fetched buffer is held by the processor. -/
theorem Fetched.holds (h : Fetched buf log) : Holds none buf (ledger log) := by
  obtain ⟨mid, post, rfl, hmid⟩ := h
  rw [ledger_append_of_none fun ev hev => ?_]
  · exact Or.inl ⟨rfl, rfl⟩
  · rcases hmid ev hev with rfl | ⟨port, ret, rfl⟩ <;> rfl

/-- Opening a connection with a buffer the processor holds. -/
theorem Opened.lawful {peer : Peer} {st : State} {iss : UInt32} {p : Ptr}
    (h : Opened handler peer st iss p s t) (hheld : Holds none p.buf (ledger s.log))
    (hlog : LawfulLog s.log) : LawfulLog t.log := by
  obtain ⟨leftover, rcvNxt, synced, k, -, hsynced, -, hsend⟩ := h
  have hcreated : LawfulLog (.create s.id iss p.buf leftover :: s.log) := ⟨hheld, hlog⟩
  obtain ⟨hlaw, hledger⟩ := hcreated.idle fun ev hev => Event.idle_of_synced (hsynced ev hev)
  refine hsend.lawful (fun q hq => ?_) hlaw
  rw [Slot.pushedSyn_segments_self] at hq
  obtain rfl := Option.some_inj.mp hq
  show Holds (some s.id) p.buf (ledger (synced ++ .create s.id iss p.buf leftover :: s.log))
  rw [hledger]
  exact Or.inl ⟨rfl, rfl⟩

end Effects

end Tulips.Tcpv4
