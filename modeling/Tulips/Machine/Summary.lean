import Tulips.Machine.Table

/-!
# What acts change and what they report

Every effect changes a few fields of the slot and extends the history. The
lemmas below say which fields, and which events which kinds of acts can add.
-/

namespace Tulips.Tcpv4

variable {H : Type} {handler : EventHandler H} {s t u : Slot H} {P Q : Event → Prop}

/-- The history has been extended by events that satisfy a predicate. -/
def Adds (P : Event → Prop) (s t : Slot H) : Prop :=
  ∃ new, t.log = new ++ s.log ∧ ∀ ev ∈ new, P ev

namespace Adds

theorem refl : Adds P s s := ⟨[], rfl, by simp⟩

theorem of_log_eq (h : t.log = s.log) : Adds P s t := ⟨[], h, by simp⟩

theorem trans (h₁ : Adds P s t) (h₂ : Adds P t u) : Adds P s u := by
  obtain ⟨new₁, hlog₁, hnew₁⟩ := h₁
  obtain ⟨new₂, hlog₂, hnew₂⟩ := h₂
  refine ⟨new₂ ++ new₁, by rw [hlog₂, hlog₁, List.append_assoc], ?_⟩
  intro ev hev
  rcases List.mem_append.mp hev with h | h
  · exact hnew₂ ev h
  · exact hnew₁ ev h

theorem logged {ev : Event} (h : P ev) : Adds P s (s.logged ev) :=
  ⟨[ev], rfl, by simpa using h⟩

end Adds

/-- The history has been extended by such events, with `ev` among them. -/
def AddsWith (ev : Event) (P : Event → Prop) (s t : Slot H) : Prop :=
  ∃ new, t.log = new ++ s.log ∧ ev ∈ new ∧ ∀ ev ∈ new, P ev

namespace AddsWith

variable {ev : Event}

theorem of_logged (hbefore : Adds P s u) (hev : P ev) (hafter : Adds P (u.logged ev) t) :
    AddsWith ev P s t := by
  obtain ⟨before, hlog, hP⟩ := hbefore
  obtain ⟨after, hlog', hP'⟩ := hafter
  refine ⟨after ++ ev :: before, ?_, by simp, fun x hx => ?_⟩
  · rw [hlog', Slot.logged, hlog, List.append_assoc]
    rfl
  · rcases List.mem_append.mp hx with h | h
    · exact hP' x h
    · rcases List.mem_cons.mp h with rfl | h
      · exact hev
      · exact hP x h

theorem adds (h : AddsWith ev P s t) : Adds P s t := by
  obtain ⟨new, hlog, -, hP⟩ := h
  exact ⟨new, hlog, hP⟩

theorem mem (h : AddsWith ev P s t) : ev ∈ t.log := by
  obtain ⟨new, hlog, hmem, -⟩ := h
  rw [hlog]
  exact List.mem_append_left _ hmem

end AddsWith

/-! ## Kinds of events -/

/-- The kinds of acts that may add an event. -/
def Event.labels : Event → List Label
  | .create _ _ _ _ => Label.opening
  | .append _ _ _ => [.append]
  | .synced _ _ => .rcv :: Label.opening
  | .control _ st _ => if st = .closed then [.kill, .abort] else [.control, .spare]
  | .callback _ cb _ =>
      if cb.isData then [.data]
      else if cb = .onSent then [.life, .emit, .fin, .resend, .create, .createFailed]
      else [.life, .abort]
  | _ => [.note, .life, .data, .move, .settle, .rcv, .news, .clear, .store, .append,
      .emit, .fin, .resend, .control, .spare, .kill, .abort, .create, .createFailed]

/-- An act of kind `l` on the connection `id` may add the event. -/
def Event.From (l : Label) (id : UInt16) (ev : Event) : Prop :=
  (ev.owner = none ∨ ev.owner = some id) ∧ l ∈ ev.labels

theorem Event.mem_labels_of_plain {l : Label} {ev : Event}
    (h : ev.labels = [.note, .life, .data, .move, .settle, .rcv, .news, .clear, .store, .append,
      .emit, .fin, .resend, .control, .spare, .kill, .abort, .create, .createFailed]) :
    l ∈ ev.labels := by
  rw [h]
  cases l <;> decide

/-! ## Effects -/

section Effects

variable {l : Label}

theorem Stored.adds {p : Ptr} {lo hi : Nat} (h : Stored p lo hi s t) :
    Adds (Event.From l s.id) s t := by
  obtain ⟨mem, writes, rfl, hwrites, -⟩ := h
  refine ⟨writes, rfl, fun ev hev => ?_⟩
  rw [hwrites ev hev]
  exact ⟨.inr rfl, Event.mem_labels_of_plain rfl⟩

theorem Called.toCore_eq {cb : Callback} (h : Called handler cb s t) : t.toCore = s.toCore := by
  obtain ⟨e, -, rfl⟩ := h
  rfl

theorem Called.adds {cb : Callback} (h : Called handler cb s t)
    (hl : ∀ id a, l ∈ (Event.callback id cb a).labels) : Adds (Event.From l s.id) s t := by
  obtain ⟨e, -, rfl⟩ := h
  exact ⟨[_], rfl, fun ev hev => by rw [List.mem_singleton.mp hev]; exact ⟨.inr rfl, hl _ _⟩⟩

section Committed

variable {known : Prop} {p : Ptr} {hlen n : Nat} {seq : UInt32} {ret : Status}

theorem Committed.toCore_eq (h : Committed known p hlen seq n ret s t) :
    t.toCore = s.toCore := by
  obtain ⟨u, frame, mss, hstore, rfl, -⟩ := h
  exact hstore.toCore_eq

theorem Committed.adds (h : Committed known p hlen seq n ret s t) :
    Adds (Event.From l s.id) s t := by
  obtain ⟨u, frame, mss, hstore, rfl, -⟩ := h
  exact hstore.adds.trans (.logged ⟨.inr rfl, Event.mem_labels_of_plain rfl⟩)

end Committed

theorem Refilled.toCore_eq {first : Bool} (h : Refilled first s t) :
    ∃ sdat, t.toCore = { s.toCore with sdat := sdat } := by
  rcases h with rfl | ⟨buf, mem, writes, clash, -, -, -, rfl⟩
  · exact ⟨s.sdat, rfl⟩
  · exact ⟨_, rfl⟩

theorem Refilled.adds {first : Bool} (h : Refilled first s t) :
    Adds (Event.From l s.id) s t := by
  rcases h with rfl | ⟨buf, mem, writes, clash, -, hwrites, -, rfl⟩
  · refine ⟨[_, _], rfl, fun ev hev => ?_⟩
    rcases List.mem_pair.mp hev with rfl | rfl <;>
      exact ⟨.inr rfl, Event.mem_labels_of_plain rfl⟩
  · refine ⟨.refill s.id s.state first (some buf) clash ::
      (writes ++ [.prepare (some s.id) (some buf)]), by simp, fun ev hev => ?_⟩
    rcases List.mem_cons.mp hev with rfl | h
    · exact ⟨.inr rfl, Event.mem_labels_of_plain rfl⟩
    · rcases List.mem_append.mp h with h | h
      · rw [hwrites ev h]
        exact ⟨.inr rfl, Event.mem_labels_of_plain rfl⟩
      · rw [List.mem_singleton.mp h]
        exact ⟨.inr rfl, Event.mem_labels_of_plain rfl⟩

theorem Counted.toCore_eq {len : UInt32} (h : Counted handler len s t) :
    t.toCore = { s.toCore with sndNxt := s.sndNxt + len } := by
  obtain ⟨u, rfl | hcall, rfl⟩ := h
  · rfl
  · show ({ u.toCore with sndNxt := u.toCore.sndNxt + len } : Core) = _
    rw [hcall.toCore_eq]

/-- The kinds of acts that send segments of the ring. -/
def Label.sending : List Label := [.emit, .fin, .resend, .create, .createFailed]

theorem Counted.adds {len : UInt32} (h : Counted handler len s t) (hl : l ∈ Label.sending) :
    Adds (Event.From l s.id) s t := by
  obtain ⟨u, rfl | hcall, rfl⟩ := h
  · exact .of_log_eq rfl
  · have hadds : Adds (Event.From l s.id) s u :=
      hcall.adds fun id a => by
        show l ∈ [.life, .emit, .fin, .resend, .create, .createFailed]
        exact List.mem_cons_of_mem _ hl
    exact hadds.trans (.of_log_eq rfl)

/-- Sending a segment advances the next number unless it is a retransmission,
and gets a new send buffer, provided the device takes the frame. -/
theorem Transmitted.summary {known : Prop} {k : Fin segmentCount} {hlen n : Nat}
    (h : Transmitted handler known k hlen n s t) (hl : l ∈ Label.sending) :
    ∃ p ret, (s.segments k).dat = some p ∧
      AddsWith (.transmit s.id s.state (s.segments k).seq (s.segments k).len
        ((s.segments k).seq != s.sndNxt) ret) (Event.From l s.id) s t ∧
      ((ret ≠ .ok ∧ ¬Replenished t ∧ t.toCore = s.toCore) ∨
        (ret = .ok ∧ ∃ sdat, t.toCore = { s.toCore with
        sndNxt := if (s.segments k).seq = s.sndNxt then s.sndNxt + (s.segments k).len
          else s.sndNxt
        sdat := sdat })) := by
  obtain ⟨p, u, ret, hdat, hcommit, hout⟩ := h
  refine ⟨p, ret, hdat, ?_⟩
  have hid : u.id = s.id := congrArg Core.id hcommit.toCore_eq
  set ev := Event.transmit s.id s.state (s.segments k).seq (s.segments k).len
    ((s.segments k).seq != s.sndNxt) ret
  have hfrom : Event.From l s.id ev := ⟨.inr rfl, Event.mem_labels_of_plain rfl⟩
  rcases hout with ⟨hret, rfl⟩ | ⟨hret, x, hx, hrefill⟩
  · refine ⟨.of_logged hcommit.adds hfrom .refl, .inl ⟨hret, ?_, hcommit.toCore_eq⟩⟩
    rintro ⟨id, st, first, buf, clash, post, hlog⟩
    cases (List.cons.inj hlog).1
  · by_cases hagain : (s.segments k).seq = s.sndNxt
    · -- A new segment.
      rw [if_neg (by simp [hagain])] at hx
      have hxid : x.id = s.id := by
        rw [show x.id = x.toCore.id from rfl, hx.toCore_eq]
        exact hid
      have hxadds : Adds (Event.From l s.id) (u.logged ev) x := hid ▸ hx.adds hl
      have hradds : Adds (Event.From l s.id) x t := hxid ▸ hrefill.adds
      refine ⟨.of_logged hcommit.adds hfrom (hxadds.trans hradds), .inr ⟨hret, ?_⟩⟩
      obtain ⟨sdat, hcore⟩ := hrefill.toCore_eq
      refine ⟨sdat, ?_⟩
      rw [hcore, hx.toCore_eq, if_pos hagain]
      show ({ u.toCore with sndNxt := u.toCore.sndNxt + _, sdat := sdat } : Core) = _
      rw [hcommit.toCore_eq]
    · rw [if_pos (by simpa using hagain)] at hx
      subst hx
      have hradds : Adds (Event.From l s.id) (u.logged ev) t := hid ▸ hrefill.adds
      refine ⟨.of_logged hcommit.adds hfrom hradds, .inr ⟨hret, ?_⟩⟩
      obtain ⟨sdat, hcore⟩ := hrefill.toCore_eq
      refine ⟨sdat, ?_⟩
      rw [hcore, if_neg hagain]
      show ({ u.toCore with sdat := sdat } : Core) = _
      rw [hcommit.toCore_eq]

theorem SentControl.core_eq {known : Prop} (h : SentControl known s t) :
    ∃ sdat, t.toCore = { s.toCore with sdat := sdat } := by
  obtain ⟨p, u, ret, hsdat, hcommit, hout⟩ := h
  rcases hout with ⟨-, rfl⟩ | ⟨-, hrefill⟩
  · exact ⟨s.sdat, hcommit.toCore_eq⟩
  · obtain ⟨sdat, hcore⟩ := hrefill.toCore_eq
    refine ⟨sdat, ?_⟩
    rw [hcore, hcommit.toCore_eq]
    rfl

theorem SentControl.adds {known : Prop} (h : SentControl known s t)
    (hl : l ∈ (Event.control s.id s.state s.slen).labels) : Adds (Event.From l s.id) s t := by
  obtain ⟨p, u, ret, hsdat, hcommit, hout⟩ := h
  have hlogged : Adds (Event.From l s.id) s (s.logged (.control s.id s.state s.slen)) :=
    .logged ⟨.inr rfl, hl⟩
  have hadds : Adds (Event.From l s.id) s u := hlogged.trans hcommit.adds
  rcases hout with ⟨-, rfl⟩ | ⟨-, hrefill⟩
  · exact hadds
  · have hid : u.id = s.id := congrArg Core.id hcommit.toCore_eq
    exact hadds.trans (hid ▸ hrefill.adds)

/-- Opening a connection leaves its SYN in the ring. -/
theorem Opened.summary {peer : Peer} {st : State} {iss : UInt32} {p : Ptr}
    (h : Opened handler peer st iss p s t) :
    ∃ leftover rcvNxt synced k ret, (leftover = true ↔ s.hasOutstanding) ∧
      (∀ ev ∈ synced, ∃ irs, ev = Event.synced s.id irs) ∧
      (s.opened peer st rcvNxt iss).nextFree = some k ∧
      AddsWith (.transmit s.id st iss 1 false ret) (Event.From .emit s.id)
        { s with log := synced ++ .create s.id iss p.buf leftover :: s.log } t ∧
      let c := ((s.opened peer st rcvNxt iss).pushedSyn k p).toCore
      ((ret ≠ .ok ∧ ¬Replenished t ∧ t.toCore = c) ∨
        (ret = .ok ∧ ∃ sdat, t.toCore = { c with sndNxt := iss + 1, sdat := sdat })) := by
  obtain ⟨leftover, rcvNxt, synced, k, hleft, hsynced, hfree, hsend⟩ := h
  obtain ⟨p', ret, -, hadds, hcore⟩ := hsend.summary (l := .emit) (by decide)
  simp only [Slot.pushedSyn, Slot.opened, Function.update_self, bne_self_eq_false,
    if_true] at hadds hcore
  exact ⟨leftover, rcvNxt, synced, k, ret, hleft, hsynced, hfree, hadds, hcore⟩

/-- Opening a connection is the business of its slot. -/
theorem Opened.owned {peer : Peer} {st : State} {iss : UInt32} {p : Ptr}
    (h : Opened handler peer st iss p s t) : t.id = s.id ∧ ∃ new, t.log = new ++ s.log ∧
      ∀ ev ∈ new, ev.owner = none ∨ ev.owner = some s.id := by
  obtain ⟨leftover, rcvNxt, synced, k, ret, -, hsynced, -, ⟨new, hlog, -, hnew⟩, hcore⟩ := h.summary
  refine ⟨?_, new ++ (synced ++ [.create s.id iss p.buf leftover]), by simp [hlog], ?_⟩
  · rcases hcore with ⟨-, -, hcore⟩ | ⟨-, sdat, hcore⟩
    · exact (congrArg Core.id hcore :)
    · exact (congrArg Core.id hcore :)
  · intro ev hev
    rcases List.mem_append.mp hev with hev | hev
    · exact (hnew ev hev).1
    · rcases List.mem_append.mp hev with hev | hev
      · obtain ⟨irs, rfl⟩ := hsynced ev hev
        exact .inr rfl
      · rw [List.mem_singleton.mp hev]
        exact .inr rfl

theorem Spared.toCore_eq (h : Spared s t) : t.toCore = s.toCore := by
  obtain ⟨buf, mem, writes, -, -, rfl⟩ := h
  rfl

theorem Spared.adds (h : Spared s t) : Adds (Event.From l s.id) s t := by
  obtain ⟨buf, mem, writes, hwrites, -, rfl⟩ := h
  refine ⟨writes ++ [.prepare (some s.id) (some buf)], by simp, fun ev hev => ?_⟩
  rcases List.mem_append.mp hev with h | h
  · rw [hwrites ev h]
    exact ⟨.inr rfl, Event.mem_labels_of_plain rfl⟩
  · rw [List.mem_singleton.mp h]
    exact ⟨.inr rfl, Event.mem_labels_of_plain rfl⟩

end Effects

/-! ## Acts -/

/-- An act stays on its connection and adds only events of its kind. -/
theorem Act.adds {l : Label} (h : Act handler l s t) :
    t.id = s.id ∧ Adds (Event.From l s.id) s t := by
  -- A segment of the ring leaves from a slot that differs from `s` outside its history.
  have hsent : ∀ {known : Prop} {r : Slot H} {k : Fin segmentCount} {hlen n : Nat},
      Transmitted handler known k hlen n r t → l ∈ Label.sending → r.id = s.id →
      Adds (Event.From l s.id) s r → t.id = s.id ∧ Adds (Event.From l s.id) s t := by
    intro known r k hlen n hsend hl hid hr
    obtain ⟨p, ret, -, hadds, hcore⟩ := hsend.summary hl
    refine ⟨Eq.trans ?_ hid, hr.trans (hid ▸ hadds.adds)⟩
    rcases hcore with ⟨-, -, hcore⟩ | ⟨-, sdat, hcore⟩
    · exact (congrArg Core.id hcore :)
    · exact (congrArg Core.id hcore :)
  have hcontrol : ∀ {known : Prop} {r : Slot H}, SentControl known r t →
      l ∈ (Event.control r.id r.state r.slen).labels → r.id = s.id →
      Adds (Event.From l s.id) s r → t.id = s.id ∧ Adds (Event.From l s.id) s t := by
    intro known r hsend hl hid hr
    obtain ⟨sdat, hcore⟩ := hsend.core_eq
    exact ⟨(congrArg Core.id hcore :).trans hid, hr.trans (hid ▸ hsend.adds hl)⟩
  have hopened : ∀ {peer : Peer} {st : State} {iss : UInt32} {p : Ptr} {r : Slot H},
      l ∈ Label.opening → Opened handler peer st iss p s r →
      r.id = s.id ∧ Adds (Event.From l s.id) s r := by
    intro peer st iss p r hl hopen
    obtain ⟨leftover, rcvNxt, synced, k, -, hsynced, -, hsend⟩ := hopen
    have hlog : Adds (Event.From l s.id) s
        { s with log := synced ++ .create s.id iss p.buf leftover :: s.log } := by
      refine ⟨synced ++ [.create s.id iss p.buf leftover], by simp, fun ev hev => ?_⟩
      rcases List.mem_append.mp hev with h | h
      · obtain ⟨irs, rfl⟩ := hsynced ev h
        exact ⟨.inr rfl, List.mem_cons_of_mem _ hl⟩
      · rw [List.mem_singleton.mp h]
        exact ⟨.inr rfl, hl⟩
    have hsending : l ∈ Label.sending := by
      revert hl
      cases l <;> decide
    obtain ⟨p', ret, -, hadds, hcore⟩ := hsend.summary hsending
    refine ⟨?_, hlog.trans hadds.adds⟩
    rcases hcore with ⟨-, -, hcore⟩ | ⟨-, sdat, hcore⟩
    · exact (congrArg Core.id hcore :)
    · exact (congrArg Core.id hcore :)
  cases h with
  | note hev howner =>
      refine ⟨rfl, .logged ⟨howner, ?_⟩⟩
      revert hev
      rename_i ev
      cases ev <;> simp [Event.isNote, Event.labels]
  | life hcb hcall =>
      refine ⟨congrArg Core.id hcall.toCore_eq, hcall.adds fun id a => ?_⟩
      simp only [Event.labels, hcb, Bool.false_eq_true, if_false]
      split_ifs <;> decide
  | data hcb hcall =>
      refine ⟨congrArg Core.id hcall.toCore_eq, hcall.adds fun id a => ?_⟩
      simp [Event.labels, hcb]
  | move => exact ⟨rfl, .of_log_eq rfl⟩
  | rcv hsynced =>
      refine ⟨rfl, _, rfl, fun ev hev => ?_⟩
      obtain ⟨irs, rfl⟩ := hsynced ev hev
      exact ⟨.inr rfl, List.mem_cons_self⟩
  | settle => exact ⟨rfl, .of_log_eq rfl⟩
  | news => exact ⟨rfl, .of_log_eq rfl⟩
  | clear => exact ⟨rfl, .of_log_eq rfl⟩
  | store _ _ _ hstore => exact ⟨congrArg Core.id hstore.toCore_eq, hstore.adds⟩
  | append => exact ⟨rfl, [_], rfl, fun ev hev => by
      rw [List.mem_singleton.mp hev]; exact ⟨.inr rfl, List.mem_cons_self⟩⟩
  | emit _ _ hsend => exact hsent hsend (by decide) rfl (.of_log_eq rfl)
  | fin _ _ _ hsend => exact hsent hsend (by decide) rfl (.of_log_eq rfl)
  | @resend s u t intact p hlen n hstate hsdat hintact hcopy hstore hkind hsend =>
      have hmark : Adds (Event.From .resend s.id) s (s.logged
          (.rexmit s.id s.state s.slen (s.segments s.segidx) intact)) :=
        .logged ⟨.inr rfl, Event.mem_labels_of_plain rfl⟩
      exact hsent hsend (by decide) (congrArg Core.id hstore.toCore_eq :)
        ((hmark.trans hstore.adds).trans (.of_log_eq rfl))
  | control hstate _ _ hstore hsend =>
      refine hcontrol hsend ?_ (congrArg Core.id hstore.toCore_eq) hstore.adds
      rw [congrArg Core.state hstore.toCore_eq]
      simp [Event.labels, hstate]
  | spare hstate _ hspare hsend =>
      refine hcontrol hsend ?_ (congrArg Core.id hspare.toCore_eq) hspare.adds
      rw [congrArg Core.state hspare.toCore_eq]
      simp [Event.labels, hstate]
  | kill _ _ hstore hsend =>
      refine hcontrol hsend ?_ (congrArg Core.id hstore.toCore_eq :)
        (hstore.adds.trans (.of_log_eq rfl))
      rw [congrArg Core.state hstore.toCore_eq]
      simp [Event.labels, Slot.moved]
  | @abort s u v w t p port hcall hsdat hflags hstore hsend =>
      have hid : u.id = s.id := (congrArg Core.id hcall.toCore_eq :)
      have hid' : v.id = s.id := (congrArg Core.id hflags.toCore_eq).trans hid
      have hu : Adds (Event.From .abort s.id) s u := hcall.adds fun id a => by
        simp [Event.labels, Callback.isData]
      have hv : Adds (Event.From .abort s.id) u v := hid ▸ hflags.adds
      have hv' : Adds (Event.From .abort s.id) v (v.logged (.unlisten port)) :=
        .logged ⟨.inl rfl, Event.mem_labels_of_plain rfl⟩
      have hw : Adds (Event.From .abort s.id) (v.logged (.unlisten port)) w :=
        hid' ▸ hstore.adds
      refine hcontrol hsend ?_ ((congrArg Core.id hstore.toCore_eq).trans hid')
        (((hu.trans hv).trans hv').trans hw)
      have hclosed := congrArg Core.state
        (hstore.toCore_eq.trans (hflags.toCore_eq.trans hcall.toCore_eq))
      rw [hclosed]
      simp [Event.labels, Slot.moved]
  | create _ _ _ _ hopen => exact hopened (by decide) hopen
  | @createFailed s u t peer iss p port hstate hoff hfetched hopen ht =>
      subst ht
      obtain ⟨hid, hadds⟩ := hopened (by decide) hopen
      refine ⟨hid, hadds.trans ((Adds.logged ⟨.inl rfl, ?_⟩).trans (.of_log_eq rfl))⟩
      exact Event.mem_labels_of_plain rfl

/-- What an act of each kind changes of a core, but for opening a connection. -/
inductive Core.Change : Label → Core → Core → Prop
  | buffer {l : Label} {c : Core} (sdat : Option Ptr)
      (hl : l ∈ [Label.note, .life, .data, .store, .control, .spare]) :
      Change l c { c with sdat := sdat }
  | move {c : Core} {st : State} (hst : c.state.leadsTo st = true) :
      Change .move c { c with state := st }
  | settle {c : Core} {st : State} (hst : c.state.settlesTo st = true)
      (hack : c.state = .finWait2 ∨ c.ackdata = true) : Change .settle c { c with state := st }
  | rcv {c : Core} (rcvNxt : UInt32) : Change .rcv c { c with rcvNxt := rcvNxt }
  | news {c : Core} : Change .news c { c with ackdata := false }
  | clear {c : Core} : Change .clear c
      { c with
        ackdata := true
        segments := Function.update c.segments c.segidx .cleared
        segidx := c.segidx + 1 }
  | append {c : Core} (slen : BitVec 24) (hstate : c.state = .established) :
      Change .append c { c with slen := slen }
  | emit {c : Core} {k : Fin segmentCount} (sndNxt : UInt32) (sdat : Option Ptr)
      (hstate : c.state = .established) (hfree : c.nextFree = some k) : Change .emit c
      { c with
        segments := Function.update c.segments k ⟨UInt32.ofNat c.slen.toNat, c.sndNxt, c.sdat⟩
        sndNxt := sndNxt
        slen := 0
        sdat := sdat }
  | fin {c : Core} {st : State} {k : Fin segmentCount} (sndNxt : UInt32) (sdat : Option Ptr)
      (hstate : c.state = .established ∨ c.state = .close)
      (hst : st = .finWait1 ∨ st = .lastAck) (hfree : c.nextFree = some k) : Change .fin c
      { c with
        state := st
        segments := Function.update c.segments k ⟨1, c.sndNxt, c.sdat⟩
        sndNxt := sndNxt
        slen := 0
        sdat := sdat }
  | resend {c : Core} (sndNxt : UInt32) (sdat : Option Ptr) (hstate : c.state ≠ .closed) :
      Change .resend c
      { c with
        segments := Function.update c.segments c.segidx { c.segments c.segidx with dat := c.sdat }
        sndNxt := sndNxt
        slen := 0
        sdat := sdat }
  | kill {l : Label} {c : Core} (sdat : Option Ptr) (hl : l = .kill ∨ l = .abort) :
      Change l c { c with state := .closed, sdat := sdat }

theorem Core.Change.peer_eq {l : Label} {c c' : Core} (h : Change l c c') : c'.peer = c.peer := by
  cases h <;> rfl

/-- Only opening a connection leaves CLOSED. -/
theorem Core.Change.closed {l : Label} {c c' : Core} (h : Change l c c')
    (hclosed : c.state = .closed) : c'.state = .closed := by
  cases h with
  | move hst =>
      rename_i st
      rw [hclosed] at hst
      cases st <;> cases hst
  | settle hst => rw [hclosed] at hst; cases hst
  | fin _ _ hstate => rw [hclosed] at hstate; rcases hstate with h | h <;> cases h
  | kill => rfl
  | _ => exact hclosed

theorem Transmitted.core_eq {known : Prop} {k : Fin segmentCount} {hlen n : Nat}
    (h : Transmitted handler known k hlen n s t) :
    ∃ sndNxt sdat, t.toCore = { s.toCore with sndNxt := sndNxt, sdat := sdat } := by
  obtain ⟨p, ret, -, -, hcore⟩ := h.summary (l := .emit) (by decide)
  rcases hcore with ⟨-, -, hcore⟩ | ⟨-, sdat, hcore⟩
  · exact ⟨s.sndNxt, s.sdat, hcore⟩
  · exact ⟨_, sdat, hcore⟩

theorem Act.change {l : Label} (h : Act handler l s t) (hl : l ∉ Label.opening) :
    Core.Change l s.toCore t.toCore := by
  cases h with
  | note => exact .buffer s.sdat (by decide)
  | life _ hcall => rw [hcall.toCore_eq]; exact .buffer s.sdat (by decide)
  | data _ hcall => rw [hcall.toCore_eq]; exact .buffer s.sdat (by decide)
  | move hst => exact .move hst
  | settle hst hack => exact .settle hst hack
  | rcv => exact .rcv _
  | news => exact .news
  | clear => exact .clear
  | store _ _ _ hstore => rw [hstore.toCore_eq]; exact .buffer s.sdat (by decide)
  | append hstate => exact .append _ hstate
  | emit hstate hfree hsend =>
      obtain ⟨sndNxt, sdat, hcore⟩ := hsend.core_eq
      rw [hcore]
      exact .emit sndNxt sdat hstate hfree
  | fin hstate hst hfree hsend =>
      obtain ⟨sndNxt, sdat, hcore⟩ := hsend.core_eq
      rw [hcore]
      exact .fin sndNxt sdat hstate hst hfree
  | @resend s u t intact p hlen n hstate hsdat hintact hcopy hstore hkind hsend =>
      obtain ⟨sndNxt, sdat, hcore⟩ := hsend.core_eq
      have hu : u.toCore = s.toCore := hstore.toCore_eq
      rw [hcore]
      simp only [Slot.swapped, hu]
      exact .resend sndNxt sdat hstate
  | control _ _ _ hstore hsend =>
      obtain ⟨sdat, hcore⟩ := hsend.core_eq
      rw [hcore, hstore.toCore_eq]
      exact .buffer sdat (by decide)
  | spare _ _ hspare hsend =>
      obtain ⟨sdat, hcore⟩ := hsend.core_eq
      rw [hcore, hspare.toCore_eq]
      exact .buffer sdat (by decide)
  | kill _ _ hstore hsend =>
      obtain ⟨sdat, hcore⟩ := hsend.core_eq
      rw [hcore, hstore.toCore_eq]
      exact .kill sdat (.inl rfl)
  | abort hcall _ hflags hstore hsend =>
      obtain ⟨sdat, hcore⟩ := hsend.core_eq
      have hw := hstore.toCore_eq.trans (hflags.toCore_eq.trans hcall.toCore_eq)
      rw [hcore, hw]
      exact .kill sdat (.inr rfl)
  | create => exact absurd hl (by decide)
  | createFailed => exact absurd hl (by decide)

end Tulips.Tcpv4
