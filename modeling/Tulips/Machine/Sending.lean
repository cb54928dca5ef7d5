import Tulips.Machine.Effects

/-!
# Sending as acts of a slot

The processor's ways to send, from the flags they set to the buffer they ask
for, are single acts of the abstract machine.
-/

namespace Tulips.Tcpv4

variable {D H : Type} {env : Env D H}

/-- A result performs acts of the given kinds, or stops where no act applies. -/
abbrev Performs {α : Type} (env : Env D H) (L : List Label) (s : Ctx D H)
    (r : EStateM.Result Fault (Ctx D H) α) : Prop :=
  Program.Follows Ctx.slot (Step env.handler L) Stuck s r

section Performs

variable {L : List Label} {s t : Ctx D H} {α : Type} {a : α}

theorem Performs.of_act {l : Label} (hl : l ∈ L) (hact : Act env.handler l s.slot t.slot) :
    Performs env L s (.ok a t) :=
  .single ⟨l, hl, hact⟩

theorem Performs.nullPointer {u : Ctx D H} (hlog : ∃ new, u.w.log = new ++ s.w.log)
    (hstate : s.e.state ≠ .closed) (hsdat : s.e.sdat = none) :
    Performs env L s (.error .nullPointer u : EStateM.Result _ _ α) :=
  ⟨s.slot, .refl, hlog, hstate, .inl hsdat⟩

theorem Performs.mono {L' : List Label} {r : EStateM.Result Fault (Ctx D H) α}
    (hsub : ∀ l ∈ L, l ∈ L') (h : Performs env L s r) : Performs env L' s r :=
  Program.Follows.mono (fun _ _ ⟨l, hl, hact⟩ => ⟨l, hsub l hl, hact⟩) (fun _ _ _ h => h) h

/-- A program that acts once and goes on. -/
theorem Performs.bind_act {β : Type} {l : Label} {m : ConnProgram D H α}
    {f : α → ConnProgram D H β} (hl : l ∈ L) (hm : m s = .ok a t)
    (hact : Act env.handler l s.slot t.slot) (hf : Performs env L t (f a t)) :
    Performs env L s ((m >>= f) s) := by
  refine Program.Follows.bind ?_ ?_
  · rw [hm]
    exact .single ⟨l, hl, hact⟩
  · intro b u hb
    rw [hm] at hb
    cases hb
    exact hf

/-- A program that leaves the slot alone and goes on. -/
theorem Performs.bind_same {β : Type} {m : ConnProgram D H α} {f : α → ConnProgram D H β}
    (hm : m s = .ok a t) (hslot : t.slot = s.slot) (hf : Performs env L t (f a t)) :
    Performs env L s ((m >>= f) s) := by
  refine Program.Follows.bind ?_ ?_
  · rw [hm]
    show Relation.ReflTransGen _ s.slot t.slot
    rw [hslot]
  · intro b u hb
    rw [hm] at hb
    cases hb
    exact hf

end Performs

/-! ## Stores to a header -/

namespace Stored

variable {p : Ptr} {lo hi lo' hi' : Nat} {s t u : Slot H}

theorem refl : Stored p lo hi s s := ⟨s.mem, [], rfl, by simp, .refl⟩

theorem trans (h₁ : Stored p lo hi s t) (h₂ : Stored p lo hi t u) : Stored p lo hi s u := by
  obtain ⟨m₁, ev₁, rfl, hev₁, hmem₁⟩ := h₁
  obtain ⟨m₂, ev₂, rfl, hev₂, hmem₂⟩ := h₂
  refine ⟨m₂, ev₂ ++ ev₁, by simp, ?_, hmem₁.trans hmem₂⟩
  intro ev hev
  rcases List.mem_append.mp hev with h | h
  · exact hev₂ ev h
  · exact hev₁ ev h

theorem mono (h : Stored p lo hi s t) (hlo : lo' ≤ lo) (hhi : hi ≤ hi') :
    Stored p lo' hi' s t := by
  obtain ⟨m, ev, ht, hev, hmem⟩ := h
  exact ⟨m, ev, ht, hev, hmem.mono hlo hhi⟩

theorem toCore_eq (h : Stored p lo hi s t) : t.toCore = s.toCore := by
  obtain ⟨_, _, rfl, _⟩ := h
  rfl

theorem mem_same (h : Stored p lo hi s t) : BlockMemory.SameOutside p.buf lo hi s.mem t.mem := by
  obtain ⟨_, _, rfl, _, hmem⟩ := h
  exact hmem

end Stored

/-- Stores to the header before a commit belong to it. -/
theorem Committed.of_stored {known : Prop} {p : Ptr} {hlen n : Nat} {seq : UInt32} {ret : Status}
    {s t u : Slot H} (hstore : Stored p p.off (p.off + hlen) s t)
    (h : Committed known p hlen seq n ret t u) : Committed known p hlen seq n ret s u := by
  obtain ⟨v, frame, mss, hv, rfl, hframe⟩ := h
  have hid : t.id = s.id := congrArg Core.id hstore.toCore_eq
  refine ⟨v, frame, mss, (hstore.mono (by omega) (Nat.le_refl _)).trans hv, by rw [hid], ?_⟩
  intro hoff hknown
  obtain ⟨hseq, hpayload⟩ := hframe hoff hknown
  refine ⟨hseq, ?_⟩
  rw [hpayload]
  exact hstore.mem_same.read_eq fun _ => .inr (Nat.le_refl _)

theorem Transmitted.of_stored {handler : EventHandler H} {known : Prop} {k : Fin segmentCount}
    {p : Ptr} {hlen n : Nat} {s t u : Slot H} (hdat : (s.segments k).dat = some p)
    (hstore : Stored p p.off (p.off + hlen) s t) (h : Transmitted handler known k hlen n t u) :
    Transmitted handler known k hlen n s u := by
  obtain ⟨q, v, ret, hq, hcommit, hout⟩ := h
  have hcore := hstore.toCore_eq
  have hseg : t.segments = s.segments := congrArg Core.segments hcore
  have hid : t.id = s.id := congrArg Core.id hcore
  have hstate : t.state = s.state := congrArg Core.state hcore
  have hnxt : t.sndNxt = s.sndNxt := congrArg Core.sndNxt hcore
  rw [hseg] at hq hcommit hout
  rw [hid, hstate, hnxt] at hout
  obtain rfl : p = q := Option.some_inj.mp (hdat.symm.trans hq)
  exact ⟨p, v, ret, hq, hcommit.of_stored hstore, hout⟩

theorem Transmitted.known {handler : EventHandler H} {known : Prop} {k : Fin segmentCount}
    {hlen n : Nat} {s t : Slot H} (h : Transmitted handler known k hlen n s t) (hknown : known) :
    Transmitted handler True k hlen n s t := by
  rwa [eq_true hknown] at h

section Flags

variable {p : Ptr} {s : Ctx D H}

theorem setFlags_some (p : Ptr) (flags : UInt8) (offset : Option (Fin 16)) (s : Ctx D H) :
    ∃ w, setFlags (some p) flags offset s = .ok () { s with w := w } ∧
      (w.headerAt p).offset = offset.getD (s.w.headerAt p).offset ∧
      Wrote (some s.e.id) p p.off (p.off + headerLen) s.w w := by
  obtain ⟨w, hok, hhdr, hwrote⟩ := modifyHeader_some (some s.e.id) p
    (fun h => { h with flags := flags, offset := offset.getD h.offset }) s.w
  exact ⟨w, onWorld_ok hok, by rw [hhdr], hwrote⟩

theorem orFlags_some (p : Ptr) (flags : UInt8) (offset : Fin 16) (s : Ctx D H) :
    ∃ w, orFlags (some p) flags offset s = .ok () { s with w := w } ∧
      (w.headerAt p).offset = offset ∧
      Wrote (some s.e.id) p p.off (p.off + headerLen) s.w w := by
  obtain ⟨w, hok, hhdr, hwrote⟩ := modifyHeader_some (some s.e.id) p
    (fun h => { h with flags := h.flags ||| flags, offset := offset }) s.w
  exact ⟨w, onWorld_ok hok, by rw [hhdr], hwrote⟩

theorem setFlags_none (flags : UInt8) (offset : Option (Fin 16)) (s : Ctx D H) :
    setFlags none flags offset s = .error .nullPointer s := rfl

end Flags

/-! ## Segments of each kind -/

section Segments

variable {i : Fin segmentCount} {p : Ptr} {s : Ctx D H}

/-- A data segment leaves with the bytes behind its header. -/
theorem sendData_spec (env : Env D H) (flags : UInt8) (hdat : (s.e.segments i).dat = some p)
    {n : Nat} (hlen : (s.e.segments i).len = UInt32.ofNat n) :
    ∃ t ret, sendData env i flags s = .ok ret t ∧ SameButSent s.e t.e ∧
      Transmitted env.handler (n < 2 ^ 24) i headerLen n s.slot t.slot := by
  obtain ⟨w, hflags, hofs, hwrote⟩ := setFlags_some p (flags ||| tcpAck) (some 5) s
  have hknown : n < 2 ^ 24 → headerLen + n + tcpOffset < 2 ^ 32 ∧
      (s.e.segments i).len + UInt32.ofNat headerLen = UInt32.ofNat (headerLen + n) ∧
      (w.headerAt p).offset.val * 4 = headerLen := by
    intro hn
    refine ⟨?_, ?_, ?_⟩
    · simp only [headerLen, tcpOffset, Ethernet.headerLen, Ipv4.headerLen]
      omega
    · rw [hlen, ← UInt32.ofNat_add, Nat.add_comm]
    · rw [hofs]
      rfl
  obtain ⟨t, ret, hok, hsame, hsent, -⟩ :=
    sendSegment_spec env (s := { s with w := w }) hdat (n < 2 ^ 24) headerLen n _
      (Nat.le_refl headerLen) hknown
  refine ⟨t, ret, ?_, hsame, hsent.of_stored hdat hwrote.stored⟩
  unfold sendData
  rw [Program.bind_gets, hdat, Program.bind_of_ok hflags, hok]

/-- A SYN leaves with its options and nothing behind them. -/
theorem sendSyn_spec (env : Env D H) (hdat : (s.e.segments i).dat = some p) (known : Prop) :
    ∃ t ret, sendSyn env i s = .ok ret t ∧ SameButSent s.e t.e ∧
      Transmitted env.handler known i 28 0 s.slot t.slot ∧ (ret = .ok ↔ Replenished t.slot) := by
  obtain ⟨w₁, hflags, hofs, hw₁⟩ := orFlags_some p tcpSyn 7 s
  obtain ⟨w₂, hstore, _, hw₂⟩ := store_some (some s.e.id) p headerLen
    (synOptions env s.e.initialmss) w₁
  have hopts : (synOptions env s.e.initialmss).length = 8 := rfl
  rw [hopts] at hw₂
  have hkeep : w₂.headerAt p = w₁.headerAt p :=
    World.headerAt_congr hw₂ fun _ => .inl (Nat.le_refl _)
  obtain ⟨t, ret, hok, hsame, hsent, hfull⟩ := sendSegment_spec env (s := { s with w := w₂ })
    hdat known 28 0 (UInt32.ofNat headerLen + 8) (by decide)
    fun _ => ⟨by decide, rfl, by rw [hkeep, hofs]; rfl⟩
  have hwrote : Wrote (some s.e.id) p p.off (p.off + 28) s.w w₂ :=
    (hw₁.mono (Nat.le_refl _) (by simp [headerLen])).trans
      (hw₂.mono (by omega) (by simp only [headerLen]; omega))
  refine ⟨t, ret, ?_, hsame, hsent.of_stored hdat hwrote.stored, hfull⟩
  unfold sendSyn
  rw [Program.bind_gets, hdat, Program.bind_of_ok hflags, Program.bind_of_ok (onWorld_ok hstore),
    hok]

theorem sendSynAck_spec (env : Env D H) (hdat : (s.e.segments i).dat = some p) (known : Prop) :
    ∃ t ret, sendSynAck env i s = .ok ret t ∧ SameButSent s.e t.e ∧
      Transmitted env.handler known i 28 0 s.slot t.slot := by
  obtain ⟨w, hflags, _, hwrote⟩ := setFlags_some p tcpAck none s
  obtain ⟨t, ret, hok, hsame, hsent, -⟩ := sendSyn_spec env (s := { s with w := w }) hdat known
  refine ⟨t, ret, ?_, hsame, hsent.of_stored hdat
    (hwrote.stored.mono (Nat.le_refl _) (by simp [headerLen]))⟩
  unfold sendSynAck
  rw [Program.bind_gets, hdat, Program.bind_of_ok hflags, hok]

/-- A FIN leaves with nothing behind its header. -/
theorem sendFinAck_spec (env : Env D H) (hdat : (s.e.segments i).dat = some p) (known : Prop) :
    ∃ t ret, sendFinAck env i s = .ok ret t ∧ SameButSent s.e t.e ∧
      Transmitted env.handler known i headerLen 0 s.slot t.slot := by
  obtain ⟨w₁, hset, _, hw₁⟩ := setFlags_some p tcpAck none s
  obtain ⟨w₂, hor, hofs, hw₂⟩ := orFlags_some p tcpFin 5 { s with w := w₁ }
  obtain ⟨t, ret, hok, hsame, hsent, -⟩ := sendSegment_spec env (s := { s with w := w₂ }) hdat
    known headerLen 0 (UInt32.ofNat headerLen) (Nat.le_refl _) fun _ =>
      ⟨by decide, rfl, by rw [hofs]; rfl⟩
  refine ⟨t, ret, ?_, hsame, hsent.of_stored hdat (hw₁.trans hw₂).stored⟩
  unfold sendFinAck sendFin
  rw [Program.bind_gets, hdat, Program.bind_of_ok hset, Program.bind_gets, hdat,
    Program.bind_of_ok hor, hok]

/-- Without a buffer the flags have nowhere to go. -/
theorem sendKind_none (env : Env D H) (hdat : (s.e.segments i).dat = none) :
    (∀ flags, sendData env i flags s = .error .nullPointer s) ∧
      sendSyn env i s = .error .nullPointer s ∧ sendSynAck env i s = .error .nullPointer s ∧
      sendFinAck env i s = .error .nullPointer s := by
  refine ⟨fun flags => ?_, ?_, ?_, ?_⟩
  · unfold sendData
    rw [Program.bind_gets, hdat]
    rfl
  · unfold sendSyn
    rw [Program.bind_gets, hdat]
    rfl
  · unfold sendSynAck
    rw [Program.bind_gets, hdat]
    rfl
  · unfold sendFinAck
    rw [Program.bind_gets, hdat]
    rfl

end Segments

/-! ## The entry points -/

/-- What pushing a segment may change of a connection. -/
def SameButRing (e e' : Connection) : Prop :=
  ∃ segments slen sdat, e' = { e with segments := segments, slen := slen, sdat := sdat }

section Entry

variable {s : Ctx D H} {L : List Label}

theorem Core.nextFree_isSome {c : Core} (h : c.hasFree) : ∃ k, c.nextFree = some k := by
  obtain ⟨i, hi⟩ := h
  exact Ring.firstFree_isSome hi

/-- Pushing the send buffer succeeds while a slot of the ring is free. -/
theorem pushSegment_spec (len : UInt32) (hfree : s.e.hasAvailableSegments = true) :
    ∃ k t, s.slot.nextFree = some k ∧ pushSegment len s = .ok k t ∧
      t.slot = s.slot.pushed k len ∧ t.e.segments k = ⟨len, s.e.sndNxt, s.e.sdat⟩ ∧
      SameButRing s.e t.e := by
  obtain ⟨k, hk⟩ := Core.nextFree_isSome (s.e.hasAvailableSegments_iff.mp hfree)
  refine ⟨k, { s with e := (s.e.setSegment k ⟨len, s.e.sndNxt, s.e.sdat⟩).resetSendBuffer },
    hk, ?_, rfl, Function.update_self _ _ _, ⟨_, _, _, rfl⟩⟩
  unfold pushSegment
  rw [Program.bind_gets, show s.e.nextAvailableSegment = some k from hk]
  rfl

theorem Slot.pushed_segments_self (s : Slot H) (k : Fin segmentCount) (len : UInt32) :
    (s.pushed k len).segments k = ⟨len, s.sndNxt, s.sdat⟩ :=
  Function.update_self _ _ _

/-- `Processor::sendNoDelay` emits the pending data. -/
theorem sendNoDelay_performs (env : Env D H) (flag : UInt8) (hl : .emit ∈ L)
    (hstate : s.e.state = .established) (hfree : s.e.hasAvailableSegments = true) :
    Performs env L s (sendNoDelay env flag s) := by
  obtain ⟨k, u, hk, hpush, hslot, hseg, -⟩ :=
    pushSegment_spec (UInt32.ofNat s.e.slen.toNat) hfree
  unfold sendNoDelay
  rw [Program.bind_gets, Program.bind_of_ok hpush]
  have hdat : (u.e.segments k).dat = s.e.sdat := by rw [hseg]
  cases hsdat : s.e.sdat with
  | none =>
      rw [(sendKind_none env (hdat.trans hsdat)).1]
      exact .nullPointer ⟨[], congrArg Slot.log hslot⟩ (by rw [hstate]; decide) hsdat
  | some p =>
      obtain ⟨t, ret, hok, _, hsent⟩ := sendData_spec env flag (hdat.trans hsdat)
        (congrArg Segment.len hseg)
      rw [hok]
      exact .of_act hl (.emit hstate hk (hslot ▸ hsent.known s.e.slen.isLt))

/-- `Processor::sendNagle` emits the pending data or does nothing. -/
theorem sendNagle_performs (env : Env D H) (bound : UInt32) (hl : .emit ∈ L)
    (hstate : s.e.state = .established) (hfree : s.e.hasAvailableSegments = true) :
    Performs env L s (sendNagle env bound s) := by
  unfold sendNagle
  rw [Program.bind_gets]
  refine Program.Follows.ite (fun _ => sendNoDelay_performs env _ hl hstate hfree) fun _ => ?_
  exact Program.Follows.ite (fun _ => .pure _ _) fun _ =>
    sendNoDelay_performs env _ hl hstate hfree

/-- Sending the FIN that has been pushed from the slot `r`. -/
theorem sendFinAck_fin (env : Env D H) {u : Ctx D H} {r : Slot H} {st : State}
    {k : Fin segmentCount} (hstate : r.state = .established ∨ r.state = .close)
    (hst : st = .finWait1 ∨ st = .lastAck)
    (hfree : r.nextFree = some k) (hslot : u.slot = (r.moved st).pushed k 1) :
    (r.sdat = none ∧ sendFinAck env k u = .error .nullPointer u) ∨
      ∃ t ret, sendFinAck env k u = .ok ret t ∧ Act env.handler .fin r t.slot := by
  have hseg : u.e.segments k = ⟨1, r.sndNxt, r.sdat⟩ := by
    have := congrArg (fun v : Slot H => v.segments k) hslot
    simp only [Slot.pushed_segments_self] at this
    exact this
  have hdat : (u.e.segments k).dat = r.sdat := by rw [hseg]
  cases hsdat : r.sdat with
  | none => exact .inl ⟨rfl, (sendKind_none env (hdat.trans hsdat)).2.2.2⟩
  | some p =>
      obtain ⟨t, ret, hok, _, hsent⟩ := sendFinAck_spec env (hdat.trans hsdat) True
      exact .inr ⟨t, ret, hok, .fin hstate hst hfree (hslot ▸ hsent)⟩

/-- Changing the state and sending a FIN from the send buffer is one act. -/
theorem pushFinAck_performs (env : Env D H) (st : State) (hl : .fin ∈ L)
    (hstate : s.e.state = .established ∨ s.e.state = .close)
    (hst : st = .finWait1 ∨ st = .lastAck) (hfree : s.e.hasAvailableSegments = true) :
    Performs env L s ((setState st >>= fun _ => pushFinAck env) s) := by
  obtain ⟨k, u, hk, hpush, hslot, -⟩ :=
    pushSegment_spec (s := { s with e := { s.e with state := st } }) 1 hfree
  unfold pushFinAck setState modifyConn
  rw [Program.bind_update, Program.bind_of_ok hpush]
  rcases sendFinAck_fin env (r := s.slot) hstate hst hk hslot with
    ⟨hsdat, hrun⟩ | ⟨t, ret, hrun, hact⟩
  · rw [hrun]
    exact .nullPointer ⟨[], congrArg Slot.log hslot⟩
      (by rcases hstate with h | h <;> rw [h] <;> decide) hsdat
  · rw [hrun]
    exact .of_act hl hact

/-- `Processor::sendClose` -/
theorem sendClose_performs (env : Env D H) (hl : .fin ∈ L) (hstate : s.e.state = .established) :
    Performs env L s (sendClose env s) := by
  unfold sendClose
  rw [Program.bind_gets]
  refine Program.Follows.ite (fun _ => .pure _ _) fun hfree => ?_
  exact pushFinAck_performs env .finWait1 hl (.inl hstate) (.inl rfl)
    (Bool.eq_true_of_not_eq_false hfree)

/-- Setting the flags of a control segment in the send buffer and sending it. -/
theorem control_spec (env : Env D H) {p : Ptr} (hsdat : s.e.sdat = some p) (flags : UInt8) :
    ∃ t ret sdat u, (setFlags s.e.sdat flags (some 5) >>= fun _ => sendControl env) s = .ok ret t ∧
      t.e = { s.e with sdat := sdat } ∧ Stored p p.off (p.off + headerLen) s.slot u ∧
      u.toCore = s.e.core ∧ SentControl True u t.slot := by
  obtain ⟨w, hflags, hofs, hwrote⟩ := setFlags_some p flags (some 5) s
  obtain ⟨t, ret, sdat, hok, he, hsent⟩ :=
    sendControl_spec env (s := { s with w := w }) hsdat True fun _ => hofs
  refine ⟨t, ret, sdat, _, ?_, he, hwrote.stored, rfl, hsent⟩
  rw [hsdat, Program.bind_of_ok hflags, hok]

/-- The kinds of acts an acknowledgement is made of. -/
def Label.acks : List Label := [.note, .control, .spare]

/-- `Processor::sendAck` is one act, and changes nothing of the connection but
its send buffer. -/
theorem sendAck_spec (env : Env D H) (hstate : s.e.state ≠ .closed) :
    (s.e.sdat = none ∧ ∃ u, sendAck env s = .error .nullPointer u ∧
        ∃ new, u.w.log = new ++ s.w.log) ∨
      ∃ t ret sdat, sendAck env s = .ok ret t ∧ t.e = { s.e with sdat := sdat } ∧
        ∃ l ∈ Label.acks, Act env.handler l s.slot t.slot := by
  unfold sendAck
  rw [Program.bind_gets]
  -- Pending data keeps its buffer: the flags then go to one that is prepared for them.
  by_cases hpending : s.e.hasPendingSendData
  · rw [if_pos hpending]
    have hslen : s.e.slen ≠ 0 := by simpa [Connection.hasPendingSendData] using hpending
    obtain ⟨w, hhdl, ⟨ret, hok, hmem, hlog⟩ | ⟨buf, hok, hmem, hlog⟩⟩ :=
      devicePrepare_cases env (some s.e.id) s.w
    · rw [Program.bind_of_ok (onWorld_ok hok)]
      refine .inr ⟨_, ret.val, s.e.sdat, rfl, rfl, .note, by decide, ?_⟩
      have hslot : ({ s with w := w } : Ctx D H).slot =
          s.slot.logged (.prepare (some s.e.id) none) := by
        simp only [Ctx.slot, Slot.logged, hhdl, hmem, hlog]
      rw [hslot]
      exact .note rfl (.inr rfl)
    · rw [Program.bind_of_ok (onWorld_ok hok)]
      obtain ⟨w', hflags, _, hwrote⟩ := setFlags_some ⟨buf, 0⟩ tcpAck (some 5) { s with w := w }
      obtain ⟨writes, hlog', hwrites⟩ := hwrote.log
      simp only
      rw [Program.bind_of_ok hflags]
      cases hsdat : s.e.sdat with
      | none =>
          obtain ⟨u, hrun, hu⟩ := sendControl_none env (s := { s with w := w' }) hsdat
          refine .inl ⟨rfl, u, hrun, .control s.e.id s.e.state s.e.slen ::
            (writes ++ [.prepare (some s.e.id) (some buf)]), ?_⟩
          rw [hu, hlog', hlog]
          simp
      | some p =>
          obtain ⟨t, ret, sdat, hok, he, hsent⟩ :=
            sendControl_spec env (s := { s with w := w' }) hsdat False False.elim
          refine .inr ⟨t, ret, sdat, hok, he, .spare, by decide, .spare hstate hslen ?_ hsent⟩
          refine ⟨buf, w'.mem, writes, hwrites, hmem.trans hwrote.mem.sameOff, ?_⟩
          simp only [Ctx.slot, hwrote.hdl, hhdl, hlog', hlog]
          rfl
  · rw [if_neg hpending]
    have hslen : s.e.slen = 0 := by simpa [Connection.hasPendingSendData] using hpending
    cases hsdat : s.e.sdat with
    | none => exact .inl ⟨rfl, s, Program.bind_of_error (setFlags_none _ _ _), [], rfl⟩
    | some p =>
        obtain ⟨t, ret, sdat, u, hok, he, hstore, hcore, hsent⟩ := control_spec env hsdat tcpAck
        rw [hsdat] at hok
        exact .inr ⟨t, ret, sdat, hok, he, .control, by decide,
          .control hstate hslen hsdat hstore hsent⟩

theorem sendAck_performs (env : Env D H) (hl : ∀ l ∈ Label.acks, l ∈ L)
    (hstate : s.e.state ≠ .closed) : Performs env L s (sendAck env s) := by
  rcases sendAck_spec env hstate with
    ⟨hsdat, u, hrun, hlog⟩ | ⟨t, ret, sdat, hrun, _, l, hacks, hact⟩
  · rw [hrun]
    exact .nullPointer hlog hstate hsdat
  · rw [hrun]
    exact .of_act (hl l hacks) hact

/-- What an acknowledgement leaves of a connection. -/
theorem sendAck_keeps {t : Ctx D H} {ret : Status} (hstate : s.e.state ≠ .closed)
    (hok : sendAck env s = .ok ret t) : ∃ sdat, t.e = { s.e with sdat := sdat } := by
  rcases sendAck_spec env hstate with ⟨_, u, hrun, _⟩ | ⟨t', ret', sdat, hrun, he, _⟩
  · rw [hrun] at hok
    cases hok
  · rw [hrun] at hok
    cases hok
    exact ⟨sdat, he⟩

/-- `Processor::sendAbort` unregisters the port and kills the connection. -/
theorem sendAbort_performs (env : Env D H) (hnote : .note ∈ L) (hkill : .kill ∈ L)
    (hstate : s.e.state ≠ .closed) : Performs env L s (sendAbort env s) := by
  unfold sendAbort
  rw [Program.bind_gets]
  let s₁ : Ctx D H := { s with w := { s.w with
    dev := env.device.unlisten s.w.dev s.e.lport, log := .unlisten s.e.lport :: s.w.log } }
  refine Performs.bind_act (t := s₁) hnote rfl
    (.note (show (Event.unlisten s.e.lport).isNote = true from rfl) (.inl rfl)) ?_
  let s₂ : Ctx D H := { s₁ with e := { s.e with state := .closed } }
  rw [Program.bind_of_ok (show setState State.closed s₁ = .ok () s₂ from rfl)]
  cases hsdat : s.e.sdat with
  | none => exact .nullPointer ⟨[], rfl⟩ hstate hsdat
  | some p =>
      obtain ⟨t, ret, sdat, u, hok, he, hstore, hcore, hsent⟩ :=
        control_spec env (s := s₂) hsdat (tcpRst ||| if s.e.newdata then tcpAck else 0)
      rw [show s₂.e.sdat = some p from hsdat] at hok
      rw [hok]
      exact .of_act hkill (.kill hstate hsdat hstore hsent)

/-- Exchanging the buffers of the oldest segment and the send buffer. -/
theorem swapSegment_spec (s : Ctx D H) :
    (swapSegment s = .error .nullPointer s ∧ (s.e.sdat = none ∨
      s.e.segment.dat = none ∧ s.e.segment.isFree = false)) ∨
    ∃ t, swapSegment s = .ok () t ∧
      t.e = (s.e.setSegment s.e.segidx { s.e.segment with dat := s.e.sdat }).resetSendBuffer ∧
      (∃ new, t.w.log = new ++ s.w.log) ∧ ∀ p, s.e.sdat = some p → ∃ u, t.slot = u.swapped ∧
        Stored p p.off (p.off + s.e.segment.len.toNat) s.slot u ∧
        ∀ q, s.e.segment.dat = some q → s.e.segment.len ≠ 0 →
          u.mem.read p.buf p.off s.e.segment.len.toNat =
            s.w.mem.read q.buf q.off s.e.segment.len.toNat := by
  unfold swapSegment
  rw [Program.bind_gets_id]
  by_cases hlen : s.e.segment.len ≠ 0
  · rw [Program.when, if_pos hlen]
    cases hdat : s.e.segment.dat with
    | none => exact .inl ⟨rfl, .inr ⟨rfl, by simpa [Segment.isFree] using hlen⟩⟩
    | some q =>
        cases hsdat : s.e.sdat with
        | none => exact .inl ⟨rfl, .inl rfl⟩
        | some p =>
            let bytes := s.w.mem.read q.buf q.off s.e.segment.len.toNat
            obtain ⟨w, hstore, hmem, hwrote⟩ := store_some (some s.e.id) p 0 bytes s.w
            obtain ⟨writes, hlog, -⟩ := hwrote.log
            refine .inr ⟨_, Program.bind_of_ok (onWorld_ok hstore), ?_, ⟨writes, hlog⟩, ?_⟩
            · rw [← hsdat]
            · rintro p' ⟨⟩
              refine ⟨({ s with w := w } : Ctx D H).slot, rfl, ?_, ?_⟩
              · have := hwrote.stored
                rwa [BlockMemory.length_read] at this
              · rintro q' ⟨⟩ _
                show w.mem.read p.buf p.off _ = _
                rw [hmem]
                have hread : (s.w.mem.write p.buf p.off bytes).read p.buf p.off bytes.length =
                    bytes := BlockMemory.read_write
                rwa [BlockMemory.length_read] at hread
  · rw [Program.when, if_neg hlen]
    refine .inr ⟨_, rfl, rfl, ⟨[], rfl⟩, fun p hsdat => ⟨s.slot, rfl, .refl, ?_⟩⟩
    intro q hq hne
    exact absurd hne hlen

/-- The marker of a retransmission. -/
def Ctx.rexmitEvent (s : Ctx D H) : Event :=
  .rexmit s.e.id s.e.state s.e.slen s.e.segment (s.e.segment.swapKeeps s.w.mem s.e.sdat)

/-- A retransmission that exchanges the buffers and then sends the segment. -/
theorem resend_performs (env : Env D H) {prog : ConnProgram D H Status} (hlen : Nat) {n : Nat}
    (hresend : .resend ∈ L) (hstate : s.e.state ≠ .closed)
    (hkind : s.e.state = .established ∧ hlen = headerLen ∧ n = s.e.segment.len.toNat ∨
      s.e.state ≠ .established ∧ n = 0)
    (hsome : ∀ t p, s.e.sdat = some p →
      t.e = (s.e.setSegment s.e.segidx { s.e.segment with dat := some p }).resetSendBuffer →
      (t.e.segments s.e.segidx).dat = some p → ∃ t' ret, prog t = .ok ret t' ∧
        Transmitted env.handler (n < 2 ^ 24) s.e.segidx hlen n t.slot t'.slot)
    (hnone : ∀ t : Ctx D H, s.e.sdat = none → (t.e.segments s.e.segidx).dat = none →
      prog t = .error .nullPointer t) :
    Performs env L s
      ((onWorld (record s.rexmitEvent) >>= fun _ => swapSegment >>= fun _ => prog) s) := by
  rw [bind_record]
  let s₀ : Ctx D H := { s with w := { s.w with log := s.rexmitEvent :: s.w.log } }
  rcases swapSegment_spec s₀ with ⟨hrun, hwhy⟩ | ⟨t, hrun, he, hlog, hswap⟩
  · rw [Program.bind_of_error hrun]
    exact ⟨s.slot, .refl, ⟨[s.rexmitEvent], rfl⟩, hstate, hwhy⟩
  · rw [Program.bind_of_ok hrun]
    have hdat : (t.e.segments s.e.segidx).dat = s.e.sdat := by
      rw [he]
      simp [Connection.resetSendBuffer, Connection.setSegment, s₀]
    cases hsdat : s.e.sdat with
    | none =>
        obtain ⟨new, hlog⟩ := hlog
        rw [hnone t hsdat (hdat.trans hsdat)]
        exact .nullPointer ⟨new ++ [s.rexmitEvent], by simp [hlog, s₀]⟩ hstate hsdat
    | some p =>
        obtain ⟨u, hslot, hstore, hcopy⟩ := hswap p hsdat
        obtain ⟨t', ret, hok, hsent⟩ := hsome t p hsdat (hsdat ▸ he) (hdat.trans hsdat)
        rw [hok]
        exact .of_act hresend
          (.resend hstate hsdat rfl hcopy hstore hkind (hslot ▸ hsent))

/-- `Processor::rexmit` sends the oldest segment again, in the states that do. -/
theorem rexmit_performs (env : Env D H) (hnote : .note ∈ L) (hresend : .resend ∈ L)
    (hstate : s.e.state ≠ .closed) : Performs env L s (rexmit env s) := by
  have hidle : Performs env L s ((onWorld (record s.rexmitEvent) >>= fun _ => pure .ok) s :
      EStateM.Result Fault (Ctx D H) Status) :=
    .of_act hnote (.note rfl (.inr rfl))
  have hfin (hne : s.e.state ≠ .established) : Performs env L s
      ((onWorld (record s.rexmitEvent) >>= fun _ => swapSegment >>= fun _ =>
        sendFinAck env s.e.segidx) s) := by
    refine resend_performs env headerLen hresend hstate (.inr ⟨hne, rfl⟩) ?_
      fun t _ hdat => (sendKind_none env hdat).2.2.2
    intro t p _ _ hdat
    obtain ⟨t', ret, hok, _, hsent⟩ := sendFinAck_spec env hdat (0 < 2 ^ 24)
    exact ⟨t', ret, hok, hsent⟩
  -- The cases are those of the switch over the state in `rexmit`.
  unfold rexmit
  rw [Program.bind_gets_id, show Event.rexmit s.e.id s.e.state s.e.slen s.e.segment
    (s.e.segment.swapKeeps s.w.mem s.e.sdat) = s.rexmitEvent from rfl]
  cases hst : s.e.state with
  | synRcvd =>
      refine resend_performs env 28 hresend hstate (.inr ⟨by simp [hst], rfl⟩) ?_
        fun t _ hdat => (sendKind_none env hdat).2.2.1
      intro t p _ _ hdat
      obtain ⟨t', ret, hok, _, hsent⟩ := sendSynAck_spec env hdat (0 < 2 ^ 24)
      exact ⟨t', ret, hok, hsent⟩
  | synSent =>
      refine resend_performs env 28 hresend hstate (.inr ⟨by simp [hst], rfl⟩) ?_ ?_
      · intro t p hsdat _ hdat
        obtain ⟨w, hflags, _, hwrote⟩ := setFlags_some p 0 none t
        obtain ⟨t', ret, hok, _, hsent, -⟩ :=
          sendSyn_spec env (s := { t with w := w }) hdat (0 < 2 ^ 24)
        refine ⟨t', ret, ?_, hsent.of_stored hdat
          (hwrote.stored.mono (Nat.le_refl _) (by simp [headerLen]))⟩
        rw [hsdat, Program.bind_of_ok hflags, hok]
      · intro t hsdat _
        rw [hsdat]
        exact Program.bind_of_error (setFlags_none _ _ _)
  | established =>
      refine resend_performs env headerLen hresend hstate (.inl ⟨hst, rfl, rfl⟩) ?_ fun t _ hdat =>
        (sendKind_none env hdat).1 tcpPsh
      intro t p _ he hdat
      have hlen : (t.e.segments s.e.segidx).len = UInt32.ofNat s.e.segment.len.toNat := by
        rw [he, UInt32.ofNat_toNat]
        simp [Connection.resetSendBuffer, Connection.setSegment]
      obtain ⟨t', ret, hok, _, hsent⟩ := sendData_spec env tcpPsh hdat hlen
      exact ⟨t', ret, hok, hsent⟩
  | finWait1 => exact hfin (by simp [hst])
  | closing => exact hfin (by simp [hst])
  | lastAck => exact hfin (by simp [hst])
  | close => exact hidle
  | finWait2 => exact hidle
  | timeWait => exact hidle
  | stopped => exact hidle
  | closed => exact absurd hst hstate

end Entry

end Tulips.Tcpv4
