import Tulips.Machine.Receiving

/-!
# Ticks and the operations of the user as acts of a slot
-/

namespace Tulips.Tcpv4

variable {D H : Type} {env : Env D H} {s : Ctx D H} {L : List Label}

/-! ## Ticks -/

theorem Performs.map {α β : Type} {f : α → β} {m : ConnProgram D H α}
    (h : Performs env L s (m s)) : Performs env L s ((f <$> m) s) := by
  have hmap : (f <$> m) s = match m s with
      | .ok a t => .ok (f a) t
      | .error e t => .error e t := by
    show EStateM.map f m s = _
    unfold EStateM.map
    cases m s <;> rfl
  rw [hmap]
  cases hm : m s with
  | ok a t => rw [hm] at h; exact h
  | error e t => rw [hm] at h; exact h

theorem tickWaiting_performs (env : Env D H) {α : Type} {f : Unit → ConnProgram D H α}
    (hnote : .note ∈ L) (hmove : .move ∈ L)
    (hwait : s.e.state = .timeWait ∨ s.e.state = .finWait2)
    (hf : ∀ t, Performs env L t (f () t)) : Performs env L s ((tickWaiting env >>= f) s) := by
  unfold tickWaiting
  rw [Program.bind_assoc_apply]
  refine modifyConn_performs rfl ?_
  rw [Program.bind_assoc_apply, Program.bind_gets, Program.when]
  split
  · rw [Program.bind_assoc_apply]
    refine unlisten_performs hnote fun t ht => ?_
    refine setState_performs hmove ?_ (by simp) (hf _)
    rw [ht]
    rcases hwait with h | h <;> rw [h] <;> rfl
  · exact hf _

theorem tickOutstanding_performs (env : Env D H) (hL : ∀ l ∈ Label.own, l ∈ L)
    (hopen : s.e.state ≠ .closed) : Performs env L s (tickOutstanding env s) := by
  unfold tickOutstanding
  refine modifyConn_performs rfl ?_
  rw [Program.bind_gets]
  refine Program.Follows.ite (fun _ => .pure _ _) fun _ => ?_
  refine Program.Follows.ite (fun _ => ?_) fun _ => ?_
  · refine callback_performs env _ (fun _ => hL _ (by decide)) (fun h => by cases h) ?_
    rintro t _ _ ⟨_, _, he⟩ _
    exact (sendAbort_performs env (hL _ (by decide)) (hL _ (by decide))
      (by rw [he]; exact hopen)).map
  · refine modifyConn_performs rfl ?_
    refine Performs.map ?_
    exact rexmit_performs env (hL _ (by decide)) (hL _ (by decide)) hopen

theorem tick_performs (env : Env D H) (hL : ∀ l ∈ Label.own, l ∈ L) :
    Performs env L s (tick env s) := by
  have hrest : ∀ t : Ctx D H, Performs env L t ((do
      let e ← .gets Ctx.e
      if e.state = .closed then pure none
      else if e.hasOutstandingSegments then tickOutstanding env
      else pure none : ConnProgram D H (Option Status)) t) := by
    intro t
    rw [Program.bind_gets]
    refine Program.Follows.ite (fun _ => .pure _ _) fun hopen => ?_
    exact Program.Follows.ite (fun _ => tickOutstanding_performs env hL hopen)
      fun _ => .pure _ _
  unfold tick
  rw [Program.bind_gets]
  refine Program.Follows.ite (fun _ => .pure _ _) fun _ => ?_
  rw [Program.when]
  split
  · next hwait =>
      exact tickWaiting_performs env (hL _ (by decide)) (hL _ (by decide)) hwait hrest
  · exact hrest s

/-! ## Closing and sending -/

/-- Clearing the flags in the send buffer. -/
theorem clearFlags_performs {α : Type} {f : Unit → ConnProgram D H α} (hl : .store ∈ L)
    (hopen : s.e.state ≠ .closed) (hf : ∀ t, t.e = s.e → Performs env L t (f () t)) :
    Performs env L s ((setFlags s.e.sdat 0 none >>= f) s) := by
  cases hsdat : s.e.sdat with
  | none =>
      rw [Program.bind_of_error (setFlags_none _ _ _)]
      exact .nullPointer ⟨[], rfl⟩ hopen hsdat
  | some p =>
      obtain ⟨w, hok, -, hwrote⟩ := setFlags_some p 0 none s
      exact Performs.bind_act hl hok
        (.store hopen hsdat (.inl (Nat.le_refl _)) hwrote.stored) (hf _ rfl)

theorem close_performs (env : Env D H) (hL : ∀ l ∈ Label.own, l ∈ L) :
    Performs env L s (close env s) := by
  unfold close
  rw [Program.bind_gets]
  refine Program.Follows.ite (fun _ => .pure _ _) fun hst => ?_
  have hstate : s.e.state = .established := not_not.mp hst
  refine Program.Follows.ite (fun _ => ?_) fun _ => ?_
  · exact setState_performs (hL _ (by decide)) (by rw [hstate]; rfl) (by simp) (.pure _ _)
  · refine clearFlags_performs (hL _ (by decide)) (by rw [hstate]; decide) fun t ht => ?_
    exact sendClose_performs env (hL _ (by decide)) (by rw [ht, hstate])

/-- Copying data of the application behind the pending data. -/
theorem copyPayload_performs (data : Bytes) (off slen : UInt32) {α : Type}
    {f : Unit → ConnProgram D H α} (hL : ∀ l ∈ Label.own, l ∈ L)
    (hstate : s.e.state = .established)
    (hf : ∀ t, SameButTraffic s.e t.e → Performs env L t (f () t)) :
    Performs env L s ((copyPayload data off slen >>= f) s) := by
  have hopen : s.e.state ≠ .closed := by rw [hstate]; decide
  unfold copyPayload
  rw [Program.bind_assoc_apply, Program.bind_gets]
  simp only
  set bytes := (List.range slen.toNat).map fun i => data (off.toNat + i)
  cases hsdat : s.e.sdat with
  | none => exact Performs.nullPointer ⟨[], rfl⟩ hopen hsdat
  | some p =>
      obtain ⟨w, hok, hmem, hwrote⟩ :=
        store_some (some s.e.id) p (headerLen + s.e.slen.toNat) bytes s.w
      rw [Program.bind_assoc_apply]
      refine Performs.bind_act (hL .store (by decide)) (onWorld_ok hok)
        (.store hopen hsdat (.inr ?_) hwrote.stored) ?_
      · show p.off + headerLen + s.e.slen.toNat ≤ _
        omega
      · refine Performs.bind_act (t :=
          { e := { s.e with slen := s.e.slen + BitVec.ofNat 24 bytes.length }
            w := { w with log := .append s.e.id s.e.slen bytes :: w.log } })
          (hL .append (by decide)) rfl (.append hstate ?_)
          (hf _ ⟨_, s.e.sdat, s.e.cookie, s.e.opts, rfl⟩)
        intro q hq
        obtain rfl : p = q := Option.some_inj.mp (hsdat.symm.trans hq)
        show bytes = w.mem.read p.buf (p.off + headerLen + s.e.slen.toNat) bytes.length
        rw [hmem, Nat.add_assoc, BlockMemory.read_write]

theorem send_performs (env : Env D H) (len : UInt32) (data : Option Bytes) (off : UInt32)
    (hL : ∀ l ∈ Label.own, l ∈ L) : Performs env L s (send env len data off s) := by
  unfold send
  rw [Program.bind_gets]
  refine Program.Follows.ite (fun _ => .pure _ _) fun hst => ?_
  have hstate : s.e.state = .established := not_not.mp hst
  refine Program.Follows.ite (fun _ => .pure _ _) fun _ => ?_
  cases data with
  | none => exact .pure _ _
  | some data =>
      refine Program.Follows.ite (fun _ => .pure _ _) fun _ => ?_
      refine Program.Follows.ite (fun _ => .pure _ _) fun _ => ?_
      -- Whether a segment may leave was settled before the copy, which keeps the ring.
      have hsend : ∀ t : Ctx D H, SameButTraffic s.e t.e → Performs env L t
          ((if s.e.hasAvailableSegments = false then
              pure (if env.fitting s.e len off = 0 then .operationInProgress else .ok,
                off + env.fitting s.e len off)
            else if s.e.hasNoDelay then do
              let ret ← sendNoDelay env (if off + env.fitting s.e len off = len then tcpPsh else 0)
              pure (ret, off + env.fitting s.e len off)
            else do
              let ret ← sendNagle env (env.bound s.e)
              pure (ret, off + env.fitting s.e len off) :
            ConnProgram D H (Status × UInt32)) t) := by
        intro t ht
        refine Program.Follows.ite (fun _ => .pure _ _) fun hfree => ?_
        have hfree' : t.e.hasAvailableSegments = true := by
          rw [ht.available_eq]
          exact Bool.eq_true_of_not_eq_false hfree
        have hstate' : t.e.state = .established := by rw [ht.state_eq, hstate]
        refine Program.Follows.ite (fun _ => ?_) fun _ => ?_
        · exact Program.Follows.bind (sendNoDelay_performs env _ (hL _ (by decide)) hstate' hfree')
            fun _ _ _ => .pure _ _
        · exact Program.Follows.bind (sendNagle_performs env _ (hL _ (by decide)) hstate' hfree')
            fun _ _ _ => .pure _ _
      rw [Program.when]
      by_cases hslen : env.fitting s.e len off ≠ 0
      · rw [if_pos hslen]
        exact copyPayload_performs data off _ hL hstate hsend
      · rw [if_neg hslen]
        exact hsend s .refl

/-! ## Aborting -/

theorem sendAbort_closed_spec (env : Env D H) {p : Ptr} (hsdat : s.e.sdat = some p) :
    ∃ t ret u, sendAbort env s = .ok ret t ∧
      Stored p p.off (p.off + headerLen)
        ((s.slot.logged (.unlisten s.e.lport)).moved .closed) u ∧
      SentControl True u t.slot := by
  unfold sendAbort
  rw [Program.bind_gets]
  let s₁ : Ctx D H := { s with w := { s.w with
    dev := env.device.unlisten s.w.dev s.e.lport, log := .unlisten s.e.lport :: s.w.log } }
  let s₂ : Ctx D H := { s₁ with e := { s.e with state := .closed } }
  rw [Program.bind_of_ok (show onWorld (deviceUnlisten env s.e.lport) s = .ok () s₁ from rfl),
    Program.bind_of_ok (show setState State.closed s₁ = .ok () s₂ from rfl)]
  obtain ⟨t, ret, sdat, u, hok, -, hstore, -, hsent⟩ :=
    control_spec env (s := s₂) hsdat (tcpRst ||| if s.e.newdata then tcpAck else 0)
  exact ⟨t, ret, u, hok, hstore, hsent⟩

/-- `Processor::abort`, on a connection that has a send buffer or is not closed. -/
theorem abort_performs (env : Env D H) (hnote : .note ∈ L) (habort : .abort ∈ L)
    (hopen : s.e.sdat = none → s.e.state ≠ .closed) : Performs env L s (abort env s) := by
  unfold abort
  rw [Program.bind_gets]
  let s₁ : Ctx D H := { s with w := { s.w with
    dev := env.device.unlisten s.w.dev s.e.lport, log := .unlisten s.e.lport :: s.w.log } }
  let s₂ : Ctx D H := { s₁ with e := { s.e with state := .closed } }
  refine Performs.bind_act (t := s₁) hnote rfl
    (.note (show (Event.unlisten s.e.lport).isNote = true from rfl) (.inl rfl)) ?_
  rw [Program.bind_of_ok (show setState State.closed s₁ = .ok () s₂ from rfl)]
  obtain ⟨t, reply, hcall, -, ⟨cookie, opts, he⟩, -, hcalled⟩ :=
    callback_spec env .onAborted s₂
  rw [Program.bind_of_ok hcall]
  cases hsdat : s.e.sdat with
  | none =>
      rw [Program.bind_of_error (setFlags_none _ _ _)]
      obtain ⟨e', -, ht⟩ := hcalled
      exact Performs.nullPointer ⟨[_], congrArg Slot.log ht⟩ (hopen hsdat) hsdat
  | some p =>
      obtain ⟨w, hflags, -, hwrote⟩ := setFlags_some p 0 none t
      have htsdat : t.e.sdat = some p := by rw [he]; exact hsdat
      obtain ⟨v, ret, u, hok, hstore, hsent⟩ :=
        sendAbort_closed_spec env (s := { t with w := w }) htsdat
      rw [Program.bind_of_ok hflags, hok]
      -- The connection is closed already when its reset is sent.
      have hclosed : t.e.core.state = .closed := by rw [he]; rfl
      have hmoved : ∀ r : Slot H, r.state = .closed → r.moved .closed = r := by
        rintro ⟨⟨⟩⟩ rfl
        rfl
      rw [hmoved _ hclosed] at hstore
      exact .of_act habort (.abort hcalled hsdat hwrote.stored hstore hsent)

/-- Without a send buffer the reset cannot be written. -/
theorem abort_none (env : Env D H) (hsdat : s.e.sdat = none) :
    ∃ t, abort env s = .error .nullPointer t := by
  change ∃ t, (onWorld (deviceUnlisten env s.e.lport) >>= fun _ => setState .closed >>= fun _ =>
    callback env .onAborted >>= fun _ => setFlags s.e.sdat 0 none >>= fun _ =>
    sendAbort env : ConnProgram D H Status) s = _
  rw [hsdat]
  exact ⟨_, (Program.bind_of_ok rfl).trans ((Program.bind_of_ok rfl).trans
    ((Program.bind_of_ok rfl).trans (Program.bind_of_error (setFlags_none ..))))⟩

/-! ## Opening -/

/-- The first free slot takes the SYN, or the ring is full of old segments. -/
theorem pushSyn_spec (outdata : Ptr) (s : Ctx D H) :
    (pushSyn outdata s = .error .noSegment s ∧ s.e.hasOutstandingSegments = true) ∨
      ∃ k t, pushSyn outdata s = .ok k t ∧ s.slot.nextFree = some k ∧
        t = { s with e := s.e.setSegment k ⟨1, s.e.sndNxt, some outdata⟩ } := by
  unfold pushSyn
  rw [Program.bind_gets]
  cases hfree : s.e.nextAvailableSegment with
  | none =>
      refine .inl ⟨rfl, ?_⟩
      rw [Connection.hasOutstandingSegments_iff]
      refine ⟨0, ?_⟩
      by_contra hzero
      obtain ⟨k, hk⟩ := Core.nextFree_isSome (c := s.e.core) ⟨0, by simpa using hzero⟩
      have : s.e.core.nextFree = none := hfree
      rw [this] at hk
      cases hk
  | some k => exact .inr ⟨k, _, rfl, hfree, rfl⟩

/-- What opening leaves in the slot, unless the ring is full of old segments. -/
theorem openSynRcvd_spec (env : Env D H) (inc : Incoming) (iss : UInt32) (outdata : Ptr)
    (s : Ctx D H) :
    (∃ t, openSynRcvd env inc iss outdata s = .error .noSegment t ∧
      t.w.log = [.synced s.e.id inc.seqno, .create s.e.id iss outdata.buf true] ++ s.w.log) ∨
    ∃ t ret, openSynRcvd env inc iss outdata s = .ok ret t ∧
      Opened env.handler ⟨inc.ethSrc, inc.ipSrc, inc.hdr.destport, inc.hdr.srcport⟩ .synRcvd iss
        outdata s.slot t.slot := by
  unfold openSynRcvd
  rw [Program.bind_gets, bind_record, bind_record]
  simp only [modifyConn, Program.bind_update]
  set s₁ : Ctx D H := { e := _, w := _ } with hs₁
  rcases pushSyn_spec outdata s₁ with ⟨hrun, hout⟩ | ⟨k, t, hrun, hfree, ht⟩
  · rw [Program.bind_of_error hrun]
    refine .inl ⟨s₁, rfl, ?_⟩
    have hleft : s.e.hasOutstandingSegments = true := hout
    simp [hs₁, hleft]
  · rw [Program.bind_of_ok hrun]
    have hdat : ((t.e.parseOptions inc).segments k).dat = some outdata := by
      show ((t.e.parseOptions inc).core.segments k).dat = _
      rw [Connection.core_parseOptions, ht]
      simp [Connection.core, Connection.setSegment]
    obtain ⟨u, ret, hok, -, hsent⟩ := sendSynAck_spec env
      (s := { t with e := t.e.parseOptions inc }) hdat True
    refine .inr ⟨u, ret, hok, s.e.hasOutstandingSegments, inc.seqno + 1,
      [.synced s.e.id inc.seqno], k, s.e.hasOutstandingSegments_iff, ?_, hfree, ?_⟩
    · intro ev hev
      exact ⟨inc.seqno, List.mem_singleton.mp hev⟩
    · have hslot : ({ t with e := t.e.parseOptions inc } : Ctx D H).slot = t.slot := by
        simp only [Ctx.slot, Connection.core_parseOptions]
      rw [hslot, ht] at hsent
      exact hsent

theorem openSynSent_spec (env : Env D H) (rhwaddr : Ethernet.Address) (ripaddr : Ipv4.Address)
    (lport rport : Port) (iss : UInt32) (outdata : Ptr) (s : Ctx D H) :
    (∃ t, openSynSent env rhwaddr ripaddr lport rport iss outdata s = .error .noSegment t ∧
      t.w.log = [.create s.e.id iss outdata.buf true] ++ s.w.log) ∨
    ∃ t ret, openSynSent env rhwaddr ripaddr lport rport iss outdata s = .ok ret t ∧
      Opened env.handler ⟨rhwaddr, ripaddr, htons lport, htons rport⟩ .synSent iss outdata
        s.slot t.slot ∧ (ret = .ok ↔ Replenished t.slot) := by
  unfold openSynSent
  rw [Program.bind_gets, bind_record]
  simp only [modifyConn, Program.bind_update]
  set s₁ : Ctx D H := { e := _, w := _ } with hs₁
  rcases pushSyn_spec outdata s₁ with ⟨hrun, hout⟩ | ⟨k, t, hrun, hfree, ht⟩
  · rw [Program.bind_of_error hrun]
    refine .inl ⟨s₁, rfl, ?_⟩
    have hleft : s.e.hasOutstandingSegments = true := hout
    simp [hs₁, hleft]
  · obtain ⟨w, hflags, -, hwrote⟩ := setFlags_some outdata 0 none t
    rw [Program.bind_of_ok hrun, Program.bind_of_ok hflags]
    have hdat : (t.e.segments k).dat = some outdata := by
      rw [ht]
      simp [Connection.setSegment]
    obtain ⟨u, ret, hok, -, hsent, hfull⟩ := sendSyn_spec env (s := { t with w := w }) hdat True
    have hsent := hsent.of_stored hdat
      (hwrote.stored.mono (Nat.le_refl _) (by simp [headerLen]))
    refine .inr ⟨u, ret, hok, ⟨s.e.hasOutstandingSegments, 0, [], k,
      s.e.hasOutstandingSegments_iff, by simp, hfree, ?_⟩, hfull⟩
    rw [ht] at hsent
    exact hsent

end Tulips.Tcpv4
