import Tulips.Properties.SegmentRing

/-!
# The bytes accepted from the application

Every byte the application hands over is either pending in the send buffer or
counted by the next number to send. The send buffer is lost, with what is
pending in it, when a segment has to go out again: the retransmission takes the
buffer over.
-/

namespace Tulips.Tcpv4

/-! ## The stream of a connection -/

/-- The bytes an event takes in for a connection. -/
def Event.accepts (id : UInt16) : Event → List UInt8
  | .append id' _ bytes => if id' = id then bytes else []
  | _ => []

/-- The bytes taken in since the connection was created, oldest first. -/
def stream (id : UInt16) (log : List Event) : List UInt8 :=
  (sinceCreate id log).reverse.flatMap (Event.accepts id)

/-- The initial sequence number an event gives to a connection. -/
def Event.starts (id : UInt16) : Event → Option UInt32
  | .create id' iss _ _ => if id' = id then some iss else none
  | _ => none

/-- The initial sequence number of a connection. -/
def createdWith (id : UInt16) (log : List Event) : Option UInt32 :=
  log.findSome? (Event.starts id)

section History

variable {id : UInt16} {new log : List Event}

theorem stream_append (h : ∀ ev ∈ new, ev.creates id = false) :
    stream id (new ++ log) = stream id log ++ new.reverse.flatMap (Event.accepts id) := by
  simp only [stream, sinceCreate_append h, List.reverse_append, List.flatMap_append]

theorem stream_create (iss : UInt32) (buf : Nat) (leftover : Bool) :
    stream id (.create id iss buf leftover :: log) = [] := by
  simp [stream]

theorem createdWith_append (h : ∀ ev ∈ new, ev.creates id = false) :
    createdWith id (new ++ log) = createdWith id log := by
  induction new with
  | nil => rfl
  | cons ev new ih =>
      have hev := h ev (by simp)
      have hrest := ih fun ev hev => h ev (by simp [hev])
      rw [List.cons_append, createdWith, List.findSome?_cons]
      cases ev with
      | create id' iss buf leftover =>
          have hne : id' ≠ id := by simpa [Event.creates] using hev
          simp only [Event.starts, if_neg hne]
          exact hrest
      | _ => exact hrest

theorem createdWith_create (iss : UInt32) (buf : Nat) (leftover : Bool) :
    createdWith id (.create id iss buf leftover :: log) = some iss := by
  simp [createdWith, Event.starts]

theorem Event.accepts_of_owner {ev : Event} (h : ev.owner ≠ some id) : ev.accepts id = [] := by
  cases ev with
  | append id' slen bytes =>
      have hne : id' ≠ id := fun heq => h (by rw [← heq]; rfl)
      simp [Event.accepts, hne]
  | _ => rfl

theorem Event.From.accepts {l : Label} {id' : UInt16} {ev : Event} (h : ev.From l id')
    (hl : l ≠ .append) : ev.accepts id = [] := by
  cases ev with
  | append => exact absurd (List.mem_singleton.mp h.2) hl
  | _ => rfl

theorem flatMap_accepts_eq_nil (h : ∀ ev ∈ new, ev.accepts id = []) :
    new.reverse.flatMap (Event.accepts id) = [] := by
  simpa [List.flatMap_eq_nil_iff] using h

end History

/-! ## The account -/

/-- The states up to ESTABLISHED. -/
def State.Early (st : State) : Prop := st = .synSent ∨ st = .synRcvd ∨ st = .established

/-- Until the connection closes, what was accepted is what has been counted and
what is pending. -/
def Core.Accounted (c : Core) (log : List Event) : Prop :=
  c.state.Early →
    (c.state ≠ .established → c.slen = 0) ∧
    ∃ iss, createdWith c.id log = some iss ∧
      UInt32.ofNat (stream c.id log).length =
        c.sndNxt - (iss + 1) + UInt32.ofNat c.slen.toNat

/-- A retransmission starts with nothing pending, and what is pending fits in its
24 bits. -/
def Event.keepsPending : Event → Bool
  | .rexmit _ st slen _ _ => st != .established || slen == 0
  | .append _ slen bytes => slen.toNat + bytes.length < 2 ^ 24
  | _ => true

/-- The rings are in order and no pending data is lost. -/
def AcceptGood (log : List Event) : Prop :=
  ∀ ev ∈ log, ev.ringGood = true ∧ ev.keepsPending = true

section Step

variable {H : Type} {handler : EventHandler H} {s t : Slot H} {k : Fin segmentCount}

/-- What leaves the account alone and takes no bytes in keeps it. -/
theorem Core.Accounted.of_adds {l : Label} {c d : Core} {id : UInt16}
    (h : c.Accounted s.log) (hid : d.id = c.id)
    (hstate : d.state.Early → c.state.Early ∧ (d.state ≠ .established → c.state ≠ .established))
    (hsnd : d.sndNxt = c.sndNxt) (hslen : d.slen = c.slen)
    (hadds : Adds (Event.From l id) s t) (hl : l ∉ Label.opening) (happend : l ≠ .append) :
    d.Accounted t.log := by
  intro hd
  obtain ⟨hc, hsyn⟩ := hstate hd
  obtain ⟨hzero, iss, hiss, hsum⟩ := h hc
  obtain ⟨new, hlog, hnew⟩ := hadds
  have hnone : ∀ ev ∈ new, ev.creates c.id = false := fun ev hev =>
    (hnew ev hev).not_creates hl _
  refine ⟨fun hne => ?_, iss, ?_, ?_⟩
  · rw [hslen]
    exact hzero (hsyn hne)
  · rw [hid, hlog, createdWith_append hnone]
    exact hiss
  · rw [hid, hlog, stream_append hnone,
      flatMap_accepts_eq_nil fun ev hev => (hnew ev hev).accepts happend, List.append_nil, hsnd,
      hslen]
    exact hsum

theorem Core.Accounted.append {bytes : List UInt8} (h : s.toCore.Accounted s.log)
    (hstate : s.state = .established) (hfit : s.slen.toNat + bytes.length < 2 ^ 24) :
    ({ s.toCore with slen := s.slen + BitVec.ofNat 24 bytes.length } : Core).Accounted
      (.append s.id s.slen bytes :: s.log) := by
  intro _
  obtain ⟨-, iss, hiss, hsum⟩ := h (.inr (.inr hstate))
  refine ⟨fun hne => absurd hstate hne, iss, hiss, ?_⟩
  have hnone : ∀ ev ∈ [Event.append s.id s.slen bytes], ev.creates s.id = false := by
    simp [Event.creates]
  have hstream : stream s.id (.append s.id s.slen bytes :: s.log) =
      stream s.id s.log ++ bytes := by
    have happend : stream s.id ([Event.append s.id s.slen bytes] ++ s.log) = _ :=
      stream_append hnone
    simpa [Event.accepts] using happend
  have hslen : (s.slen + BitVec.ofNat 24 bytes.length).toNat = s.slen.toNat + bytes.length := by
    rw [BitVec.toNat_add, BitVec.toNat_ofNat]
    omega
  rw [hstream, List.length_append, UInt32.ofNat_add, hsum, hslen, UInt32.ofNat_add]
  exact UInt32.add_assoc _ _ _

/-- Pending data that leaves in a new segment is counted by the next number. -/
theorem Core.Accounted.emit {known : Prop} {hlen n : Nat} (h : s.toCore.Accounted s.log)
    (hstate : s.state = .established)
    (hsend : Transmitted handler known k hlen n (s.pushed k (UInt32.ofNat s.slen.toNat)) t)
    (hgood : AcceptGood t.log) : t.toCore.Accounted t.log := by
  intro _
  obtain ⟨-, iss, hiss, hsum⟩ := h (.inr (.inr hstate))
  obtain ⟨ret, sdat, hadds, hcore⟩ := hsend.push_core (by rw [hstate]; decide) fun ev hev =>
    (hgood ev hev).1
  obtain ⟨new, hlog, -, hnew⟩ := hadds
  have hnone : ∀ ev ∈ new, ev.creates s.id = false := fun ev hev =>
    (hnew ev hev).not_creates (by decide) _
  have hstream : stream s.id (new ++ s.log) = stream s.id s.log := by
    rw [stream_append hnone,
      flatMap_accepts_eq_nil fun ev hev => (hnew ev hev).accepts (by decide), List.append_nil]
  refine ⟨fun _ => (congrArg Core.slen hcore :), iss, ?_, ?_⟩
  · rw [hcore, hlog]
    exact (createdWith_append hnone).trans hiss
  · have hzero : UInt32.ofNat (0 : BitVec 24).toNat = 0 := rfl
    rw [hcore, hlog]
    show UInt32.ofNat (stream s.id (new ++ s.log)).length =
      s.sndNxt + UInt32.ofNat s.slen.toNat - (iss + 1) + UInt32.ofNat (0 : BitVec 24).toNat
    rw [hstream, hsum, hzero]
    grind

/-- With nothing pending, a retransmission leaves the account alone. -/
theorem Core.Accounted.resend {u : Slot H} {known : Prop} {hlen n : Nat}
    (h : u.toCore.Accounted u.log) (hin : u.toCore.InOrder u.log) (hopen : u.state ≠ .closed)
    (hslen : u.state = .established → u.slen = 0)
    (hsend : Transmitted handler known u.segidx hlen n u.swapped t) :
    t.toCore.Accounted t.log := by
  obtain ⟨una, out, free, hin, -⟩ := hin hopen
  obtain ⟨p, ret, -, hadds, -⟩ := hsend.summary (l := .resend) (by decide)
  obtain ⟨sdat, hcore⟩ := hsend.resend_core hin
  intro hd
  have hstate : t.state = u.state := (congrArg Core.state hcore :)
  have hzero : u.slen = 0 := by
    rw [hstate] at hd
    by_cases hest : u.state = .established
    · exact hslen hest
    · exact (h hd).1 hest
  have hkeep : t.slen = u.slen := (congrArg Core.slen hcore).trans hzero.symm
  refine h.of_adds (congrArg Core.id hcore :) ?_ (congrArg Core.sndNxt hcore :) hkeep
    hadds.adds (by decide) (by decide) hd
  rw [hstate]
  exact fun hd => ⟨hd, fun hne => hne⟩

theorem Opened.accounted {peer : Peer} {st : State} {iss : UInt32} {p : Ptr}
    (h : Opened handler peer st iss p s t) (hst : st = .synRcvd ∨ st = .synSent ∧ Replenished t)
    (hgood : ∀ ev ∈ t.log, ev.ringGood = true) : t.toCore.Accounted t.log := by
  have honly := (h.onlySyn hst hgood).1
  obtain ⟨leftover, rcvNxt, synced, k, ret, -, hsynced, -, hadds, hcore⟩ := h.summary
  obtain ⟨new, hlog, -, hnew⟩ := hadds
  have hid : t.id = s.id ∧ t.slen = 0 := by
    rcases hcore with ⟨-, -, hcore⟩ | ⟨-, sdat, hcore⟩
    · exact ⟨(congrArg Core.id hcore :), (congrArg Core.slen hcore :)⟩
    · exact ⟨(congrArg Core.id hcore :), (congrArg Core.slen hcore :)⟩
  have hsync : ∀ ev ∈ synced, ev.creates s.id = false ∧ ev.accepts s.id = [] := by
    intro ev hev
    obtain ⟨irs, rfl⟩ := hsynced ev hev
    exact ⟨rfl, rfl⟩
  have hnone : ∀ ev ∈ new, ev.creates s.id = false := fun ev hev =>
    (hnew ev hev).not_creates (by decide) _
  have hstream : stream s.id t.log = [] := by
    rw [hlog, stream_append hnone,
      flatMap_accepts_eq_nil fun ev hev => (hnew ev hev).accepts (by decide),
      stream_append fun ev hev => (hsync ev hev).1,
      flatMap_accepts_eq_nil fun ev hev => (hsync ev hev).2, stream_create]
    rfl
  refine fun _ => ⟨fun _ => hid.2, iss, ?_, ?_⟩
  · rw [hid.1, hlog, createdWith_append hnone, createdWith_append fun ev hev => (hsync ev hev).1]
    exact createdWith_create _ _ _
  · rw [hid.1, hstream, hid.2, honly.2.2.1, UInt32.sub_self]
    rfl

/-- Every act of a connection whose history is good keeps the account. -/
theorem Act.accounted {l : Label} (h : Act handler l s t) (hgood : AcceptGood t.log)
    (hin : s.toCore.InOrder s.log) (hs : s.toCore.Accounted s.log) :
    t.toCore.Accounted t.log := by
  have hquiet : l ∉ Label.opening → l ≠ .append → t.state = s.state → t.sndNxt = s.sndNxt →
      t.slen = s.slen → t.toCore.Accounted t.log := by
    intro hl happend hstate hsnd hslen
    refine hs.of_adds h.adds.1 ?_ hsnd hslen h.adds.2 hl happend
    rw [hstate]
    exact fun hd => ⟨hd, fun hne => hne⟩
  have hcore : l ∉ Label.opening → l ≠ .append → t.toCore = s.toCore →
      t.toCore.Accounted t.log := fun hl happend hcore =>
    hquiet hl happend (congrArg Core.state hcore :) (congrArg Core.sndNxt hcore :)
      (congrArg Core.slen hcore :)
  have hcontrol : ∀ {known : Prop} {u : Slot H}, SentControl known u t →
      l ∉ Label.opening → l ≠ .append → u.toCore = s.toCore → t.toCore.Accounted t.log := by
    intro known u hsend hl happend hu
    obtain ⟨sdat, hcore⟩ := hsend.core_eq
    rw [hu] at hcore
    exact hquiet hl happend (congrArg Core.state hcore :) (congrArg Core.sndNxt hcore :)
      (congrArg Core.slen hcore :)
  -- Leaving the early states ends the account.
  have hleave : ¬t.state.Early → t.toCore.Accounted t.log := fun hnot hd => absurd hd hnot
  have hclosed : t.state = .closed → t.toCore.Accounted t.log := fun hst =>
    hleave (by rw [hst]; simp [State.Early])
  cases h with
  | note => exact hcore (by decide) (by decide) rfl
  | life _ hcall => exact hcore (by decide) (by decide) hcall.toCore_eq
  | data _ hcall => exact hcore (by decide) (by decide) hcall.toCore_eq
  | @move s st hst =>
      by_cases hest : st = .established
      · -- The handshake is over, with nothing pending.
        subst hest
        have hearly : s.state = .synSent ∨ s.state = .synRcvd := by
          revert hst
          cases s.state <;> simp [State.leadsTo]
        obtain ⟨hzero, hiss⟩ := hs (by
          rcases hearly with h | h <;> simp [State.Early, h])
        exact fun _ => ⟨fun hne => absurd rfl hne, hiss⟩
      · refine hleave ?_
        show ¬State.Early st
        revert hst hest
        cases s.state <;> cases st <;> simp [State.leadsTo, State.Early]
  | @settle s st hst =>
      refine hleave ?_
      show ¬State.Early st
      revert hst
      cases s.state <;> cases st <;> simp [State.settlesTo, State.Early]
  | rcv => exact hquiet (by decide) (by decide) rfl rfl rfl
  | news => exact hquiet (by decide) (by decide) rfl rfl rfl
  | clear => exact hquiet (by decide) (by decide) rfl rfl rfl
  | store _ _ _ hstore => exact hcore (by decide) (by decide) hstore.toCore_eq
  | append hstate =>
      have hfit := (hgood _ List.mem_cons_self).2
      exact hs.append hstate (by simpa [Event.keepsPending] using hfit)
  | emit hstate hfree hsend => exact hs.emit hstate hsend hgood
  | @fin s t st k hstate hst hfree hsend =>
      obtain ⟨ret, sdat, -, hcore⟩ := hsend.push_core
        (by rcases hst with rfl | rfl <;> simp [Slot.moved]) fun ev hev => (hgood ev hev).1
      refine hleave ?_
      rw [show t.state = st from (congrArg Core.state hcore :)]
      rcases hst with rfl | rfl <;> simp [State.Early]
  | @resend s u t intact p hlen n hstate hsdat hintact hcopy hstore hkind hsend =>
      have hu : u.toCore = s.toCore := hstore.toCore_eq
      have hmark : Event.From .resend s.id
          (.rexmit s.id s.state s.slen (s.segments s.segidx) intact) :=
        ⟨.inr rfl, Event.mem_labels_of_plain rfl⟩
      have hadds : Adds (Event.From .resend s.id) s u :=
        (Adds.logged hmark).trans hstore.adds
      have hidx : u.segidx = s.segidx := (congrArg Core.segidx hu :)
      have hopen : u.state ≠ .closed := by
        rwa [show u.state = s.state from (congrArg Core.state hu :)]
      have hinu : u.toCore.InOrder u.log := by
        rw [hu]
        exact hin.of_adds rfl (fun h => h) ⟨rfl, rfl, rfl⟩ hadds
          fun ev hev => hev.not_creates (by decide) _
      have hsu : u.toCore.Accounted u.log := by
        rw [hu]
        exact hs.of_adds rfl (fun hd => ⟨hd, fun hne => hne⟩) rfl rfl hadds (by decide)
          (by decide)
      rw [← hidx] at hsend
      refine hsu.resend hinu hopen (fun hest => ?_) hsend
      -- The marker says that nothing is pending.
      obtain ⟨p', ret, -, hsent, -⟩ := hsend.summary (l := .resend) (by decide)
      obtain ⟨new, hlog, -⟩ := hsent.adds
      obtain ⟨mem, writes, hstored, -⟩ := hstore
      have hmem : Event.rexmit s.id s.state s.slen (s.segments s.segidx) intact ∈ t.log := by
        rw [hlog]
        refine List.mem_append_right _ ?_
        show _ ∈ u.log
        rw [hstored]
        exact List.mem_append_right _ List.mem_cons_self
      have hslen := (hgood _ hmem).2
      have hest' : s.state = .established := by rw [← hest, hu]
      rw [hu]
      simpa [Event.keepsPending, hest'] using hslen
  | control _ _ _ hstore hsend => exact hcontrol hsend (by decide) (by decide) hstore.toCore_eq
  | spare _ _ hspare hsend => exact hcontrol hsend (by decide) (by decide) hspare.toCore_eq
  | kill _ _ hstore hsend =>
      obtain ⟨sdat, hcore⟩ := hsend.core_eq
      exact hclosed ((congrArg Core.state hcore).trans (congrArg Core.state hstore.toCore_eq :))
  | abort hcall hsdat hflags hstore hsend =>
      obtain ⟨sdat, hcore⟩ := hsend.core_eq
      have hw := hstore.toCore_eq.trans (hflags.toCore_eq.trans hcall.toCore_eq)
      exact hclosed ((congrArg Core.state hcore).trans (congrArg Core.state hw :))
  | create _ hst _ _ hopen => exact hopen.accounted hst fun ev hev => (hgood ev hev).1
  | createFailed _ _ _ _ ht =>
      subst ht
      exact hclosed rfl

end Step

/-! ## What a call of `send` takes in -/

section Send

variable {D H : Type} {env : Env D H} {s t : Ctx D H}

/-- A path without appends takes nothing in. -/
theorem stream_path {handler : EventHandler H} {L : List Label} {u v : Slot H}
    (hL : ∀ l ∈ L, l ∉ Label.opening ∧ l ≠ .append)
    (hpath : Relation.ReflTransGen (Step handler L) u v) :
    v.id = u.id ∧ stream u.id v.log = stream u.id u.log := by
  let I (r : Slot H) : Prop := r.id = u.id ∧ stream u.id r.log = stream u.id u.log
  refine Program.path_invariant (I := I) ?_ hpath ⟨rfl, rfl⟩
  rintro r r' ⟨l, hl, hact⟩ ⟨hid, hstream⟩
  obtain ⟨hid', new, hlog, hnew⟩ := hact.adds
  refine ⟨hid'.trans hid, ?_⟩
  rw [hlog, stream_append fun ev hev => (hnew ev hev).not_creates (hL l hl).1 _,
    flatMap_accepts_eq_nil fun ev hev => (hnew ev hev).accepts (hL l hl).2, List.append_nil,
    hstream]

theorem copyPayload_stream {data : Bytes} {off slen : UInt32}
    (hok : copyPayload data off slen s = .ok () t) :
    SameButTraffic s.e t.e ∧
      (stream s.e.id t.w.log).length = (stream s.e.id s.w.log).length + slen.toNat := by
  unfold copyPayload at hok
  rw [Program.bind_gets] at hok
  cases hsdat : s.e.sdat with
  | none =>
      rw [hsdat] at hok
      cases hok
  | some p =>
      simp only [hsdat] at hok
      set bytes := (List.range slen.toNat).map fun i => data (off.toNat + i) with hbytes
      obtain ⟨w, hstore, -, hwrote⟩ :=
        store_some (some s.e.id) p (headerLen + s.e.slen.toNat) bytes s.w
      rw [Program.bind_of_ok (onWorld_ok hstore)] at hok
      obtain ⟨writes, hlog, hwrites⟩ := hwrote.log
      cases hok
      refine ⟨⟨_, s.e.sdat, s.e.cookie, s.e.opts, rfl⟩, ?_⟩
      show (stream s.e.id (.append s.e.id s.e.slen bytes :: w.log)).length = _
      have hnone : ∀ ev ∈ Event.append s.e.id s.e.slen bytes :: writes,
          ev.creates s.e.id = false := by
        intro ev hev
        rcases List.mem_cons.mp hev with rfl | hev
        · rfl
        · rw [hwrites ev hev]
          rfl
      have htaken : writes.reverse.flatMap (Event.accepts s.e.id) = [] :=
        flatMap_accepts_eq_nil fun ev hev => by rw [hwrites ev hev]; rfl
      rw [hlog, ← List.cons_append, stream_append hnone, List.reverse_cons, List.flatMap_append,
        htaken]
      simp [Event.accepts, hbytes]

/-- `send` takes in as many bytes as it moves the offset by. -/
theorem send_stream {len off off' : UInt32} {data : Option Bytes} {ret : Status}
    (hok : send env len data off s = .ok (ret, off') t) :
    (stream s.e.id t.w.log).length = (stream s.e.id s.w.log).length + (off' - off).toNat := by
  have hsame : ∀ {ret' : Status}, (pure (ret', off) : ConnProgram D H (Status × UInt32)) s =
      .ok (ret, off') t →
      (stream s.e.id t.w.log).length = (stream s.e.id s.w.log).length + (off' - off).toNat := by
    intro ret' h
    cases h
    simp
  unfold send at hok
  rw [Program.bind_gets] at hok
  split at hok
  · exact hsame hok
  next hst =>
  have hstate : s.e.state = .established := not_not.mp hst
  split at hok
  · exact hsame hok
  cases data with
  | none => exact hsame hok
  | some data =>
      simp only at hok
      split at hok
      · exact hsame hok
      split at hok
      · exact hsame hok
      set slen := env.fitting s.e len off with hslen
      have hmove : (off + slen - off).toNat = slen.toNat := by congr 1; grind
      obtain ⟨_, u, hcopy, hsend⟩ := Program.bind_eq_ok.mp hok
      -- After the copy nothing more is taken in.
      have hu : SameButTraffic s.e u.e ∧
          (stream s.e.id u.w.log).length = (stream s.e.id s.w.log).length + slen.toNat := by
        unfold Program.when at hcopy
        split at hcopy
        · exact copyPayload_stream hcopy
        next hzero =>
        cases hcopy
        refine ⟨.refl, ?_⟩
        rw [not_not.mp hzero]
        rfl
      have hid : u.e.id = s.e.id := by
        obtain ⟨_, _, _, _, he⟩ := hu.1
        rw [he]
      have hemit : ∀ l ∈ [Label.emit], l ∉ Label.opening ∧ l ≠ .append := by decide
      have hrest : ∀ {m : ConnProgram D H Status},
          Performs env [.emit] u (m u) →
          (m >>= fun ret => pure (ret, off + slen)) u = .ok (ret, off') t →
          (stream s.e.id t.w.log).length =
            (stream s.e.id s.w.log).length + (off' - off).toNat := by
        intro m hperf hrun
        obtain ⟨b, v, hm, hpure⟩ := Program.bind_eq_ok.mp hrun
        rw [hm] at hperf
        cases hpure
        have hpath := (stream_path hemit hperf).2
        rw [show u.slot.id = s.e.id from hid] at hpath
        rw [hmove, ← hu.2]
        exact congrArg List.length hpath
      split at hsend
      · cases hsend
        rw [hmove, hu.2]
      next hfree =>
      have hstate' : u.e.state = .established := by rw [hu.1.state_eq, hstate]
      have hfree' : u.e.hasAvailableSegments = true := by
        rw [hu.1.available_eq]
        exact Bool.eq_true_of_not_eq_false hfree
      split at hsend
      · exact hrest (sendNoDelay_performs env _ (by decide) hstate' hfree') hsend
      · exact hrest (sendNagle_performs env _ (by decide) hstate' hfree') hsend

end Send

/-! ## Every run -/

section Runs

variable {D H : Type} {n : Nat}

/-- The order of the ring and the account, which needs it. -/
theorem accounted_kept {H : Type} (handler : EventHandler H) :
    Kept handler AcceptGood fun c log => c.InOrder log ∧ c.Accounted log where
  suffix h ev hev := h ev (List.mem_append_right _ hev)
  act h hgood hs :=
    ⟨h.inOrder (fun ev hev => (hgood ev hev).1) hs.1, h.accounted hgood hs.1 hs.2⟩
  other {c new log} hnew hc := by
    refine ⟨(inOrder_kept handler).other hnew hc.1, fun hearly => ?_⟩
    obtain ⟨hzero, iss, hiss, hsum⟩ := hc.2 hearly
    have hnone : ∀ ev ∈ new, ev.creates c.id = false := fun ev hev =>
      Event.creates_of_owner (hnew ev hev)
    refine ⟨hzero, iss, (createdWith_append hnone).trans hiss, ?_⟩
    rw [stream_append hnone,
      flatMap_accepts_eq_nil fun ev hev => Event.accepts_of_owner (hnew ev hev), List.append_nil]
    exact hsum

theorem Table.Numbered.slot? {p : Processor D H n} (h : p.table.Numbered) (hn : n < 2 ^ 16)
    (i : Fin n) : Processor.slot? n (p.conns i).id = some i := by
  have hid : (p.conns i).id = UInt16.ofNat i := h i
  have hval : (UInt16.ofNat i).toNat = i.val := by
    rw [UInt16.toNat_ofNat', Nat.mod_eq_of_lt (by omega)]
  unfold Processor.slot?
  rw [hid]
  simp only [hval]
  exact dif_pos i.isLt

/-- The device has done what it was asked for. -/
def Event.served : Event → Bool
  | .prepare _ buf => buf.isSome
  | .commit _ _ _ _ ret | .listen _ ret => ret == .ok
  | _ => true

end Runs

end Tulips.Tcpv4
