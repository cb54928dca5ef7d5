import Tulips.Lib.Pieces
import Tulips.Machine.Silence
import Tulips.Machine.Testbed

/-!
# The receive stream

What a connection has handed to its application is the beginning of the stream its peer
sends, and the next number to receive counts it, in every run whose segments keep to
that stream. The network may lose, repeat and reorder them.
-/

namespace Tulips.Tcpv4

open Program

variable {D H : Type}

/-- A segment brings bytes of a stream at their place, less than the sequence space away
from the bytes received so far. -/
def Incoming.Brings (inc : Incoming) (irs : UInt32) (stream : List UInt8) (got : Nat) : Prop :=
  ∃ off, inc.seqno = irs + 1 + UInt32.ofNat off ∧ Pieces.At stream off inc.payload ∧
    off < got + 2 ^ 32 ∧ got < off + 2 ^ 32

/-- What a connection has taken in is the beginning of a stream, and it goes on with the
next byte. -/
structure Connection.Follows (stream : List UInt8) (e : Connection) (log : List Event) :
    Prop where
  taken : received e.id log <+: stream
  waits : e.state = .synSent → received e.id log = [] ∧ syncedWith e.id log = none
  expects : e.state = .synRcvd ∨ e.state = .established → ∃ irs,
    syncedWith e.id log = some irs ∧
      e.rcvNxt = irs + 1 + UInt32.ofNat (received e.id log).length

theorem Connection.follows_of_closing {stream : List UInt8} {e : Connection} {log : List Event}
    (hstate : e.state.receives = false) (htaken : received e.id log <+: stream) :
    e.Follows stream log := by
  refine ⟨htaken, fun h => ?_, ?_⟩
  · rw [h] at hstate
    cases hstate
  · rintro (h | h) <;> · rw [h] at hstate; cases hstate

/-- A piece that stands where the connection expects it continues the stream. -/
theorem Incoming.Brings.at_next {inc : Incoming} {irs : UInt32} {stream got : List UInt8}
    (h : inc.Brings irs stream got.length)
    (hseq : inc.seqno = irs + 1 + UInt32.ofNat got.length) :
    Pieces.At stream got.length inc.payload := by
  obtain ⟨off, hoff, hat, hlow, hhigh⟩ := h
  have hnum : UInt32.ofNat off = UInt32.ofNat got.length := by
    rw [hoff] at hseq
    exact (UInt32.add_right_inj _).mp hseq
  have hmod : off % 2 ^ 32 = got.length % 2 ^ 32 := by
    have := congrArg UInt32.toNat hnum
    simpa [UInt32.toNat_ofNat'] using this
  rwa [Pieces.offset_eq hmod hlow hhigh] at hat

theorem Unfed.follows {stream : List UInt8} {s t : Ctx D H} (h : Unfed s t)
    (hstate : t.e.state = s.e.state ∨ t.e.state.receives = false)
    (hs : s.e.Follows stream s.w.log) : t.e.Follows stream t.w.log := by
  have htaken : received t.e.id t.w.log <+: stream := by
    rw [h.unserved.received]
    exact hs.taken
  rcases hstate with hsame | hclosing
  · refine ⟨htaken, fun hwait => ?_, fun hopen => ?_⟩
    · rw [h.unserved.received, h.syncedWith]
      exact hs.waits (hsame.symm.trans hwait)
    · rw [h.unserved.received, h.syncedWith, h.rcvNxt]
      rw [hsame] at hopen
      exact hs.expects hopen
  · exact Connection.follows_of_closing hclosing htaken

/-! ## Segments of each state -/

/-- A segment keeps to the stream of a connection: it has no urgent data, no payload as
long as the number of the peer is not known, and then its payload is part of the stream. -/
structure Connection.Hears (e : Connection) (stream : List UInt8) (log : List Event)
    (inc : Incoming) : Prop where
  plain : inc.urglen = 0
  waits : e.state = .synSent → inc.plen = 0
  brings : ∀ irs, syncedWith e.id log = some irs → 0 < inc.plen →
    inc.Brings irs stream (received e.id log).length

section Segments

variable {env : Env D H} {inc : Incoming} {stream : List UInt8} {s t : Ctx D H} {ret : Status}

theorem Connection.Follows.congr {e e' : Connection} {log : List Event}
    (h : e.Follows stream log) (hid : e'.id = e.id) (hrcv : e'.rcvNxt = e.rcvNxt)
    (hstate : e'.state = e.state) : e'.Follows stream log := by
  obtain ⟨htaken, hwaits, hexpects⟩ := h
  constructor
  · rw [hid]
    exact htaken
  · rw [hid, hstate]
    exact hwaits
  · rw [hid, hstate, hrcv]
    exact hexpects

/-- Data handed over continues the stream, once it has been counted. -/
theorem Hands.follows {ds : List (List UInt8)} (h : Hands ds s t) (irs : UInt32)
    (hirs : Tcpv4.syncedWith s.e.id s.w.log = some irs)
    (htaken : Tcpv4.received s.e.id s.w.log ++ ds.reverse.flatten <+: stream)
    (hnum : s.e.rcvNxt = irs + 1 +
      UInt32.ofNat (Tcpv4.received s.e.id s.w.log ++ ds.reverse.flatten).length)
    (hstate : t.e.state ≠ .synSent) : t.e.Follows stream t.w.log := by
  refine ⟨?_, fun hwait => absurd hwait hstate, fun _ => ⟨irs, ?_, ?_⟩⟩
  · rw [h.id, h.received]
    exact htaken
  · rw [h.id]
    exact h.syncedWith hirs
  · rw [h.rcvNxt, h.id, h.received, hnum]

theorem Incoming.payload_length (inc : Incoming) : inc.payload.length = inc.plen.toNat := by
  simp [payload, bytes]

/-- The payload of a segment that is in sequence continues the stream. -/
theorem Connection.Hears.next {e : Connection} {log : List Event} {irs : UInt32}
    (h : e.Hears stream log inc) (hs : e.Follows stream log)
    (hirs : syncedWith e.id log = some irs)
    (hnum : e.rcvNxt = irs + 1 + UInt32.ofNat (received e.id log).length)
    (hplen : 0 < inc.plen) (hseq : inc.seqno = e.rcvNxt) :
    received e.id log ++ inc.payload <+: stream ∧
      e.rcvNxt + inc.plen.toUInt32 =
        irs + 1 + UInt32.ofNat (received e.id log ++ inc.payload).length := by
  constructor
  · exact Pieces.At.continues hs.taken ((h.brings irs hirs hplen).at_next (hseq.trans hnum))
  · rw [hnum, List.length_append, UInt32.ofNat_add, inc.payload_length, ← UInt32.add_assoc]
    congr 1
    apply UInt32.toNat_inj.mp
    rw [UInt16.toNat_toUInt32, UInt32.toNat_ofNat']
    exact (Nat.mod_eq_of_lt (inc.plen.toNat_lt.trans (by decide))).symm

theorem processSynSent_follows (hstate : s.e.state = .synSent) (hplen : inc.plen = 0)
    (hs : s.e.Follows stream s.w.log) (hok : processSynSent env inc s = .ok ret t) :
    t.e.Follows stream t.w.log := by
  obtain ⟨hempty, hnone⟩ := hs.waits hstate
  unfold processSynSent at hok
  rw [bind_gets] at hok
  split at hok
  · obtain ⟨_, s₁, hset, hok⟩ := bind_eq_ok.mp hok
    obtain ⟨_, s₂, hrecord, hok⟩ := bind_eq_ok.mp hok
    obtain ⟨_, s₃, hmodify, hok⟩ := bind_eq_ok.mp hok
    obtain ⟨_, s₄, hparse, hok⟩ := bind_eq_ok.mp hok
    cases hset
    cases hrecord
    cases hmodify
    cases hparse
    let e : Connection :=
      { s.e with state := .established, rcvNxt := inc.seqno + 1, wnd := inc.window }
    let w : World D H := { s.w with log := .synced s.e.id inc.seqno :: s.w.log }
    have hcore : (e.parseOptions inc).core = e.core := Connection.core_parseOptions e inc
    have hid : (e.parseOptions inc).id = s.e.id := congrArg Core.id hcore
    -- The payload is empty, so nothing is handed over.
    have hhands : Hands [] ⟨e.parseOptions inc, w⟩ t := by
      refine (?_ : Relates (Hands []) _).ok hok
      apply hands_walk.bind (hands_callback (by simp))
      intro _
      rw [hplen]
      exact hands_walk.bind (hands_walk.pure _) fun _ => (hands_bears env).sendAck env
    have hsends : Undisturbed ⟨e.parseOptions inc, w⟩ t := by
      refine (?_ : Sends _).ok hok
      apply undisturbed_walk.bind (callback_sends env _)
      intro _
      rw [hplen]
      exact undisturbed_walk.bind (undisturbed_walk.pure _) fun _ => (sends_bears env).sendAck env
    have hreceived : received s.e.id w.log = [] := by
      rw [show w.log = [.synced s.e.id inc.seqno] ++ s.w.log from rfl,
        received_append (by simp [Event.creates]), hempty]
      rfl
    have hsynced : syncedWith s.e.id w.log = some inc.seqno := by
      rw [show w.log = [.synced s.e.id inc.seqno] ++ s.w.log from rfl, syncedWith,
        sinceCreate_append (by simp [Event.creates]), List.reverse_append, List.findSome?_append]
      unfold syncedWith at hnone
      rw [hnone]
      simp [Event.syncs]
    apply hhands.follows inc.seqno
    · rw [hid]
      exact hsynced
    · rw [hid, hreceived]
      exact List.nil_prefix
    · have hnum : (e.parseOptions inc).rcvNxt = inc.seqno + 1 := congrArg Core.rcvNxt hcore
      rw [hid, hreceived, hnum]
      exact (UInt32.add_zero _).symm
    · rw [hsends.state_eq, Connection.state_parseOptions]
      exact State.noConfusion
  -- Any other answer ends the connection.
  · obtain ⟨reply, u, hcall, hok⟩ := bind_eq_ok.mp hok
    have hu : Unserved s u := (unserved_callback (by simp)).ok hcall
    have ht : Unserved u t := Relates.unserved (hands_sendAbort env) |>.ok hok
    have hclosed := sendAbort_closed hok
    apply Connection.follows_of_closing
    · rw [hclosed]
      rfl
    · rw [(unserved_walk.trans hu ht).received]
      exact hs.taken

theorem processSynRcvd_follows (hstate : s.e.state = .synRcvd)
    (hseq : 0 < inc.plen → inc.seqno = s.e.rcvNxt) (hs : s.e.Follows stream s.w.log)
    (hears : s.e.Hears stream s.w.log inc) (hok : processSynRcvd env inc s = .ok ret t) :
    t.e.Follows stream t.w.log := by
  obtain ⟨irs, hirs, hnum⟩ := hs.expects (.inl hstate)
  unfold processSynRcvd at hok
  rw [bind_gets] at hok
  split at hok
  swap
  · cases hok
    exact hs
  obtain ⟨_, u, hset, hok⟩ := bind_eq_ok.mp hok
  cases hset
  obtain ⟨reply, v, hcall, hok⟩ := bind_eq_ok.mp hok
  have hmoved : Hands [] s ⟨{ s.e with state := .established }, s.w⟩ := .conn rfl rfl
  have hconnected : Relates (Hands []) (callback env .onConnected) := hands_callback (by simp)
  have hcalled : Hands [] ⟨{ s.e with state := .established }, s.w⟩ v := hconnected.ok hcall
  have hv : Hands [] s v := hmoved.after hcalled
  have hvstate : v.e.state = .established := (callback_sends env _).ok hcall |>.state_eq
  split at hok
  · next hplen =>
      obtain ⟨_, x, hreceive, hok⟩ := bind_eq_ok.mp hok
      cases hreceive
      obtain ⟨_, y, hdeliver, hok⟩ := bind_eq_ok.mp hok
      -- The segment that completes the handshake brings the first piece of the stream.
      have hxy : Hands [inc.payload] ⟨v.e.receive inc inc.plen, v.w⟩ y := by
        rw [deliver_eq] at hdeliver
        cases hdeliver
        exact .delivered env inc.payload none _
      have hack := ((hands_bears env).sendAck env).ok hok
      have hystate : y.e.state = .established :=
        ((deliver_sends env inc).ok hdeliver).state_eq.trans hvstate
      obtain ⟨hnext, hcount⟩ := hears.next hs hirs hnum hplen (hseq hplen)
      have hreceived : received v.e.id v.w.log = received s.e.id s.w.log := by
        rw [hv.id, hv.received]
        exact List.append_nil _
      refine (hxy.before hack).follows irs ?_ ?_ ?_ ?_
      · show syncedWith v.e.id v.w.log = some irs
        rw [hv.id]
        exact hv.syncedWith hirs
      · show received v.e.id v.w.log ++ _ <+: stream
        rw [hreceived]
        simpa using hnext
      · show v.e.rcvNxt + inc.plen.toUInt32 =
          irs + 1 + UInt32.ofNat (received v.e.id v.w.log ++ _).length
        rw [hreceived, hv.rcvNxt, hcount]
        simp
      · rw [(((sends_bears env).sendAck env).ok hok).state_eq, hystate]
        decide
  · cases hok
    refine hv.follows irs hirs ?_ ?_ ?_
    · simpa using hs.taken
    · simpa using hnum
    · rw [hvstate]
      decide

theorem processFin_follows (hstate : s.e.state = .established)
    (hseq : inc.seqno = s.e.rcvNxt) (hs : s.e.Follows stream s.w.log)
    (hears : s.e.Hears stream s.w.log inc) (hok : processFin env inc s = .ok ret t) :
    t.e.Follows stream t.w.log := by
  obtain ⟨irs, hirs, hnum⟩ := hs.expects (.inr hstate)
  unfold processFin at hok
  rw [bind_gets] at hok
  split at hok
  · cases hok
    exact hs
  obtain ⟨_, u, hcount, hok⟩ := bind_eq_ok.mp hok
  cases hcount
  obtain ⟨_, v, hdeliver, hok⟩ := bind_eq_ok.mp hok
  obtain ⟨_, x, hset, hok⟩ := bind_eq_ok.mp hok
  cases hset
  let e : Connection := { s.e with rcvNxt := s.e.rcvNxt + inc.plen.toUInt32 + 1 }
  have hpush := ((hands_bears env).pushFinAck).ok hok
  have hstate' : t.e.state = .lastAck := ((sends_bears env).pushFinAck.ok hok).state_eq
  apply Connection.follows_of_closing
  · rw [hstate']
    rfl
  have hvx : Unserved v ⟨{ v.e with state := .lastAck }, v.w⟩ := .conn rfl
  rw [(unserved_walk.trans hvx hpush.unserved).received]
  rcases when_eq_ok.mp hdeliver with ⟨hplen, hdeliver⟩ | ⟨-, rfl⟩
  · have hxy : Hands [inc.payload] ⟨e, s.w⟩ v := by
      rw [deliver_eq] at hdeliver
      cases hdeliver
      exact .delivered env inc.payload none _
    rw [hxy.id, hxy.received]
    simpa using (hears.next hs hirs hnum hplen hseq).1
  · exact hs.taken

theorem processEstablished_follows (hstate : s.e.state = .established)
    (hnew : s.e.newdata = false) (hfree : s.e.ackdata = true → s.e.hasAvailableSegments = true)
    (hseq : 0 < inc.plen ∨ inc.has tcpFin = true → inc.seqno = s.e.rcvNxt)
    (hs : s.e.Follows stream s.w.log) (hears : s.e.Hears stream s.w.log inc)
    (hacks : ∀ ret, Meanwhile (.immediateAck s.e.id ret) s t → ret = .ok)
    (hstate' : t.e.state = .established ∨ t.e.state.receives = false)
    (hok : processEstablished env inc s = .ok ret t) : t.e.Follows stream t.w.log := by
  obtain ⟨irs, hirs, hnum⟩ := hs.expects (.inr hstate)
  rcases processEstablished_cases hok with ⟨hfin, hok⟩ | ⟨-, hok⟩
  · exact processFin_follows hstate (hseq (.inr hfin)) hs hears hok
  have hlive : t.e.state ≠ .synSent := by
    rcases hstate' with h | h
    · rw [h]
      decide
    · intro hwait
      rw [hwait] at h
      cases h
  have hdatalen : inc.datalen = inc.plen := by
    rw [Incoming.datalen, hears.plain, UInt16.sub_zero]
  by_cases hplen : 0 < inc.plen
  · have he : s.e.updated inc = (s.e.receive inc inc.plen).updateWindow inc.window := by
      rw [Connection.updated, hdatalen, if_pos hplen]
    have hbytes : inc.bytes inc.urglen inc.datalen = inc.payload := by
      rw [hears.plain, hdatalen]
      rfl
    obtain ⟨hnext, hcount⟩ := hears.next hs hirs hnum hplen (hseq (.inl hplen))
    rw [he] at hok
    have hhandover := afterUpdate_handover rfl hok
    rw [hbytes] at hhandover
    cases hhandover with
    | made hhands =>
        refine hhands.follows irs hirs ?_ ?_ hlive <;>
          rw [List.reverse_singleton, List.flatten_singleton]
        · exact hnext
        · exact hcount
    | refused _ hret hack => exact absurd (hacks _ hack) hret
    | stopped hhands hacked _ _ hstopped =>
        apply Connection.follows_of_closing (hstopped (hfree hacked))
        rw [hhands.unserved.received]
        exact hs.taken
  · have he : s.e.updated inc = s.e.updateWindow inc.window := by
      rw [Connection.updated, hdatalen, if_neg hplen]
    rw [he] at hok
    have hnew' : (s.e.updateWindow inc.window).newdata = false := hnew
    have hhands : Hands [] ⟨s.e.updateWindow inc.window, s.w⟩ t := afterUpdate_silent hnew' hok
    refine hhands.follows irs hirs ?_ ?_ hlive <;>
      rw [List.reverse_nil, List.flatten_nil, List.append_nil]
    · exact hs.taken
    · exact hnum

theorem Connection.outOfSequence_false {e : Connection} (h : e.outOfSequence inc = false)
    (hstate : e.state ≠ .synSent) (hin : 0 < inc.plen ∨ inc.has tcpFin = true) :
    inc.seqno = e.rcvNxt := by
  by_contra hne
  have hflags : (0 < inc.plen || inc.has (tcpSyn ||| tcpFin)) = true := by
    rcases hin with hplen | hfin
    · simp [hplen]
    · have hboth : inc.has (tcpSyn ||| tcpFin) = true := by
        unfold Incoming.has Header.has at hfin ⊢
        rw [bne_iff_ne] at hfin ⊢
        intro hzero
        apply hfin
        rw [show tcpFin = (tcpSyn ||| tcpFin) &&& tcpFin from rfl, ← UInt8.and_assoc, hzero]
        rfl
      simp [hboth]
  rw [outOfSequence, hflags, beq_eq_false_iff_ne.mpr hstate] at h
  simp [hne] at h

theorem heard_follows (hs : s.e.Follows stream s.w.log) (inc : Incoming) :
    (s.e.heard inc).Follows stream s.w.log := by
  obtain ⟨hid, hrcv, -, hstate⟩ := s.e.heard_eq inc
  exact hs.congr hid hrcv hstate

/-- The data of a segment goes to the application at its place in the stream, or is left
for later. -/
theorem processSegment_follows (hopen : s.e.state ≠ .closed) (hs : s.e.Follows stream s.w.log)
    (hears : s.e.Hears stream s.w.log inc)
    (hacks : ∀ ret, Meanwhile (.immediateAck s.e.id ret) s t → ret = .ok)
    (hok : processSegment env inc s = .ok ret t) : t.e.Follows stream t.w.log := by
  by_cases hdrop : inc.has tcpRst = true ∨ s.e.outOfSequence inc = true
  · have hunfed : Unfed s t :=
      (processSegment_dropped env (fun _ h => h) hopen hdrop).unfed (by decide) hok
    refine hunfed.follows ?_ hs
    unfold processSegment modifyConn at hok
    rw [bind_update, bind_gets] at hok
    split at hok
    · rw [processRst_closed hok]
      exact .inr rfl
    · next hrst =>
        have hseq : s.e.clearNews.outOfSequence inc = true := hdrop.resolve_left hrst
        rw [if_pos hseq] at hok
        exact .inl ((sends_bears env).sendAck env |>.ok hok).state_eq
  obtain ⟨hrst, hseq⟩ := not_or.mp hdrop
  have hrst' : inc.has tcpRst = false := by simpa using hrst
  have hseq' : s.e.outOfSequence inc = false := by simpa using hseq
  have hpath := processSegment_reacts hopen hrst' hseq' hok
  rw [processSegment_scanned hrst' hseq'] at hok
  obtain ⟨hid, hrcv, hnew, hstate⟩ := s.e.heard_eq inc
  have hheard : (s.e.heard inc).Follows stream s.w.log := heard_follows hs inc
  have hopen' : (s.e.heard inc).state ≠ .closed := by
    rw [hstate]
    exact hopen
  split at hok
  · have hunfed : Unfed ⟨s.e.heard inc, s.w⟩ t :=
      (rexmit_performs env (L := [.note, .resend]) (by decide) (by decide) hopen').unfed
        (by decide) hok
    exact hunfed.follows (.inl (rexmit_state hopen' hok)) hheard
  have hears' : (s.e.heard inc).Hears stream s.w.log inc := by
    refine ⟨hears.plain, fun h => hears.waits (hstate.symm.trans h), ?_⟩
    rw [hid]
    exact hears.brings
  have hin : s.e.state ≠ .synSent → (0 < inc.plen ∨ inc.has tcpFin = true) →
      inc.seqno = (s.e.heard inc).rcvNxt := by
    rw [hrcv]
    exact Connection.outOfSequence_false hseq'
  have hstays : (s.e.heard inc).state = .established ∨ (s.e.heard inc).state.receives = false →
      t.e.state = (s.e.heard inc).state ∨ t.e.state.receives = false :=
    receives_of_path (by decide) hpath
  -- Past ESTABLISHED nothing is handed over any more.
  by_cases hclosing : (s.e.heard inc).state.receives = false
  · have hunserved : Unserved ⟨s.e.heard inc, s.w⟩ t := processState_unserved hclosing hok
    apply Connection.follows_of_closing
    · rcases hstays (.inr hclosing) with h | h
      · rw [h]
        exact hclosing
      · exact h
    · rw [hunserved.received]
      exact hheard.taken
  unfold processState at hok
  rw [bind_gets] at hok
  cases hcase : (s.e.heard inc).state with
  | synSent =>
      have hok : processSynSent env inc ⟨s.e.heard inc, s.w⟩ = .ok ret t := by
        have hsame : (s.e.clearNews.scanned inc).1.state = .synSent := hcase
        rwa [hsame] at hok
      exact processSynSent_follows hcase (hears'.waits hcase) hheard hok
  | synRcvd =>
      have hok : processSynRcvd env inc ⟨s.e.heard inc, s.w⟩ = .ok ret t := by
        have hsame : (s.e.clearNews.scanned inc).1.state = .synRcvd := hcase
        rwa [hsame] at hok
      refine processSynRcvd_follows hcase (fun hplen => hin ?_ (.inl hplen)) hheard hears' hok
      rw [← hstate, hcase]
      decide
  | established =>
      have hok : processEstablished env inc ⟨s.e.heard inc, s.w⟩ = .ok ret t := by
        have hsame : (s.e.clearNews.scanned inc).1.state = .established := hcase
        rwa [hsame] at hok
      refine processEstablished_follows hcase hnew (s.e.heard_available inc) (hin ?_) hheard
        hears' ?_ ?_ hok
      · rw [← hstate, hcase]
        decide
      · intro ret' hack
        rw [show (⟨s.e.heard inc, s.w⟩ : Ctx D H).e.id = s.e.id from hid] at hack
        exact hacks ret' hack
      · have := hstays (.inl hcase)
        rwa [hcase] at this
  | _ =>
      rw [hcase] at hclosing
      exact absurd rfl hclosing

end Segments

/-! ## Opening -/

section Opening

variable {env : Env D H} {s t u : Ctx D H} {ret : Status}

theorem received_synced (id : UInt16) (iss irs : UInt32) (buf : Nat) (leftover : Bool)
    (log : List Event) :
    received id (.synced id irs :: .create id iss buf leftover :: log) = [] := by
  have hnew : ∀ ev ∈ [Event.synced id irs], ev.creates id = false := by simp [Event.creates]
  exact (received_append hnew).trans (by rw [received_create]; rfl)

theorem syncedWith_create (id : UInt16) (iss : UInt32) (buf : Nat) (leftover : Bool)
    (log : List Event) : syncedWith id (.create id iss buf leftover :: log) = none := by
  simp [syncedWith]

theorem syncedWith_synced (id : UInt16) (iss irs : UInt32) (buf : Nat) (leftover : Bool)
    (log : List Event) :
    syncedWith id (.synced id irs :: .create id iss buf leftover :: log) = some irs := by
  have hnew : ∀ ev ∈ [Event.synced id irs], ev.creates id = false := by simp [Event.creates]
  have hsince : sinceCreate id ([.synced id irs] ++ .create id iss buf leftover :: log) = _ :=
    sinceCreate_append hnew
  unfold syncedWith
  rw [show Event.synced id irs :: .create id iss buf leftover :: log =
    [.synced id irs] ++ .create id iss buf leftover :: log from rfl, hsince]
  simp [Event.syncs]

/-- A passive open starts a stream at the number of the peer. -/
theorem openSynRcvd_follows {inc : Incoming} {iss : UInt32} {outdata : Ptr}
    (stream : List UInt8) (hok : openSynRcvd env inc iss outdata s = .ok ret t) :
    t.e.Follows stream t.w.log := by
  unfold openSynRcvd at hok
  rw [bind_gets, bind_record, bind_record] at hok
  obtain ⟨_, u, hmodify, hok⟩ := bind_eq_ok.mp hok
  cases hmodify
  obtain ⟨i, v, hpush, hok⟩ := bind_eq_ok.mp hok
  obtain ⟨_, x, hparse, hok⟩ := bind_eq_ok.mp hok
  cases hparse
  obtain ⟨hv, hdat, hstate⟩ := pushSyn_unfed hpush
  have hcore := Connection.core_parseOptions v.e inc
  have hparsed : Unfed v ⟨v.e.parseOptions inc, v.w⟩ :=
    ⟨congrArg Core.id hcore, congrArg Core.rcvNxt hcore, [], rfl, by simp⟩
  have hdat' : ((v.e.parseOptions inc).segments i).dat = some outdata := by
    rw [show (v.e.parseOptions inc).segments = v.e.segments from congrArg Core.segments hcore]
    exact hdat
  have hunfed := (hv.trans hparsed).trans (sendSynAck_unfed hdat' hok)
  refine hunfed.follows (.inl ?_) ⟨?_, fun h => ?_, fun _ => ⟨inc.seqno, ?_, ?_⟩⟩
  · rw [((sends_bears env).sendSynAck i |>.ok hok).state_eq]
    exact (Connection.state_parseOptions v.e inc).trans hstate
  · exact (received_synced ..).symm ▸ List.nil_prefix
  · cases h
  · exact syncedWith_synced ..
  · exact (received_synced ..).symm ▸ (UInt32.add_zero _).symm

/-- An active open waits for the number of the peer. -/
theorem openSynSent_follows {rhwaddr : Ethernet.Address} {ripaddr : Ipv4.Address}
    {lport rport : Port} {iss : UInt32} {outdata : Ptr} (stream : List UInt8)
    (hok : openSynSent env rhwaddr ripaddr lport rport iss outdata s = .ok ret t) :
    t.e.Follows stream t.w.log := by
  unfold openSynSent at hok
  rw [bind_gets, bind_record] at hok
  obtain ⟨_, u, hmodify, hok⟩ := bind_eq_ok.mp hok
  cases hmodify
  obtain ⟨i, v, hpush, hok⟩ := bind_eq_ok.mp hok
  obtain ⟨_, x, hflags, hok⟩ := bind_eq_ok.mp hok
  obtain ⟨hv, hdat, hstate⟩ := pushSyn_unfed hpush
  have hdat' : (x.e.segments i).dat = some outdata := by
    rw [setFlags_conn hflags]
    exact hdat
  have hunfed := (hv.trans (setFlags_unfed hflags)).trans (sendSyn_unfed hdat' hok)
  refine hunfed.follows (.inl ?_) ⟨?_, fun _ => ⟨?_, ?_⟩, ?_⟩
  · rw [((sends_bears env).sendSyn i |>.ok hok).state_eq, setFlags_conn hflags, hstate]
  · exact (received_create ..).symm ▸ List.nil_prefix
  · exact received_create ..
  · exact syncedWith_create ..
  · rintro (h | h) <;> cases h

end Opening

/-! ## Runs -/

/-- An immediate acknowledgement that fails. -/
def Event.refusesAck : Event → Bool
  | .immediateAck _ ret => ret != .ok
  | _ => false

/-- The streams of the peers go on as the connection has it. -/
def Connection.Streams (peer : UInt16 → Nat → List UInt8) (e : Connection)
    (log : List Event) : Prop := e.Follows (peer e.id (incarnation e.id log)) log

theorem Connection.Streams.beside {peer : UInt16 → Nat → List UInt8} {e : Connection}
    {w w' : World D H} (h : e.Streams peer w.log) (hw : Beside e.id w w') :
    e.Streams peer w'.log := by
  obtain ⟨hreceived, hsynced⟩ := received_beside hw
  obtain ⟨htaken, hwaits, hexpects⟩ := h
  unfold Streams
  rw [incarnation_beside hw]
  constructor
  · rw [hreceived]
    exact htaken
  · rw [hreceived, hsynced]
    exact hwaits
  · rw [hreceived, hsynced]
    exact hexpects

theorem Unfed.streams {peer : UInt16 → Nat → List UInt8} {s t : Ctx D H} (h : Unfed s t)
    (hstate : t.e.state = s.e.state ∨ t.e.state.receives = false)
    (hs : s.e.Streams peer s.w.log) : t.e.Streams peer t.w.log := by
  unfold Connection.Streams
  rw [h.unserved.incarnation, h.id]
  exact h.follows hstate hs

namespace Processor

variable {n : Nat} {env : Env D H} {p q : Processor D H n} {i : Fin n} {op : Op}
  {peer : UInt16 → Nat → List UInt8}

/-- The segments of an operation keep to the streams of the peers, and the immediate
acknowledgement of new data does not fail. -/
structure Streams (env : Env D H) (peer : UInt16 → Nat → List UInt8) (p : Processor D H n)
    (op : Op) : Prop where
  hears : ∀ inc i, op = .process inc → p.demux inc = some i →
    (p.conns i).Hears (peer (p.conns i).id (incarnation (p.conns i).id p.w.log)) p.w.log inc
  acknowledges : ∀ q, exec env op p = .ok () q → ∀ ev ∈ since p q, ev.refusesAck = false

theorem Encounter.streams (h : Encounter env p i op q) (hgood : Streams env peer p op)
    (hop : exec env op p = .ok () q) (hp : (p.conns i).Streams peer p.w.log) :
    (q.conns i).Streams peer q.w.log := by
  cases h with
  | pass hconn hlog =>
      rw [hconn]
      exact hp.beside hlog
  | @segment inc ret t hdemux hrun =>
      rw [setCtx_conns_self]
      have hopen := demux_spec hdemux
      have hpath := processSegment_performs env inc (fun _ h => h) (s := p.ctx i) hopen
      rw [hrun] at hpath
      obtain ⟨hid, new, hlog, hnew⟩ := incarnation_of_path (by decide) hpath
      have hid : t.e.id = (p.conns i).id := hid
      have hlog : t.w.log = new ++ p.w.log := hlog
      have hsame : incarnation t.e.id t.w.log = incarnation (p.conns i).id p.w.log := by
        rw [hid, hlog, incarnation_append fun ev hev => hnew ev hev _]
      show t.e.Follows (peer t.e.id (incarnation t.e.id t.w.log)) t.w.log
      rw [hsame, hid]
      refine processSegment_follows (s := p.ctx i) hopen hp (hgood.hears inc i rfl hdemux) ?_ hrun
      -- An acknowledgement that fails would be among the events of this step.
      rintro ret' ⟨new', hlog', hmem⟩
      have hmem' : Event.immediateAck (p.conns i).id ret' ∈ since p (setCtx i p t) := by
        rw [since_eq (q := setCtx i p t) hlog']
        exact hmem
      simpa [Event.refusesAck] using hgood.acknowledges _ hop _ hmem'
  | @close id ret t hrun =>
      rw [setCtx_conns_self]
      obtain ⟨hunfed, hstate⟩ := close_unfed hrun
      exact hunfed.streams hstate hp
  | @send id len data off ret t hrun =>
      rw [setCtx_conns_self]
      obtain ⟨hunfed, hstate⟩ := send_unfed hrun
      exact hunfed.streams (.inl hstate) hp
  | @abort id ret t hrun =>
      rw [setCtx_conns_self]
      obtain ⟨hunfed, hstate⟩ := abort_unfed hrun
      exact hunfed.streams (.inr (by rw [hstate]; rfl)) hp
  | @tick w ret t q hbefore hrun hconn hafter =>
      obtain ⟨hunfed, hstate⟩ := tick_unfed hrun
      rw [hconn]
      refine Connection.Streams.beside ?_ (hunfed.id ▸ hafter)
      exact hunfed.streams hstate (hp.beside hbefore)
  | @accept inc w outdata ret t hdemux hsyn hlisten hvacant hbefore hrun =>
      rw [setCtx_conns_self]
      exact openSynRcvd_follows _ hrun
  | @connect rhwaddr ripaddr lport rport clock w outdata ret t q hport hvacant hbefore hrun hconn
      hafter =>
      have hid : t.e.id = (p.conns i).id := (openSynSent_own hrun).id
      have ht : t.e.Streams peer t.w.log := openSynSent_follows _ hrun
      rw [hconn]
      rw [← hid] at hafter
      -- A connection whose SYN fails is closed again.
      split
      · exact ht.beside hafter
      · have hclosed : Connection.Streams peer { t.e with state := .closed } t.w.log :=
          Connection.follows_of_closing rfl ht.taken
        exact hclosed.beside hafter

/-- In every run whose segments keep to the streams of the peers, what each connection has
handed to its application is the beginning of the stream of its peer, and an established
connection expects the byte that follows. -/
theorem receive_stream (hp : ReachableBy env (Streams env peer) p) (i : Fin n) :
    received (p.conns i).id p.w.log <+:
        peer (p.conns i).id (incarnation (p.conns i).id p.w.log) ∧
      ((p.conns i).state = .established → ∃ irs,
        syncedWith (p.conns i).id p.w.log = some irs ∧ (p.conns i).rcvNxt =
          irs + 1 + UInt32.ofNat (received (p.conns i).id p.w.log).length) := by
  have hstreams : (p.conns i).Streams peer p.w.log := by
    apply hp.every (J := fun e log => e.Streams peer log)
    · intro id
      exact Connection.follows_of_closing rfl List.nil_prefix
    · intro p q op i _ hgood hmeet hop hJ
      exact hmeet.streams hgood hop hJ
  exact ⟨hstreams.taken, fun h => hstreams.expects (.inr h)⟩

/-! ## A run -/

/-- The segment an operation brings. -/
def Op.incoming? : Op → Option Incoming
  | .process inc => some inc
  | _ => none

/-- A segment keeps to a stream, as far as can be computed: this is enough for streams
shorter than the sequence space. -/
def keepsTo (stream : List UInt8) (log : List Event) (e : Connection)
    (inc : Incoming) : Bool :=
  inc.urglen == 0 && (e.state != .synSent || inc.plen == 0) &&
    (syncedWith e.id log).all fun irs => inc.plen == 0 ||
      ((received e.id log).length < 2 ^ 32 &&
        inc.payload.isPrefixOf (stream.drop (inc.seqno - (irs + 1)).toNat))

/-- The condition on a step that can be computed. -/
def ShortStreams (env : Env D H) (peer : UInt16 → Nat → List UInt8) (p : Processor D H n)
    (op : Op) : Prop :=
  (op.incoming?.all fun inc => (p.demux inc).all fun i =>
    keepsTo (peer (p.conns i).id (incarnation (p.conns i).id p.w.log)) p.w.log (p.conns i)
      inc) = true ∧
  ∀ q, exec env op p = .ok () q → ∀ ev ∈ since p q, ev.refusesAck = false

instance (p : Processor D H n) (op : Op) : Decidable (ShortStreams env peer p op) :=
  inferInstanceAs (Decidable (_ ∧ _))

theorem ShortStreams.streams (h : ShortStreams env peer p op) : Streams env peer p op := by
  refine ⟨fun inc i hop hdemux => ?_, h.2⟩
  have hkeeps := h.1
  rw [hop] at hkeeps
  simp only [Op.incoming?, Option.all_some, hdemux, keepsTo, Bool.and_eq_true,
    Bool.or_eq_true, beq_iff_eq, bne_iff_ne, Option.all_eq_true, decide_eq_true_eq,
    List.isPrefixOf_iff_prefix] at hkeeps
  obtain ⟨⟨hplain, hwaits⟩, hbrings⟩ := hkeeps
  refine ⟨hplain, fun hwait => hwaits.resolve_left (not_not.mpr hwait), fun irs hirs hplen => ?_⟩
  obtain ⟨hshort, hat⟩ := (hbrings irs hirs).resolve_left fun hzero => by simp [hzero] at hplen
  have hoff := (inc.seqno - (irs + 1)).toNat_lt
  refine ⟨(inc.seqno - (irs + 1)).toNat, ?_, hat, by omega, by omega⟩
  rw [UInt32.ofNat_toNat, UInt32.add_comm, UInt32.sub_add_cancel]

open Testbed in
/-- The second piece of a stream comes first and is left for later; when it comes again
after the first, both have been handed over. -/
theorem receive_stream_reordered :
    ∃ p : Processor Script Answers 1,
      (p.conns 0).state = .established ∧ received 0 p.w.log = [10, 11, 12] ∧
      received (p.conns 0).id p.w.log <+: [10, 11, 12, 13] ∧
      ∃ irs, syncedWith (p.conns 0).id p.w.log = some irs ∧ (p.conns 0).rcvNxt =
        irs + 1 + UInt32.ofNat (received (p.conns 0).id p.w.log).length := by
  have hrun : LeadsBy (ShortStreams Testbed.env fun _ _ => [10, 11, 12, 13])
      (fun p => (p.conns 0).state = .established ∧ received 0 p.w.log = [10, 11, 12])
      [connectFrom 6000, segment 6000 (tcpSyn ||| tcpAck) 7 1 [],
        segment 6000 tcpAck 10 1 [12], segment 6000 tcpAck 8 1 [10, 11],
        segment 6000 tcpAck 10 1 [12]] (start 1 .empty []) := by decide +kernel
  obtain ⟨p, hp, hstate, hreceived⟩ := hrun.reaches (.initial (by decide) _ _)
  have hstream := receive_stream (hp.mono fun _ _ h => h.streams) 0
  exact ⟨p, hstate, hreceived, hstream.1, hstream.2 hstate⟩

end Processor

end Tulips.Tcpv4
