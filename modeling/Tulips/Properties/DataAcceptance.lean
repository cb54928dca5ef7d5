import Tulips.Machine.Silence
import Tulips.Properties.AckScan

/-!
# The receive path and the send path

Data in sequence is taken in whatever is in flight, but for one case: an acknowledgement
of the oldest number in flight asks for a retransmission, and the data that comes with it
is left for later.
-/

namespace Tulips.Tcpv4

open Program Sequence

variable {D H : Type}

/-! ## Requests for a retransmission -/

namespace Connection

variable {e : Connection} {wnd : UInt16} {ackno una : UInt32} {out free : List Segment}

/-- The scan asks for a retransmission exactly at the oldest number in flight. -/
theorem ackScan_again_iff {nxt : UInt32} {n : Nat}
    (h : InFlight e.segments e.segidx nxt una out free) (hout : out ≠ []) (hn : out.length ≤ n)
    (hack : (ackno - una).toNat ≤ (nxt - una).toNat) :
    (e.ackScan wnd ackno n).2 = true ↔ ackno = una := by
  -- The induction follows the segments in flight, oldest first.
  induction out generalizing e una free n with
  | nil => exact absurd rfl hout
  | cons x rest ih =>
      obtain ⟨n, rfl⟩ : ∃ m, n = m + 1 := Nat.exists_eq_succ_of_ne_zero (by simp at hn; omega)
      have hx : e.segment = x := h.head_eq
      have hseq : x.seq = una := h.consecutive.1
      have hxpos := Segment.len_pos (h.busy x (by simp))
      have hdist := h.distance
      rw [total_cons] at hdist
      rw [ackScan_succ, hx, hseq]
      split_ifs with hsame hshort hexact
      · exact iff_of_true rfl hsame
      · exact iff_of_false (by decide) hsame
      · exact iff_of_false (by decide) hsame
      · have hle : x.len.toNat ≤ (ackno - una).toNat := by omega
        have hrest : rest ≠ [] := by
          rintro rfl
          rw [total_nil] at hdist
          omega
        have hack' : (ackno - (una + x.len)).toNat ≤ (nxt - (una + x.len)).toNat := by
          rw [sub_add_toNat hle, sub_add_toNat (by omega)]
          omega
        rw [ih (acked_inFlight h) hrest (by simp at hn; omega) hack']
        refine iff_of_false ?_ hsame
        rintro rfl
        apply hexact
        rw [UInt32.add_comm, UInt32.add_sub_cancel]

/-- Whether a segment asks for a retransmission: it acknowledges the oldest number in
flight. -/
def asked (e : Connection) (inc : Incoming) : Prop :=
  inc.has tcpAck = true ∧ e.hasOutstandingSegments = true ∧ inc.ackno = e.segment.seq

theorem scanned_again_iff {inc : Incoming}
    (hring : e.hasOutstandingSegments = true → ∃ out free,
      InFlight e.segments e.segidx e.sndNxt e.segment.seq out free)
    (hack : inc.has tcpAck = true → e.hasOutstandingSegments = true →
      (inc.ackno - e.segment.seq).toNat ≤ (e.sndNxt - e.segment.seq).toNat) :
    (e.clearNews.scanned inc).2 = true ↔ e.asked inc := by
  unfold scanned asked
  by_cases hscan : inc.has tcpAck = true ∧ e.hasOutstandingSegments = true
  · have hscan' : inc.has tcpAck = true ∧ e.clearNews.hasOutstandingSegments = true := hscan
    obtain ⟨out, free, h⟩ := hring hscan.2
    have hne : out ≠ [] := by
      obtain ⟨i, hi⟩ := e.hasOutstandingSegments_iff.mp hscan.2
      exact List.ne_nil_of_mem (h.mem_out_iff.mpr ⟨i, rfl, hi⟩)
    have hlen : out.length ≤ segmentCount := by
      have := h.length_le
      omega
    rw [if_pos hscan', ackScan_again_iff (e := e.clearNews) h hne hlen (hack hscan.1 hscan.2)]
    exact ⟨fun heq => ⟨hscan.1, hscan.2, heq⟩, fun hasked => hasked.2.2⟩
  · have hscan' : ¬(inc.has tcpAck = true ∧ e.clearNews.hasOutstandingSegments = true) := hscan
    rw [if_neg hscan']
    exact iff_of_false Bool.false_ne_true fun hasked => hscan ⟨hasked.1, hasked.2.1⟩

end Connection

/-! ## Data in sequence -/

/-- An answer of the application that stops the processing, or an immediate
acknowledgement that fails. -/
def Event.hinders : Event → Bool
  | .callback _ _ action => action != .continue
  | .immediateAck _ ret => ret != .ok
  | _ => false

/-- A segment with data that a connection expects next, and that neither resets nor closes
it nor is urgent. -/
structure Connection.Expects (e : Connection) (inc : Incoming) : Prop where
  rst : inc.has tcpRst = false
  fin : inc.has tcpFin = false
  urg : inc.has tcpUrg = false
  data : 0 < inc.plen
  next : inc.seqno = e.rcvNxt

section Data

variable {env : Env D H} {inc : Incoming} {s t : Ctx D H} {ret : Status}

/-- The next number to receive is moved past the data, which is handed over. -/
def TakenIn (inc : Incoming) (s t : Ctx D H) : Prop :=
  t.e.rcvNxt = s.e.rcvNxt + inc.plen.toUInt32 ∧
    ∃ new, t.w.log = new ++ s.w.log ∧ handed s.e.id new = [inc.payload]

/-- The data is left for later. -/
def LeftOut (s t : Ctx D H) : Prop :=
  t.e.rcvNxt = s.e.rcvNxt ∧ ∃ new, t.w.log = new ++ s.w.log ∧ handed s.e.id new = []

theorem Unfed.leftOut (h : Unfed s t) : LeftOut s t := by
  obtain ⟨new, hlog, hnew⟩ := h.log
  exact ⟨h.rcvNxt, new, hlog, handed_eq_nil fun ev hev => (hnew ev hev).1⟩

/-- In ESTABLISHED the data of a segment is taken in, unless something hinders it. -/
theorem processEstablished_takes (hexp : s.e.Expects inc)
    (hclear : ∀ ev, ev.hinders = true → ¬Meanwhile ev s t)
    (hok : processEstablished env inc s = .ok ret t) : TakenIn inc s t := by
  rcases processEstablished_cases hok with ⟨hfin, -⟩ | ⟨-, hok⟩
  · rw [hexp.fin] at hfin
    cases hfin
  have hurg : inc.urglen = 0 := by
    rw [Incoming.urglen, hexp.urg]
    rfl
  have hdatalen : inc.datalen = inc.plen := by
    rw [Incoming.datalen, hurg, UInt16.sub_zero]
  have hbytes : inc.bytes inc.urglen inc.datalen = inc.payload := by
    rw [hurg, hdatalen]
    rfl
  have he : s.e.updated inc = (s.e.receive inc inc.plen).updateWindow inc.window := by
    rw [Connection.updated, hdatalen, if_pos hexp.data]
  rw [he] at hok
  have hhandover := afterUpdate_handover rfl hok
  rw [hbytes] at hhandover
  cases hhandover with
  | made hhands =>
      obtain ⟨new, hlog, hhanded, -⟩ := hhands.log
      exact ⟨hhands.rcvNxt, new, hlog, hhanded⟩
  | refused _ hret hack => exact absurd hack (hclear _ (by simpa [Event.hinders] using hret))
  | stopped _ _ haction hcall =>
      exact absurd hcall (hclear _ (by simpa [Event.hinders] using haction))

/-- Data in sequence is left out exactly when its segment asks for a retransmission. -/
theorem processSegment_takes (hstate : s.e.state = .established) (hexp : s.e.Expects inc)
    (hclear : ∀ ev, ev.hinders = true → ¬Meanwhile ev s t)
    (hok : processSegment env inc s = .ok ret t) :
    ((s.e.clearNews.scanned inc).2 = true → LeftOut s t) ∧
      ((s.e.clearNews.scanned inc).2 = false → TakenIn inc s t) := by
  have hseq : s.e.outOfSequence inc = false := by
    simp [Connection.outOfSequence, hexp.next]
  obtain ⟨hid, hrcv, -, hheard⟩ := s.e.heard_eq inc
  have hestablished : (s.e.heard inc).state = .established := hheard.trans hstate
  rw [processSegment_scanned hexp.rst hseq] at hok
  constructor
  · intro hagain
    rw [hagain] at hok
    have hopen : (s.e.heard inc).state ≠ .closed := by
      rw [hestablished]
      decide
    have hunfed : Unfed ⟨s.e.heard inc, s.w⟩ t :=
      (rexmit_performs env (L := [.note, .resend]) (by decide) (by decide) hopen).unfed
        (by decide) hok
    obtain ⟨hsame, new, hlog, hhanded⟩ := hunfed.leftOut
    exact ⟨hsame.trans hrcv, new, hlog, hid ▸ hhanded⟩
  · intro hagain
    rw [hagain] at hok
    have hrun : processEstablished env inc ⟨s.e.heard inc, s.w⟩ = .ok ret t := by
      have hsame : (s.e.clearNews.scanned inc).1.state = .established := hestablished
      unfold processState at hok
      rw [if_neg Bool.false_ne_true, bind_gets, hsame] at hok
      exact hok
    have hexp' : (s.e.heard inc).Expects inc :=
      ⟨hexp.rst, hexp.fin, hexp.urg, hexp.data, hexp.next.trans hrcv.symm⟩
    have htakes : TakenIn inc ⟨s.e.heard inc, s.w⟩ t :=
      processEstablished_takes hexp' hclear hrun
    obtain ⟨hnum, new, hlog, hhanded⟩ := htakes
    have hnum : t.e.rcvNxt = (s.e.heard inc).rcvNxt + inc.plen.toUInt32 := hnum
    rw [hrcv] at hnum
    exact ⟨hnum, new, hlog, hid ▸ hhanded⟩

end Data

/-! ## Every segment -/

namespace Processor

variable {n : Nat} {env : Env D H} {p q : Processor D H n} {i : Fin n} {inc : Incoming}
  {ret : Status}

/-- On a run that keeps the rings in order, data that comes in sequence with an acceptable
acknowledgement, and is hindered by nothing, is taken in at once and handed over whole,
unless the acknowledgement is the oldest number in flight: then it is left out. -/
theorem data_accepted (hp : Reachable env p) (hgood : ∀ ev ∈ p.w.log, ev.ringGood = true)
    (hstate : (p.conns i).state = .established) (hsum : env.Verifies inc)
    (hdemux : p.demux inc = some i) (hexp : (p.conns i).Expects inc)
    (hack : inc.has tcpAck = true → (p.conns i).hasOutstandingSegments = true →
      (inc.ackno - (p.conns i).segment.seq).toNat ≤
        ((p.conns i).sndNxt - (p.conns i).segment.seq).toNat)
    (hok : process env inc p = .ok ret q) (hclear : ∀ ev ∈ since p q, ev.hinders = false) :
    ((p.conns i).asked inc → (q.conns i).rcvNxt = (p.conns i).rcvNxt ∧
      handed (p.conns i).id (since p q) = []) ∧
    (¬(p.conns i).asked inc →
      (q.conns i).rcvNxt = (p.conns i).rcvNxt + inc.plen.toUInt32 ∧
      handed (p.conns i).id (since p q) = [inc.payload]) := by
  obtain ⟨t, hrun, rfl⟩ := process_of_demux hsum hdemux hok
  have hopen : (p.conns i).state ≠ .closed := demux_spec hdemux
  have hclear' : ∀ ev, ev.hinders = true → ¬Meanwhile ev (p.ctx i) t := by
    rintro ev hhinder ⟨new, hlog, hmem⟩
    have hfalse := hclear ev (by rw [since_eq (q := setCtx i p t) hlog]; exact hmem)
    rw [hhinder] at hfalse
    cases hfalse
  have htakes := processSegment_takes (s := p.ctx i) hstate hexp hclear' hrun
  have hasked : ((p.conns i).clearNews.scanned inc).2 = true ↔ (p.conns i).asked inc :=
    Connection.scanned_again_iff (hp.inFlight hgood hopen) hack
  rw [setCtx_conns_self]
  constructor
  · intro h
    obtain ⟨hnum, new, hlog, hhanded⟩ := htakes.1 (hasked.mpr h)
    rw [since_eq (q := setCtx i p t) hlog]
    exact ⟨hnum, hhanded⟩
  · intro h
    have hagain : ((p.conns i).clearNews.scanned inc).2 = false :=
      Bool.eq_false_iff.mpr fun htrue => h (hasked.mp htrue)
    obtain ⟨hnum, new, hlog, hhanded⟩ := htakes.2 hagain
    rw [since_eq (q := setCtx i p t) hlog]
    exact ⟨hnum, hhanded⟩

open Testbed in
/-- With four bytes in flight, data that acknowledges none of them is left out, and data that
acknowledges two of them is taken in. -/
theorem data_accepted_both :
    ∃ p : Processor Script Answers 1,
      (∃ q ret, process Testbed.env (incoming (header 5000 tcpAck 101 1) [9]) p = .ok ret q ∧
        (q.conns 0).rcvNxt = (p.conns 0).rcvNxt ∧ handed (p.conns 0).id (since p q) = []) ∧
      ∃ q ret, process Testbed.env (incoming (header 5000 tcpAck 101 3) [9]) p = .ok ret q ∧
        (q.conns 0).rcvNxt = (p.conns 0).rcvNxt + 1 ∧
        handed (p.conns 0).id (since p q) = [[9]] := by
  let old := incoming (header 5000 tcpAck 101 1) [9]
  let new := incoming (header 5000 tcpAck 101 3) [9]
  obtain ⟨p, -, hp, htest⟩ := reaches 1 .empty [] inFlightRun
    (fun p => ((∀ ev ∈ p.w.log, ev.ringGood = true) ∧ (p.conns 0).state = .established) ∧
      (p.conns 0).hasOutstandingSegments = true ∧
      (old.seqno = (p.conns 0).rcvNxt ∧ old.ackno = (p.conns 0).segment.seq ∧
        p.demux old = some 0 ∧ Program.Passes (process Testbed.env old) p fun _ q =>
          ∀ ev ∈ since p q, ev.hinders = false) ∧
      (new.seqno = (p.conns 0).rcvNxt ∧ new.ackno ≠ (p.conns 0).segment.seq ∧
        (new.ackno - (p.conns 0).segment.seq).toNat ≤
          ((p.conns 0).sndNxt - (p.conns 0).segment.seq).toNat) ∧
      p.demux new = some 0 ∧ Program.Passes (process Testbed.env new) p fun _ q =>
        ∀ ev ∈ since p q, ev.hinders = false) (by decide) (by decide +kernel)
  obtain ⟨⟨hgood, hstate⟩, hout, ⟨hseq, hsame, hdemux, hrun⟩,
    ⟨hseq', hmore, hnear⟩, hdemux', hrun'⟩ := htest
  refine ⟨p, ?_, ?_⟩
  · obtain ⟨ret, q, hok, hclear⟩ := hrun.exists
    have hexp : (p.conns 0).Expects old := ⟨by decide, by decide, by decide, by decide, hseq⟩
    have hnear : (old.ackno - (p.conns 0).segment.seq).toNat ≤
        ((p.conns 0).sndNxt - (p.conns 0).segment.seq).toNat := by
      rw [hsame, UInt32.sub_self]
      exact Nat.zero_le _
    have hdata := data_accepted hp hgood hstate (.inl rfl) hdemux hexp (fun _ _ => hnear) hok hclear
    obtain ⟨hnum, hhanded⟩ := hdata.1 ⟨by decide, hout, hsame⟩
    exact ⟨q, ret, hok, hnum, hhanded⟩
  · obtain ⟨ret, q, hok, hclear⟩ := hrun'.exists
    have hexp : (p.conns 0).Expects new := ⟨by decide, by decide, by decide, by decide, hseq'⟩
    have hdata := data_accepted hp hgood hstate (.inl rfl) hdemux' hexp (fun _ _ => hnear) hok
      hclear
    obtain ⟨hnum, hhanded⟩ := hdata.2 fun hasked => hmore hasked.2.2
    have hplen : new.plen.toUInt32 = 1 := by decide
    have hpayload : new.payload = [9] := by decide
    rw [hplen] at hnum
    rw [hpayload] at hhanded
    exact ⟨q, ret, hok, hnum, hhanded⟩

end Processor

end Tulips.Tcpv4
