import Tulips.Machine.Testbed
import Tulips.Machine.Visits

/-!
# The connection table

No two open connections have the same ports and remote address, so that a
segment is for one connection at most. A new connection takes a vacant slot, and
a segment changes the connection it is for or the slot of the connection it
opens.
-/

namespace Tulips.Tcpv4

variable {D H : Type} {n : Nat}

/-! ## What a connection keeps -/

/-- The connection still has the same peer, and is still closed if it was. -/
def Core.CarriesOn (c c' : Core) : Prop :=
  c'.peer = c.peer ∧ (c.state = .closed → c'.state = .closed)

theorem Core.CarriesOn.refl (c : Core) : c.CarriesOn c := ⟨rfl, fun h => h⟩

theorem Core.CarriesOn.trans {c c' c'' : Core} (h : c.CarriesOn c') (h' : c'.CarriesOn c'') :
    c.CarriesOn c'' :=
  ⟨h'.1.trans h.1, fun hc => h'.2 (h.2 hc)⟩

theorem Step.carriesOn {H : Type} {handler : EventHandler H} {L : List Label} {s t : Slot H}
    (hL : ∀ l ∈ L, l ∉ Label.opening) (h : Relation.ReflTransGen (Step handler L) s t) :
    s.toCore.CarriesOn t.toCore := by
  induction h with
  | refl => exact .refl _
  | tail _ hstep ih =>
      obtain ⟨l, hl, hact⟩ := hstep
      have hchange := hact.change (hL l hl)
      exact ih.trans ⟨hchange.peer_eq, hchange.closed⟩

theorem Performs.carriesOn {env : Env D H} {L : List Label} {α : Type} {a : α} {s t : Ctx D H}
    {m : ConnProgram D H α} (h : Performs env L s (m s)) (hL : ∀ l ∈ L, l ∉ Label.opening)
    (hrun : m s = .ok a t) : s.e.core.CarriesOn t.e.core := by
  rw [hrun] at h
  exact Step.carriesOn hL h

theorem Opened.peer_eq {H : Type} {handler : EventHandler H} {peer : Peer} {st : State}
    {iss : UInt32} {p : Ptr} {s t : Slot H} (h : Opened handler peer st iss p s t) :
    t.peer = peer := by
  obtain ⟨_, _, _, _, _, -, -, -, -, ⟨-, -, hcore⟩ | ⟨-, _, hcore⟩⟩ := h.summary
  · exact (congrArg Core.peer hcore :)
  · exact (congrArg Core.peer hcore :)

/-! ## What a visit does to the table -/

namespace Processor

variable {env : Env D H} {p q : Processor D H n} {i : Fin n}

/-- A new connection has taken the slot, with ports and a remote address no open
connection has; the other slots are as they were. -/
def Opens (p q : Processor D H n) (i : Fin n) : Prop :=
  p.vacant = some i ∧ (∀ j, j ≠ i → q.conns j = p.conns j) ∧
    ∀ j, (p.conns j).state ≠ .closed →
      ¬((p.conns j).lport = (q.conns i).lport ∧ (p.conns j).rport = (q.conns i).rport ∧
        (p.conns j).ripaddr = (q.conns i).ripaddr)

theorem demux_none {inc : Incoming} (h : p.demux inc = none) {j : Fin n}
    (hj : (p.conns j).state ≠ .closed) :
    ¬((p.conns j).lport = inc.hdr.destport ∧ (p.conns j).rport = inc.hdr.srcport ∧
      (p.conns j).ripaddr = inc.ipSrc) := by
  rintro ⟨hlport, hrport, hripaddr⟩
  have := List.find?_eq_none.mp h j (List.mem_finRange j)
  simp [hj, hlport, hrport, hripaddr] at this

theorem localPort_spec {clock : List UInt64} {lport : Port} (h : p.localPort clock = some lport)
    {j : Fin n} (hj : (p.conns j).state ≠ .closed) : (p.conns j).lport ≠ htons lport := by
  have hfound := List.find?_some h
  simp only [Bool.and_eq_true, List.all_eq_true] at hfound
  have := hfound.2 j (List.mem_finRange j)
  simpa [hj] using this

theorem Visit.carriesOn_or_opens {op : Op} (h : Visit env p i op q) :
    (p.conns i).core.CarriesOn (q.conns i).core ∨ p.Opens q i := by
  cases h with
  | skip hconn => exact .inl (by rw [hconn]; exact .refl _)
  | @segment inc ret t hdemux hrun =>
      left
      rw [setCtx_conns_self]
      exact (processSegment_performs env inc (fun _ h => h) (demux_spec hdemux)).carriesOn
        (by decide) hrun
  | @close id ret t hrun =>
      left
      rw [setCtx_conns_self]
      exact (close_performs env fun _ h => h).carriesOn (by decide) hrun
  | @send id len data off ret t hrun =>
      left
      rw [setCtx_conns_self]
      exact (send_performs env len data off fun _ h => h).carriesOn (by decide) hrun
  | @abort id ret t hrun =>
      left
      rw [setCtx_conns_self]
      -- An abort without a send buffer does not return.
      have hsdat : (p.ctx i).e.sdat ≠ none := by
        intro hsdat
        obtain ⟨u, hnone⟩ := abort_none env hsdat
        rw [hrun] at hnone
        cases hnone
      exact (abort_performs env (L := [.note, .abort]) (by decide) (by decide)
        fun h => absurd h hsdat).carriesOn (by decide) hrun
  | @tick expired w ret t q hrun hconn =>
      left
      rw [hconn]
      exact (tick_performs env fun _ h => h).carriesOn (by decide) hrun
  | @accept inc w outdata ret t q hdemux hsyn hlisten hvacant hrun hconns =>
      right
      refine ⟨hvacant, fun j hj => by rw [hconns, Function.update_of_ne hj], fun j hj => ?_⟩
      obtain ⟨u, hfault, -⟩ | ⟨u, ret', hok, hopen⟩ :=
        openSynRcvd_spec env inc p.iss outdata ⟨p.conns i, w⟩
      · rw [hrun] at hfault
        cases hfault
      · rw [hrun] at hok
        cases hok
        have hlport : t.e.lport = inc.hdr.destport := congrArg Peer.lport hopen.peer_eq
        have hrport : t.e.rport = inc.hdr.srcport := congrArg Peer.rport hopen.peer_eq
        have hripaddr : t.e.ripaddr = inc.ipSrc := congrArg Peer.ripaddr hopen.peer_eq
        rw [hconns, Function.update_self, hlport, hrport, hripaddr]
        exact demux_none hdemux hj
  | @connect rhwaddr ripaddr lport rport clock w outdata ret t q hport hvacant hrun hconns =>
      right
      refine ⟨hvacant, fun j hj => by rw [hconns, Function.update_of_ne hj], fun j hj heq => ?_⟩
      obtain ⟨u, hfault, -⟩ | ⟨u, ret', hok, hopen, -⟩ :=
        openSynSent_spec env rhwaddr ripaddr lport rport p.iss outdata ⟨p.conns i, w⟩
      · rw [hrun] at hfault
        cases hfault
      · rw [hrun] at hok
        cases hok
        have hlport : (q.conns i).lport = htons lport := by
          have hpeer : t.e.lport = htons lport := congrArg Peer.lport hopen.peer_eq
          rw [hconns, Function.update_self]
          split <;> exact hpeer
        exact localPort_spec hport hj (heq.1.trans hlport)

/-! ## The invariant -/

/-- Open connections differ in their ports or remote addresses. -/
def Unambiguous (p : Processor D H n) : Prop :=
  ∀ i j, (p.conns i).state ≠ .closed → (p.conns j).state ≠ .closed →
    (p.conns i).lport = (p.conns j).lport → (p.conns i).rport = (p.conns j).rport →
    (p.conns i).ripaddr = (p.conns j).ripaddr → i = j

/-- A connection that carries on was open before, with the ports and the remote
address it has now. -/
theorem before_of_carriesOn (h : (p.conns i).core.CarriesOn (q.conns i).core)
    (hopen : (q.conns i).state ≠ .closed) :
    (p.conns i).state ≠ .closed ∧ (p.conns i).lport = (q.conns i).lport ∧
      (p.conns i).rport = (q.conns i).rport ∧ (p.conns i).ripaddr = (q.conns i).ripaddr := by
  have hpeer := h.1.symm
  exact ⟨fun hclosed => hopen (h.2 hclosed), congrArg Peer.lport hpeer,
    congrArg Peer.rport hpeer, congrArg Peer.ripaddr hpeer⟩

theorem Unambiguous.exec {op : Op} (hp : p.Unambiguous) (hop : exec env op p = .ok () q) :
    q.Unambiguous := by
  intro i j hi hj hlport hrport hripaddr
  by_contra hij
  rcases (exec_visit hop i).carriesOn_or_opens with hold | hnew
  · obtain ⟨hi', hl, hr, hip⟩ := before_of_carriesOn hold hi
    rcases (exec_visit hop j).carriesOn_or_opens with hold' | hnew'
    · obtain ⟨hj', hl', hr', hip'⟩ := before_of_carriesOn hold' hj
      exact hij (hp i j hi' hj' (by rw [hl, hl', hlport]) (by rw [hr, hr', hrport])
        (by rw [hip, hip', hripaddr]))
    · exact hnew'.2.2 i hi' ⟨hl.trans hlport, hr.trans hrport, hip.trans hripaddr⟩
  · have hkeep := hnew.2.1 j (Ne.symm hij)
    rw [hkeep] at hj hlport hrport hripaddr
    exact hnew.2.2 j hj ⟨hlport.symm, hrport.symm, hripaddr.symm⟩

theorem Reachable.unambiguous (hp : Reachable env p) : p.Unambiguous :=
  hp.induction (fun _ _ _ _ hi => absurd rfl hi) fun _ _ _ hop hp => hp.exec hop

/-! ## What a segment changes -/

/-- A segment carries the ports and the remote address of an open connection. -/
def Carries (p : Processor D H n) (inc : Incoming) (i : Fin n) : Prop :=
  (p.conns i).state ≠ .closed ∧ (p.conns i).lport = inc.hdr.destport ∧
    (p.conns i).rport = inc.hdr.srcport ∧ (p.conns i).ripaddr = inc.ipSrc

/-- A segment opens a connection in slot `i`: a SYN for no open connection, to a
port the processor listens on. -/
def Accepts (p : Processor D H n) (inc : Incoming) (i : Fin n) : Prop :=
  (∀ j, ¬p.Carries inc j) ∧ inc.ctlIs tcpSyn = true ∧ inc.hdr.destport ∈ p.listenports ∧
    p.vacant = some i

theorem carries_of_demux {inc : Incoming} (h : p.demux inc = some i) : p.Carries inc i := by
  have hfound := List.find?_some h
  simp only [Bool.and_eq_true, bne_iff_ne, beq_iff_eq] at hfound
  obtain ⟨⟨⟨hstate, hlport⟩, hrport⟩, hripaddr⟩ := hfound
  exact ⟨hstate, hlport.symm, hrport.symm, hripaddr.symm⟩

theorem process_changes {inc : Incoming} (hop : exec env (.process inc) p = .ok () q)
    (hi : q.conns i ≠ p.conns i) : p.Carries inc i ∨ p.Accepts inc i := by
  cases exec_visit hop i with
  | skip hconn => exact absurd hconn hi
  | segment hdemux hrun => exact .inl (carries_of_demux hdemux)
  | accept hdemux hsyn hlisten hvacant hrun hconns =>
      exact .inr ⟨fun j hj => demux_none hdemux hj.1 hj.2, hsyn, hlisten, hvacant⟩

/-- A segment changes one connection at most. -/
theorem process_changes_one {inc : Incoming} {j : Fin n} (hp : p.Unambiguous)
    (hop : exec env (.process inc) p = .ok () q) (hi : q.conns i ≠ p.conns i)
    (hj : q.conns j ≠ p.conns j) : i = j := by
  rcases process_changes hop hi with hci | hai
  · rcases process_changes hop hj with hcj | haj
    · exact hp i j hci.1 hcj.1 (hci.2.1.trans hcj.2.1.symm) (hci.2.2.1.trans hcj.2.2.1.symm)
        (hci.2.2.2.trans hcj.2.2.2.symm)
    · exact absurd hci (haj.1 i)
  · rcases process_changes hop hj with hcj | haj
    · exact absurd hcj (hai.1 j)
    · exact Option.some_inj.mp (hai.2.2.2.symm.trans haj.2.2.2)

/-- What holds of the table in every run: open connections are told apart by
what a segment carries, a connection is created in a vacant slot only, and a
segment changes at most the connection it is for or the slot it opens. -/
theorem connection_table (hp : Reachable env p) :
    p.Unambiguous ∧
    ∀ op q, exec env op p = .ok () q →
      (∃ new, q.w.log = new ++ p.w.log ∧ ∀ id iss buf leftover,
        .create id iss buf leftover ∈ new → ∃ i, (q.conns i).id = id ∧ p.Vacant i) ∧
      ∀ inc, op = .process inc → ∀ i, q.conns i ≠ p.conns i →
        (p.Carries inc i ∨ p.Accepts inc i) ∧ ∀ j, j ≠ i → q.conns j = p.conns j := by
  refine ⟨hp.unambiguous, fun op q hop => ⟨?_, ?_⟩⟩
  · have hout := exec_outcome hop
    obtain ⟨new, hlog⟩ := hout.extends
    refine ⟨new, hlog, fun id iss buf leftover hev => ?_⟩
    obtain ⟨U, i, l, s, last, hvacant, -, htable, -, -, hid⟩ := hout.of_create hlog hev
    refine ⟨i, ?_, hvacant⟩
    have hcore : q.table.cores i = s.toCore := by
      rw [htable]
      simp [Table.set]
    exact (congrArg Core.id hcore).trans hid
  · rintro inc rfl i hi
    refine ⟨process_changes hop hi, fun j hj => ?_⟩
    by_contra hchanged
    exact hj (process_changes_one hp.unambiguous hop hchanged hi)

open Testbed in
/-- A connection that was accepted and one that is being opened. -/
theorem connection_table_both :
    ∃ p : Processor Script Answers 2, (p.conns 0).state = .synRcvd ∧
      (p.conns 1).state = .synSent ∧ p.Unambiguous := by
  obtain ⟨p, -, hp, hfirst, hsecond⟩ := reaches 2 .empty []
    [.listen 5000, segment 5000 tcpSyn 7 0 [], connectFrom 6000]
    (fun p => (p.conns 0).state = .synRcvd ∧ (p.conns 1).state = .synSent)
    (by decide) (by decide +kernel)
  exact ⟨p, hfirst, hsecond, (connection_table hp).1⟩

end Processor

end Tulips.Tcpv4
