import Tulips.Machine.Endings
import Tulips.Machine.Testbed
import Tulips.Properties.ConnectionTable
import Tulips.Transport.Ofed

/-!
# The filters and the connections

The device should filter for the ports the processor listens on and the ports of
the connections it has opened itself, and for no others. A connection holds its
port in the order of the network, and gives it back to the device in that order,
as if it were the number of a port.
-/

namespace Tulips.Tcpv4.Processor

variable {D H : Type} {n : Nat}

/-! ## What the filters should be -/

/-- The connection is open, and was opened by `connect`. -/
def Client (p : Processor D H n) (i : Fin n) : Prop :=
  (p.conns i).state ≠ .closed ∧ clientOpened (p.conns i).id p.w.log = true

/-- The device filters for the ports listened on and those of the open clients. -/
def FiltersMatch (p : Processor D H n) : Prop :=
  ∀ port, port ∈ filters p.w.log ↔
    htons port ∈ p.listenports ∨ ∃ i, p.Client i ∧ (p.conns i).lport = htons port

/-- The connection is what its filter is there for. -/
def Owns (p : Processor D H n) (i : Fin n) : Prop :=
  p.Client i ∧ (p.conns i).lport ∉ p.listenports

/-- What the connection takes for its port names its own filter, or none. -/
def LetsGo (p : Processor D H n) (i : Fin n) : Prop :=
  (p.Owns i → htons (p.conns i).lport = (p.conns i).lport) ∧
    (¬p.Owns i → (p.conns i).lport ∉ filters p.w.log)

/-- The slot has been taken for a new connection. -/
def Taken (p q : Processor D H n) (i : Fin n) : Prop :=
  ∃ ev ∈ since p q, ev.creates (p.conns i).id = true

instance (p : Processor D H n) (i : Fin n) : Decidable (p.Client i) :=
  inferInstanceAs (Decidable (_ ∧ _))

instance (p : Processor D H n) (i : Fin n) : Decidable (p.Owns i) :=
  inferInstanceAs (Decidable (_ ∧ _))

instance (p : Processor D H n) (i : Fin n) : Decidable (p.LetsGo i) :=
  inferInstanceAs (Decidable ((_ → _) ∧ (¬_ → _)))

instance (p q : Processor D H n) (i : Fin n) : Decidable (p.Taken q i) :=
  inferInstanceAs (Decidable (∃ ev ∈ since p q, ev.creates (p.conns i).id = true))

/-- The operation does not take a port from a connection that is open. -/
def Spares (p : Processor D H n) : Op → Prop
  | .unlisten port => ∀ i, p.Client i → (p.conns i).lport ≠ htons port
  | .abort id => ∀ i, slot? n id = some i → p.LetsGo i
  | _ => True

/-- The operation that leads from `p` to `q` leaves the filters in order. -/
structure Orderly (p : Processor D H n) (op : Op) (q : Processor D H n) : Prop where
  spares : p.Spares op
  ends : ∀ i, (p.conns i).state ≠ .closed → (q.conns i).state = .closed → ¬p.Taken q i → p.LetsGo i
  taken : ∀ i, p.Taken q i → ¬p.Owns i
  refused : ∀ i, p.Taken q i → (q.conns i).state = .closed → (q.conns i).lport ∉ p.listenports

instance (p : Processor D H n) (op : Op) : Decidable (p.Spares op) :=
  match op with
  | .unlisten port => inferInstanceAs (Decidable (∀ i, p.Client i → (p.conns i).lport ≠ htons port))
  | .abort id => inferInstanceAs (Decidable (∀ i, slot? n id = some i → p.LetsGo i))
  | .listen _ | .connect _ _ _ _ | .close _ | .send _ _ _ _ | .process _ | .run _ =>
      .isTrue trivial

instance (p : Processor D H n) (op : Op) (q : Processor D H n) : Decidable (p.Orderly op q) :=
  decidable_of_iff
    (p.Spares op ∧
      (∀ i, (p.conns i).state ≠ .closed → (q.conns i).state = .closed → ¬p.Taken q i →
        p.LetsGo i) ∧
      (∀ i, p.Taken q i → ¬p.Owns i) ∧
      ∀ i, p.Taken q i → (q.conns i).state = .closed → (q.conns i).lport ∉ p.listenports)
    ⟨fun ⟨h₁, h₂, h₃, h₄⟩ => ⟨h₁, h₂, h₃, h₄⟩, fun ⟨h₁, h₂, h₃, h₄⟩ => ⟨h₁, h₂, h₃, h₄⟩⟩

/-! ## One operation -/

/-- The filters match, and no two clients are on one port. -/
structure InOrder (p : Processor D H n) : Prop where
  numbered : ∀ i, (p.conns i).id = UInt16.ofNat i
  apart : ∀ i j, i ≠ j → p.Client i → p.Client j → (p.conns i).lport ≠ (p.conns j).lport
  filters : p.FiltersMatch

variable {env : Env D H} {p q : Processor D H n} {i : Fin n} {lport : Port}

theorem htons_htons (x : UInt16) : htons (htons x) = x := ntohs_htons x

theorem htons_inj {x y : UInt16} : htons x = htons y ↔ x = y := by
  constructor
  · intro h
    rw [← htons_htons x, h, htons_htons]
  · rintro rfl
    rfl

theorem Wanes.client_iff (h : Wanes p q) :
    q.Client i ↔ p.Client i ∧ (q.conns i).state ≠ .closed := by
  unfold Client
  rw [h.id i, h.continues.clientOpened_eq]
  constructor
  · rintro ⟨hopen, hclient⟩
    exact ⟨⟨fun hp => hopen (h.closed i hp), hclient⟩, hopen⟩
  · rintro ⟨⟨-, hclient⟩, hopen⟩
    exact ⟨hopen, hclient⟩

theorem Wanes.not_taken (h : Wanes p q) : ¬p.Taken q i := by
  rintro ⟨ev, hev, hcreates⟩
  obtain ⟨new, hlog, hnew⟩ := h.continues
  rw [since_eq hlog] at hev
  rw [hnew ev hev] at hcreates
  cases hcreates

/-- A filter somebody else has is not given back for a connection that ends. -/
theorem LetsGo.ne {port : Port} (h : p.LetsGo i) (hport : port ∈ filters p.w.log)
    (hother : p.Owns i → (p.conns i).lport ≠ htons port) : port ≠ (p.conns i).lport := by
  rintro rfl
  by_cases howns : p.Owns i
  · exact hother howns (h.1 howns).symm
  · exact h.2 howns hport

theorem InOrder.wanes (hp : p.InOrder) (h : Wanes p q)
    (hends : ∀ i, (p.conns i).state ≠ .closed → (q.conns i).state = .closed → p.LetsGo i) :
    q.InOrder where
  numbered := fun i => (h.id i).trans (hp.numbered i)
  apart := by
    intro i j hij hi hj
    rw [h.lport i, h.lport j]
    exact hp.apart i j hij (h.client_iff.mp hi).1 (h.client_iff.mp hj).1
  filters := by
    intro port
    rw [h.filters, hp.filters port, h.listenports]
    constructor
    · rintro ⟨hlisten | ⟨i, hi, hlport⟩, hrest⟩
      · exact .inl hlisten
      · by_cases hclosed : (q.conns i).state = .closed
        · by_cases hmem : (p.conns i).lport ∈ p.listenports
          · exact .inl (hlport ▸ hmem)
          · have hsame := (hends i hi.1 hclosed).1 ⟨hi, hmem⟩
            refine absurd ?_ (hrest i hi.1 hclosed)
            rw [← hsame, hlport, htons_htons]
        · exact .inr ⟨i, h.client_iff.mpr ⟨hi, hclosed⟩, (h.lport i).trans hlport⟩
    · intro hneeded
      have hport : htons port ∈ p.listenports ∨
          ∃ i, p.Client i ∧ (p.conns i).lport = htons port := by
        refine hneeded.imp_right ?_
        rintro ⟨i, hi, hlport⟩
        exact ⟨i, (h.client_iff.mp hi).1, (h.lport i).symm.trans hlport⟩
      refine ⟨hport, fun i hopen hclosed => ?_⟩
      refine (hends i hopen hclosed).ne ((hp.filters port).mpr hport) ?_
      rintro ⟨hi, hmem⟩ heq
      rcases hneeded with hlisten | ⟨j, hj, hlport⟩
      · exact hmem (heq ▸ hlisten)
      · -- An open client on the port is another connection than the one that ends.
        have hij : i ≠ j := by
          rintro rfl
          exact hj.1 hclosed
        refine hp.apart i j hij hi (h.client_iff.mp hj).1 ?_
        rw [heq, ← hlport, h.lport j]

/-! ## New connections -/

section Starting

variable {st : State} {client : Bool}

/-- Without a connection that owns nothing, the filters are the same. -/
theorem InOrder.mem_filters_iff (hp : p.InOrder) (howns : ¬p.Owns i) (port : Port) :
    port ∈ Tcpv4.filters p.w.log ↔ htons port ∈ p.listenports ∨
      ∃ j, j ≠ i ∧ p.Client j ∧ (p.conns j).lport = htons port := by
  rw [hp.filters port]
  constructor
  · rintro (hlisten | ⟨j, hj, hlport⟩)
    · exact .inl hlisten
    · by_cases hij : j = i
      · subst hij
        by_contra hnot
        exact howns ⟨hj, fun hmem => hnot (.inl (hlport ▸ hmem))⟩
      · exact .inr ⟨j, hij, hj, hlport⟩
  · rintro (hlisten | ⟨j, -, hj, hlport⟩)
    · exact .inl hlisten
    · exact .inr ⟨j, hj, hlport⟩

theorem Starts.client_iff (h : Starts p q i lport st client) (hn : n < 2 ^ 16)
    (hp : p.InOrder) {j : Fin n} (hj : j ≠ i) : q.Client j ↔ p.Client j := by
  have hid : (p.conns j).id ≠ (p.conns i).id :=
    Table.Numbered.id_ne (T := p.table) (fun i => hp.numbered i) hn hj
  unfold Client
  rw [h.other j hj, h.same _ hid]

theorem Starts.client_self (h : Starts p q i lport st client) :
    q.Client i ↔ st ≠ .closed ∧ client = true := by
  unfold Client
  rw [h.id, h.opened, h.state]

/-- The filters after an opening are those of the others and the one of the client. -/
theorem InOrder.starts (hp : p.InOrder) (hn : n < 2 ^ 16) (h : Starts p q i lport st client)
    (hfree : st ≠ .closed → client = true →
      ∀ j, (p.conns j).state ≠ .closed → (p.conns j).lport ≠ lport)
    (hfilters : ∀ port, port ∈ Tcpv4.filters q.w.log ↔ htons port ∈ p.listenports ∨
      (∃ j, j ≠ i ∧ p.Client j ∧ (p.conns j).lport = htons port) ∨
      (st ≠ .closed ∧ client = true) ∧ lport = htons port) : q.InOrder where
  numbered := by
    intro j
    by_cases hj : j = i
    · subst hj
      exact h.id.trans (hp.numbered j)
    · rw [h.other j hj]
      exact hp.numbered j
  apart := by
    -- An open client is on another port than the connection that is new.
    have hnew : ∀ j, j ≠ i → q.Client i → q.Client j → (q.conns j).lport ≠ (q.conns i).lport := by
      intro j hj hi hclient
      obtain ⟨hopen, hself⟩ := h.client_self.mp hi
      rw [h.lport, h.other j hj]
      exact hfree hopen hself j ((h.client_iff hn hp hj).mp hclient).1
    intro j k hjk hj hk
    by_cases hji : j = i
    · subst hji
      exact (hnew k (Ne.symm hjk) hj hk).symm
    by_cases hki : k = i
    · subst hki
      exact hnew j hjk hk hj
    · rw [h.other j hji, h.other k hki]
      exact hp.apart j k hjk ((h.client_iff hn hp hji).mp hj) ((h.client_iff hn hp hki).mp hk)
  filters := by
    intro port
    rw [hfilters port, h.listenports]
    refine or_congr Iff.rfl ?_
    constructor
    · rintro (⟨j, hj, hclient, hlport⟩ | ⟨hself, hlport⟩)
      · exact ⟨j, (h.client_iff hn hp hj).mpr hclient, by rw [h.other j hj]; exact hlport⟩
      · exact ⟨i, h.client_self.mpr hself, h.lport.trans hlport⟩
    · rintro ⟨j, hj, hlport⟩
      by_cases hji : j = i
      · subst hji
        exact .inr ⟨h.client_self.mp hj, h.lport.symm.trans hlport⟩
      · rw [h.other j hji] at hlport
        exact .inl ⟨j, hji, (h.client_iff hn hp hji).mp hj, hlport⟩

theorem InOrder.accepts (hp : p.InOrder) (hn : n < 2 ^ 16)
    (h : Starts p q i lport .synRcvd false) (howns : ¬p.Owns i)
    (hfilters : Tcpv4.filters q.w.log = Tcpv4.filters p.w.log) : q.InOrder := by
  refine hp.starts hn h (fun _ h => by cases h) fun port => ?_
  rw [hfilters, hp.mem_filters_iff howns]
  simp

theorem InOrder.connects {lport : Port} (hp : p.InOrder) (hn : n < 2 ^ 16)
    (h : Starts p q i (htons lport) .synSent true) (howns : ¬p.Owns i)
    (hfree : ∀ j, (p.conns j).state ≠ .closed → (p.conns j).lport ≠ htons lport)
    (hfilters : Tcpv4.filters q.w.log = (Tcpv4.filters p.w.log).insert lport) : q.InOrder := by
  refine hp.starts hn h (fun _ _ => hfree) fun port => ?_
  rw [hfilters, List.mem_insert_iff, hp.mem_filters_iff howns, htons_inj, eq_comm]
  simp only [ne_eq, reduceCtorEq, not_false_eq_true, and_self, true_and]
  rw [or_comm, or_assoc]

theorem InOrder.refused {lport : Port} (hp : p.InOrder) (hn : n < 2 ^ 16)
    (h : Starts p q i (htons lport) .closed true) (howns : ¬p.Owns i)
    (hfree : ∀ j, (p.conns j).state ≠ .closed → (p.conns j).lport ≠ htons lport)
    (hlisten : htons lport ∉ p.listenports)
    (hfilters : ∀ port, port ∈ Tcpv4.filters q.w.log ↔
      port ∈ Tcpv4.filters p.w.log ∧ port ≠ lport) : q.InOrder := by
  refine hp.starts hn h (fun hopen => absurd rfl hopen) fun port => ?_
  rw [hfilters, hp.mem_filters_iff howns]
  constructor
  · rintro ⟨hport, -⟩
    exact hport.imp_right .inl
  · rintro (hmem | ⟨j, hj, hclient, hlport⟩ | ⟨⟨hopen, -⟩, -⟩)
    · exact ⟨.inl hmem, fun heq => hlisten (heq ▸ hmem)⟩
    · exact ⟨.inr ⟨j, hj, hclient, hlport⟩, fun heq => hfree j hclient.1 (heq ▸ hlport)⟩
    · exact absurd rfl hopen

end Starting

/-! ## Runs -/

section Running

theorem client_congr (hconns : q.conns = p.conns) (hcont : Continues p.w q.w) :
    q.Client i ↔ p.Client i := by
  unfold Client
  rw [hconns, hcont.clientOpened_eq]

theorem InOrder.of_filters (hp : p.InOrder) (hconns : q.conns = p.conns)
    (hcont : Continues p.w q.w) (hfilters : ∀ port, port ∈ Tcpv4.filters q.w.log ↔
      htons port ∈ q.listenports ∨ ∃ i, p.Client i ∧ (p.conns i).lport = htons port) :
    q.InOrder where
  numbered := fun i => by rw [hconns]; exact hp.numbered i
  apart := by
    intro i j hij hi hj
    rw [hconns]
    exact hp.apart i j hij ((client_congr hconns hcont).mp hi) ((client_congr hconns hcont).mp hj)
  filters := by
    intro port
    rw [hfilters port, hconns]
    simp only [client_congr hconns hcont]

theorem listen_inOrder (hp : p.InOrder) {port : Port} (hok : listen env port p = .ok () q) :
    q.InOrder := by
  obtain ⟨ret, r, hlisten, hrest⟩ := Program.bind_eq_ok.mp hok
  cases hlisten
  unfold Program.when at hrest
  split at hrest
  · next hret =>
      cases hrest
      refine hp.of_filters rfl (.logged _ (fun _ => rfl) rfl) fun port' => ?_
      show port' ∈ Tcpv4.filters (.listen port (env.device.listen p.w.dev port).1 :: p.w.log) ↔
        htons port' ∈ p.listenports.insert (htons port) ∨ _
      rw [hret, filters_listen, List.mem_insert_iff, List.mem_insert_iff, hp.filters port',
        htons_inj, or_assoc]
  · next hret =>
      cases hrest
      refine hp.of_filters rfl (.logged _ (fun _ => rfl) rfl) fun port' => ?_
      exact (congrArg (port' ∈ ·) (filters_refused hret _)).to_iff.trans (hp.filters port')

theorem unlisten_inOrder (hp : p.InOrder) {port : Port}
    (hspares : ∀ i, p.Client i → (p.conns i).lport ≠ htons port)
    (hok : unlisten env port p = .ok () q) : q.InOrder := by
  cases hok
  refine hp.of_filters rfl (.logged (.unlisten port) (fun _ => rfl) rfl) fun port' => ?_
  show port' ∈ Tcpv4.filters (.unlisten port :: p.w.log) ↔
    htons port' ∈ p.listenports.filter (· ≠ htons port) ∨ _
  rw [mem_filters_unlisten, hp.filters port', List.mem_filter]
  simp only [ne_eq, decide_not, Bool.not_eq_true', decide_eq_false_iff_not, htons_inj]
  constructor
  · rintro ⟨hlisten | hclient, hne⟩
    · exact .inl ⟨hlisten, hne⟩
    · exact .inr hclient
  · rintro (⟨hlisten, hne⟩ | ⟨i, hi, hlport⟩)
    · exact ⟨.inl hlisten, hne⟩
    · exact ⟨.inr ⟨i, hi, hlport⟩, fun heq => hspares i hi (heq ▸ hlport)⟩

theorem abort_inOrder (hp : p.InOrder) {id : UInt16} {ret : Status}
    (hspares : ∀ i, slot? n id = some i → p.LetsGo i) (hok : abort env id p = .ok ret q) :
    q.InOrder := by
  rcases abort_left hok with rfl | ⟨i, t, hslot, hleft, rfl⟩
  · exact hp
  have hwanes : Wanes p (setCtx i p t) := by
    by_cases hclosed : (p.conns i).state = .closed
    · exact .of_closed hclosed hleft ((hspares i hslot).2 fun howns => howns.1.1 hclosed)
    · exact .of_ends hclosed (.inr hleft)
  refine hp.wanes hwanes fun j hopen hclosed => ?_
  by_cases hji : j = i
  · subst hji
    exact hspares j hslot
  · rw [setCtx_conns_of_ne p t hji] at hclosed
    exact absurd hclosed hopen

/-- What ends suits the filters. -/
theorem Orderly.wanes {op : Op} (h : Orderly p op q) (hp : p.InOrder) (hwanes : Wanes p q) :
    q.InOrder :=
  hp.wanes hwanes fun i hopen hclosed => h.ends i hopen hclosed hwanes.not_taken

theorem Starts.taken {st : State} {client : Bool} (h : Starts p q i lport st client) :
    p.Taken q i := h.created

theorem process_inOrder (hn : n < 2 ^ 16) (hp : p.InOrder) {inc : Incoming} {ret : Status}
    (hgood : Orderly p (.process inc) q) (hok : process env inc p = .ok ret q) : q.InOrder := by
  rcases process_cases hok with hwanes | ⟨i, -, hstarts, hfilters⟩
  · exact hgood.wanes hp hwanes
  · exact hp.accepts hn hstarts (hgood.taken i hstarts.taken) hfilters

theorem connect_inOrder (hn : n < 2 ^ 16) (hp : p.InOrder) {rhwaddr : Ethernet.Address}
    {ripaddr : Ipv4.Address} {rport : Port} {clock : List UInt64} {ret : Status × Option (Fin n)}
    (hgood : Orderly p (.connect rhwaddr ripaddr rport clock) q)
    (hok : connect env rhwaddr ripaddr rport clock p = .ok ret q) : q.InOrder := by
  rcases connect_cases hok with hwanes | ⟨i, lport, -, hport, ⟨hstarts, hfilters⟩ |
    ⟨hstarts, hfilters⟩⟩
  · exact hgood.wanes hp hwanes
  · exact hp.connects hn hstarts (hgood.taken i hstarts.taken)
      (fun j hj => localPort_spec hport hj) hfilters
  · have hlisten := hgood.refused i hstarts.taken hstarts.state
    rw [hstarts.lport] at hlisten
    exact hp.refused hn hstarts (hgood.taken i hstarts.taken)
      (fun j hj => localPort_spec hport hj) hlisten hfilters

/-- An orderly operation keeps the filters in order. -/
theorem inOrder_step (hn : n < 2 ^ 16) (hp : p.InOrder) {op : Op} (hgood : Orderly p op q)
    (hok : exec env op p = .ok () q) : q.InOrder := by
  cases op with
  | listen port => exact listen_inOrder hp hok
  | unlisten port => exact unlisten_inOrder hp hgood.spares hok
  | connect rhwaddr ripaddr rport clock =>
      obtain ⟨ret, r, hrun, hrest⟩ := Program.bind_eq_ok.mp hok
      cases hrest
      exact connect_inOrder hn hp hgood hrun
  | abort id =>
      obtain ⟨ret, r, hrun, hrest⟩ := Program.bind_eq_ok.mp hok
      cases hrest
      exact abort_inOrder hp hgood.spares hrun
  | close id =>
      obtain ⟨ret, r, hrun, hrest⟩ := Program.bind_eq_ok.mp hok
      cases hrest
      exact hgood.wanes hp (close_wanes hrun)
  | send id len data off =>
      obtain ⟨ret, r, hrun, hrest⟩ := Program.bind_eq_ok.mp hok
      cases hrest
      exact hgood.wanes hp (send_wanes hrun)
  | process inc =>
      obtain ⟨ret, r, hrun, hrest⟩ := Program.bind_eq_ok.mp hok
      cases hrest
      exact process_inOrder hn hp hgood hrun
  | run expired =>
      obtain ⟨ret, r, hrun, hrest⟩ := Program.bind_eq_ok.mp hok
      cases hrest
      exact hgood.wanes hp (run_wanes hrun)

theorem initial_inOrder (dev : D) (hdl : H) : (initial n dev hdl).InOrder where
  numbered := fun _ => rfl
  apart := fun _ _ _ hi => absurd rfl hi.1
  filters := by
    intro port
    constructor
    · intro h
      cases h
    · rintro (h | ⟨i, hi, -⟩)
      · cases h
      · exact absurd rfl hi.1

end Running

/-- In every run of orderly operations, the device filters for the ports listened
on and those of the open clients. -/
theorem filters_match
    (hp : ReachableBy env (fun p op => ∀ q, exec env op p = .ok () q → Orderly p op q) p) :
    p.FiltersMatch := by
  have horder : p.InOrder := by
    have hn := hp.reachable.1
    induction hp with
    | initial _ dev hdl => exact initial_inOrder dev hdl
    | exec _ hgood hop ih => exact inOrder_step hn (ih) (hgood _ hop) hop
  exact horder.filters


open Testbed in
/-- A client on a port that reads the same in both orders is reset, and its filter
is gone. -/
theorem filters_match_reset : ∃ p : Processor Script Answers 1,
    (p.conns 0).state = .closed ∧ clientOpened 0 p.w.log = true ∧ p.FiltersMatch := by
  have hrun : LeadsBy (fun p op => ∀ q, exec env op p = .ok () q → Orderly p op q)
      (fun p => (p.conns 0).state = .closed ∧ clientOpened 0 p.w.log = true)
      [connectFrom 4112, segment 4112 (tcpSyn ||| tcpAck) 7 2 [], segment 4112 tcpRst 8 2 []]
      (start 1 .empty []) := by decide +kernel
  obtain ⟨p, hp, hclosed, hclient⟩ := hrun.reaches (.initial (by decide) _ _)
  exact ⟨p, hclosed, hclient, filters_match hp⟩

/-! ## The map of the OFED device -/

theorem filters_nodup (log : List Event) : (filters log).Nodup := by
  induction log with
  | nil => exact List.nodup_nil
  | cons ev log ih =>
      cases ev with
      | listen port ret =>
          by_cases hret : ret = .ok
          · rw [hret, filters_listen]
            exact ih.insert
          · rw [filters_refused hret]
            exact ih
      | unlisten port => exact ih.filter _
      | _ => exact ih

theorem ofed_prepare_filters (nbuf : UInt16) (d : Ofed) :
    (Ofed.prepare nbuf d).2.filters = d.filters := by
  unfold Ofed.prepare
  split
  · rfl
  · dsimp only
    split <;> rfl

theorem ofed_commit_filters (d : Ofed) (buf : Nat) (frame : List UInt8) (mss : UInt16) :
    (Ofed.commit d buf frame mss).2.filters = d.filters := by
  unfold Ofed.commit
  dsimp only
  split <;> rfl

/-- The map of the device is what its history says. -/
theorem ofed_filters {nbuf : UInt16} {mtu buflen : UInt32} {first d : Ofed} {log : List Event}
    (hfirst : first.filters = []) (h : Replays (Ofed.device nbuf mtu buflen) first d log) :
    d.filters = filters log := by
  induction h with
  | start => exact hfirst
  | prepared _ _ ih =>
      rw [filters_cons rfl, ← ih]
      exact ofed_prepare_filters nbuf _
  | refused _ _ ih =>
      rw [filters_cons rfl, ← ih]
      exact ofed_prepare_filters nbuf _
  | committed _ ih =>
      rw [filters_cons rfl, ← ih]
      exact ofed_commit_filters _ _ [] 0
  | @listened d log port _ ih =>
      show (Ofed.listen d port).2.filters = filters (.listen port (Ofed.listen d port).1 :: log)
      unfold Ofed.listen
      split
      · rw [filters_listen, ← ih]
      · rw [filters_refused (show Status.hardwareError ≠ .ok by decide), ← ih]
  | @unlistened d log port _ ih =>
      show d.filters.erase port = (filters log).filter (· ≠ port)
      rw [ih, (filters_nodup log).erase_eq_filter]
      apply List.filter_congr
      intro port' _
      by_cases heq : port' = port <;> simp [heq]
  | @noted d log ev _ hev ih =>
      rw [ih, filters_cons]
      cases ev with
      | listen | unlisten => cases hev
      | _ => rfl

open Testbed in
/-- A client connects from port 5000, and its peer resets the connection. -/
theorem ofed_reset : Program.Passes
    (execAll (net (Ofed.device 16 1500 1514)).toEnv
      [connectFrom 5000, segment 5000 (tcpSyn ||| tcpAck) 7 2 [], segment 5000 tcpRst 8 2 []])
    (initial 1 (Ofed.initial 16 [] [] [] []) []) fun _ p =>
      (p.conns 0).state = .closed ∧ p.listenports = [] ∧ 5000 ∈ p.w.dev.filters := by
  decide +kernel

open Testbed in
/-- A client's filter outlives the connection the peer has reset. -/
theorem filters_not_match : ¬ ∀ (ops : List Op) (p : Processor Ofed Answers 1),
    execAll (net (Ofed.device 16 1500 1514)).toEnv ops
      (initial 1 (Ofed.initial 16 [] [] [] []) []) = .ok () p →
    ∀ port, port ∈ p.w.dev.filters ↔
      htons port ∈ p.listenports ∨ ∃ i, p.Client i ∧ (p.conns i).lport = htons port := by
  obtain ⟨_, p, hok, hclosed, hlisten, hmem⟩ := ofed_reset.exists
  intro hall
  rcases (hall _ p hok 5000).mp hmem with h | ⟨i, hi, -⟩
  · rw [hlisten] at h
    cases h
  · rw [Subsingleton.elim i 0] at hi
    exact hi.1 hclosed

end Tulips.Tcpv4.Processor
