import Tulips.Machine.Keeping

/-!
# Endings and openings

What the device is told about its ports. A connection that ends has the device
let go of the port it is on; only `connect` registers the port of a connection.
-/

namespace Tulips.Tcpv4

open Program

variable {D H : Type}

/-! ## One connection -/

/-- No connection has been opened in between. -/
def Continues (w w' : World D H) : Prop :=
  ∃ new, w'.log = new ++ w.log ∧ ∀ ev ∈ new, ∀ id, ev.creates id = false

theorem Continues.refl (w : World D H) : Continues w w := ⟨[], rfl, by simp⟩

theorem Continues.trans {w₁ w₂ w₃ : World D H} (h : Continues w₁ w₂) (h' : Continues w₂ w₃) :
    Continues w₁ w₃ := by
  obtain ⟨new, hlog, hnew⟩ := h
  obtain ⟨new', hlog', hnew'⟩ := h'
  refine ⟨new' ++ new, by rw [hlog', hlog, List.append_assoc], fun ev hev => ?_⟩
  rcases List.mem_append.mp hev with h | h
  · exact hnew' ev h
  · exact hnew ev h

theorem Continues.logged {w w' : World D H} (ev : Event) (hev : ∀ id, ev.creates id = false)
    (hlog : w'.log = ev :: w.log) : Continues w w' :=
  ⟨[ev], hlog, by simpa using hev⟩

theorem Continues.clientOpened_eq {w w' : World D H} (h : Continues w w') (id : UInt16) :
    clientOpened id w'.log = clientOpened id w.log := by
  obtain ⟨new, hlog, hnew⟩ := h
  rw [hlog, clientOpened_append fun ev hev => hnew ev hev id]

theorem Quietly.continues {w w' : World D H} (h : Quietly w w') : Continues w w' := by
  obtain ⟨new, hlog, hnew⟩ := h
  exact ⟨new, hlog, fun ev hev => Event.isQuiet.creates (hnew ev hev)⟩

/-- The same connection, some time later. -/
structure Ctx.Alike (s t : Ctx D H) : Prop where
  id : t.e.id = s.e.id
  lport : t.e.lport = s.e.lport
  continues : Continues s.w t.w

/-- The connection goes on, and so do the filters. -/
structure Ctx.Stays (s t : Ctx D H) : Prop extends Alike s t where
  alive : t.e.state ≠ .closed
  filters : filters t.w.log = filters s.w.log

/-- The connection is over, and what it takes for its port is no longer among the
filters. -/
structure Ctx.Left (s t : Ctx D H) : Prop extends Alike s t where
  closed : t.e.state = .closed
  filters : ∀ port, port ∈ filters t.w.log ↔ port ∈ filters s.w.log ∧ port ≠ s.e.lport

def Ctx.Ends (s t : Ctx D H) : Prop := s.Stays t ∨ s.Left t

theorem Ctx.Alike.refl (s : Ctx D H) : s.Alike s := ⟨rfl, rfl, .refl s.w⟩

theorem Ctx.alike_calm (s : Ctx D H) : Calm s.Alike where
  conn := fun heq ht => ⟨(congrArg Terms.id heq).trans ht.id,
    (congrArg Terms.lport heq).trans ht.lport, ht.continues⟩
  world := fun hw ht => ⟨ht.id, ht.lport, ht.continues.trans hw.continues⟩

theorem Ctx.stays_windowless (s : Ctx D H) : Windowless s.Stays where
  conn := fun heq ht => ⟨s.alike_calm.conn heq ht.toAlike,
    fun h => ht.alive ((congrArg Terms.state heq).symm.trans h), ht.filters⟩
  world := fun hw ht => ⟨s.alike_calm.world hw ht.toAlike, ht.alive,
    hw.filters_eq.trans ht.filters⟩
  move := fun hclosed _ ht => ⟨⟨ht.id, ht.lport, ht.continues⟩, hclosed, ht.filters⟩
  window := fun ht => ⟨⟨ht.id, ht.lport, ht.continues⟩, ht.alive, ht.filters⟩

theorem Ctx.left_calm (s : Ctx D H) : Calm s.Left where
  conn := fun heq ht => ⟨s.alike_calm.conn heq ht.toAlike,
    (congrArg Terms.state heq).trans ht.closed, ht.filters⟩
  world := by
    intro t w hw ht
    refine ⟨s.alike_calm.world hw ht.toAlike, ht.closed, fun port => ?_⟩
    rw [hw.filters_eq]
    exact ht.filters port

theorem mem_filters_unlisten {port lport : Port} {log : List Event} :
    port ∈ filters (.unlisten lport :: log) ↔ port ∈ filters log ∧ port ≠ lport := by
  simp [filters]

variable (env : Env D H)

theorem Ctx.Alike.closing {s t : Ctx D H} (h : s.Alike t) : s.Alike (t.closing env) where
  id := h.id
  lport := h.lport
  continues := h.continues.trans (.logged (.unlisten t.e.lport) (fun _ => rfl) rfl)

theorem Ctx.left_closing (s : Ctx D H) : s.Left (s.closing env) :=
  ⟨(Alike.refl s).closing env, rfl, fun _ => mem_filters_unlisten⟩

theorem Ctx.Left.closing {s t : Ctx D H} (h : s.Left t) : s.Left (t.closing env) := by
  refine ⟨h.toAlike.closing env, rfl, fun port => ?_⟩
  show port ∈ Tcpv4.filters (.unlisten t.e.lport :: t.w.log) ↔ _
  rw [mem_filters_unlisten, h.filters, h.lport]
  exact ⟨fun h => h.1, fun h => ⟨h, h.2⟩⟩

theorem Ctx.Stays.closing {s t : Ctx D H} (h : s.Stays t) : s.Left (t.closing env) := by
  refine ⟨h.toAlike.closing env, rfl, fun port => ?_⟩
  show port ∈ Tcpv4.filters (.unlisten t.e.lport :: t.w.log) ↔ _
  rw [mem_filters_unlisten, h.filters, h.lport]

theorem Ctx.left_closes (s : Ctx D H) : Closes env s.Left s.Left where
  calm := s.left_calm
  of_open := id
  alive := fun ht _ => ht
  closing := fun ht => ht.closing env

theorem Ctx.ends_closes (s : Ctx D H) : Closes env s.Stays s.Ends where
  calm :=
    { conn := fun heq ht => ht.imp (s.stays_windowless.conn heq) (s.left_calm.conn heq)
      world := fun hw ht => ht.imp (s.stays_windowless.world hw) (s.left_calm.world hw) }
  of_open := .inl
  alive := fun ht hopen => ht.resolve_right fun h => hopen h.closed
  closing := fun ht => .inr (ht.elim (fun h => h.closing env) fun h => h.closing env)

/-! ## A new connection -/

/-- The connection has just been opened on the given port. -/
structure Ctx.Fresh (lport : Port) (st : State) (s t : Ctx D H) : Prop where
  id : t.e.id = s.e.id
  lport : t.e.lport = lport
  state : t.e.state = st
  opened : ∃ iss buf leftover,
    Quietly { s.w with log := .create s.e.id iss buf leftover :: s.w.log } t.w

theorem Ctx.fresh_calm (lport : Port) (st : State) (s : Ctx D H) : Calm (Ctx.Fresh lport st s) where
  conn := fun heq ht => ⟨(congrArg Terms.id heq).trans ht.id,
    (congrArg Terms.lport heq).trans ht.lport, (congrArg Terms.state heq).trans ht.state, ht.opened⟩
  world := by
    intro t w hw ht
    obtain ⟨iss, buf, leftover, hopened⟩ := ht.opened
    exact ⟨ht.id, ht.lport, ht.state, iss, buf, leftover, hopened.trans hw⟩

variable {env} {s t : Ctx D H} {ret : Status}

theorem openSynSent_fresh {rhwaddr : Ethernet.Address} {ripaddr : Ipv4.Address}
    {lport rport : Port} {iss : UInt32} {outdata : Ptr}
    (hok : openSynSent env rhwaddr ripaddr lport rport iss outdata s = .ok ret t) :
    Ctx.Fresh (htons lport) .synSent s t := by
  unfold openSynSent at hok
  rw [bind_gets] at hok
  obtain ⟨_, s₁, hcreate, hok⟩ := bind_eq_ok.mp hok
  obtain ⟨_, s₂, hmodify, hok⟩ := bind_eq_ok.mp hok
  cases hcreate
  cases hmodify
  have hcalm := Ctx.fresh_calm (htons lport) .synSent s
  refine Keeps.ok (I := Ctx.Fresh (htons lport) .synSent s) ?_ hok
    ⟨rfl, rfl, rfl, _, _, _, .refl _⟩
  apply Keeps.bind (hcalm.keeps ((sends_bears env).pushSyn outdata))
  intro i
  apply Keeps.bind (hcalm.keeps ((sends_bears env).setFlags _ _ _))
  intro _
  exact hcalm.keeps ((sends_bears env).sendSyn i)

theorem openSynRcvd_fresh {inc : Incoming} {iss : UInt32} {outdata : Ptr}
    (hok : openSynRcvd env inc iss outdata s = .ok ret t) :
    Ctx.Fresh inc.hdr.destport .synRcvd s t := by
  unfold openSynRcvd at hok
  rw [bind_gets] at hok
  obtain ⟨_, s₁, hcreate, hok⟩ := bind_eq_ok.mp hok
  obtain ⟨_, s₂, hsynced, hok⟩ := bind_eq_ok.mp hok
  obtain ⟨_, s₃, hmodify, hok⟩ := bind_eq_ok.mp hok
  cases hcreate
  cases hsynced
  cases hmodify
  have hcalm := Ctx.fresh_calm inc.hdr.destport .synRcvd s
  refine Keeps.ok (I := Ctx.Fresh inc.hdr.destport .synRcvd s) ?_ hok
    ⟨rfl, rfl, rfl, _, _, _, .logged (.synced s.e.id inc.seqno) rfl rfl⟩
  apply Keeps.bind (hcalm.keeps ((sends_bears env).pushSyn outdata))
  intro i
  apply Keeps.bind
  · apply Keeps.update
    intro u hu
    have hterms := u.e.terms_parseOptions inc
    exact ⟨(congrArg Terms.id hterms).trans hu.id, (congrArg Terms.lport hterms).trans hu.lport,
      (congrArg Terms.state hterms).trans hu.state, hu.opened⟩
  · intro _
    exact hcalm.keeps ((sends_bears env).sendSynAck i)

/-! ## The table -/

namespace Processor

variable {n : Nat} {env : Env D H} {p q r : Processor D H n} {i : Fin n}

/-- Nothing has been opened, and what has ended has had the device let go of what
it takes for its port. -/
structure Wanes (p q : Processor D H n) : Prop where
  listenports : q.listenports = p.listenports
  id : ∀ i, (q.conns i).id = (p.conns i).id
  lport : ∀ i, (q.conns i).lport = (p.conns i).lport
  closed : ∀ i, (p.conns i).state = .closed → (q.conns i).state = .closed
  continues : Continues p.w q.w
  filters : ∀ port, port ∈ filters q.w.log ↔ port ∈ filters p.w.log ∧
    ∀ i, (p.conns i).state ≠ .closed → (q.conns i).state = .closed → port ≠ (p.conns i).lport

/-- Nothing has happened to the connections and the filters. -/
theorem Wanes.idle (hconns : q.conns = p.conns) (hlisten : q.listenports = p.listenports)
    (hcont : Continues p.w q.w) (hfilters : Tcpv4.filters q.w.log = Tcpv4.filters p.w.log) :
    Wanes p q where
  listenports := hlisten
  id := fun i => by rw [hconns]
  lport := fun i => by rw [hconns]
  closed := fun i h => by rw [hconns]; exact h
  continues := hcont
  filters := by
    intro port
    rw [hfilters, hconns]
    exact ⟨fun h => ⟨h, fun i hopen hclosed => absurd hclosed hopen⟩, fun h => h.1⟩

theorem Wanes.refl (p : Processor D H n) : Wanes p p := .idle rfl rfl (.refl _) rfl

theorem Wanes.quietly (hconns : q.conns = p.conns) (hlisten : q.listenports = p.listenports)
    (hquiet : Quietly p.w q.w) : Wanes p q :=
  .idle hconns hlisten hquiet.continues hquiet.filters_eq

theorem Wanes.trans (h : Wanes p q) (h' : Wanes q r) : Wanes p r where
  listenports := h'.listenports.trans h.listenports
  id := fun i => (h'.id i).trans (h.id i)
  lport := fun i => (h'.lport i).trans (h.lport i)
  closed := fun i hp => h'.closed i (h.closed i hp)
  continues := h.continues.trans h'.continues
  filters := by
    intro port
    rw [h'.filters, h.filters]
    constructor
    · rintro ⟨⟨hport, hfirst⟩, hlater⟩
      refine ⟨hport, fun i hopen hclosed => ?_⟩
      by_cases hq : (q.conns i).state = .closed
      · exact hfirst i hopen hq
      · rw [← h.lport i]
        exact hlater i hq hclosed
    · rintro ⟨hport, hboth⟩
      refine ⟨⟨hport, fun i hopen hq => hboth i hopen (h'.closed i hq)⟩, fun i hq hclosed => ?_⟩
      rw [h.lport i]
      exact hboth i (fun hp => hq (h.closed i hp)) hclosed

/-- What has become of the connection of one slot. -/
theorem Wanes.set {t : Ctx D H} (halike : (p.ctx i).Alike t)
    (hclosed : (p.conns i).state = .closed → t.e.state = .closed)
    (hfilters : ∀ port, port ∈ Tcpv4.filters t.w.log ↔ port ∈ Tcpv4.filters p.w.log ∧
      ((p.conns i).state ≠ .closed → t.e.state = .closed → port ≠ (p.conns i).lport)) :
    Wanes p (setCtx i p t) := by
  have hother : ∀ {j}, j ≠ i → (setCtx i p t).conns j = p.conns j :=
    fun hj => setCtx_conns_of_ne p t hj
  have hself : (setCtx i p t).conns i = t.e := setCtx_conns_self p i t
  refine ⟨rfl, fun j => ?_, fun j => ?_, fun j hj => ?_, halike.continues, fun port => ?_⟩
  · by_cases hji : j = i
    · subst hji
      rw [hself]
      exact halike.id
    · rw [hother hji]
  · by_cases hji : j = i
    · subst hji
      rw [hself]
      exact halike.lport
    · rw [hother hji]
  · by_cases hji : j = i
    · subst hji
      rw [hself]
      exact hclosed hj
    · rw [hother hji]
      exact hj
  · refine (hfilters port).trans (and_congr_right fun _ => ?_)
    constructor
    · intro hne j hopen hends
      by_cases hji : j = i
      · subst hji
        exact hne hopen (hself ▸ hends)
      · rw [hother hji] at hends
        exact absurd hends hopen
    · intro hall hopen hends
      exact hall i hopen (hself.symm ▸ hends)

/-- The connection of a slot goes on or ends. -/
theorem Wanes.of_ends {t : Ctx D H} (hopen : (p.conns i).state ≠ .closed)
    (h : (p.ctx i).Ends t) : Wanes p (setCtx i p t) := by
  rcases h with hstays | hleft
  · refine .set hstays.toAlike (fun hclosed => absurd hclosed hopen) fun port => ?_
    rw [hstays.filters]
    exact ⟨fun h => ⟨h, fun _ hclosed => absurd hclosed hstays.alive⟩, fun h => h.1⟩
  · refine .set hleft.toAlike (fun _ => hleft.closed) fun port => ?_
    rw [hleft.filters]
    exact and_congr_right fun _ => ⟨fun h _ _ => h, fun h => h hopen hleft.closed⟩

/-- A connection that was closed has the device let go of nothing the filters
have. -/
theorem Wanes.of_closed {t : Ctx D H} (hclosed : (p.conns i).state = .closed)
    (h : (p.ctx i).Left t) (hnot : (p.conns i).lport ∉ Tcpv4.filters p.w.log) :
    Wanes p (setCtx i p t) := by
  refine .set h.toAlike (fun _ => h.closed) fun port => ?_
  rw [h.filters]
  refine and_congr_right fun hport => ⟨fun _ hopen => absurd hclosed hopen, fun _ heq => ?_⟩
  exact hnot (heq ▸ hport)

theorem onConn_wanes {α : Type} {m : ConnProgram D H α} {a : α}
    (hclosed : (p.conns i).state = .closed → ∀ t, m (p.ctx i) = .ok a t → t = p.ctx i)
    (hm : ∀ t, (p.conns i).state ≠ .closed → m (p.ctx i) = .ok a t → (p.ctx i).Ends t)
    (hok : onConn i m p = .ok a q) : Wanes p q := by
  obtain ⟨t, hrun, rfl⟩ := zoom_eq_ok.mp hok
  by_cases hstate : (p.conns i).state = .closed
  · rw [hclosed hstate t hrun]
    exact .quietly (Function.update_eq_self i p.conns) rfl (.refl _)
  · exact .of_ends hstate (hm t hstate hrun)

/-- A connection of a slot has been opened. -/
structure Starts (p q : Processor D H n) (i : Fin n) (lport : Port) (st : State)
    (client : Bool) : Prop where
  listenports : q.listenports = p.listenports
  other : ∀ j, j ≠ i → q.conns j = p.conns j
  id : (q.conns i).id = (p.conns i).id
  lport : (q.conns i).lport = lport
  state : (q.conns i).state = st
  opened : clientOpened (p.conns i).id q.w.log = client
  same : ∀ id, id ≠ (p.conns i).id → clientOpened id q.w.log = clientOpened id p.w.log
  created : ∃ ev ∈ since p q, ev.creates (p.conns i).id = true

/-! ## Operations -/

theorem tick_wanes {again : Option Status} (hok : onConn i (tick env) p = .ok again q) :
    Wanes p q := by
  refine onConn_wanes ?_ ?_ hok
  · intro hclosed t hrun
    unfold tick at hrun
    rw [bind_gets, if_pos (show (p.ctx i).e.state = .closed from hclosed)] at hrun
    cases hrun
    rfl
  · intro t hopen hrun
    have hends := (Ctx.ends_closes env (p.ctx i)).tick (Ctx.stays_windowless _).toSteady (p.ctx i)
      ⟨.refl _, hopen, rfl⟩
    rwa [hrun] at hends

theorem tickFrom_wanes {l : List (Fin n)} {ret : Status} (hok : tickFrom env l p = .ok ret q) :
    Wanes p q := by
  induction l generalizing p with
  | nil =>
      cases hok
      exact .refl _
  | cons i l ih =>
      obtain ⟨again, r, htick, hrest⟩ := bind_eq_ok.mp hok
      cases again with
      | none => exact (tick_wanes htick).trans (ih hrest)
      | some ret =>
          cases hrest
          exact tick_wanes htick

theorem run_wanes {expired : Bool} {ret : Status} (hok : run env expired p = .ok ret q) :
    Wanes p q := by
  unfold run at hok
  cases expired with
  | false =>
      cases hok
      exact .refl p
  | true =>
      have hfirst : Wanes p { p with iss := p.iss + 1 } := .quietly rfl rfl (.refl _)
      exact hfirst.trans (tickFrom_wanes hok)

theorem close_wanes {id : UInt16} {ret : Status} (hok : close env id p = .ok ret q) :
    Wanes p q := by
  unfold close onId at hok
  cases hslot : slot? n id with
  | none =>
      rw [hslot] at hok
      cases hok
      exact .refl p
  | some i =>
      rw [hslot] at hok
      refine onConn_wanes ?_ ?_ hok
      · intro hclosed t hrun
        have hne : (p.ctx i).e.state ≠ .established := by
          rw [show (p.ctx i).e.state = .closed from hclosed]
          decide
        unfold Tcpv4.close at hrun
        rw [bind_gets, if_pos hne] at hrun
        cases hrun
        rfl
      · intro t hopen hrun
        exact .inl (((Ctx.stays_windowless _).close env).ok hrun ⟨.refl _, hopen, rfl⟩)

theorem send_wanes {id : UInt16} {len : UInt32} {data : Option Bytes} {off : UInt32}
    {ret : Status × UInt32} (hok : send env id len data off p = .ok ret q) : Wanes p q := by
  unfold send at hok
  cases hslot : slot? n id with
  | none =>
      rw [hslot] at hok
      cases hok
      exact .refl p
  | some i =>
      rw [hslot] at hok
      refine onConn_wanes ?_ ?_ hok
      · intro hclosed t hrun
        have hne : (p.ctx i).e.state ≠ .established := by
          rw [show (p.ctx i).e.state = .closed from hclosed]
          decide
        unfold Tcpv4.send at hrun
        rw [bind_gets, if_pos hne] at hrun
        cases hrun
        rfl
      · intro t hopen hrun
        have hstays := (Ctx.stays_windowless (p.ctx i)).keeps (send_sends env len data off)
        exact .inl (hstays.ok hrun ⟨.refl _, hopen, rfl⟩)

/-- An aborted connection is over, also if it already was. -/
theorem abort_left {id : UInt16} {ret : Status} (hok : abort env id p = .ok ret q) :
    q = p ∨ ∃ i t, slot? n id = some i ∧ (p.ctx i).Left t ∧ q = setCtx i p t := by
  unfold abort onId at hok
  cases hslot : slot? n id with
  | none =>
      rw [hslot] at hok
      cases hok
      exact .inl rfl
  | some i =>
      rw [hslot] at hok
      obtain ⟨t, hrun, rfl⟩ := zoom_eq_ok.mp hok
      have hleft := (Ctx.left_closes env (p.ctx i)).abort_at (Ctx.left_closing env (p.ctx i))
      rw [hrun] at hleft
      exact .inr ⟨i, t, rfl, hleft, rfl⟩

/-- A segment for an open connection. -/
theorem segment_wanes {inc : Incoming} {ret : Status} (hopen : (p.conns i).state ≠ .closed)
    (hok : onConn i (processSegment env inc) p = .ok ret q) : Wanes p q := by
  refine onConn_wanes (fun hclosed => absurd hclosed hopen) ?_ hok
  intro t _ hrun
  have hW := Ctx.stays_windowless (p.ctx i)
  have hC := Ctx.ends_closes env (p.ctx i)
  have hends := hC.processSegment inc hW ?_ (p.ctx i) ⟨.refl _, hopen, rfl⟩
  · rwa [hrun] at hends
  · intro s hs _
    refine hC.processSynSent inc hW.toSteady ?_ s hs
    intro u e hu heq
    refine ⟨⟨?_, ?_, hu.continues⟩, ?_, hu.filters⟩
    · exact (congrArg Terms.id heq).trans hu.id
    · exact (congrArg Terms.lport heq).trans hu.lport
    · intro h
      exact hu.alive ((congrArg Terms.state heq).symm.trans h)

/-! ## Openings -/

theorem Starts.of_opened {w : World D H} {e : Connection} {iss : UInt32} {buf : Nat}
    {leftover : Bool} (hw : Continues p.w w) (hid : e.id = (p.conns i).id)
    (hopened : Continues
      { w with log := .create (p.conns i).id iss buf leftover :: w.log } q.w)
    (hconns : q.conns = Function.update p.conns i e) (hlisten : q.listenports = p.listenports) :
    Starts p q i e.lport e.state (w.log.head?.any Event.registers) where
  listenports := hlisten
  other := fun j hj => by rw [hconns, Function.update_of_ne hj]
  id := by rw [hconns, Function.update_self, hid]
  lport := by rw [hconns, Function.update_self]
  state := by rw [hconns, Function.update_self]
  opened := by rw [hopened.clientOpened_eq, clientOpened_create]
  same := by
    intro id hne
    rw [hopened.clientOpened_eq, clientOpened_cons _ w.log, hw.clientOpened_eq]
    simpa [Event.creates] using hne.symm
  created := by
    obtain ⟨new, hlog, -⟩ := hopened
    obtain ⟨new', hlog', -⟩ := hw
    have hsince : since p q = new ++ .create (p.conns i).id iss buf leftover :: new' := by
      apply since_eq
      rw [hlog, hlog', List.append_assoc, List.cons_append]
    refine ⟨.create (p.conns i).id iss buf leftover, ?_, by simp [Event.creates]⟩
    rw [hsince]
    exact List.mem_append_right _ List.mem_cons_self

theorem prepareTo_mute (env : Env D H) (rhwaddr : Ethernet.Address) (ripaddr : Ipv4.Address) :
    Mute (prepareTo env rhwaddr ripaddr) := by
  apply plainly_walk.bind (setProtocol_mute _)
  intro _
  apply plainly_walk.bind (Ipv4Producer.setDestination_mute _)
  intro _
  apply plainly_walk.bind (EthernetProducer.setDestination_mute _)
  intro _
  exact prepare_mute env _

theorem reset_mute (inc : Incoming) : Mute (reset env inc) := by
  apply plainly_walk.bind (prepareTo_mute env _ _)
  intro answer
  cases answer with
  | error ret => exact plainly_walk.pure _
  | ok outdata =>
      dsimp only
      split
      · exact plainly_walk.pure _
      · exact plainly_walk.bind (modifyHeader_mute _ _ _) fun _ => sendFrame_mute env _ _ _ _ _

theorem world_wanes {α : Type} {m : WorldProgram D H α} {a : α} (hm : Mute m)
    (hok : world m p = .ok a q) : Wanes p q := by
  obtain ⟨w, hrun, rfl⟩ := zoom_eq_ok.mp hok
  have hquiet := hm.quietly p.w
  rw [hrun] at hquiet
  exact .quietly rfl rfl hquiet

/-- A SYN the processor answers opens a connection that is no client's. -/
theorem acceptSyn_cases {inc : Incoming} {ret : Status} (hok : acceptSyn env inc p = .ok ret q) :
    Wanes p q ∨ ∃ i, p.vacant = some i ∧ Starts p q i inc.hdr.destport .synRcvd false ∧
      Tcpv4.filters q.w.log = Tcpv4.filters p.w.log := by
  unfold acceptSyn at hok
  rw [bind_gets_id] at hok
  cases hvacant : p.vacant with
  | none =>
      rw [hvacant] at hok
      cases hok
      exact .inl (.refl p)
  | some i =>
      rw [hvacant] at hok
      obtain ⟨out, r, hprep, hrest⟩ := bind_eq_ok.mp hok
      obtain ⟨w, hrun, rfl⟩ := zoom_eq_ok.mp hprep
      have hquiet := (prepareTo_mute env inc.ethSrc inc.ipSrc).quietly p.w
      rw [hrun] at hquiet
      cases out with
      | error ret =>
          cases hrest
          exact .inl (.quietly rfl rfl hquiet)
      | ok outdata =>
          right
          obtain ⟨t, hopen, rfl⟩ := zoom_eq_ok.mp hrest
          have hfresh := openSynRcvd_fresh hopen
          obtain ⟨iss, buf, leftover, hopened⟩ := hfresh.opened
          refine ⟨i, rfl, ?_, ?_⟩
          · have hhead : w.log.head?.any Event.registers = false := by
              obtain ⟨w', -, ⟨ret', hrun', -, hlog⟩ | ⟨buf', writes, hrun', -, hwrites, hlog⟩⟩ :=
                prepareTo_cases env inc.ethSrc inc.ipSrc p.w
              · rw [hrun] at hrun'
                cases hrun'
              · rw [hrun] at hrun'
                cases hrun'
                rw [hlog]
                cases writes with
                | nil => rfl
                | cons ev writes =>
                    rw [hwrites ev List.mem_cons_self]
                    rfl
            rw [← hhead, ← hfresh.lport, ← hfresh.state]
            exact .of_opened hquiet.continues hfresh.id hopened.continues rfl rfl
          · show Tcpv4.filters t.w.log = _
            rw [hopened.filters_eq]
            exact hquiet.filters_eq

theorem process_cases {inc : Incoming} {ret : Status} (hok : process env inc p = .ok ret q) :
    Wanes p q ∨ ∃ i, p.vacant = some i ∧ Starts p q i inc.hdr.destport .synRcvd false ∧
      Tcpv4.filters q.w.log = Tcpv4.filters p.w.log := by
  unfold process at hok
  rw [bind_gets_id] at hok
  split at hok
  · cases hok
    exact .inl (.refl p)
  · cases hdemux : p.demux inc with
    | some i =>
        rw [hdemux] at hok
        exact .inl (segment_wanes (demux_spec hdemux) hok)
    | none =>
        rw [hdemux] at hok
        dsimp only at hok
        split_ifs at hok with hsyn hlisten
        · exact .inl (world_wanes (reset_mute inc) hok)
        · exact acceptSyn_cases hok
        · exact .inl (world_wanes (reset_mute inc) hok)

/-- A call of `connect` opens a connection on a port it registers, or lets go of
the port again. -/
theorem connect_cases {rhwaddr : Ethernet.Address} {ripaddr : Ipv4.Address} {rport : Port}
    {clock : List UInt64} {ret : Status × Option (Fin n)}
    (hok : connect env rhwaddr ripaddr rport clock p = .ok ret q) :
    Wanes p q ∨ ∃ i lport, p.vacant = some i ∧ p.localPort clock = some lport ∧
      ((Starts p q i (htons lport) .synSent true ∧
          Tcpv4.filters q.w.log = (Tcpv4.filters p.w.log).insert lport) ∨
        Starts p q i (htons lport) .closed true ∧ ∀ port, port ∈ Tcpv4.filters q.w.log ↔
          port ∈ Tcpv4.filters p.w.log ∧ port ≠ lport) := by
  unfold connect at hok
  obtain ⟨out, r, hprep, hok⟩ := bind_eq_ok.mp hok
  obtain ⟨w, hrun, rfl⟩ := zoom_eq_ok.mp hprep
  have hquiet := (prepareTo_mute env rhwaddr ripaddr).quietly p.w
  rw [hrun] at hquiet
  cases out with
  | error ret =>
      cases hok
      exact .inl (.quietly rfl rfl hquiet)
  | ok outdata =>
      change ((Program.gets id >>= _) : ProcProgram D H n _) _ = _ at hok
      rw [bind_gets_id] at hok
      cases hport : p.localPort clock with
      | none =>
          rw [show ({ p with w := w } : Processor D H n).localPort clock = none from hport] at hok
          cases hok
      | some lport =>
          rw [show ({ p with w := w } : Processor D H n).localPort clock = some lport from hport]
            at hok
          cases hvacant : p.vacant with
          | none =>
              rw [show ({ p with w := w } : Processor D H n).vacant = none from hvacant] at hok
              cases hok
              exact .inl (.quietly rfl rfl hquiet)
          | some i =>
              rw [show ({ p with w := w } : Processor D H n).vacant = some i from hvacant] at hok
              obtain ⟨answer, r, hlisten, hok⟩ := bind_eq_ok.mp hok
              cases hlisten
              let ev : Event := .listen lport (env.device.listen w.dev lport).1
              have hcont : Continues p.w { w with
                  dev := (env.device.listen w.dev lport).2, log := ev :: w.log } :=
                hquiet.continues.trans (.logged ev (fun _ => rfl) rfl)
              -- The device may refuse the port.
              split at hok
              · next hret =>
                  cases hok
                  refine .inl (.idle rfl rfl hcont ?_)
                  exact (filters_refused hret _).trans hquiet.filters_eq
              · next hret =>
                  right
                  obtain ⟨syn, r, hopen, hok⟩ := bind_eq_ok.mp hok
                  obtain ⟨t, hrun', rfl⟩ := zoom_eq_ok.mp hopen
                  have hfresh := openSynSent_fresh hrun'
                  obtain ⟨iss, buf, leftover, hopened⟩ := hfresh.opened
                  have hok' : (env.device.listen w.dev lport).1 = .ok := not_not.mp hret
                  -- The registration of the port is the last event before the opening.
                  have hhead : (ev :: w.log).head?.any Event.registers = true := by
                    simp [ev, Event.registers, hok']
                  have hfilters : Tcpv4.filters t.w.log = (Tcpv4.filters p.w.log).insert lport := by
                    rw [hopened.filters_eq, ← hquiet.filters_eq, ← filters_listen, ← hok']
                    exact filters_cons rfl _
                  refine ⟨i, lport, rfl, rfl, ?_⟩
                  split at hok
                  -- The SYN fails: the connection is closed, and its port given up.
                  · right
                    cases hok
                    refine ⟨?_, fun port => ?_⟩
                    · rw [← hhead, ← hfresh.lport]
                      refine .of_opened (e := { t.e with state := .closed }) hcont hfresh.id
                        (hopened.continues.trans
                          (.logged (.unlisten lport) (fun _ => rfl) rfl)) ?_ rfl
                      simp [setCtx, ctx]
                    · show port ∈ Tcpv4.filters (.unlisten lport :: t.w.log) ↔ _
                      rw [mem_filters_unlisten, hfilters, List.mem_insert_iff]
                      exact ⟨fun h => ⟨h.1.resolve_left h.2, h.2⟩, fun h => ⟨.inr h.1, h.2⟩⟩
                  · left
                    cases hok
                    refine ⟨?_, hfilters⟩
                    rw [← hhead, ← hfresh.lport, ← hfresh.state]
                    exact .of_opened hcont hfresh.id hopened.continues rfl rfl

end Processor

end Tulips.Tcpv4
