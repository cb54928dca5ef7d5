import Tulips.Machine.Filters
import Tulips.Machine.Testbed

/-!
# The contract of `connect`

A call of `connect` either has handed a SYN to the device, for the slot it
designates, or it reports an error and has changed neither the connections nor
the ports the device listens on.
-/

namespace Tulips.Tcpv4.Processor

variable {D H : Type} {n : Nat}

/-- The slot is opened by the client, and its SYN has been handed to the device. -/
def SynHanded (env : Env D H) (p q : Processor D H n) (i : Fin n) : Prop :=
  (q.conns i).state = .synSent ∧ ∃ buf frame,
    commits q.w.log =
      .commit (some (p.conns i).id) buf frame env.initialMss .ok :: commits p.w.log ∧
    (Frame.header frame).flags = tcpSyn

/-- What a call of `connect` promises. -/
structure ConnectContract (env : Env D H) (p q : Processor D H n) (ret : Status)
    (id : Option (Fin n)) : Prop where
  opened : ret = .ok ↔ ∃ i, id = some i ∧ SynHanded env p q i
  failed : ret ≠ .ok → q.conns = p.conns ∧
    ∀ port, port ∈ filters q.w.log ↔ port ∈ filters p.w.log

/-- The call gets as far as opening a connection: there is a buffer, a slot, and
the device listens on the port. -/
structure Proceeds (env : Env D H) (p : Processor D H n) (clock : List UInt64) (i : Fin n)
    (lport : Port) : Prop where
  prepared : ∃ given, (env.device.prepare p.w.dev).1 = .ok given
  port : p.localPort clock = some lport
  vacant : p.vacant = some i
  listened : (env.device.listen (env.device.prepare p.w.dev).2 lport).1 = .ok

/-- The device in front of which the SYN is sent. -/
def listened (env : Env D H) (p : Processor D H n) (lport : Port) : D :=
  (env.device.listen (env.device.prepare p.w.dev).2 lport).2

/-- The slot of the call has room for the SYN, and the device takes the frame the
call hands over. -/
structure Granted (env : Env D H) (p : Processor D H n) (clock : List UInt64)
    (r : EStateM.Result Fault (Processor D H n) (Status × Option (Fin n))) : Prop where
  room : ∀ i lport, Proceeds env p clock i lport → (p.conns i).hasAvailableSegments = true
  taken : ∀ i lport, Proceeds env p clock i lport → ∀ out q who buf frame ret, r = .ok out q →
    commits q.w.log = .commit who buf frame env.initialMss ret :: commits p.w.log →
    env.device.serve (listened env p lport) buf frame env.initialMss = .taken

section Course

variable {env : Env D H} {p : Processor D H n} {lport : Port} {clock : List UInt64} {i : Fin n}
  (rhwaddr : Ethernet.Address) (ripaddr : Ipv4.Address) (rport : Port)

/-! ## Calls that open nothing -/

/-- Nothing has been opened: the call fails and changes nothing. -/
structure Unopened (p q : Processor D H n) (ret : Status) : Prop where
  ret_ne : ret ≠ .ok
  conns : q.conns = p.conns
  filters : filters q.w.log = filters p.w.log
  commits : commits q.w.log = commits p.w.log

theorem Unopened.contract {q : Processor D H n} {ret : Status} (h : Unopened p q ret) :
    ConnectContract env p q ret none where
  opened := by
    constructor
    · intro hret
      exact absurd hret h.ret_ne
    · rintro ⟨_, hid, -⟩
      cases hid
  failed := fun _ => ⟨h.conns, fun port => by rw [h.filters]⟩

/-- With a buffer, the call looks for a port and a slot. -/
theorem connect_of_prepared {buf : Nat} {w : World D H}
    (hprep : prepareTo env rhwaddr ripaddr p.w = .ok (.ok ⟨buf, tcpOffset⟩) w)
    (hport : p.localPort clock = some lport) :
    connect env rhwaddr ripaddr rport clock p =
      (match p.vacant with
      | none => pure (.noMoreResources, none)
      | some i => do
          let ret ← world (deviceListen env lport)
          if ret ≠ .ok then pure (ret, none)
          else
            let syn ← onConn i (openSynSent env rhwaddr ripaddr lport rport p.iss ⟨buf, tcpOffset⟩)
            if syn ≠ .ok then
              world (deviceUnlisten env lport)
              onConn i (setState .closed)
              pure (ret, none)
            else pure (.ok, some i) : ProcProgram D H n (Status × Option (Fin n)))
        { p with w := w } := by
  let r : Processor D H n := { p with w := w }
  have hrport : r.localPort clock = some lport := hport
  have hrun : world (prepareTo env rhwaddr ripaddr) p = .ok (.ok ⟨buf, tcpOffset⟩) r :=
    Program.zoom_of_ok hprep
  unfold connect
  rw [Program.bind_of_ok hrun]
  change (Program.gets id >>= _ : ProcProgram D H n _) r = _
  rw [Program.bind_gets_id, hrport]
  rfl

theorem connect_unopened (hport : p.localPort clock = some lport)
    (hproceeds : ∀ i, ¬Proceeds env p clock i lport) :
    ∃ ret q, connect env rhwaddr ripaddr rport clock p = .ok (ret, none) q ∧
      Unopened p q ret := by
  rcases prepareTo_departs env rhwaddr ripaddr p.w with
    ⟨ret, w, -, hprep, hcommits, hfilters⟩ |
    ⟨buf, content, w, hgiven, hprep, hcommits, hfilters, hdev⟩
  · have hrun : world (n := n) (prepareTo env rhwaddr ripaddr) p =
        .ok (.error ret) { p with w := w } := Program.zoom_of_ok hprep
    refine ⟨ret.val, { p with w := w }, ?_, ret.property, rfl, hfilters, hcommits⟩
    unfold connect
    rw [Program.bind_of_ok hrun]
    rfl
  · rw [connect_of_prepared rhwaddr ripaddr rport hprep hport]
    cases hvacant : p.vacant with
    | none => exact ⟨.noMoreResources, _, rfl, by decide, rfl, hfilters, hcommits⟩
    | some i =>
        let answer := env.device.listen w.dev lport
        have hret : answer.1 ≠ .ok := by
          intro hok
          refine hproceeds i ⟨⟨_, hgiven⟩, hport, hvacant, ?_⟩
          rw [← hdev]
          exact hok
        let x : Processor D H n :=
          { p with w := { w with dev := answer.2, log := .listen lport answer.1 :: w.log } }
        have hlisten : world (deviceListen env lport) { p with w := w } = .ok answer.1 x := rfl
        refine ⟨answer.1, x, ?_, hret, rfl, ?_, ?_⟩
        · simp only
          rw [Program.bind_of_ok hlisten, if_pos hret]
          rfl
        · exact (filters_refused hret _).trans hfilters
        · exact (commits_cons rfl _).trans hcommits

/-! ## Calls that open a connection -/

/-- The call comes down to opening the connection. -/
theorem connect_of_proceeds (h : Proceeds env p clock i lport) :
    ∃ buf x, x.conns = p.conns ∧ x.w.dev = listened env p lport ∧
      commits x.w.log = commits p.w.log ∧
      connect env rhwaddr ripaddr rport clock p =
        (do
          let syn ← onConn i (openSynSent env rhwaddr ripaddr lport rport p.iss ⟨buf, tcpOffset⟩)
          if syn ≠ .ok then
            world (deviceUnlisten env lport)
            onConn i (setState .closed)
            pure (.ok, none)
          else pure (.ok, some i) : ProcProgram D H n (Status × Option (Fin n))) x := by
  obtain ⟨given, hgiven⟩ := h.prepared
  rcases prepareTo_departs env rhwaddr ripaddr p.w with
    ⟨ret, w, herr, -⟩ | ⟨buf, content, w, -, hprep, hcommits, -, hdev⟩
  · rw [hgiven] at herr
    cases herr
  · let answer := env.device.listen w.dev lport
    have hret : answer.1 = .ok := by
      have hlistened := h.listened
      rw [← hdev] at hlistened
      exact hlistened
    let x : Processor D H n :=
      { p with w := { w with dev := answer.2, log := .listen lport answer.1 :: w.log } }
    have hlisten : world (deviceListen env lport) { p with w := w } = .ok .ok x := by
      rw [← hret]
      rfl
    refine ⟨buf, x, rfl, ?_, (commits_cons rfl _).trans hcommits, ?_⟩
    · show (env.device.listen w.dev lport).2 = _
      rw [hdev]
      rfl
    · rw [connect_of_prepared rhwaddr ripaddr rport hprep h.port, h.vacant]
      simp only
      rw [Program.bind_of_ok hlisten, if_neg (not_not.mpr rfl)]

/-- A slot that still holds old segments in its whole ring cannot be opened. -/
theorem connect_full (h : Proceeds env p clock i lport)
    (hfull : (p.conns i).hasAvailableSegments = false) :
    ∃ q, connect env rhwaddr ripaddr rport clock p = .error .noSegment q := by
  obtain ⟨buf, x, hconns, -, -, hrun⟩ := connect_of_proceeds rhwaddr ripaddr rport h
  have hxfull : (x.ctx i).e.hasAvailableSegments = false := by
    rw [ctx, hconns]
    exact hfull
  obtain ⟨t, herr⟩ := openSynSent_full env rhwaddr ripaddr lport rport p.iss buf hxfull
  refine ⟨setCtx i x t, ?_⟩
  rw [hrun]
  exact Program.bind_of_error (Program.zoom_of_error herr)

/-- What the call has done when its SYN is out. -/
theorem connect_syn (h : Proceeds env p clock i lport)
    (havail : (p.conns i).hasAvailableSegments = true) :
    ∃ buf frame q,
      let served := env.device.serve (listened env p lport) buf frame env.initialMss
      connect env rhwaddr ripaddr rport clock p =
        .ok (.ok, if served.status = .ok then some i else none) q ∧
      commits q.w.log = .commit (some (p.conns i).id) buf frame env.initialMss
        (env.device.commit (listened env p lport) buf frame env.initialMss).1 ::
          commits p.w.log ∧
      (served = .taken → SynHanded env p q i) := by
  obtain ⟨buf, x, hconns, hdev, hcommits, hrun⟩ := connect_of_proceeds rhwaddr ripaddr rport h
  have hxe : (x.ctx i).e = p.conns i := congrFun hconns i
  obtain ⟨t, frame, hopen, hsent, hstate, hsyn⟩ := openSynSent_departs env
    (s := x.ctx i) rhwaddr ripaddr lport rport p.iss buf (by rw [hxe]; exact havail)
  rw [show (x.ctx i).w.dev = listened env p lport from hdev] at hopen hsent
  rw [hxe, show commits (x.ctx i).w.log = commits p.w.log from hcommits] at hsent
  have hconn : onConn i (openSynSent env rhwaddr ripaddr lport rport p.iss ⟨buf, tcpOffset⟩) x =
      .ok _ (setCtx i x t) := Program.zoom_of_ok hopen
  rw [Program.bind_of_ok hconn] at hrun
  by_cases htaken : env.device.serve (listened env p lport) buf frame env.initialMss = .taken
  · refine ⟨buf, frame, setCtx i x t, ?_, hsent, fun _ => ⟨?_, buf, frame, ?_, hsyn.flags⟩⟩
    · rw [hrun, htaken]
      rfl
    · simp only [setCtx, Function.update_self]
      exact hstate
    · rw [Device.commit_of_serve, htaken] at hsent
      exact hsent
  · have hfailed := mt Service.status_eq_ok.mp htaken
    rw [if_pos hfailed] at hrun
    let w : World D H := { t.w with
      dev := env.device.unlisten t.w.dev lport, log := .unlisten lport :: t.w.log }
    let y : Processor D H n := { setCtx i x t with w := w }
    refine ⟨buf, frame, setCtx i y { y.ctx i with e := { (y.ctx i).e with state := .closed } }, ?_,
      (commits_cons rfl _).trans hsent, fun h => absurd h htaken⟩
    rw [hrun, if_neg hfailed]
    rfl

end Course

/-! ## When the contract is kept -/

/-- Connecting keeps its contract exactly if the slot has room and the device
takes the SYN. -/
theorem connect_contract_iff (env : Env D H) (p : Processor D H n) (rhwaddr : Ethernet.Address)
    (ripaddr : Ipv4.Address) (rport : Port) (clock : List UInt64)
    (hclock : ∃ lport, p.localPort clock = some lport) :
    (∃ ret id q, connect env rhwaddr ripaddr rport clock p = .ok (ret, id) q ∧
      ConnectContract env p q ret id) ↔
      Granted env p clock (connect env rhwaddr ripaddr rport clock p) := by
  obtain ⟨lport, hport⟩ := hclock
  have hsame : ∀ {i lport'}, Proceeds env p clock i lport' → lport' = lport := fun h =>
    Option.some_inj.mp (h.port.symm.trans hport)
  by_cases hproceeds : ∃ i, Proceeds env p clock i lport
  · obtain ⟨i, hproceeds⟩ := hproceeds
    by_cases havail : (p.conns i).hasAvailableSegments = true
    · obtain ⟨buf, frame, q, hrun, hcommits, htaken⟩ := connect_syn rhwaddr ripaddr
        rport hproceeds havail
      rw [hrun]
      constructor
      · rintro ⟨ret, id, q', hok, hcontract⟩
        injection hok with hout hq
        injection hout with hret hid
        subst hq hret
        obtain ⟨j, hj, -⟩ := hcontract.opened.mp rfl
        rw [hj] at hid
        have hserved := Service.status_eq_ok.mp (Option.ite_none_right_eq_some.mp hid).1
        refine ⟨fun j lport' hj => ?_, fun j lport' hj out q' who buf' frame' ret' hout hlog => ?_⟩
        · rw [Option.some_inj.mp (hj.vacant.symm.trans hproceeds.vacant)]
          exact havail
        · injection hout with _ hq
          rw [← hq, hcommits] at hlog
          injection (List.cons.inj hlog).1 with _ hbuf hframe
          rw [hsame hj, ← hbuf, ← hframe]
          exact hserved
      · intro hgranted
        have hserved := hgranted.taken i lport hproceeds _ _ _ _ _ _ rfl hcommits
        rw [if_pos (Service.status_eq_ok.mpr hserved)]
        refine ⟨.ok, some i, q, rfl, ⟨fun _ => ⟨i, rfl, htaken hserved⟩, fun _ => rfl⟩, ?_⟩
        intro hret
        exact absurd rfl hret
    · obtain ⟨q, hrun⟩ := connect_full rhwaddr ripaddr rport hproceeds
        (Bool.eq_false_of_not_eq_true havail)
      rw [hrun]
      constructor
      · rintro ⟨_, _, _, hok, -⟩
        cases hok
      · intro hgranted
        exact absurd (hgranted.room i lport hproceeds) havail
  · obtain ⟨ret, q, hrun, hunopened⟩ := connect_unopened rhwaddr ripaddr rport
      hport (not_exists.mp hproceeds)
    rw [hrun]
    refine iff_of_true ⟨ret, none, q, rfl, hunopened.contract⟩ ⟨?_, ?_⟩
    · intro i lport' h
      exact absurd ⟨i, hsame h ▸ h⟩ hproceeds
    · intro i lport' h
      exact absurd ⟨i, hsame h ▸ h⟩ hproceeds

/-! ## A refused SYN -/

section Refused

open Testbed

/-- A device that does not take the SYN. -/
def synRefused : Processor Script Answers 1 :=
  start 1 { Script.empty with commits := [.noMoreResources] } []

theorem connect_synRefused : Program.Passes (connect Testbed.env .zero peer 80 [5000]) synRefused
    fun out _ => out = (.ok, none) := by
  decide +kernel

/-- The status of the registration is returned, with no slot. -/
theorem not_contract_of_synRefused :
    ¬∃ ret id q, connect Testbed.env .zero peer 80 [5000] synRefused = .ok (ret, id) q ∧
      ConnectContract Testbed.env synRefused q ret id := by
  rintro ⟨ret, id, q, hok, hcontract⟩
  obtain ⟨out, q', hrun, rfl⟩ := connect_synRefused.exists
  rw [hrun] at hok
  cases hok
  obtain ⟨i, hid, -⟩ := hcontract.opened.mp rfl
  cases hid

theorem connect_contract_iff_refused : (∃ lport, synRefused.localPort [5000] = some lport) ∧
    ¬Granted Testbed.env synRefused [5000]
      (connect Testbed.env .zero peer 80 [5000] synRefused) := by
  have hclock : ∃ lport, synRefused.localPort [5000] = some lport := ⟨5000, by decide⟩
  exact ⟨hclock, mt (connect_contract_iff Testbed.env synRefused .zero peer 80 [5000] hclock).mpr
    not_contract_of_synRefused⟩

/-- The call reports success for a connection that is closed. -/
theorem not_connect_contract : ¬ ∀ (D H : Type) (n : Nat) (env : Env D H) (p : Processor D H n)
    (rhwaddr : Ethernet.Address) (ripaddr : Ipv4.Address) (rport : Port) (clock : List UInt64),
    Reachable env p → (∃ lport, p.localPort clock = some lport) →
    ∃ ret id q, connect env rhwaddr ripaddr rport clock p = .ok (ret, id) q ∧
      ConnectContract env p q ret id := by
  intro hall
  exact not_contract_of_synRefused (hall _ _ _ Testbed.env synRefused .zero peer 80 [5000]
    ⟨by decide, _, _, [], rfl⟩ ⟨5000, by decide⟩)

end Refused

end Tulips.Tcpv4.Processor
