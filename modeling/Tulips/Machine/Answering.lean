import Tulips.Machine.Placement
import Tulips.Machine.Traffic

/-!
# The answers of the application

In ESTABLISHED the application is told about acknowledged and about new data, and
asked for an answer each time. The rules below take these exchanges apart: what
the application is offered, what becomes of the connection, and what follows.
-/

namespace Tulips.Tcpv4

open Program

variable {D H : Type} {env : Env D H} {s t : Ctx D H} {ret : Status}

/-! ## One answer -/

/-- The room behind the pending data. -/
def Env.room (env : Env D H) (e : Connection) : UInt32 :=
  env.bound e - UInt32.ofNat e.slen.toNat

/-- The room a data callback is offered. -/
def Env.offer (env : Env D H) (e : Connection) (canSend : Bool) : Option UInt32 :=
  if canSend then some (env.room e) else none

/-- How many bytes of an answer count as pending. -/
def Env.taken (env : Env D H) (e : Connection) (canSend : Bool) (reply : Reply H) : UInt32 :=
  if canSend = true ∧ reply.action = .continue then
    if env.room e < reply.slen then env.room e else reply.slen
  else 0

/-- A data callback has been made, and what it put behind the pending data is taken in. -/
structure Answered (env : Env D H) (cb : Option UInt32 → Callback) (canSend : Bool)
    (s : Ctx D H) (reply : Reply H) (u : Ctx D H) : Prop where
  reply_eq : reply = env.handler s.w.hdl s.e (cb (env.offer s.e canSend))
  hdl : u.w.hdl = reply.hdl
  conn : u.e = { s.e with
    slen := s.e.slen + BitVec.ofNat 24 (env.taken s.e canSend reply).toNat
    cookie := reply.cookie
    opts := reply.opts }
  log : ∃ appended writes, u.w.log = appended ++ (writes ++
      .callback s.e.id (cb (env.offer s.e canSend)) reply.action :: s.w.log) ∧
    (∀ ev ∈ writes, ∃ buf, ev = .write (some s.e.id) buf) ∧
    if canSend = true ∧ reply.action = .continue then
      ∃ bytes, bytes.length = (env.taken s.e canSend reply).toNat ∧
        appended = [.append s.e.id s.e.slen bytes]
    else appended = []

theorem callback_eq (env : Env D H) (cb : Callback) (s : Ctx D H) :
    callback env cb s = .ok (env.handler s.w.hdl s.e cb) (s.called env cb) := rfl

theorem deliver_eq (env : Env D H) (inc : Incoming) (s : Ctx D H) :
    deliver env inc s = .ok () (s.called env (.onNewData inc.payload none)) := rfl

@[simp] theorem length_tail (s : Ctx D H) (n : Nat) : (s.tail n).length = n := by
  unfold Ctx.tail
  cases s.e.sdat with
  | none => exact List.length_replicate
  | some p => exact BlockMemory.length_read

/-- Storing bytes, if there are any, changes nothing but a buffer. -/
theorem stored_cases {c : Prop} [Decidable c] {p : Option Ptr} {off : Nat} {bytes : List UInt8}
    {id : UInt16} (hok : Program.when c (onWorld (store (some id) p off bytes)) s = .ok () t) :
    t.e = s.e ∧ t.w.hdl = s.w.hdl ∧ ∃ writes, t.w.log = writes ++ s.w.log ∧
      ∀ ev ∈ writes, ∃ buf, ev = .write (some id) buf := by
  rcases when_eq_ok.mp hok with ⟨-, hstore⟩ | ⟨-, rfl⟩
  · cases p with
    | none => cases hstore
    | some p =>
        cases hstore
        exact ⟨rfl, rfl, [.write (some id) p.buf], rfl, by simp⟩
  · exact ⟨rfl, rfl, [], rfl, by simp⟩

/-- What follows an answer. -/
def follow (env : Env D H) (next : ConnProgram D H Status) : Action → ConnProgram D H Status
  | .abort => sendAbort env
  | .close => sendClose env
  | .continue => next

theorem respond_cases {cb : Option UInt32 → Callback} {canSend : Bool}
    {next : ConnProgram D H Status} (hok : respond env cb canSend next s = .ok ret t) :
    ∃ reply u, Answered env cb canSend s reply u ∧ follow env next reply.action u = .ok ret t := by
  unfold respond at hok
  rw [bind_gets, bind_of_ok (callback_eq env _ s)] at hok
  let offered := cb (env.offer s.e canSend)
  let reply := env.handler s.w.hdl s.e offered
  obtain ⟨_, v, hstore, hok⟩ := bind_eq_ok.mp hok
  obtain ⟨hve, hhdl, writes, hlog, hwrites⟩ := stored_cases hstore
  have hlog : v.w.log = writes ++ .callback s.e.id offered reply.action :: s.w.log := hlog
  let counted := if env.room s.e < reply.slen then env.room s.e else reply.slen
  have hok : (match reply.action with
      | .abort => sendAbort env
      | .close => sendClose env
      | .continue => do
        Program.when (canSend = true) do
          let bytes ← .gets fun s => s.tail counted.toNat
          accept bytes
        next) v = .ok ret t := hok
  -- Closing and aborting take no bytes, so these two ways share the bookkeeping.
  have hanswered : ¬(canSend = true ∧ reply.action = .continue) →
      Answered env cb canSend s reply v := by
    intro hnone
    have htaken : env.taken s.e canSend reply = 0 := if_neg hnone
    have hslen : s.e.slen + BitVec.ofNat 24 (0 : UInt32).toNat = s.e.slen := BitVec.add_zero _
    refine ⟨rfl, hhdl, ?_, [], writes, hlog, hwrites, by rw [if_neg hnone]⟩
    rw [hve, htaken, hslen]
    rfl
  cases haction : reply.action with
  | abort =>
      rw [haction] at hok
      refine ⟨reply, v, hanswered (by simp [haction]), ?_⟩
      rw [haction]
      exact hok
  | close =>
      rw [haction] at hok
      refine ⟨reply, v, hanswered (by simp [haction]), ?_⟩
      rw [haction]
      exact hok
  | «continue» =>
      rw [haction] at hok
      obtain ⟨_, u, haccept, hok⟩ := bind_eq_ok.mp hok
      refine ⟨reply, u, ?_, by rw [haction]; exact hok⟩
      rcases when_eq_ok.mp haccept with ⟨hcan, haccept⟩ | ⟨hcan, rfl⟩
      -- Only an answer that continues while data may be sent hands its bytes over.
      · have htaken : env.taken s.e canSend reply = counted := if_pos ⟨hcan, haction⟩
        cases haccept
        refine ⟨rfl, hhdl, ?_, [.append v.e.id v.e.slen (v.tail counted.toNat)], writes,
          congrArg _ hlog, hwrites, ?_⟩
        · rw [htaken]
          simp only [hve, length_tail]
          rfl
        · rw [if_pos ⟨hcan, haction⟩, htaken, hve]
          exact ⟨_, length_tail _ _, rfl⟩
      · exact hanswered fun h => hcan h.1

/-! ## The course of the exchanges -/

/-- No more than a segment without data has been sent. -/
structure Acknowledging (s u : Ctx D H) : Prop where
  conn : ∃ sdat, u.e = { s.e with sdat := sdat }
  placed : s.e.core.Placed → u.e.core.Placed
  world : Plainly s.w u.w

theorem acknowledging_controls : Controls (Acknowledging (D := D) (H := H)) where
  refl := fun s => ⟨⟨s.e.sdat, rfl⟩, id, .refl s.w⟩
  trans := by
    rintro s t u ⟨⟨_, he⟩, hplaced, hw⟩ ⟨⟨sdat, he'⟩, hplaced', hw'⟩
    exact ⟨⟨sdat, by rw [he', he]⟩, fun h => hplaced' (hplaced h), hw.trans hw'⟩
  world := fun {s w} hw => ⟨⟨s.e.sdat, rfl⟩, id, hw⟩
  buffer := by
    intro s buf
    refine ⟨⟨_, rfl⟩, fun h => ⟨?_, h.dat⟩, .refl s.w⟩
    intro p hp
    cases hp
    rfl

theorem notifyNewData_cases {inc : Incoming} {canSend : Bool} {next : ConnProgram D H Status}
    (hok : notifyNewData env inc canSend next s = .ok ret t) :
    s.e.newdata = false ∧ next s = .ok ret t ∨
      s.e.newdata = true ∧ ∃ u, Acknowledging s u ∧
        (ret ≠ .ok ∧ t = u ∨
          respond env (.onNewData (inc.bytes inc.urglen inc.datalen)) canSend next u =
            .ok ret t) := by
  unfold notifyNewData at hok
  rw [bind_gets] at hok
  split at hok
  · next hnew =>
      refine .inr ⟨hnew, ?_⟩
      split at hok
      · exact ⟨s, acknowledging_controls.refl s, .inr hok⟩
      · obtain ⟨ret', v, hack, hok⟩ := bind_eq_ok.mp hok
        have hv := (acknowledging_controls.sendAck env).ok hack
        rw [bind_record] at hok
        refine ⟨v.noted (.immediateAck s.e.id ret'), ⟨hv.conn, hv.placed, ?_⟩, ?_⟩
        · exact hv.world.trans (.logged _ rfl rfl rfl)
        · split at hok
          · next hne =>
              cases hok
              exact .inl ⟨hne, rfl⟩
          · exact .inr hok
  · next hnew => exact .inl ⟨by simpa using hnew, hok⟩

theorem notifyAcked_cases {canSend : Bool} {next : Bool → ConnProgram D H Status}
    (hok : notifyAcked env canSend next s = .ok ret t) :
    s.e.ackdata = false ∧ next canSend s = .ok ret t ∨
      s.e.ackdata = true ∧
        respond env .onAcked canSend (do
          let e ← .gets Ctx.e
          next (canSend && e.canSend)) s = .ok ret t := by
  unfold notifyAcked at hok
  rw [bind_gets] at hok
  split at hok
  · next hack => exact .inr ⟨hack, hok⟩
  · next hack => exact .inl ⟨by simpa using hack, hok⟩

/-- What follows the window update in ESTABLISHED. -/
def afterUpdate (env : Env D H) (inc : Incoming) : ConnProgram D H Status := do
  let e ← .gets Ctx.e
  if e.ackdata = true ∨ e.newdata = true then
    notifyAcked env e.canSend fun canSend =>
      notifyNewData env inc canSend (flush env canSend)
  else pure .ok

/-- The connection when a segment without FIN has been taken in. -/
def Connection.updated (e : Connection) (inc : Incoming) : Connection :=
  (if 0 < inc.datalen then e.receive inc inc.datalen else e).updateWindow inc.window

theorem processEstablished_cases {inc : Incoming}
    (hok : processEstablished env inc s = .ok ret t) :
    inc.has tcpFin = true ∧ processFin env inc s = .ok ret t ∨
      inc.has tcpFin = false ∧
        afterUpdate env inc { s with e := s.e.updated inc } = .ok ret t := by
  unfold processEstablished at hok
  split at hok
  · next hfin => exact .inl ⟨hfin, hok⟩
  · next hfin =>
      refine .inr ⟨by simpa using hfin, ?_⟩
      obtain ⟨_, u, hreceive, hok⟩ := bind_eq_ok.mp hok
      have hu : u = { s with
          e := if 0 < inc.datalen then s.e.receive inc inc.datalen else s.e } := by
        rcases when_eq_ok.mp hreceive with ⟨hlt, hreceive⟩ | ⟨hlt, rfl⟩
        · cases hreceive
          rw [if_pos hlt]
        · rw [if_neg hlt]
      rw [hu] at hok
      exact hok

/-- What a segment leads to, once the news of the last one is cleared. -/
theorem processSegment_cases {inc : Incoming} (hok : processSegment env inc s = .ok ret t) :
    (inc.has tcpRst = true ∧ processRst env { s with e := s.e.clearNews } = .ok ret t) ∨
      (sendAck env { s with e := s.e.clearNews } = .ok ret t ∧ s.e.outOfSequence inc = true) ∨
      ((s.e.clearNews.scanned inc).2 = true ∧
        rexmit env { s with e := (s.e.clearNews.scanned inc).1 } = .ok ret t) ∨
      processState env inc { s with e := (s.e.clearNews.scanned inc).1 } = .ok ret t := by
  by_cases hrst : inc.has tcpRst = true
  · unfold processSegment modifyConn at hok
    rw [bind_update, bind_gets, if_pos hrst] at hok
    exact .inl ⟨hrst, hok⟩
  by_cases hseq : s.e.outOfSequence inc = true
  · have hseq' : s.e.clearNews.outOfSequence inc = true := hseq
    unfold processSegment modifyConn at hok
    rw [bind_update, bind_gets, if_neg hrst, if_pos hseq'] at hok
    exact .inr (.inl ⟨hok, hseq⟩)
  rw [processSegment_scanned (by simpa using hrst) (by simpa using hseq)] at hok
  split at hok
  · next hagain => exact .inr (.inr (.inl ⟨hagain, hok⟩))
  · exact .inr (.inr (.inr hok))

end Tulips.Tcpv4
