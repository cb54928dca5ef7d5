import Tulips.Machine.Runs

/-!
# What an operation does to one connection

Seen from one connection of the table, an operation passes it by, runs one of
the programs of the processor on it, or opens a new connection in its slot.
-/

namespace Tulips.Tcpv4

variable {D H : Type} {n : Nat}

namespace Processor

/-- What an operation has done to connection `i`. -/
inductive Visit (env : Env D H) (p : Processor D H n) (i : Fin n) : Op → Processor D H n → Prop
  | skip {op : Op} {q : Processor D H n} (hconn : q.conns i = p.conns i) : Visit env p i op q
  | segment {inc : Incoming} {ret : Status} {t : Ctx D H} (hdemux : p.demux inc = some i)
      (hrun : processSegment env inc (p.ctx i) = .ok ret t) :
      Visit env p i (.process inc) (setCtx i p t)
  | close {id : UInt16} {ret : Status} {t : Ctx D H}
      (hrun : Tcpv4.close env (p.ctx i) = .ok ret t) : Visit env p i (.close id) (setCtx i p t)
  | send {id : UInt16} {len : UInt32} {data : Option Bytes} {off : UInt32}
      {ret : Status × UInt32} {t : Ctx D H}
      (hrun : Tcpv4.send env len data off (p.ctx i) = .ok ret t) :
      Visit env p i (.send id len data off) (setCtx i p t)
  | abort {id : UInt16} {ret : Status} {t : Ctx D H}
      (hrun : Tcpv4.abort env (p.ctx i) = .ok ret t) : Visit env p i (.abort id) (setCtx i p t)
  | tick {expired : Bool} {w : World D H} {ret : Option Status} {t : Ctx D H}
      {q : Processor D H n} (hrun : Tcpv4.tick env ⟨p.conns i, w⟩ = .ok ret t)
      (hconn : q.conns i = t.e) : Visit env p i (.run expired) q
  | accept {inc : Incoming} {w : World D H} {outdata : Ptr} {ret : Status} {t : Ctx D H}
      {q : Processor D H n} (hdemux : p.demux inc = none) (hsyn : inc.ctlIs tcpSyn = true)
      (hlisten : inc.hdr.destport ∈ p.listenports) (hvacant : p.vacant = some i)
      (hrun : openSynRcvd env inc p.iss outdata ⟨p.conns i, w⟩ = .ok ret t)
      (hconns : q.conns = Function.update p.conns i t.e) : Visit env p i (.process inc) q
  | connect {rhwaddr : Ethernet.Address} {ripaddr : Ipv4.Address} {lport rport : Port}
      {clock : List UInt64} {w : World D H} {outdata : Ptr} {ret : Status} {t : Ctx D H}
      {q : Processor D H n} (hport : p.localPort clock = some lport) (hvacant : p.vacant = some i)
      (hrun : openSynSent env rhwaddr ripaddr lport rport p.iss outdata ⟨p.conns i, w⟩ =
        .ok ret t)
      (hconns : q.conns = Function.update p.conns i
        (if ret = .ok then t.e else { t.e with state := .closed })) :
      Visit env p i (.connect rhwaddr ripaddr rport clock) q

variable {env : Env D H} {p q : Processor D H n} {i : Fin n}

theorem Visit.skip_of_ne {j : Fin n} {s : Ctx D H} {op : Op} (h : i ≠ j) :
    Visit env p i op (setCtx j p s) :=
  .skip (setCtx_conns_of_ne p s h)

/-- A program for one connection visits it and passes the others by. -/
theorem onConn_visit {α : Type} {m : ConnProgram D H α} {j : Fin n} {op : Op} {a : α}
    (hok : onConn j m p = .ok a q)
    (hvisit : ∀ t, m (p.ctx j) = .ok a t → Visit env p j op (setCtx j p t)) :
    Visit env p i op q := by
  obtain ⟨t, hrun, rfl⟩ := Program.zoom_eq_ok.mp hok
  by_cases hij : i = j
  · subst hij
    exact hvisit t hrun
  · exact .skip_of_ne hij

/-- The loop over the connections ticks each at most once. -/
theorem tickFrom_conn {l : List (Fin n)} (hl : l.Nodup) {ret : Status}
    (hok : tickFrom env l p = .ok ret q) :
    q.conns i = p.conns i ∨
      i ∈ l ∧ ∃ w ret t, Tcpv4.tick env ⟨p.conns i, w⟩ = .ok ret t ∧ q.conns i = t.e := by
  induction l generalizing p with
  | nil =>
      cases hok
      exact .inl rfl
  | cons j l ih =>
      obtain ⟨hj, hl⟩ := List.nodup_cons.mp hl
      obtain ⟨again, r, htick, hrest⟩ := Program.bind_eq_ok.mp hok
      obtain ⟨t, hrun, rfl⟩ := Program.zoom_eq_ok.mp htick
      have hlast : q.conns i = (setCtx j p t).conns i ∨
          i ∈ l ∧ ∃ w ret u, Tcpv4.tick env ⟨(setCtx j p t).conns i, w⟩ = .ok ret u ∧
            q.conns i = u.e := by
        cases again with
        | none => exact ih hl hrest
        | some ret =>
            cases hrest
            exact .inl rfl
      by_cases hij : i = j
      · subst hij
        have hq := hlast.resolve_right fun h => hj h.1
        rw [setCtx_conns_self] at hq
        exact .inr ⟨List.mem_cons_self, p.w, again, t, hrun, hq⟩
      · rw [setCtx_conns_of_ne p t hij] at hlast
        exact hlast.imp_right fun ⟨hi, h⟩ => ⟨List.mem_cons_of_mem j hi, h⟩

theorem run_visit {expired : Bool} {ret : Status} (hok : run env expired p = .ok ret q) :
    Visit env p i (.run expired) q := by
  unfold run at hok
  cases expired with
  | false =>
      cases hok
      exact .skip rfl
  | true =>
      rcases tickFrom_conn (i := i) (List.nodup_finRange n) hok with h | ⟨-, w, ret, t, hrun, h⟩
      · exact .skip h
      · exact .tick hrun h

/-- A program of the world alone touches no connection. -/
theorem world_conns {α : Type} {m : WorldProgram D H α} {a : α} (hok : world m p = .ok a q) :
    ∃ w, q = { p with w := w } := by
  obtain ⟨w, -, rfl⟩ := Program.zoom_eq_ok.mp hok
  exact ⟨w, rfl⟩

theorem acceptSyn_visit {inc : Incoming} {ret : Status} (hdemux : p.demux inc = none)
    (hsyn : inc.ctlIs tcpSyn = true) (hlisten : inc.hdr.destport ∈ p.listenports)
    (hok : acceptSyn env inc p = .ok ret q) : Visit env p i (.process inc) q := by
  unfold acceptSyn at hok
  rw [Program.bind_gets_id] at hok
  cases hvacant : p.vacant with
  | none =>
      rw [hvacant] at hok
      cases hok
      exact .skip rfl
  | some j =>
      rw [hvacant] at hok
      obtain ⟨out, r, hprep, hrest⟩ := Program.bind_eq_ok.mp hok
      obtain ⟨w, rfl⟩ := world_conns hprep
      cases out with
      | error ret =>
          cases hrest
          exact .skip rfl
      | ok outdata =>
          obtain ⟨t, hrun, rfl⟩ := Program.zoom_eq_ok.mp hrest
          by_cases hij : i = j
          · subst hij
            exact .accept hdemux hsyn hlisten hvacant hrun rfl
          · exact .skip (setCtx_conns_of_ne _ _ hij)

theorem process_visit {inc : Incoming} {ret : Status} (hok : process env inc p = .ok ret q) :
    Visit env p i (.process inc) q := by
  unfold process at hok
  rw [Program.bind_gets_id] at hok
  split at hok
  · cases hok
    exact .skip rfl
  · have hreset : world (reset env inc) p = .ok ret q → Visit env p i (.process inc) q := by
      intro h
      obtain ⟨w, rfl⟩ := world_conns h
      exact .skip rfl
    cases hdemux : p.demux inc with
    | some j =>
        rw [hdemux] at hok
        refine onConn_visit hok fun t hrun => ?_
        exact .segment hdemux hrun
    | none =>
        rw [hdemux] at hok
        dsimp only at hok
        split_ifs at hok with hsyn hlisten
        · exact hreset hok
        · exact acceptSyn_visit hdemux (Bool.eq_true_of_not_eq_false hsyn) hlisten hok
        · exact hreset hok

theorem connect_visit {rhwaddr : Ethernet.Address} {ripaddr : Ipv4.Address} {rport : Port}
    {clock : List UInt64} {ret : Status × Option (Fin n)}
    (hok : connect env rhwaddr ripaddr rport clock p = .ok ret q) :
    Visit env p i (.connect rhwaddr ripaddr rport clock) q := by
  unfold connect at hok
  obtain ⟨out, r, hprep, hok⟩ := Program.bind_eq_ok.mp hok
  obtain ⟨w, rfl⟩ := world_conns hprep
  cases out with
  | error ret =>
      cases hok
      exact .skip rfl
  | ok outdata =>
      change ((Program.gets id >>= _) : ProcProgram D H n _) _ = _ at hok
      rw [Program.bind_gets_id] at hok
      cases hport : ({ p with w := w } : Processor D H n).localPort clock with
      | none =>
          rw [hport] at hok
          cases hok
      | some lport =>
          rw [hport] at hok
          cases hvacant : ({ p with w := w } : Processor D H n).vacant with
          | none =>
              rw [hvacant] at hok
              cases hok
              exact .skip rfl
          | some j =>
              rw [hvacant] at hok
              obtain ⟨ret', r, hlisten, hok⟩ := Program.bind_eq_ok.mp hok
              obtain ⟨w', rfl⟩ := world_conns hlisten
              split at hok
              · cases hok
                exact .skip rfl
              · obtain ⟨syn, r, hopen, hok⟩ := Program.bind_eq_ok.mp hok
                obtain ⟨t, hrun, rfl⟩ := Program.zoom_eq_ok.mp hopen
                -- A SYN that was not sent leaves the slot closed again.
                have hconns : q.conns = Function.update p.conns j
                    (if syn = .ok then t.e else { t.e with state := .closed }) := by
                  by_cases hsyn : syn = .ok
                  · rw [if_neg (by simp [hsyn])] at hok
                    cases hok
                    rw [if_pos hsyn]
                    rfl
                  · rw [if_pos hsyn] at hok
                    cases hok
                    rw [if_neg hsyn]
                    simp [setCtx, ctx]
                by_cases hij : i = j
                · subst hij
                  exact .connect hport hvacant hrun hconns
                · exact .skip (by rw [hconns, Function.update_of_ne hij])

/-- An operation on the connection with a number visits it and no other. -/
theorem onId_visit {id : UInt16} {m : ConnProgram D H Status} {op : Op} {ret : Status}
    (hok : onId id m p = .ok ret q)
    (hvisit : ∀ j t, m (p.ctx j) = .ok ret t → Visit env p j op (setCtx j p t)) :
    Visit env p i op q := by
  unfold onId at hok
  cases hslot : slot? n id with
  | none =>
      rw [hslot] at hok
      cases hok
      exact .skip rfl
  | some j =>
      rw [hslot] at hok
      exact onConn_visit hok fun t => hvisit j t

theorem send_visit {id : UInt16} {len : UInt32} {data : Option Bytes} {off : UInt32}
    {ret : Status × UInt32} (hok : send env id len data off p = .ok ret q) :
    Visit env p i (.send id len data off) q := by
  unfold send at hok
  cases hslot : slot? n id with
  | none =>
      rw [hslot] at hok
      cases hok
      exact .skip rfl
  | some j =>
      rw [hslot] at hok
      exact onConn_visit hok fun t hrun => .send hrun

theorem exec_visit {op : Op} (hok : exec env op p = .ok () q) (i : Fin n) :
    Visit env p i op q := by
  cases op with
  | listen port =>
      obtain ⟨ret, r, hlisten, hrest⟩ := Program.bind_eq_ok.mp hok
      obtain ⟨w, rfl⟩ := world_conns hlisten
      unfold Program.when at hrest
      split at hrest <;> cases hrest <;> exact .skip rfl
  | unlisten port =>
      cases hok
      exact .skip rfl
  | connect rhwaddr ripaddr rport clock =>
      obtain ⟨ret, r, hrun, hrest⟩ := Program.bind_eq_ok.mp hok
      cases hrest
      exact connect_visit hrun
  | abort id =>
      obtain ⟨ret, r, hrun, hrest⟩ := Program.bind_eq_ok.mp hok
      cases hrest
      exact onId_visit hrun fun _ _ => .abort
  | close id =>
      obtain ⟨ret, r, hrun, hrest⟩ := Program.bind_eq_ok.mp hok
      cases hrest
      exact onId_visit hrun fun _ _ => .close
  | send id len data off =>
      obtain ⟨ret, r, hrun, hrest⟩ := Program.bind_eq_ok.mp hok
      cases hrest
      exact send_visit hrun
  | process inc =>
      obtain ⟨ret, r, hrun, hrest⟩ := Program.bind_eq_ok.mp hok
      cases hrest
      exact process_visit hrun
  | run expired =>
      obtain ⟨ret, r, hrun, hrest⟩ := Program.bind_eq_ok.mp hok
      cases hrest
      exact run_visit hrun

end Processor

end Tulips.Tcpv4
