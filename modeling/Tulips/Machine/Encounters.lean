import Tulips.Machine.Visits

/-!
# What happens around one connection

A visit, with the history before and after it: whatever else an operation does is about
no connection or about another one. What a connection's own programs keep, and events of
others cannot disturb, is kept by every operation.
-/

namespace Tulips.Tcpv4

open Program

variable {D H : Type} {n : Nat}

/-- Nothing has happened that is about the connection. -/
def Beside (id : UInt16) (w w' : World D H) : Prop :=
  ∃ new, w'.log = new ++ w.log ∧ ∀ ev ∈ new, ev.owner ≠ some id

/-- A program has worked for its own connection, or for none. -/
structure Own (s t : Ctx D H) : Prop where
  id : t.e.id = s.e.id
  log : ∃ new, t.w.log = new ++ s.w.log ∧
    ∀ ev ∈ new, ev.owner = none ∨ ev.owner = some s.e.id

section Beside

variable {id : UInt16} {w w' w'' : World D H} {s t : Ctx D H}

theorem Beside.refl (id : UInt16) (w : World D H) : Beside id w w := ⟨[], rfl, by simp⟩

theorem Beside.trans (h : Beside id w w') (h' : Beside id w' w'') : Beside id w w'' := by
  obtain ⟨new, hlog, hnew⟩ := h
  obtain ⟨new', hlog', hnew'⟩ := h'
  refine ⟨new' ++ new, by rw [hlog', hlog, List.append_assoc], fun ev hev => ?_⟩
  rcases List.mem_append.mp hev with hev | hev
  · exact hnew' ev hev
  · exact hnew ev hev

theorem Beside.logged {ev : Event} (hev : ev.owner ≠ some id) (hlog : w'.log = ev :: w.log) :
    Beside id w w' := ⟨[ev], hlog, by simpa using hev⟩

/-- What a program does for its own connection is beside every other. -/
theorem Own.beside (h : Own s t) (hne : s.e.id ≠ id) : Beside id s.w t.w := by
  obtain ⟨new, hlog, hnew⟩ := h.log
  refine ⟨new, hlog, fun ev hev howner => ?_⟩
  rcases hnew ev hev with hnone | hsome
  · rw [hnone] at howner
    cases howner
  · rw [hsome] at howner
    exact hne (Option.some_inj.mp howner)

/-- A path of acts stays with its connection. -/
theorem owner_of_path {handler : EventHandler H} {L : List Label} {u v : Slot H}
    (h : Relation.ReflTransGen (Step handler L) u v) : v.id = u.id ∧ ∃ new, v.log = new ++ u.log ∧
      ∀ ev ∈ new, ev.owner = none ∨ ev.owner = some u.id := by
  induction h with
  | refl => exact ⟨rfl, [], rfl, by simp⟩
  | tail _ hstep ih =>
      obtain ⟨l, -, hact⟩ := hstep
      obtain ⟨hid, new, hlog, hnew⟩ := ih
      obtain ⟨hid', new', hlog', hnew'⟩ := hact.adds
      refine ⟨hid'.trans hid, new' ++ new, by rw [hlog', hlog, List.append_assoc], ?_⟩
      intro ev hev
      rcases List.mem_append.mp hev with hev | hev
      · rw [← hid]
        exact (hnew' ev hev).1
      · exact hnew ev hev

theorem Performs.own {env : Env D H} {L : List Label} {α : Type} {x : ConnProgram D H α} {a : α}
    (h : Performs env L s (x s)) (hok : x s = .ok a t) : Own s t := by
  rw [hok] at h
  obtain ⟨hid, hlog⟩ := owner_of_path h
  exact ⟨hid, hlog⟩

end Beside

/-! ## The programs of one connection -/

section Own

variable {env : Env D H} {s t : Ctx D H} {ret : Status}

theorem processSegment_own {inc : Incoming} (hopen : s.e.state ≠ .closed)
    (hok : processSegment env inc s = .ok ret t) : Own s t :=
  (processSegment_performs env inc (fun _ h => h) hopen).own hok

theorem close_own (hok : close env s = .ok ret t) : Own s t :=
  (close_performs env fun _ h => h).own hok

theorem send_own {len : UInt32} {data : Option Bytes} {off : UInt32} {ret : Status × UInt32}
    (hok : send env len data off s = .ok ret t) : Own s t :=
  (send_performs env len data off fun _ h => h).own hok

theorem tick_own {ret : Option Status} (hok : tick env s = .ok ret t) : Own s t :=
  (tick_performs env fun _ h => h).own hok

theorem abort_own (hok : abort env s = .ok ret t) : Own s t := by
  refine (abort_performs (L := [.note, .abort]) env (by decide) (by decide) ?_).own hok
  intro hsdat
  obtain ⟨u, hfault⟩ := abort_none env hsdat
  rw [hfault] at hok
  cases hok

theorem Opened.own {peer : Peer} {st : State} {iss : UInt32} {p : Ptr}
    (h : Opened env.handler peer st iss p s.slot t.slot) : Own s t :=
  ⟨h.owned.1, h.owned.2⟩

theorem openSynRcvd_own {inc : Incoming} {iss : UInt32} {outdata : Ptr}
    (hok : openSynRcvd env inc iss outdata s = .ok ret t) : Own s t := by
  rcases openSynRcvd_spec env inc iss outdata s with ⟨u, hfault, -⟩ | ⟨u, ret', hrun, hopened⟩
  · rw [hfault] at hok
    cases hok
  · rw [hrun] at hok
    cases hok
    exact hopened.own

theorem openSynSent_own {rhwaddr : Ethernet.Address} {ripaddr : Ipv4.Address}
    {lport rport : Port} {iss : UInt32} {outdata : Ptr}
    (hok : openSynSent env rhwaddr ripaddr lport rport iss outdata s = .ok ret t) : Own s t := by
  rcases openSynSent_spec env rhwaddr ripaddr lport rport iss outdata s with
    ⟨u, hfault, -⟩ | ⟨u, ret', hrun, hopened, -⟩
  · rw [hfault] at hok
    cases hok
  · rw [hrun] at hok
    cases hok
    exact hopened.own

end Own

/-! ## The world -/

section World

variable {env : Env D H} {id : UInt16} {w w' : World D H}

theorem prepareTo_beside {rhwaddr : Ethernet.Address} {ripaddr : Ipv4.Address}
    {out : Except Failure Ptr} (hok : Processor.prepareTo env rhwaddr ripaddr w = .ok out w') :
    Beside id w w' := by
  obtain ⟨v, -, ⟨ret, hrun, -, hlog⟩ | ⟨buf, writes, hrun, -, hwrites, hlog⟩⟩ :=
    prepareTo_cases env rhwaddr ripaddr w
  · rw [hrun] at hok
    cases hok
    exact .logged (by simp [Event.owner]) hlog
  · rw [hrun] at hok
    cases hok
    refine ⟨writes ++ [.prepare none (some buf)], by simp [hlog], fun ev hev => ?_⟩
    rcases List.mem_append.mp hev with hev | hev
    · rw [hwrites ev hev]
      simp [Event.owner]
    · rw [List.mem_singleton.mp hev]
      simp [Event.owner]

theorem reset_beside {inc : Incoming} {ret : Status}
    (hok : Processor.reset env inc w = .ok ret w') : Beside id w w' := by
  obtain ⟨ret', v, hrun, -, ⟨-, hlog⟩ | ⟨buf, writes, -, hwrites, hout⟩⟩ := reset_cases env inc w
  · rw [hrun] at hok
    cases hok
    exact .logged (by simp [Event.owner]) hlog
  · rw [hrun] at hok
    cases hok
    have hfetch : ∀ ev ∈ writes ++ [Event.prepare none (some buf)], ev.owner ≠ some id := by
      intro ev hev
      rcases List.mem_append.mp hev with hev | hev
      · rw [hwrites ev hev]
        simp [Event.owner]
      · rw [List.mem_singleton.mp hev]
        simp [Event.owner]
    rcases hout with ⟨-, hlog⟩ | ⟨-, frame, mss, ret'', hlog⟩
    · exact ⟨_, by rw [hlog]; simp, hfetch⟩
    · refine ⟨.commit none buf frame mss ret'' :: (writes ++ [.prepare none (some buf)]),
        by rw [hlog]; simp, fun ev hev => ?_⟩
      rcases List.mem_cons.mp hev with rfl | hev
      · simp [Event.owner]
      · exact hfetch ev hev

theorem deviceListen_beside {port : Port} {ret : Status}
    (hok : deviceListen env port w = .ok ret w') : Beside id w w' := by
  cases hok
  exact .logged (by simp [Event.owner]) rfl

theorem deviceUnlisten_beside {port : Port}
    (hok : deviceUnlisten env port w = .ok () w') : Beside id w w' := by
  cases hok
  exact .logged (by simp [Event.owner]) rfl

end World

/-! ## Encounters -/

namespace Processor

/-- What an operation does to connection `i`, with what it adds to the history. -/
inductive Encounter (env : Env D H) (p : Processor D H n) (i : Fin n) :
    Op → Processor D H n → Prop
  | pass {op : Op} {q : Processor D H n} (hconn : q.conns i = p.conns i)
      (hlog : Beside (p.conns i).id p.w q.w) : Encounter env p i op q
  | segment {inc : Incoming} {ret : Status} {t : Ctx D H} (hdemux : p.demux inc = some i)
      (hrun : processSegment env inc (p.ctx i) = .ok ret t) :
      Encounter env p i (.process inc) (setCtx i p t)
  | close {id : UInt16} {ret : Status} {t : Ctx D H}
      (hrun : Tcpv4.close env (p.ctx i) = .ok ret t) : Encounter env p i (.close id) (setCtx i p t)
  | send {id : UInt16} {len : UInt32} {data : Option Bytes} {off : UInt32}
      {ret : Status × UInt32} {t : Ctx D H}
      (hrun : Tcpv4.send env len data off (p.ctx i) = .ok ret t) :
      Encounter env p i (.send id len data off) (setCtx i p t)
  | abort {id : UInt16} {ret : Status} {t : Ctx D H}
      (hrun : Tcpv4.abort env (p.ctx i) = .ok ret t) : Encounter env p i (.abort id) (setCtx i p t)
  | tick {w : World D H} {ret : Option Status} {t : Ctx D H} {q : Processor D H n}
      (hbefore : Beside (p.conns i).id p.w w)
      (hrun : Tcpv4.tick env ⟨p.conns i, w⟩ = .ok ret t) (hconn : q.conns i = t.e)
      (hafter : Beside (p.conns i).id t.w q.w) : Encounter env p i (.run true) q
  | accept {inc : Incoming} {w : World D H} {outdata : Ptr} {ret : Status} {t : Ctx D H}
      (hdemux : p.demux inc = none) (hsyn : inc.ctlIs tcpSyn = true)
      (hlisten : inc.hdr.destport ∈ p.listenports) (hvacant : p.vacant = some i)
      (hbefore : Beside (p.conns i).id p.w w)
      (hrun : openSynRcvd env inc p.iss outdata ⟨p.conns i, w⟩ = .ok ret t) :
      Encounter env p i (.process inc) (setCtx i { p with w := w } t)
  | connect {rhwaddr : Ethernet.Address} {ripaddr : Ipv4.Address} {lport rport : Port}
      {clock : List UInt64} {w : World D H} {outdata : Ptr} {ret : Status} {t : Ctx D H}
      {q : Processor D H n} (hport : p.localPort clock = some lport) (hvacant : p.vacant = some i)
      (hbefore : Beside (p.conns i).id p.w w)
      (hrun : openSynSent env rhwaddr ripaddr lport rport p.iss outdata ⟨p.conns i, w⟩ =
        .ok ret t)
      (hconn : q.conns i = if ret = .ok then t.e else { t.e with state := .closed })
      (hafter : Beside (p.conns i).id t.w q.w) :
      Encounter env p i (.connect rhwaddr ripaddr rport clock) q

variable {env : Env D H} {p q : Processor D H n} {i : Fin n}

theorem pass_of_ne {op : Op} {j : Fin n} {t : Ctx D H} (hn : n < 2 ^ 16)
    (hnum : p.table.Numbered) (hij : i ≠ j) (h : Own (p.ctx j) t) :
    Encounter env p i op (setCtx j p t) :=
  .pass (setCtx_conns_of_ne p t hij) (h.beside (hnum.id_ne hn (Ne.symm hij)))

/-- A program for one connection meets it, and passes the others by. -/
theorem onConn_encounter {α : Type} {m : ConnProgram D H α} {j : Fin n} {op : Op} {a : α}
    (hn : n < 2 ^ 16) (hnum : p.table.Numbered) (hok : onConn j m p = .ok a q)
    (hown : ∀ t, m (p.ctx j) = .ok a t → Own (p.ctx j) t)
    (hmeet : ∀ t, m (p.ctx j) = .ok a t → Encounter env p j op (setCtx j p t)) :
    Encounter env p i op q := by
  obtain ⟨t, hrun, rfl⟩ := zoom_eq_ok.mp hok
  by_cases hij : i = j
  · subst hij
    exact hmeet t hrun
  · exact pass_of_ne hn hnum hij (hown t hrun)

/-- An operation on the connection with a number meets it and no other. -/
theorem onId_encounter {id : UInt16} {m : ConnProgram D H Status} {op : Op} {ret : Status}
    (hn : n < 2 ^ 16) (hnum : p.table.Numbered) (hok : onId id m p = .ok ret q)
    (hown : ∀ j t, m (p.ctx j) = .ok ret t → Own (p.ctx j) t)
    (hmeet : ∀ j t, m (p.ctx j) = .ok ret t → Encounter env p j op (setCtx j p t)) :
    Encounter env p i op q := by
  unfold onId at hok
  cases hslot : slot? n id with
  | none =>
      rw [hslot] at hok
      cases hok
      exact .pass rfl (.refl _ _)
  | some j =>
      rw [hslot] at hok
      exact onConn_encounter hn hnum hok (hown j) (hmeet j)

/-- The loop over the connections ticks each at most once. -/
theorem tickFrom_encounter {l : List (Fin n)} (hl : l.Nodup) {ret : Status} (hn : n < 2 ^ 16)
    (hnum : p.table.Numbered) (hok : tickFrom env l p = .ok ret q) :
    (q.conns i = p.conns i ∧ Beside (p.conns i).id p.w q.w) ∨
      i ∈ l ∧ ∃ w ret t, Beside (p.conns i).id p.w w ∧
        Tcpv4.tick env ⟨p.conns i, w⟩ = .ok ret t ∧ q.conns i = t.e ∧
        Beside (p.conns i).id t.w q.w := by
  induction l generalizing p with
  | nil =>
      cases hok
      exact .inl ⟨rfl, .refl _ _⟩
  | cons j l ih =>
      obtain ⟨hj, hl⟩ := List.nodup_cons.mp hl
      obtain ⟨again, r, htick, hrest⟩ := bind_eq_ok.mp hok
      obtain ⟨t, hrun, rfl⟩ := zoom_eq_ok.mp htick
      have hown : Own (p.ctx j) t := tick_own hrun
      have hnum' : (setCtx j p t).table.Numbered := by
        rw [table_setCtx]
        exact hnum.set hown.id
      have hlast : ((q.conns i = (setCtx j p t).conns i ∧
            Beside ((setCtx j p t).conns i).id t.w q.w) ∨
          i ∈ l ∧ ∃ w ret u, Beside ((setCtx j p t).conns i).id t.w w ∧
            Tcpv4.tick env ⟨(setCtx j p t).conns i, w⟩ = .ok ret u ∧ q.conns i = u.e ∧
            Beside ((setCtx j p t).conns i).id u.w q.w) := by
        cases again with
        | none => exact ih hl hnum' hrest
        | some ret =>
            cases hrest
            exact .inl ⟨rfl, .refl _ _⟩
      by_cases hij : i = j
      · subst hij
        -- The rest of the loop does not come back.
        obtain ⟨hconn, hlog⟩ := hlast.resolve_right fun h => hj h.1
        rw [setCtx_conns_self] at hconn hlog
        rw [hown.id] at hlog
        exact .inr ⟨List.mem_cons_self, p.w, again, t, .refl _ _, hrun, hconn, hlog⟩
      · rw [setCtx_conns_of_ne p t hij] at hlast
        have hside : Beside (p.conns i).id p.w t.w := hown.beside (hnum.id_ne hn (Ne.symm hij))
        rcases hlast with ⟨hconn, hlog⟩ | ⟨hi, w, ret, u, hbefore, hrun, hconn, hafter⟩
        · exact .inl ⟨hconn, hside.trans hlog⟩
        · exact .inr ⟨List.mem_cons_of_mem j hi, w, ret, u, hside.trans hbefore, hrun, hconn,
            hafter⟩

theorem run_encounter {expired : Bool} {ret : Status} (hn : n < 2 ^ 16)
    (hnum : p.table.Numbered) (hok : run env expired p = .ok ret q) :
    Encounter env p i (.run expired) q := by
  unfold run at hok
  cases expired with
  | false =>
      cases hok
      exact .pass rfl (.refl _ _)
  | true =>
      have hnum' : ({ p with iss := p.iss + 1 } : Processor D H n).table.Numbered := hnum
      rcases tickFrom_encounter (i := i) (List.nodup_finRange n) hn hnum' hok with
        ⟨hconn, hlog⟩ | ⟨-, w, ret, t, hbefore, hrun, hconn, hafter⟩
      · exact .pass hconn hlog
      · exact .tick hbefore hrun hconn hafter

theorem acceptSyn_encounter {inc : Incoming} {ret : Status} (hn : n < 2 ^ 16)
    (hnum : p.table.Numbered) (hdemux : p.demux inc = none) (hsyn : inc.ctlIs tcpSyn = true)
    (hlisten : inc.hdr.destport ∈ p.listenports) (hok : acceptSyn env inc p = .ok ret q) :
    Encounter env p i (.process inc) q := by
  unfold acceptSyn at hok
  rw [bind_gets_id] at hok
  cases hvacant : p.vacant with
  | none =>
      rw [hvacant] at hok
      cases hok
      exact .pass rfl (.refl _ _)
  | some j =>
      rw [hvacant] at hok
      obtain ⟨out, r, hprep, hrest⟩ := bind_eq_ok.mp hok
      obtain ⟨w, hout, rfl⟩ := zoom_eq_ok.mp hprep
      cases out with
      | error ret =>
          cases hrest
          exact .pass rfl (prepareTo_beside hout)
      | ok outdata =>
          obtain ⟨t, hrun, rfl⟩ := zoom_eq_ok.mp hrest
          by_cases hij : i = j
          · subst hij
            exact .accept hdemux hsyn hlisten hvacant (prepareTo_beside hout) hrun
          · refine .pass (setCtx_conns_of_ne _ _ hij) ?_
            have hown : Own (({ p with w := w } : Processor D H n).ctx j) t := openSynRcvd_own hrun
            exact (prepareTo_beside hout).trans (hown.beside (hnum.id_ne hn (Ne.symm hij)))

theorem process_encounter {inc : Incoming} {ret : Status} (hn : n < 2 ^ 16)
    (hnum : p.table.Numbered) (hok : process env inc p = .ok ret q) :
    Encounter env p i (.process inc) q := by
  unfold process at hok
  rw [bind_gets_id] at hok
  split at hok
  · cases hok
    exact .pass rfl (.refl _ _)
  have hreset : world (reset env inc) p = .ok ret q → Encounter env p i (.process inc) q := by
    intro h
    obtain ⟨w, hrun, rfl⟩ := zoom_eq_ok.mp h
    exact .pass rfl (reset_beside hrun)
  cases hdemux : p.demux inc with
  | some j =>
      rw [hdemux] at hok
      refine onConn_encounter hn hnum hok (fun t => processSegment_own (demux_spec hdemux)) ?_
      intro t hrun
      exact .segment hdemux hrun
  | none =>
      rw [hdemux] at hok
      dsimp only at hok
      split_ifs at hok with hsyn hlisten
      · exact hreset hok
      · exact acceptSyn_encounter hn hnum hdemux (Bool.eq_true_of_not_eq_false hsyn) hlisten hok
      · exact hreset hok

theorem connect_encounter {rhwaddr : Ethernet.Address} {ripaddr : Ipv4.Address} {rport : Port}
    {clock : List UInt64} {ret : Status × Option (Fin n)} (hn : n < 2 ^ 16)
    (hnum : p.table.Numbered) (hok : connect env rhwaddr ripaddr rport clock p = .ok ret q) :
    Encounter env p i (.connect rhwaddr ripaddr rport clock) q := by
  unfold connect at hok
  obtain ⟨out, r, hprep, hok⟩ := bind_eq_ok.mp hok
  obtain ⟨w, hout, rfl⟩ := zoom_eq_ok.mp hprep
  have hside : ∀ id, Beside id p.w w := fun _ => prepareTo_beside hout
  cases out with
  | error ret =>
      cases hok
      exact .pass rfl (hside _)
  | ok outdata =>
      change ((Program.gets id >>= _) : ProcProgram D H n _) _ = _ at hok
      rw [bind_gets_id] at hok
      cases hport : ({ p with w := w } : Processor D H n).localPort clock with
      | none =>
          rw [hport] at hok
          cases hok
      | some lport =>
          rw [hport] at hok
          cases hvacant : ({ p with w := w } : Processor D H n).vacant with
          | none =>
              rw [hvacant] at hok
              cases hok
              exact .pass rfl (hside _)
          | some j =>
              rw [hvacant] at hok
              obtain ⟨ret', r, hlisten, hok⟩ := bind_eq_ok.mp hok
              obtain ⟨w', hregister, rfl⟩ := zoom_eq_ok.mp hlisten
              have hside' : ∀ id, Beside id p.w w' := fun id =>
                (hside id).trans (deviceListen_beside hregister)
              split at hok
              · cases hok
                exact .pass rfl (hside' _)
              obtain ⟨syn, r, hopen, hok⟩ := bind_eq_ok.mp hok
              obtain ⟨t, hrun, rfl⟩ := zoom_eq_ok.mp hopen
              have hown : Own ⟨p.conns j, w'⟩ t := openSynSent_own hrun
              -- A connection whose SYN fails is closed again.
              have hq : q.conns = Function.update p.conns j
                    (if syn = .ok then t.e else { t.e with state := .closed }) ∧
                  ∀ id, Beside id t.w q.w := by
                by_cases hsyn : syn = .ok
                · rw [if_neg (by simp [hsyn])] at hok
                  cases hok
                  rw [if_pos hsyn]
                  exact ⟨rfl, fun id => .refl id _⟩
                · rw [if_pos hsyn] at hok
                  obtain ⟨_, r, hunlisten, hok⟩ := bind_eq_ok.mp hok
                  obtain ⟨w'', hremove, rfl⟩ := zoom_eq_ok.mp hunlisten
                  cases hok
                  rw [if_neg hsyn]
                  refine ⟨by simp [setCtx, ctx], fun id => ?_⟩
                  exact deviceUnlisten_beside hremove
              -- The other connections see events of a connection that is not theirs.
              by_cases hij : i = j
              · subst hij
                refine .connect hport hvacant (hside' _) hrun ?_ (hq.2 _)
                rw [hq.1, Function.update_self]
              · refine .pass (by rw [hq.1, Function.update_of_ne hij]) ?_
                have hbeside : Beside (p.conns i).id w' t.w :=
                  hown.beside (hnum.id_ne hn (Ne.symm hij))
                exact ((hside' _).trans hbeside).trans (hq.2 _)

theorem exec_encounter {op : Op} (hn : n < 2 ^ 16) (hnum : p.table.Numbered)
    (hok : exec env op p = .ok () q) (i : Fin n) : Encounter env p i op q := by
  cases op with
  | listen port =>
      obtain ⟨ret, r, hlisten, hrest⟩ := bind_eq_ok.mp hok
      obtain ⟨w, hregister, rfl⟩ := zoom_eq_ok.mp hlisten
      rcases when_eq_ok.mp hrest with ⟨-, hrest⟩ | ⟨-, rfl⟩
      · cases hrest
        exact .pass rfl (deviceListen_beside hregister)
      · exact .pass rfl (deviceListen_beside hregister)
  | unlisten port =>
      cases hok
      exact .pass rfl (.logged (by simp [Event.owner]) rfl)
  | connect rhwaddr ripaddr rport clock =>
      obtain ⟨ret, r, hrun, hrest⟩ := bind_eq_ok.mp hok
      cases hrest
      exact connect_encounter hn hnum hrun
  | abort id =>
      obtain ⟨ret, r, hrun, hrest⟩ := bind_eq_ok.mp hok
      cases hrest
      exact onId_encounter hn hnum hrun (fun _ _ => abort_own) fun _ _ => .abort
  | close id =>
      obtain ⟨ret, r, hrun, hrest⟩ := bind_eq_ok.mp hok
      cases hrest
      exact onId_encounter hn hnum hrun (fun _ _ => close_own) fun _ _ => .close
  | send id len data off =>
      obtain ⟨ret, r, hrun, hrest⟩ := bind_eq_ok.mp hok
      cases hrest
      unfold send at hrun
      cases hslot : slot? n id with
      | none =>
          rw [hslot] at hrun
          cases hrun
          exact .pass rfl (.refl _ _)
      | some j =>
          rw [hslot] at hrun
          exact onConn_encounter hn hnum hrun (fun _ => send_own) fun _ => .send
  | process inc =>
      obtain ⟨ret, r, hrun, hrest⟩ := bind_eq_ok.mp hok
      cases hrest
      exact process_encounter hn hnum hrun
  | run expired =>
      obtain ⟨ret, r, hrun, hrest⟩ := bind_eq_ok.mp hok
      cases hrest
      exact run_encounter hn hnum hrun

/-! ## Runs -/

theorem Reachable.numbered (hp : Reachable env p) : p.table.Numbered := by
  have hkept : Kept env.handler (fun _ => True) fun _ _ => True :=
    ⟨fun _ => trivial, fun _ _ _ => trivial, fun _ _ => trivial⟩
  exact (hp.each hkept fun _ => trivial).1

theorem ReachableBy.mono {good good' : Processor D H n → Op → Prop}
    (hp : ReachableBy env good p) (h : ∀ p op, good p op → good' p op) :
    ReachableBy env good' p := by
  induction hp with
  | initial hn dev hdl => exact .initial hn dev hdl
  | exec _ hgood hop ih => exact ih.exec (h _ _ hgood) hop

/-- What holds of a new connection, cannot be disturbed by others, and is kept by every
operation that meets the connection, holds of every connection of a run. -/
theorem ReachableBy.every {good : Processor D H n → Op → Prop} {J : Connection → List Event → Prop}
    (hp : ReachableBy env good p) (hinit : ∀ id, J (Connection.initial id) [])
    (hmeet : ∀ {p q : Processor D H n} {op : Op} {i : Fin n}, ReachableBy env good p →
      good p op → Encounter env p i op q → Processor.exec env op p = .ok () q →
      J (p.conns i) p.w.log → J (q.conns i) q.w.log) (i : Fin n) : J (p.conns i) p.w.log := by
  induction hp with
  | initial hn dev hdl => exact hinit _
  | @exec p q op hp hgood hop ih =>
      have hreach := hp.reachable
      exact hmeet hp hgood (exec_encounter hreach.1 hreach.numbered hop i) hop ih

end Processor

end Tulips.Tcpv4
