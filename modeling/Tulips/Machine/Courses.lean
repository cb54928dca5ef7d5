import Tulips.Machine.Runs

/-!
# What an operation does to the table

An operation that returns follows one of a few courses: it runs programs of its
connections, answers with a reset, opens a connection, or stops with a buffer it
has no use for.
-/

namespace Tulips.Tcpv4

open Relation

variable {D H : Type} {n : Nat}

/-- The table after a buffer has been fetched and something been noted. -/
def Table.fetched (T : Table H n) (buf : Nat) (mem : BlockMemory) (writes notes : List Event) :
    Table H n :=
  { T with mem := mem, log := notes ++ (writes ++ .prepare none (some buf) :: T.log) }

namespace Processor

/-- The buffer an operation has fetched is of no use: no reset answers a reset,
there is no slot for a connection, or the device does not listen on its port. -/
inductive Wasted (p : Processor D H n) : Op → List Event → Prop
  | reset {inc : Incoming} (hdemux : p.demux inc = none) (hrst : inc.has tcpRst = true) :
      Wasted p (.process inc) []
  | full {rhwaddr : Ethernet.Address} {ripaddr : Ipv4.Address} {rport : Port}
      {clock : List UInt64} (hvacant : p.vacant = none) :
      Wasted p (.connect rhwaddr ripaddr rport clock) []
  | refused {rhwaddr : Ethernet.Address} {ripaddr : Ipv4.Address} {rport port : Port}
      {clock : List UInt64} {ret : Status} (hret : ret ≠ .ok) :
      Wasted p (.connect rhwaddr ripaddr rport clock) [.listen port ret]

inductive Course (env : Env D H) (p q : Processor D H n) : Op → Prop
  | skip {op : Op} (hq : q.table = p.table) : Course env p q op
  | note {op : Op} {ev : Event} (hev : ev.isNote = true) (howner : ev.owner = none)
      (hq : q.table = { p.table with log := ev :: p.table.log }) : Course env p q op
  | slots {op : Op} (hpath : ReflTransGen (SlotStep env.handler op.labels) p.table q.table) :
      Course env p q op
  | reset {inc : Incoming} {buf : Nat} {mem : BlockMemory} {writes : List Event}
      {frame : List UInt8} {mss : UInt16} {ret : Status}
      (hwrites : ∀ ev ∈ writes, ev = .write none buf)
      (hmem : BlockMemory.SameOff buf p.table.mem mem)
      (hq : q.table = p.table.fetched buf mem writes [.commit none buf frame mss ret]) :
      Course env p q (.process inc)
  | wasted {op : Op} {buf : Nat} {mem : BlockMemory} {writes notes : List Event}
      (hwhy : p.Wasted op notes) (hwrites : ∀ ev ∈ writes, ev = .write none buf)
      (hmem : BlockMemory.SameOff buf p.table.mem mem)
      (hq : q.table = p.table.fetched buf mem writes notes) : Course env p q op
  | opened {op : Op} {peer : Peer} {st : State} {iss : UInt32} {buf : Nat} {mem : BlockMemory}
      {writes notes : List Event} {i : Fin n} {s : Slot H} (hvacant : p.vacant = some i)
      (hwrites : ∀ ev ∈ writes, ev = .write none buf)
      (hnotes : ∀ ev ∈ notes, ∃ port, ev = .listen port .ok)
      (hmem : BlockMemory.SameOff buf p.table.mem mem)
      (hopen : Opened env.handler peer st iss ⟨buf, tcpOffset⟩
        ((p.table.fetched buf mem writes notes).slot i) s)
      (hst : st = .synRcvd ∨ st = .synSent ∧ Replenished s)
      (hq : q.table = (p.table.fetched buf mem writes notes).set i s) : Course env p q op
  /-- The SYN did not go out, or left no buffer behind. -/
  | failed {op : Op} {peer : Peer} {iss : UInt32} {buf : Nat} {mem : BlockMemory}
      {writes notes : List Event} {i : Fin n} {s : Slot H} {port : Port}
      (hvacant : p.vacant = some i) (hwrites : ∀ ev ∈ writes, ev = .write none buf)
      (hnotes : ∀ ev ∈ notes, ∃ port, ev = .listen port .ok)
      (hmem : BlockMemory.SameOff buf p.table.mem mem)
      (hopen : Opened env.handler peer .synSent iss ⟨buf, tcpOffset⟩
        ((p.table.fetched buf mem writes notes).slot i) s)
      (hfail : ¬Replenished s)
      (hq : q.table = (p.table.fetched buf mem writes notes).set i
        ((s.logged (.unlisten port)).moved .closed)) : Course env p q op

variable {env : Env D H} {p q : Processor D H n} {i : Fin n}

/-- The device has no buffer. -/
theorem Course.of_refused {op : Op} {w : World D H} (hhdl : w.hdl = p.w.hdl)
    (hmem : w.mem = p.w.mem) (hlog : w.log = .prepare none none :: p.w.log) :
    Course env p { p with w := w } op := by
  have hnote : (Event.prepare none none).isNote = true := rfl
  apply Course.note hnote rfl
  rw [table_world hhdl, hmem, hlog]
  rfl

/-- A connection's program is a path of its slot. -/
theorem onConn_slots {α : Type} {m : ConnProgram D H α} {a : α} {L : List Label}
    (h : Performs env L (p.ctx i) (m (p.ctx i))) (hok : onConn i m p = .ok a q) :
    ReflTransGen (SlotStep env.handler L) p.table q.table := by
  obtain ⟨t, hrun, rfl⟩ := Program.zoom_eq_ok.mp hok
  rw [hrun] at h
  rw [table_setCtx]
  exact SlotStep.lift h

theorem tickFrom_slots {l : List (Fin n)} {ret : Status} (hok : tickFrom env l p = .ok ret q) :
    ReflTransGen (SlotStep env.handler Label.own) p.table q.table := by
  induction l generalizing p with
  | nil =>
      cases hok
      exact .refl
  | cons i l ih =>
      obtain ⟨again, r, htick, hrest⟩ := Program.bind_eq_ok.mp hok
      have hpath := onConn_slots (tick_performs env fun _ h => h) htick
      cases again with
      | none => exact hpath.trans (ih hrest)
      | some ret =>
          cases hrest
          exact hpath

theorem onId_slots {id : UInt16} {m : ConnProgram D H Status} {ret : Status} {L : List Label}
    (hok : onId id m p = .ok ret q)
    (h : ∀ i t, m (p.ctx i) = .ok ret t → Performs env L (p.ctx i) (m (p.ctx i))) :
    ReflTransGen (SlotStep env.handler L) p.table q.table := by
  unfold onId at hok
  cases hslot : slot? n id with
  | none =>
      rw [hslot] at hok
      cases hok
      exact .refl
  | some i =>
      rw [hslot] at hok
      obtain ⟨t, hrun, -⟩ := Program.zoom_eq_ok.mp hok
      exact onConn_slots (h i t hrun) hok

theorem reset_course {inc : Incoming} {ret : Status} (hdemux : p.demux inc = none)
    (hok : world (reset env inc) p = .ok ret q) : Course env p q (.process inc) := by
  obtain ⟨w', hrun', rfl⟩ := Program.zoom_eq_ok.mp hok
  obtain ⟨ret', w, hrun, hhdl, hout⟩ := reset_cases env inc p.w
  rw [hrun] at hrun'
  cases hrun'
  rcases hout with ⟨hmem, hlog⟩ |
    ⟨buf, writes, hmem, hwrites, ⟨hrst, hlog⟩ | ⟨-, frame, mss, ret', hlog⟩⟩
  · exact .of_refused hhdl hmem hlog
  · exact .wasted (.reset hdemux hrst) hwrites hmem (by rw [table_world hhdl, hlog]; rfl)
  · exact .reset hwrites hmem (by rw [table_world hhdl, hlog]; rfl)

theorem acceptSyn_course {inc : Incoming} {ret : Status} (hok : acceptSyn env inc p = .ok ret q) :
    Course env p q (.process inc) := by
  unfold acceptSyn at hok
  rw [Program.bind_gets_id] at hok
  cases hvacant : p.vacant with
  | none =>
      rw [hvacant] at hok
      cases hok
      exact .skip rfl
  | some i =>
      rw [hvacant] at hok
      obtain ⟨out, r, hfetch, hok⟩ := Program.bind_eq_ok.mp hok
      obtain ⟨w, hhdl, ⟨ret', hprep, hmem, hlog⟩ | ⟨buf, writes, hprep, hmem, hwrites, hlog⟩⟩ :=
        prepareTo_cases env inc.ethSrc inc.ipSrc p.w
      · rw [world_ok hprep] at hfetch
        cases hfetch
        cases hok
        exact .of_refused hhdl hmem hlog
      · rw [world_ok hprep] at hfetch
        cases hfetch
        let r : Processor D H n := { p with w := w }
        have hr : r.table = p.table.fetched buf w.mem writes [] := by
          rw [table_world hhdl, hlog]
          rfl
        obtain ⟨t, hrun, rfl⟩ := Program.zoom_eq_ok.mp hok
        obtain ⟨u, hfault, -⟩ | ⟨u, ret', hrun', hopen⟩ :=
          openSynRcvd_spec env inc p.iss ⟨buf, tcpOffset⟩ (r.ctx i)
        · rw [hfault] at hrun
          cases hrun
        · rw [hrun'] at hrun
          cases hrun
          rw [← slot_table, hr] at hopen
          refine .opened hvacant hwrites (by simp) hmem hopen (.inl rfl) ?_
          rw [table_setCtx, hr]

theorem process_course {inc : Incoming} {ret : Status} (hok : process env inc p = .ok ret q) :
    Course env p q (.process inc) := by
  unfold process at hok
  rw [Program.bind_gets_id] at hok
  split at hok
  · cases hok
    exact .skip rfl
  · cases hdemux : p.demux inc with
    | some i =>
        rw [hdemux] at hok
        exact .slots (onConn_slots
          (processSegment_performs env inc (fun _ h => h) (demux_spec hdemux)) hok)
    | none =>
        rw [hdemux] at hok
        dsimp only at hok
        split_ifs at hok
        · exact reset_course hdemux hok
        · exact acceptSyn_course hok
        · exact reset_course hdemux hok

theorem connect_course {rhwaddr : Ethernet.Address} {ripaddr : Ipv4.Address} {rport : Port}
    {clock : List UInt64} {ret : Status × Option (Fin n)}
    (hok : connect env rhwaddr ripaddr rport clock p = .ok ret q) :
    Course env p q (.connect rhwaddr ripaddr rport clock) := by
  unfold connect at hok
  obtain ⟨w, hhdl, ⟨ret', hprep, hmem, hlog⟩ | ⟨buf, writes, hprep, hmem, hwrites, hlog⟩⟩ :=
    prepareTo_cases env rhwaddr ripaddr p.w
  · rw [Program.bind_of_ok (world_ok hprep)] at hok
    cases hok
    exact .of_refused hhdl hmem hlog
  · rw [Program.bind_of_ok (world_ok hprep)] at hok
    let r : Processor D H n := { p with w := w }
    have hr : r.table = p.table.fetched buf w.mem writes [] := by
      rw [table_world hhdl, hlog]
      rfl
    change (Program.gets id >>= _ : ProcProgram D H n _) r = _ at hok
    rw [Program.bind_gets_id] at hok
    cases hport : r.localPort clock with
    | none =>
        rw [hport] at hok
        cases hok
    | some lport =>
        rw [hport] at hok
        cases hvacant : r.vacant with
        | none =>
            rw [hvacant] at hok
            injection hok with _ hq
            exact .wasted (.full hvacant) hwrites hmem (hq ▸ hr)
        | some i =>
            rw [hvacant] at hok
            let answer := env.device.listen w.dev lport
            let x : Processor D H n :=
              { r with w := { w with dev := answer.2, log := .listen lport answer.1 :: w.log } }
            have hx : x.table = p.table.fetched buf w.mem writes [.listen lport answer.1] := by
              have hnoted : x.table = { r.table with log := .listen lport answer.1 :: w.log } := rfl
              rw [hnoted, hr, hlog]
              rfl
            obtain ⟨ret', x', hlisten, hok⟩ := Program.bind_eq_ok.mp hok
            have hlisten' : world (deviceListen env lport) r = .ok answer.1 x := rfl
            rw [hlisten'] at hlisten
            cases hlisten
            split at hok
            · next hret =>
                injection hok with _ hq
                exact .wasted (.refused hret) hwrites hmem (hq ▸ hx)
            · next hret =>
                have hnotes : ∀ ev ∈ [Event.listen lport answer.1],
                    ∃ port, ev = .listen port .ok := by
                  intro ev hev
                  rw [List.mem_singleton.mp hev, not_not.mp hret]
                  exact ⟨lport, rfl⟩
                obtain ⟨syn, y, hconn, hok⟩ := Program.bind_eq_ok.mp hok
                obtain ⟨t, hrun, rfl⟩ := Program.zoom_eq_ok.mp hconn
                obtain ⟨u, hfault, -⟩ | ⟨u, ret', hrun', hopen, hfull⟩ :=
                  openSynSent_spec env rhwaddr ripaddr lport rport r.iss ⟨buf, tcpOffset⟩ (x.ctx i)
                · rw [hfault] at hrun
                  cases hrun
                · rw [hrun'] at hrun
                  cases hrun
                  rw [← slot_table, hx] at hopen
                  by_cases hsyn : syn = .ok
                  · rw [if_neg (by simp [hsyn])] at hok
                    cases hok
                    refine .opened hvacant hwrites hnotes hmem hopen
                      (.inr ⟨rfl, hfull.mp hsyn⟩) ?_
                    rw [table_setCtx, hx]
                  · rw [if_pos hsyn] at hok
                    cases hok
                    refine .failed hvacant hwrites hnotes hmem hopen
                      (fun hrep => hsyn (hfull.mpr hrep)) (show _ = Table.set _ _
                        ((Slot.logged _ (.unlisten lport)).moved .closed) from ?_)
                    -- The connection is closed again: one step together with the opening.
                    rw [← hx, ← Table.set_set (s := t.slot)]
                    simp only [Processor.table, Processor.setCtx, Table.set, Slot.logged,
                      Slot.moved, Ctx.slot]
                    congr 1
                    funext j
                    by_cases h : j = i
                    · subst h; simp [Connection.core, Processor.ctx]
                    · simp [h, Processor.ctx]

/-- Every operation that returns follows one of the courses. -/
theorem exec_course {op : Op} (hok : exec env op p = .ok () q) : Course env p q op := by
  cases op with
  | listen port =>
      obtain ⟨ret, r, hlisten, hrest⟩ := Program.bind_eq_ok.mp hok
      cases hlisten
      let answer := env.device.listen p.w.dev port
      refine .note (show (Event.listen port answer.1).isNote = true from rfl) rfl ?_
      unfold Program.when at hrest
      split at hrest <;> cases hrest <;> rfl
  | unlisten port =>
      cases hok
      exact .note (show (Event.unlisten port).isNote = true from rfl) rfl rfl
  | connect rhwaddr ripaddr rport clock =>
      obtain ⟨ret, r, hrun, hrest⟩ := Program.bind_eq_ok.mp hok
      cases hrest
      exact connect_course hrun
  | abort id =>
      obtain ⟨ret, r, hrun, hrest⟩ := Program.bind_eq_ok.mp hok
      cases hrest
      refine .slots (onId_slots hrun fun i t hok => ?_)
      refine abort_performs env (by simp [Op.labels]) (by simp [Op.labels]) fun hsdat => ?_
      obtain ⟨u, hnone⟩ := abort_none env (s := p.ctx i) hsdat
      rw [hok] at hnone
      cases hnone
  | close id =>
      obtain ⟨ret, r, hrun, hrest⟩ := Program.bind_eq_ok.mp hok
      cases hrest
      exact .slots (onId_slots hrun fun i t _ => close_performs env fun _ h => h)
  | send id len data off =>
      obtain ⟨ret, r, hrun, hrest⟩ := Program.bind_eq_ok.mp hok
      cases hrest
      unfold send at hrun
      cases hslot : slot? n id with
      | none =>
          rw [hslot] at hrun
          cases hrun
          exact .skip rfl
      | some i =>
          rw [hslot] at hrun
          exact .slots (onConn_slots (send_performs env len data off fun _ h => h) hrun)
  | process inc =>
      obtain ⟨ret, r, hrun, hrest⟩ := Program.bind_eq_ok.mp hok
      cases hrest
      exact process_course hrun
  | run expired =>
      obtain ⟨ret, r, hrun, hrest⟩ := Program.bind_eq_ok.mp hok
      cases hrest
      unfold run at hrun
      cases expired with
      | false =>
          cases hrun
          exact .skip rfl
      | true =>
          have hpath := tickFrom_slots (p := { p with iss := p.iss + 1 }) hrun
          exact .slots hpath

end Processor

end Tulips.Tcpv4
