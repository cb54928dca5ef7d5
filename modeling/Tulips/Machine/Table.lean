import Tulips.Machine.Opening

/-!
# The table of connections as an abstract machine

The slots of the table share the event handler, the memory and the history. A
step is an act of one slot, or something the processor does for none of them.
Every operation of the processor is a path of such steps.
-/

namespace Tulips.Tcpv4

open Relation

structure Table (H : Type) (n : Nat) where
  cores : Fin n → Core
  hdl : H
  mem : BlockMemory
  log : List Event

variable {D H : Type} {n : Nat}

namespace Table

def slot (T : Table H n) (i : Fin n) : Slot H where
  toCore := T.cores i
  hdl := T.hdl
  mem := T.mem
  log := T.log

/-- The table after slot `i` has become `s`. -/
def set (T : Table H n) (i : Fin n) (s : Slot H) : Table H n where
  cores := Function.update T.cores i s.toCore
  hdl := s.hdl
  mem := s.mem
  log := s.log

variable {T : Table H n} {i j : Fin n} {s t : Slot H}

@[simp] theorem slot_set_self : (T.set i s).slot i = s := by
  simp [slot, set]

@[simp] theorem set_slot : T.set i (T.slot i) = T := by
  simp [slot, set]

@[simp] theorem set_set : (T.set i s).set i t = T.set i t := by
  simp [set]

end Table

def Processor.table (p : Processor D H n) : Table H n where
  cores i := (p.conns i).core
  hdl := p.w.hdl
  mem := p.w.mem
  log := p.w.log

theorem Processor.slot_table (p : Processor D H n) (i : Fin n) :
    p.table.slot i = (p.ctx i).slot := rfl

theorem Processor.table_setCtx (p : Processor D H n) (i : Fin n) (s : Ctx D H) :
    (Processor.setCtx i p s).table = p.table.set i s.slot := by
  simp only [table, setCtx, Table.set, Ctx.slot]
  congr 1
  funext j
  by_cases h : j = i
  · subst h; simp
  · simp [h]

@[simp] theorem Processor.setCtx_conns_self (p : Processor D H n) (i : Fin n) (s : Ctx D H) :
    (Processor.setCtx i p s).conns i = s.e :=
  Function.update_self _ _ _

theorem Processor.ctx_setCtx (p : Processor D H n) (i : Fin n) (s : Ctx D H) :
    (Processor.setCtx i p s).ctx i = s := by
  simp [Processor.setCtx, Processor.ctx]

theorem Processor.setCtx_conns_of_ne (p : Processor D H n) {i j : Fin n} (s : Ctx D H)
    (h : j ≠ i) : (Processor.setCtx i p s).conns j = p.conns j :=
  Function.update_of_ne h _ _

/-! ## Steps -/

/-- What the processor does for no connection. -/
inductive WorldAct : Table H n → Table H n → Prop
  | note {T : Table H n} {ev : Event} (hev : ev.isNote = true) (howner : ev.owner = none) :
      WorldAct T { T with log := ev :: T.log }
  /-- A buffer is fetched. -/
  | fetch {T : Table H n} {buf : Nat} {mem : BlockMemory} {writes : List Event}
      (hwrites : ∀ ev ∈ writes, ev = .write none buf)
      (hmem : BlockMemory.SameOff buf T.mem mem) :
      WorldAct T { T with mem := mem, log := writes ++ .prepare none (some buf) :: T.log }
  /-- A reset leaves from a buffer of its own. -/
  | reset {T : Table H n} {buf : Nat} {mem : BlockMemory} {writes : List Event}
      {frame : List UInt8} {mss : UInt16} {ret : Status}
      (hwrites : ∀ ev ∈ writes, ev = .write none buf)
      (hmem : BlockMemory.SameOff buf T.mem mem) :
      WorldAct T { T with mem := mem, log := .commit none buf frame mss ret ::
        (writes ++ .prepare none (some buf) :: T.log) }

/-- A step of the table, with the kinds of acts allowed to its slots. -/
inductive TableStep (handler : EventHandler H) (L : List Label) : Table H n → Table H n → Prop
  | slot {T : Table H n} {i : Fin n} {l : Label} {s : Slot H} (hl : l ∈ L)
      (hact : Act handler l (T.slot i) s) : TableStep handler L T (T.set i s)
  | world {T T' : Table H n} (hact : WorldAct T T') : TableStep handler L T T'

/-- The kinds of acts an operation performs on the connections that exist. -/
def Processor.Op.labels : Processor.Op → List Label
  | .abort _ => [.note, .abort]
  | .process _ => Label.segment
  | _ => Label.own

def Label.opening : List Label := [.create, .createFailed]

/-- What an operation does: steps that open no connection, and at the end
perhaps one that does, in a slot that may be taken. -/
def Outcome (handler : EventHandler H) (L : List Label) (may : Fin n → Prop)
    (T T' : Table H n) : Prop :=
  ∃ U, ReflTransGen (TableStep handler L) T U ∧
    (T' = U ∨ ∃ i l s, may i ∧ l ∈ Label.opening ∧ Act handler l (U.slot i) s ∧ T' = U.set i s)

/-- A step of one of the slots. -/
def SlotStep (handler : EventHandler H) (L : List Label) (T T' : Table H n) : Prop :=
  ∃ i l s, l ∈ L ∧ Act handler l (T.slot i) s ∧ T' = T.set i s

theorem SlotStep.step {handler : EventHandler H} {L : List Label} {T T' : Table H n}
    (h : SlotStep handler L T T') : TableStep handler L T T' := by
  obtain ⟨i, l, s, hl, hact, rfl⟩ := h
  exact .slot hl hact

/-- A path of one slot is a path of the table. -/
theorem SlotStep.lift {handler : EventHandler H} {L : List Label} {T : Table H n} {i : Fin n}
    {s : Slot H} (h : ReflTransGen (Step handler L) (T.slot i) s) :
    ReflTransGen (SlotStep handler L) T (T.set i s) := by
  induction h with
  | refl => rw [Table.set_slot]
  | @tail u v _ hlast ih =>
      obtain ⟨l, hl, hact⟩ := hlast
      refine ih.tail ⟨i, l, v, hl, ?_, Table.set_set.symm⟩
      rwa [Table.slot_set_self]

theorem TableStep.lift {handler : EventHandler H} {L : List Label} {T : Table H n} {i : Fin n}
    {s : Slot H} (h : ReflTransGen (Step handler L) (T.slot i) s) :
    ReflTransGen (TableStep handler L) T (T.set i s) :=
  ReflTransGen.mono (fun _ _ => SlotStep.step) _ _ (SlotStep.lift h)

/-- Why the processor cannot go on. -/
def TableStuck (f : Fault) (T T' : Table H n) : Prop :=
  match f with
  | .nullPointer => ∃ i t, Stuck .nullPointer (T.slot i) t ∧ t.log = T'.log
  | .noSegment => ∃ id iss buf synced, T'.log = synced ++ .create id iss buf true :: T.log ∧
      ∀ ev ∈ synced, ∃ irs, ev = .synced id irs
  | .clockExhausted => T' = T

/-- A slot is vacant if it is closed or, when none is, waits in TIME_WAIT at
least as long as any other. -/
def Processor.Vacant (p : Processor D H n) (i : Fin n) : Prop :=
  (p.conns i).state = .closed ∨
    (∀ j, (p.conns j).state ≠ .closed) ∧ (p.conns i).state = .timeWait ∧
      ∀ j, (p.conns j).state = .timeWait → (p.conns j).timer ≤ (p.conns i).timer

theorem Processor.Vacant.state {p : Processor D H n} {i : Fin n} (h : p.Vacant i) :
    (p.conns i).state = .closed ∨ (p.conns i).state = .timeWait :=
  h.imp_right fun h => h.2.1

/-- The result of a run from `p` is an outcome of the machine, or a fault the
machine explains. -/
def Executes {α : Type} (env : Env D H) (L : List Label) (p : Processor D H n) :
    EStateM.Result Fault (Processor D H n) α → Prop
  | .ok _ q => Outcome env.handler L p.Vacant p.table q.table
  | .error f q => ∃ T, ReflTransGen (TableStep env.handler L) p.table T ∧
      TableStuck f T q.table

/-- A run that opens no connection. -/
abbrev Quiet {α : Type} (env : Env D H) (L : List Label) (p : Processor D H n)
    (r : EStateM.Result Fault (Processor D H n) α) : Prop :=
  Program.Follows Processor.table (TableStep env.handler L) TableStuck p r

/-! ## Operations of the processor -/

section Operations

variable {env : Env D H} {p : Processor D H n} {α : Type} {L : List Label}

theorem onConn_ok {i : Fin n} {m : ConnProgram D H α} {t : Ctx D H} {a : α}
    (h : m (p.ctx i) = .ok a t) : Processor.onConn i m p = .ok a (Processor.setCtx i p t) :=
  Program.zoom_of_ok h

theorem onConn_error {i : Fin n} {m : ConnProgram D H α} {t : Ctx D H} {f : Fault}
    (h : m (p.ctx i) = .error f t) :
    Processor.onConn i m p = .error f (Processor.setCtx i p t) :=
  Program.zoom_of_error h

theorem world_ok {m : WorldProgram D H α} {w : World D H} {a : α} (h : m p.w = .ok a w) :
    Processor.world m p = .ok a { p with w := w } :=
  Program.zoom_of_ok h

/-- A connection's program runs in the table as it runs alone. -/
theorem Quiet.onConn {i : Fin n} {m : ConnProgram D H α}
    (h : Performs env L (p.ctx i) (m (p.ctx i))) :
    Quiet env L p (Processor.onConn i m p) := by
  cases hm : m (p.ctx i) with
  | ok a t =>
      rw [hm] at h
      rw [onConn_ok hm]
      show ReflTransGen _ p.table (Processor.setCtx i p t).table
      rw [Processor.table_setCtx]
      exact TableStep.lift h
  | error f t =>
      rw [hm] at h
      rw [onConn_error hm]
      obtain ⟨u, hpath, hstuck⟩ := h
      refine ⟨p.table.set i u, TableStep.lift hpath, ?_⟩
      cases f with
      | nullPointer => exact ⟨i, t.slot, by rw [Table.slot_set_self]; exact hstuck, rfl⟩
      | noSegment => exact absurd hstuck id
      | clockExhausted => exact absurd hstuck id

/-! ### Choosing a slot -/

/-- One round of the search for the connection that has waited the longest. -/
theorem oldestWaiting_step (p : Processor D H n) (best : Option (Fin n)) (j : Fin n) :
    let next := if (p.conns j).state = .timeWait then
        match best with
        | none => some j
        | some b => if (p.conns b).timer < (p.conns j).timer then some j else some b
      else best
    (∀ b, best = some b → (p.conns b).state = .timeWait) →
      (∀ c, next = some c → (p.conns c).state = .timeWait) ∧
      (∀ b, best = some b → ∃ c, next = some c ∧ (p.conns b).timer ≤ (p.conns c).timer) ∧
      ((p.conns j).state = .timeWait →
        ∃ c, next = some c ∧ (p.conns j).timer ≤ (p.conns c).timer) := by
  intro next hbest
  by_cases hj : (p.conns j).state = .timeWait
  · cases best with
    | none =>
        have hnext : next = some j := if_pos hj
        rw [hnext]
        exact ⟨by rintro c ⟨⟩; exact hj, by rintro b ⟨⟩, fun _ => ⟨j, rfl, UInt8.le_refl _⟩⟩
    | some b =>
        by_cases hlt : (p.conns b).timer < (p.conns j).timer
        · have hnext : next = some j := (if_pos hj).trans (if_pos hlt)
          rw [hnext]
          refine ⟨by rintro c ⟨⟩; exact hj, ?_, fun _ => ⟨j, rfl, UInt8.le_refl _⟩⟩
          rintro b ⟨⟩
          exact ⟨j, rfl, UInt8.le_of_lt hlt⟩
        · have hnext : next = some b := (if_pos hj).trans (if_neg hlt)
          rw [hnext]
          refine ⟨by rintro c ⟨⟩; exact hbest b rfl, ?_, fun _ => ⟨b, rfl, UInt8.not_lt.mp hlt⟩⟩
          rintro b ⟨⟩
          exact ⟨b, rfl, UInt8.le_refl _⟩
  · have hnext : next = best := if_neg hj
    rw [hnext]
    exact ⟨hbest, fun b hb => ⟨b, hb, UInt8.le_refl _⟩, fun h => absurd h hj⟩

theorem oldestWaiting_spec {i : Fin n} (h : p.oldestWaiting = some i) :
    (p.conns i).state = .timeWait ∧
      ∀ j, (p.conns j).state = .timeWait → (p.conns j).timer ≤ (p.conns i).timer := by
  have hfold : ∀ (l : List (Fin n)) (best : Option (Fin n)),
      (∀ b, best = some b → (p.conns b).state = .timeWait) →
      ∀ c, l.foldl (fun best i =>
        if (p.conns i).state = .timeWait then
          match best with
          | none => some i
          | some b => if (p.conns b).timer < (p.conns i).timer then some i else some b
        else best) best = some c →
      (p.conns c).state = .timeWait ∧
        (∀ b, best = some b → (p.conns b).timer ≤ (p.conns c).timer) ∧
        ∀ j ∈ l, (p.conns j).state = .timeWait → (p.conns j).timer ≤ (p.conns c).timer := by
    intro l
    induction l with
    | nil =>
        rintro best hbest c rfl
        exact ⟨hbest c rfl, by rintro b ⟨⟩; exact UInt8.le_refl _, by simp⟩
    | cons j l ih =>
        intro best hbest c hc
        obtain ⟨hnext, hkeep, htake⟩ := oldestWaiting_step p best j hbest
        obtain ⟨hstate, hup, hall⟩ := ih _ hnext c hc
        refine ⟨hstate, fun b hb => ?_, fun k hk hwait => ?_⟩
        · obtain ⟨d, hd, hle⟩ := hkeep b hb
          exact UInt8.le_trans hle (hup d hd)
        · rcases List.mem_cons.mp hk with rfl | hk
          · obtain ⟨d, hd, hle⟩ := htake hwait
            exact UInt8.le_trans hle (hup d hd)
          · exact hall k hk hwait
  obtain ⟨hstate, -, hall⟩ := hfold (List.finRange n) none (by simp) i h
  exact ⟨hstate, fun j => hall j (List.mem_finRange j)⟩

/-- The slot chosen for a new connection is vacant. -/
theorem vacant_spec {i : Fin n} (h : p.vacant = some i) : p.Vacant i := by
  unfold Processor.vacant at h
  cases hfind : (List.finRange n).find? fun i => (p.conns i).state == .closed with
  | some j =>
      rw [hfind] at h
      cases h
      exact .inl (by simpa using List.find?_some hfind)
  | none =>
      rw [hfind] at h
      refine .inr ⟨fun j => ?_, oldestWaiting_spec h⟩
      simpa using List.find?_eq_none.mp hfind j (List.mem_finRange j)

theorem demux_spec {inc : Incoming} {i : Fin n} (h : p.demux inc = some i) :
    (p.conns i).state ≠ .closed := by
  have := List.find?_some h
  simp only [Bool.and_eq_true, bne_iff_ne] at this
  exact this.1.1.1

/-! ### Fetching a buffer -/

/-- Preparing a buffer for no connection in particular. -/
theorem prepareTo_cases (env : Env D H) (rhwaddr : Ethernet.Address) (ripaddr : Ipv4.Address)
    (w : World D H) :
    ∃ w', w'.hdl = w.hdl ∧
      ((∃ ret, Processor.prepareTo env rhwaddr ripaddr w = .ok (.error ret) w' ∧
          w'.mem = w.mem ∧ w'.log = .prepare none none :: w.log) ∨
        ∃ buf writes, Processor.prepareTo env rhwaddr ripaddr w =
            .ok (.ok ⟨buf, tcpOffset⟩) w' ∧
          BlockMemory.SameOff buf w.mem w'.mem ∧ (∀ ev ∈ writes, ev = .write none buf) ∧
          w'.log = writes ++ .prepare none (some buf) :: w.log) :=
  prepare_cases env none { w with
    ip4to := { w.ip4to with proto := Ipv4.protoTcp, destAddress := ripaddr }
    ethto := { w.ethto with destAddress := rhwaddr } }

theorem table_world {w : World D H} (hhdl : w.hdl = p.w.hdl) :
    ({ p with w := w } : Processor D H n).table =
      { p.table with mem := w.mem, log := w.log } := by
  simp only [Processor.table, hhdl]

theorem WorldAct.of_note {w : World D H} (ev : Event) (hev : ev.isNote = true)
    (howner : ev.owner = none) (hhdl : w.hdl = p.w.hdl) (hmem : w.mem = p.w.mem)
    (hlog : w.log = ev :: p.w.log) :
    WorldAct p.table ({ p with w := w } : Processor D H n).table := by
  rw [table_world hhdl, hmem, hlog]
  exact .note hev howner

theorem Quiet.pure (a : α) : Quiet env L p ((Pure.pure a : ProcProgram D H n α) p) :=
  Program.Follows.pure a p

theorem Quiet.executes {r : EStateM.Result Fault (Processor D H n) α} (h : Quiet env L p r) :
    Executes env L p r := by
  cases r with
  | ok a q => exact ⟨q.table, h, .inl rfl⟩
  | error f q => exact h

theorem Executes.pure (a : α) : Executes env L p ((Pure.pure a : ProcProgram D H n α) p) :=
  (Quiet.pure a).executes

theorem Executes.ite {c : Prop} [Decidable c] {m m' : ProcProgram D H n α}
    (hm : c → Executes env L p (m p)) (hm' : ¬c → Executes env L p (m' p)) :
    Executes env L p ((if c then m else m') p) := by
  split
  · next h => exact hm h
  · next h => exact hm' h

/-- A step for no connection, and what follows. -/
theorem Executes.bind_world {β : Type} {m : ProcProgram D H n α} {f : α → ProcProgram D H n β}
    {q : Processor D H n} {a : α} (hm : m p = .ok a q) (hconns : q.conns = p.conns)
    (hact : WorldAct p.table q.table) (hf : Executes env L q (f a q)) :
    Executes env L p ((m >>= f) p) := by
  have hvacant : q.Vacant = p.Vacant := by
    unfold Processor.Vacant
    rw [hconns]
  rw [Program.bind_of_ok hm]
  cases hr : f a q with
  | ok b r =>
      rw [hr] at hf
      obtain ⟨U, hpath, hlast⟩ := hf
      exact ⟨U, hpath.head (.world hact), hvacant ▸ hlast⟩
  | error e r =>
      rw [hr] at hf
      obtain ⟨U, hpath, hstuck⟩ := hf
      exact ⟨U, hpath.head (.world hact), hstuck⟩

/-- A run whose value is dropped. -/
theorem Executes.unit {m : ProcProgram D H n α} (h : Executes env L p (m p)) :
    Executes env L p ((m >>= fun _ => Pure.pure ()) p) := by
  rw [Program.bind_apply]
  cases hm : m p with
  | ok a q => rw [hm] at h; exact h
  | error e q => rw [hm] at h; exact h

/-- What `Processor::reset` does with the buffer it prepares: none answers a reset,
and the buffer is kept. -/
theorem reset_cases (env : Env D H) (inc : Incoming) (w : World D H) :
    ∃ ret w', Processor.reset env inc w = .ok ret w' ∧ w'.hdl = w.hdl ∧
      (w'.mem = w.mem ∧ w'.log = .prepare none none :: w.log ∨
        ∃ buf writes, BlockMemory.SameOff buf w.mem w'.mem ∧
          (∀ ev ∈ writes, ev = .write none buf) ∧
          (inc.has tcpRst = true ∧ w'.log = writes ++ .prepare none (some buf) :: w.log ∨
            inc.has tcpRst = false ∧ ∃ frame mss ret', w'.log =
              .commit none buf frame mss ret' ::
                (writes ++ .prepare none (some buf) :: w.log))) := by
  obtain ⟨w₀, hhdl, ⟨ret, hok, hmem, hlog⟩ | ⟨buf, writes, hok, hmem, hwrites, hlog⟩⟩ :=
    prepareTo_cases env inc.ethSrc inc.ipSrc w
  · refine ⟨ret.val, w₀, ?_, hhdl, .inl ⟨hmem, hlog⟩⟩
    unfold Processor.reset
    rw [Program.bind_of_ok hok]
    rfl
  -- A reset is never answered, but its buffer has been prepared by then.
  · by_cases hrst : inc.has tcpRst = true
    · refine ⟨.ok, w₀, ?_, hhdl, .inr ⟨buf, writes, hmem, hwrites, .inl ⟨hrst, hlog⟩⟩⟩
      unfold Processor.reset
      rw [Program.bind_of_ok hok]
      simp only [hrst]
      rfl
    · obtain ⟨w₁, h₁, -, hw₁⟩ := modifyHeader_some none (⟨buf, tcpOffset⟩ : Ptr) (fun h =>
        { h with
          flags := tcpRst
          offset := 5
          seqno := inc.hdr.ackno
          ackno := htonl (inc.seqno + 1)
          srcport := inc.hdr.destport
          destport := inc.hdr.srcport }) w₀
      obtain ⟨w₃, w₂, ret, frame, h₃, hw₂, hhdl₃, hmem₃, hlog₃, -, -⟩ :=
        sendFrame_some env none inc.ipSrc (UInt32.ofNat headerLen) env.initialMss
          ⟨buf, tcpOffset⟩ w₁
      obtain ⟨ev₁, hlog₁, hev₁⟩ := hw₁.log
      obtain ⟨ev₂, hlog₂, hev₂⟩ := hw₂.log
      refine ⟨ret, w₃, ?_, hhdl₃.trans (hw₂.hdl.trans (hw₁.hdl.trans hhdl)),
        .inr ⟨buf, ev₂ ++ (ev₁ ++ writes), ?_, ?_, .inr ⟨by simpa using hrst, frame,
          env.initialMss, ret, ?_⟩⟩⟩
      · unfold Processor.reset
        rw [Program.bind_of_ok hok]
        simp only [hrst]
        rw [if_neg (by simp), Program.bind_of_ok h₁, h₃]
      · rw [hmem₃]
        exact (hmem.trans hw₁.mem.sameOff).trans hw₂.mem.sameOff
      · intro ev hev
        rcases List.mem_append.mp hev with h | h
        · exact hev₂ ev h
        · rcases List.mem_append.mp h with h | h
          · exact hev₁ ev h
          · exact hwrites ev h
      · rw [hlog₃, hlog₂, hlog₁, hlog]
        simp

theorem reset_quiet (env : Env D H) (inc : Incoming) :
    Quiet env L p (Processor.world (Processor.reset env inc) p) := by
  obtain ⟨ret, w, hrun, hhdl, ⟨hmem, hlog⟩ | ⟨buf, writes, hmem, hwrites, hout⟩⟩ :=
    reset_cases env inc p.w
  · rw [world_ok hrun]
    exact .single (.world (.of_note _ rfl rfl hhdl hmem hlog))
  · rw [world_ok hrun]
    refine .single (.world ?_)
    rw [table_world hhdl]
    rcases hout with ⟨-, hlog⟩ | ⟨-, frame, mss, ret', hlog⟩
    · rw [hlog]
      exact .fetch hwrites hmem
    · rw [hlog]
      exact .reset hwrites hmem

/-- A segment whose checksum is right, or is not looked at. -/
def Env.Verifies (env : Env D H) (inc : Incoming) : Prop :=
  env.config.disableChecksumCheck = true ∨
    tcpChecksum inc.ipSrc inc.ipDst inc.len inc.data = 0xffff

/-- A segment for a connection of the table is processed there. -/
theorem Processor.process_of_demux {inc : Incoming} {i : Fin n} {ret : Status}
    {q : Processor D H n} (hsum : env.Verifies inc) (hdemux : p.demux inc = some i)
    (hok : process env inc p = .ok ret q) :
    ∃ t, processSegment env inc (p.ctx i) = .ok ret t ∧ setCtx i p t = q := by
  unfold process at hok
  rw [Program.bind_gets_id, if_neg, hdemux] at hok
  · exact Program.zoom_eq_ok.mp hok
  · rintro ⟨hcheck, hwrong⟩
    rcases hsum with h | h
    · rw [h] at hcheck
      cases hcheck
    · exact hwrong h

/-! ### The operations -/

theorem Processor.acceptSyn_executes (env : Env D H) (inc : Incoming) :
    Executes env L p (acceptSyn env inc p) := by
  unfold acceptSyn
  rw [Program.bind_gets_id]
  cases hvacant : p.vacant with
  | none => exact .pure _
  | some i =>
      obtain ⟨w, hhdl, ⟨ret, hok, hmem, hlog⟩ | ⟨buf, writes, hok, hmem, hwrites, hlog⟩⟩ :=
        prepareTo_cases env inc.ethSrc inc.ipSrc p.w
      · exact Executes.bind_world (world_ok hok) rfl (.of_note _ rfl rfl hhdl hmem hlog) (.pure _)
      · let q : Processor D H n := { p with w := w }
        have hfetch : WorldAct p.table q.table := by
          rw [table_world hhdl, hlog]
          exact .fetch hwrites hmem
        refine Executes.bind_world (world_ok hok) rfl hfetch ?_
        rcases openSynRcvd_spec env inc p.iss ⟨buf, tcpOffset⟩ (q.ctx i) with
          ⟨t, hrun, hleft⟩ | ⟨t, ret, hrun, hopen⟩
        · show Executes env L q (Processor.onConn i _ q)
          rw [onConn_error hrun]
          exact ⟨_, .refl, _, _, _, [_], hleft, by simp⟩
        · show Executes env L q (Processor.onConn i _ q)
          rw [onConn_ok hrun]
          show Outcome _ _ _ q.table (Processor.setCtx i q t).table
          rw [Processor.table_setCtx]
          have hfetched : Fetched buf q.w.log :=
            ⟨writes, p.w.log, hlog, fun ev hev => .inl (hwrites ev hev)⟩
          have hfree : q.Vacant i := vacant_spec (p := p) hvacant
          exact ⟨_, .refl, .inr ⟨i, .create, _, hfree, by decide,
            .create hfree.state (.inl rfl) rfl hfetched hopen, rfl⟩⟩

theorem Processor.process_executes (env : Env D H) (inc : Incoming)
    (hL : ∀ l ∈ Label.segment, l ∈ L) : Executes env L p (process env inc p) := by
  unfold process
  rw [Program.bind_gets_id]
  refine Executes.ite (fun _ => .pure _) fun _ => ?_
  cases hdemux : p.demux inc with
  | some i =>
      exact (Quiet.onConn
        (processSegment_performs env inc hL (demux_spec hdemux))).executes
  | none =>
      refine Executes.ite (fun _ => (reset_quiet env inc).executes) fun _ => ?_
      exact Executes.ite (fun _ => acceptSyn_executes env inc)
        fun _ => (reset_quiet env inc).executes

theorem Processor.tickFrom_quiet (env : Env D H) (hL : ∀ l ∈ Label.own, l ∈ L)
    (l : List (Fin n)) (p : Processor D H n) : Quiet env L p (tickFrom env l p) := by
  induction l generalizing p with
  | nil => exact .pure _
  | cons i l ih =>
      refine Program.Follows.bind (Quiet.onConn (tick_performs env hL)) ?_
      intro ret q _
      cases ret with
      | none => exact ih q
      | some ret => exact Quiet.pure _

theorem Processor.run_quiet (env : Env D H) (hL : ∀ l ∈ Label.own, l ∈ L) (expired : Bool) :
    Quiet env L p (run env expired p) := by
  unfold run
  refine Program.Follows.ite (fun _ => Quiet.pure _) fun _ => ?_
  exact Program.Follows.bind (Program.Follows.update .refl)
    fun _ q _ => tickFrom_quiet env hL _ q

theorem Processor.connect_executes (env : Env D H) (rhwaddr : Ethernet.Address)
    (ripaddr : Ipv4.Address) (rport : Port) (clock : List UInt64) :
    Executes env L p (connect env rhwaddr ripaddr rport clock p) := by
  unfold connect
  obtain ⟨w, hhdl, ⟨ret, hok, hmem, hlog⟩ | ⟨buf, writes, hok, hmem, hwrites, hlog⟩⟩ :=
    prepareTo_cases env rhwaddr ripaddr p.w
  · exact Executes.bind_world (world_ok hok) rfl (.of_note _ rfl rfl hhdl hmem hlog) (.pure _)
  · let q : Processor D H n := { p with w := w }
    have hfetch : WorldAct p.table q.table := by
      rw [table_world hhdl, hlog]
      exact .fetch hwrites hmem
    refine Executes.bind_world (world_ok hok) rfl hfetch ?_
    change Executes env L q ((Program.gets id >>= _) q)
    rw [Program.bind_gets_id]
    cases q.localPort clock with
    | none => exact ⟨_, .refl, rfl⟩
    | some lport =>
        cases hvacant : q.vacant with
        | none => exact .pure _
        | some i =>
            have hfree := vacant_spec hvacant
            let answer := env.device.listen w.dev lport
            let r : Processor D H n :=
              { q with w := { w with dev := answer.2, log := .listen lport answer.1 :: w.log } }
            have hlisten : Processor.world (deviceListen env lport) q = .ok answer.1 r := rfl
            refine Executes.bind_world hlisten rfl
              (.of_note (.listen lport answer.1) rfl rfl rfl rfl rfl) ?_
            refine Executes.ite (fun _ => .pure _) fun _ => ?_
            have hfetched : Fetched buf r.w.log := by
              refine ⟨.listen lport answer.1 :: writes, p.w.log, ?_, ?_⟩
              · show _ :: w.log = _
                rw [hlog]
                rfl
              · intro ev hev
                rcases List.mem_cons.mp hev with rfl | h
                · exact .inr ⟨_, _, rfl⟩
                · exact .inl (hwrites ev h)
            rcases openSynSent_spec env rhwaddr ripaddr lport rport q.iss ⟨buf, tcpOffset⟩
              (r.ctx i) with ⟨t, hrun, hleft⟩ | ⟨t, syn, hrun, hopen, hfull⟩
            · rw [Program.bind_of_error (onConn_error hrun)]
              exact ⟨_, .refl, _, _, _, [], hleft, by simp⟩
            · rw [Program.bind_of_ok (onConn_ok hrun)]
              by_cases hsyn : syn ≠ .ok
              · rw [if_pos hsyn]
                -- The connection is closed again: one act together with the opening.
                show Outcome _ _ _ r.table _
                have hfailed : Act env.handler .createFailed (r.table.slot i)
                    ((t.slot.logged (.unlisten lport)).moved .closed) :=
                  .createFailed hfree.state rfl hfetched hopen rfl
                refine ⟨_, .refl, .inr ⟨i, .createFailed, _, hfree, by decide, hfailed, ?_⟩⟩
                rw [← Table.set_set (s := t.slot)]
                simp only [Processor.table, Processor.setCtx, Table.set, Slot.logged,
                  Slot.moved, Ctx.slot]
                congr 1
                funext j
                by_cases h : j = i
                · subst h; simp [Connection.core, Processor.ctx]
                · simp [h, Processor.ctx]
              · rw [if_neg hsyn]
                show Outcome _ _ _ r.table (Processor.setCtx i r t).table
                rw [Processor.table_setCtx]
                have hfull' := hfull.mp (not_not.mp hsyn)
                exact ⟨_, .refl, .inr ⟨i, .create, _, hfree, by decide,
                  .create hfree.state (.inr ⟨rfl, hfull'⟩) rfl hfetched hopen, rfl⟩⟩

/-- What `Processor::abort` needs: a send buffer to put its reset in. -/
def Processor.Abortable (p : Processor D H n) (id : UInt16) : Prop :=
  ∀ i, slot? n id = some i → (p.conns i).sdat = none → (p.conns i).state ≠ .closed

/-- Every operation is a path of the abstract machine, up to a fault that the
machine explains. -/
theorem Processor.exec_executes (env : Env D H) (op : Op)
    (habort : ∀ id, op = .abort id → p.Abortable id) :
    Executes env op.labels p (exec env op p) := by
  cases op with
  | listen port =>
      let answer := env.device.listen p.w.dev port
      refine Executes.bind_world (a := answer.1) rfl rfl
        (.of_note (.listen port answer.1)
          (w := { p.w with dev := answer.2, log := .listen port answer.1 :: p.w.log })
          rfl rfl rfl rfl rfl) ?_
      exact Quiet.executes (Program.Follows.when fun _ => Program.Follows.update .refl)
  | unlisten port =>
      exact Executes.bind_world rfl rfl (.of_note (.unlisten port)
        (w := { p.w with
          dev := env.device.unlisten p.w.dev port, log := .unlisten port :: p.w.log })
        rfl rfl rfl rfl rfl) (Quiet.executes (Program.Follows.update .refl))
  | connect rhwaddr ripaddr rport clock =>
      exact (connect_executes env rhwaddr ripaddr rport clock).unit
  | abort id =>
      refine Executes.unit (Quiet.executes ?_)
      unfold Processor.abort Processor.onId
      cases hslot : Processor.slot? n id with
      | none => exact .pure _
      | some i =>
          exact Quiet.onConn (abort_performs env (by simp [Op.labels]) (by simp [Op.labels])
            (habort id rfl i hslot))
  | close id =>
      refine Executes.unit (Quiet.executes ?_)
      unfold Processor.close Processor.onId
      cases Processor.slot? n id with
      | none => exact .pure _
      | some i => exact Quiet.onConn (close_performs env fun _ h => h)
  | send id len data off =>
      refine Executes.unit (Quiet.executes ?_)
      unfold Processor.send
      cases Processor.slot? n id with
      | none => exact .pure _
      | some i => exact Quiet.onConn (send_performs env len data off fun _ h => h)
  | process inc => exact (process_executes env inc fun _ h => h).unit
  | run expired => exact (run_quiet env (fun _ h => h) expired).executes.unit

/-- An abort without a buffer for its reset ends in a null pointer. -/
theorem Processor.exec_abort (env : Env D H) {id : UInt16} (h : ¬p.Abortable id) :
    ∃ q, exec env (.abort id) p = .error .nullPointer q := by
  unfold Abortable at h
  push Not at h
  obtain ⟨i, hslot, hsdat, -⟩ := h
  obtain ⟨t, hrun⟩ := Tcpv4.abort_none env (s := p.ctx i) hsdat
  refine ⟨setCtx i p t, Program.bind_of_error ?_⟩
  unfold Processor.abort Processor.onId
  rw [hslot]
  exact onConn_error hrun

/-- An operation that does not end in a null pointer follows the machine. -/
theorem Processor.exec_executes_of_ne (env : Env D H) (op : Op) (p : Processor D H n)
    (h : ∀ q, exec env op p ≠ .error .nullPointer q) :
    Executes env op.labels p (exec env op p) := by
  refine exec_executes env op fun id hid => ?_
  by_contra habort
  obtain ⟨q, hq⟩ := exec_abort env habort
  exact h q (by rw [hid, hq])

/-- An operation that returns is an outcome of the abstract machine. -/
theorem Processor.exec_outcome {env : Env D H} {op : Op} {q : Processor D H n}
    (hok : exec env op p = .ok () q) :
    Outcome env.handler op.labels p.Vacant p.table q.table := by
  have h := exec_executes_of_ne env op p (by simp [hok])
  rwa [hok] at h

end Operations

/-- What every step of the table preserves, an outcome preserves. -/
theorem Outcome.invariant {handler : EventHandler H} {L : List Label} {may : Fin n → Prop}
    {I : Table H n → Prop} {T T' : Table H n} (h : Outcome handler L may T T')
    (hslot : ∀ T i l s, l ∈ L ++ Label.opening → Act handler l (Table.slot T i) s → I T →
      I (T.set i s))
    (hworld : ∀ T T', WorldAct T T' → I T → I T') (hI : I T) : I T' := by
  obtain ⟨U, hpath, hlast⟩ := h
  have hU : I U := by
    refine Program.path_invariant (fun V V' hstep hV => ?_) hpath hI
    cases hstep with
    | slot hl hact => exact hslot V _ _ _ (List.mem_append_left _ hl) hact hV
    | world hact => exact hworld V V' hact hV
  rcases hlast with rfl | ⟨i, l, s, -, hl, hact, rfl⟩
  · exact hU
  · exact hslot U i l s (List.mem_append_right _ hl) hact hU

end Tulips.Tcpv4
