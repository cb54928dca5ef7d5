import Tulips.Machine.Answering
import Tulips.Machine.Keeping

/-!
# The lifetime of a connection

What the two sides have agreed on when a connection was opened stays as it is
until its slot is opened again: the largest segment and the scale of the window.
The window itself changes only where the processor takes it over from a segment.
-/

namespace Tulips.Tcpv4

open Program

variable {D H : Type}

/-! ## Terms -/

/-- The connection has the given terms. When those of its peer are `known`, it no
longer waits for them. -/
structure Connection.Settled (m : UInt16) (l : UInt8) (wnd : UInt16) (known : Prop)
    (e : Connection) : Prop where
  initialmss : e.initialmss = m
  wndscl : e.wndscl = l
  wnd : e.wnd = wnd
  state_ne : known → e.state ≠ .synSent

/-- The terms without the window. -/
def Connection.Fixed (m : UInt16) (l : UInt8) (known : Prop) (e : Connection) : Prop :=
  ∃ wnd, e.Settled m l wnd known

variable {m : UInt16} {l : UInt8} {wnd : UInt16} {known : Prop}

def Ctx.Settled (m : UInt16) (l : UInt8) (wnd : UInt16) (known : Prop) (s : Ctx D H) : Prop :=
  s.e.Settled m l wnd known

def Ctx.Fixed (m : UInt16) (l : UInt8) (known : Prop) (s : Ctx D H) : Prop :=
  s.e.Fixed m l known

/-! ## Keeping them -/

section Keeping

variable (env : Env D H) (inc : Incoming)

theorem Ctx.settled_steady : Steady (Ctx.Settled m l wnd known (D := D) (H := H)) where
  conn := by
    intro s e heq hs
    exact ⟨(congrArg Terms.initialmss heq).trans hs.1, (congrArg Terms.wndscl heq).trans hs.2,
      (congrArg Terms.wnd heq).trans hs.3,
      fun h hsyn => hs.4 h ((congrArg Terms.state heq).symm.trans hsyn)⟩
  world := fun _ hs => hs
  move := fun _ hsyn hs => ⟨hs.1, hs.2, hs.3, fun _ => hsyn⟩

theorem Ctx.settled_calm : Calm (Ctx.Settled m l wnd known (D := D) (H := H)) :=
  settled_steady.toCalm

theorem Ctx.settled_closes :
    Closes env (Ctx.Settled m l wnd known) (Ctx.Settled m l wnd known) where
  calm := settled_calm
  of_open := id
  alive := fun hs _ => hs
  closing := fun hs => ⟨hs.1, hs.2, hs.3, fun _ => State.noConfusion⟩

theorem Ctx.fixed_windowless : Windowless (Ctx.Fixed m l known (D := D) (H := H)) where
  conn := by
    rintro s e heq ⟨wnd, hs⟩
    exact ⟨wnd, settled_steady.conn (s := s) heq hs⟩
  world := fun _ hs => hs
  move := by
    rintro s st hclosed hsyn ⟨wnd, hs⟩
    exact ⟨wnd, settled_steady.move (s := s) hclosed hsyn hs⟩
  window := by
    rintro s wnd ⟨_, hs⟩
    exact ⟨wnd, hs.1, hs.2, rfl, hs.4⟩

theorem Ctx.fixed_closes : Closes env (Ctx.Fixed m l known) (Ctx.Fixed m l known) where
  calm := fixed_windowless.toCalm
  of_open := id
  alive := fun hs _ => hs
  closing := fun ⟨wnd, hs⟩ => ⟨wnd, (settled_closes env).closing hs⟩

theorem afterUpdate_settled : Keeps (Ctx.Settled m l wnd known) (afterUpdate env inc) :=
  leads_self.mp (Closes.afterUpdate Ctx.settled_steady (Ctx.settled_closes env) inc)

theorem processSegment_fixed (hknown : known) :
    Keeps (Ctx.Fixed m l known) (processSegment env inc) := by
  apply leads_self.mp
  apply (Ctx.fixed_closes env).processSegment inc Ctx.fixed_windowless
  rintro s ⟨_, hs⟩ hsyn
  exact absurd hsyn (hs.4 hknown)

theorem tick_fixed : Keeps (Ctx.Fixed m l known) (tick env) :=
  leads_self.mp ((Ctx.fixed_closes env).tick Ctx.fixed_windowless.toSteady)

theorem Connection.scanned_fixed {e : Connection} (w : World D H) (h : e.Fixed m l known) :
    (e.scanned inc).1.Fixed m l known := Ctx.fixed_windowless.scanned inc (w := w) h

end Keeping

/-! ## Waiting for the terms of the peer -/

section Waiting

open Program

variable {env : Env D H} {inc : Incoming} {s t : Ctx D H} {ret : Status}

/-- The kinds of acts that may change the state of a connection. -/
def Label.moving : List Label := [.move, .settle, .fin, .kill, .abort]

theorem Core.Change.state_eq {k : Label} {c c' : Core} (h : Change k c c')
    (hk : k ∉ Label.moving) : c'.state = c.state := by
  cases h with
  | move | settle | fin => exact absurd (by decide) hk
  | kill _ hl => rcases hl with rfl | rfl <;> exact absurd (by decide) hk
  | _ => rfl

/-- A path of acts that move nothing stays in its state. -/
theorem state_of_path {L : List Label} {u v : Slot H} (hL : ∀ k ∈ L, k ∉ Label.moving)
    (hopening : ∀ k ∈ L, k ∉ Label.opening)
    (h : Relation.ReflTransGen (Step env.handler L) u v) : v.state = u.state := by
  induction h with
  | refl => rfl
  | tail _ hstep ih =>
      obtain ⟨k, hk, hact⟩ := hstep
      exact ((hact.change (hopening k hk)).state_eq (hL k hk)).trans ih

theorem rexmit_state (hopen : s.e.state ≠ .closed) (hok : rexmit env s = .ok ret t) :
    t.e.state = s.e.state := by
  have hpath := rexmit_performs env (L := [.note, .resend]) (by decide) (by decide) hopen
  rw [hok] at hpath
  exact state_of_path (by decide) (by decide) hpath

theorem sendAbort_closed (hok : sendAbort env s = .ok ret t) : t.e.state = .closed := by
  have hclosed := (closed_closes env).sendAbort_at (s := s) rfl
  rwa [hok] at hclosed

theorem processRst_closed (hok : processRst env s = .ok ret t) : t.e.state = .closed := by
  have hclosed := (closed_closes env).processRst_at (s := s) rfl
  rwa [hok] at hclosed

/-- The connection has taken up the terms of a segment: its own bound on the MSS
and the window of the segment, as the options leave them. -/
def Connection.TakesUp (m : UInt16) (inc : Incoming) (e' : Connection) : Prop :=
  ∃ e : Connection, e.initialmss = m ∧ e.wnd = inc.window ∧
    e'.Settled (e.parseOptions inc).initialmss (e.parseOptions inc).wndscl
      (e.parseOptions inc).wnd True

/-- The answer to a SYN is taken up, or the connection aborted. -/
theorem processSynSent_cases (hok : processSynSent env inc s = .ok ret t) :
    t.e.TakesUp s.e.initialmss inc ∨ t.e.state = .closed := by
  unfold processSynSent at hok
  rw [bind_gets] at hok
  split at hok
  · left
    obtain ⟨_, s₁, hset, hok⟩ := bind_eq_ok.mp hok
    obtain ⟨_, s₂, hrecord, hok⟩ := bind_eq_ok.mp hok
    obtain ⟨_, s₃, hmodify, hok⟩ := bind_eq_ok.mp hok
    obtain ⟨_, s₄, hparse, hok⟩ := bind_eq_ok.mp hok
    cases hset
    cases hrecord
    cases hmodify
    cases hparse
    let e : Connection :=
      { s.e with state := .established, rcvNxt := inc.seqno + 1, wnd := inc.window }
    have hstate : (e.parseOptions inc).state = .established := Connection.state_parseOptions e inc
    refine ⟨e, rfl, rfl, Keeps.ok (I := Ctx.Settled _ _ _ True) ?_ hok ⟨rfl, rfl, rfl, fun _ => ?_⟩⟩
    · apply Keeps.bind (Ctx.settled_calm.keeps (callback_sends env _))
      intro _
      apply Keeps.bind
      · apply Keeps.when
        refine Ctx.settled_calm.modify_bind (fun _ => rfl) ?_
        exact Ctx.settled_calm.keeps (deliver_sends env inc)
      · intro _
        exact Ctx.settled_calm.keeps ((sends_bears env).sendAck env)
    · show (e.parseOptions inc).state ≠ _
      rw [hstate]
      decide
  · right
    obtain ⟨_, u, -, hok⟩ := bind_eq_ok.mp hok
    exact sendAbort_closed hok

/-- A segment for a connection that has sent its SYN is the answer, or leaves the
terms of a connection that goes on waiting. -/
theorem processSegment_synSent (hs : s.e.state = .synSent)
    (hok : processSegment env inc s = .ok ret t) :
    (t.e.state ≠ .established ∧ (t.e.state = .synSent → t.e.initialmss = s.e.initialmss)) ∨
      t.e.TakesUp s.e.initialmss inc := by
  have hfixed : s.e.clearNews.Fixed s.e.initialmss s.e.wndscl False :=
    ⟨s.e.wnd, rfl, rfl, rfl, fun h => h.elim⟩
  have hstate : s.e.clearNews.state = .synSent := hs
  by_cases hrst : inc.has tcpRst = true
  · have hrun : processRst env { s with e := s.e.clearNews } = .ok ret t := by
      unfold processSegment modifyConn at hok
      rw [bind_update, bind_gets, if_pos hrst] at hok
      exact hok
    rw [processRst_closed hrun]
    exact .inl ⟨by decide, fun h => by cases h⟩
  by_cases hseq : s.e.outOfSequence inc = true
  · have hrun : sendAck env { s with e := s.e.clearNews } = .ok ret t := by
      have hseq' : s.e.clearNews.outOfSequence inc = true := hseq
      unfold processSegment modifyConn at hok
      rw [bind_update, bind_gets, if_neg hrst, if_pos hseq'] at hok
      exact hok
    obtain ⟨sdat, he⟩ := sendAck_keeps (by rw [hstate]; decide) hrun
    rw [he]
    refine .inl ⟨?_, fun _ => rfl⟩
    rw [hstate]
    decide
  rw [processSegment_scanned (by simpa using hrst) (by simpa using hseq)] at hok
  obtain ⟨_, hscanned⟩ := Connection.scanned_fixed inc s.w hfixed
  have hstate' : (s.e.clearNews.scanned inc).1.state = .synSent :=
    (scanned_state _ inc).trans hstate
  split at hok
  · left
    have hsame := rexmit_state (by rw [hstate']; decide) hok
    have ht := (Ctx.settled_calm.keeps ((sends_bears env).rexmit)).ok hok hscanned
    refine ⟨?_, fun _ => ht.1⟩
    rw [hsame, hstate']
    decide
  · unfold processState at hok
    rw [bind_gets, hstate'] at hok
    rcases processSynSent_cases hok with htaken | hclosed
    · exact .inr (hscanned.1 ▸ htaken)
    · rw [hclosed]
      exact .inl ⟨by decide, fun h => by cases h⟩

/-- A SYN is taken up by the connection it opens. -/
theorem openSynRcvd_takesUp {iss : UInt32} {outdata : Ptr}
    (hok : openSynRcvd env inc iss outdata s = .ok ret t) :
    t.e.TakesUp env.initialMss inc := by
  unfold openSynRcvd at hok
  rw [bind_gets] at hok
  obtain ⟨_, s₁, hcreate, hok⟩ := bind_eq_ok.mp hok
  obtain ⟨_, s₂, hsynced, hok⟩ := bind_eq_ok.mp hok
  obtain ⟨_, s₃, hmodify, hok⟩ := bind_eq_ok.mp hok
  obtain ⟨i, s₄, hpush, hok⟩ := bind_eq_ok.mp hok
  obtain ⟨_, s₅, hparse, hok⟩ := bind_eq_ok.mp hok
  cases hcreate
  cases hsynced
  cases hmodify
  rcases pushSyn_spec outdata _ with ⟨hfull, -⟩ | ⟨k, u, hfree, -, hu⟩
  · rw [hfull] at hpush
    cases hpush
  · rw [hfree] at hpush
    cases hpush
    cases hparse
    subst hu
    refine ⟨_, ?_, ?_, Keeps.ok (I := Ctx.Settled _ _ _ True)
      (Ctx.settled_calm.keeps ((sends_bears env).sendSynAck i)) hok ⟨rfl, rfl, rfl, fun _ => ?_⟩⟩
    · rfl
    · rfl
    · rw [Connection.state_parseOptions]
      exact State.noConfusion

/-- A SYN announces the MSS of the device. -/
theorem openSynSent_initialmss {rhwaddr : Ethernet.Address} {ripaddr : Ipv4.Address}
    {lport rport : Port} {iss : UInt32} {outdata : Ptr}
    (hok : openSynSent env rhwaddr ripaddr lport rport iss outdata s = .ok ret t) :
    t.e.initialmss = env.initialMss := by
  unfold openSynSent at hok
  rw [bind_gets] at hok
  obtain ⟨_, s₁, hcreate, hok⟩ := bind_eq_ok.mp hok
  obtain ⟨_, s₂, hmodify, hok⟩ := bind_eq_ok.mp hok
  cases hcreate
  cases hmodify
  have hrest : Keeps (Ctx.Settled env.initialMss 0 0 False) (pushSyn outdata >>= fun i =>
      setFlags (some outdata) 0 none >>= fun _ => sendSyn env i) := by
    apply Keeps.bind (Ctx.settled_calm.keeps ((sends_bears env).pushSyn outdata))
    intro i
    apply Keeps.bind (Ctx.settled_calm.keeps ((sends_bears env).setFlags _ _ _))
    intro _
    exact Ctx.settled_calm.keeps ((sends_bears env).sendSyn i)
  exact (hrest.ok hok ⟨rfl, rfl, rfl, fun h => h.elim⟩).1

end Waiting

/-! ## Runs -/

namespace Processor

variable {n : Nat} {env : Env D H} {p q r : Processor D H n} {i : Fin n} {op : Op}

/-- The connection can be lost to a new one. -/
def Lapsed (p : Processor D H n) (i : Fin n) : Prop :=
  (p.conns i).state = .closed ∨ (p.conns i).state = .timeWait

theorem lapsed_of_vacant (h : p.vacant = some i) : Lapsed p i := by
  rcases vacant_spec h with h | h
  · exact .inl h
  · exact .inr h.2.1

/-- A run in which the connection is never free to be taken for another. -/
inductive Lasts (env : Env D H) (i : Fin n) (p : Processor D H n) : Processor D H n → Prop
  | refl : Lasts env i p p
  | exec {q r : Processor D H n} {op : Op} (h : Lasts env i p q) (hlive : ¬Lapsed q i)
      (hop : exec env op q = .ok () r) : Lasts env i p r

/-- An operation leaves the terms of a connection that cannot be lost. -/
theorem Visit.fixed (h : Visit env p i op q) (hlive : ¬Lapsed p i)
    (hknown : known) (hp : (p.conns i).Fixed m l known) : (q.conns i).Fixed m l known := by
  cases h with
  | skip hconn => exact hconn ▸ hp
  | segment _ hrun =>
      rw [setCtx_conns_self]
      exact (processSegment_fixed env _ hknown).ok hrun hp
  | close hrun =>
      rw [setCtx_conns_self]
      exact (Ctx.fixed_windowless.close env).ok hrun hp
  | send hrun =>
      rw [setCtx_conns_self]
      exact (Ctx.fixed_windowless.keeps (send_sends env _ _ _)).ok hrun hp
  | abort hrun =>
      rw [setCtx_conns_self]
      exact (Ctx.fixed_closes env).abort.ok hrun hp
  | tick hrun hconn =>
      rw [hconn]
      exact (tick_fixed env).ok hrun hp
  | accept _ _ _ hvacant => exact absurd (lapsed_of_vacant hvacant) hlive
  | connect _ hvacant => exact absurd (lapsed_of_vacant hvacant) hlive

/-- The terms last as long as the connection does. -/
theorem Lasts.fixed (h : Lasts env i p q) (hknown : known) (hp : (p.conns i).Fixed m l known) :
    (q.conns i).Fixed m l known := by
  induction h with
  | refl => exact hp
  | exec _ hlive hop ih => exact (exec_visit hop i).fixed hlive hknown ih

/-- A connection whose SYN has not been answered announces the MSS of the device. -/
theorem Reachable.synSent_initialmss (hp : Reachable env p) (i : Fin n)
    (hstate : (p.conns i).state = .synSent) : (p.conns i).initialmss = env.initialMss := by
  revert hstate
  refine Reachable.induction (I := fun p => (p.conns i).state = .synSent →
    (p.conns i).initialmss = env.initialMss) ?_ ?_ hp
  · intro dev hdl h
    cases h
  · intro p q op hop ih hq
    -- A step that leaves SYN_SENT does not come back, so the segment size is still the first.
    have hsettled : ∀ {e : Connection}, e.Fixed (p.conns i).initialmss (p.conns i).wndscl
        ((p.conns i).state ≠ .synSent) → e.state = .synSent → e.initialmss = env.initialMss := by
      rintro e ⟨_, he⟩ hstate
      rw [he.1]
      by_contra hne
      exact he.4 (fun h => hne (ih h)) hstate
    have hself : (p.conns i).Fixed (p.conns i).initialmss (p.conns i).wndscl
        ((p.conns i).state ≠ .synSent) := ⟨_, rfl, rfl, rfl, fun h => h⟩
    cases exec_visit hop i with
    | skip hconn =>
        rw [hconn] at hq ⊢
        exact ih hq
    | @segment inc ret t _ hrun =>
        rw [setCtx_conns_self] at hq ⊢
        by_cases hstate : (p.conns i).state = .synSent
        · rcases processSegment_synSent hstate hrun with ⟨-, hkeeps⟩ | ⟨_, -, -, hsettled⟩
          · exact (hkeeps hq).trans (ih hstate)
          · exact absurd hq (hsettled.4 trivial)
        · exact hsettled ((processSegment_fixed env inc hstate).ok hrun hself) hq
    | close hrun =>
        rw [setCtx_conns_self] at hq ⊢
        exact hsettled ((Ctx.fixed_windowless.close env).ok hrun hself) hq
    | send hrun =>
        rw [setCtx_conns_self] at hq ⊢
        exact hsettled ((Ctx.fixed_windowless.keeps (send_sends env _ _ _)).ok hrun hself) hq
    | abort hrun =>
        rw [setCtx_conns_self] at hq ⊢
        exact hsettled ((Ctx.fixed_closes env).abort.ok hrun hself) hq
    | tick hrun hconn =>
        rw [hconn] at hq ⊢
        exact hsettled ((tick_fixed env).ok hrun hself) hq
    | accept _ _ _ _ hrun hconns =>
        rw [hconns, Function.update_self] at hq
        obtain ⟨_, -, -, hsettled⟩ := openSynRcvd_takesUp hrun
        exact absurd hq (hsettled.4 trivial)
    | connect _ _ hrun hconns =>
        rw [hconns, Function.update_self]
        have hmss := openSynSent_initialmss hrun
        split <;> exact hmss

end Processor

end Tulips.Tcpv4
