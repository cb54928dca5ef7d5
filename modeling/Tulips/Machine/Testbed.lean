import Tulips.Machine.Hosts

/-!
# A testbed

A device and an event handler that answer by a script, and the segments of a
peer, so that runs of the processor can be evaluated. An exhausted script lets
everything succeed.
-/

namespace Program

variable {ε σ α : Type}

/-- The program returns, with a value and a state that pass a test. -/
def Passes (m : Program ε σ α) (s : σ) (test : α → σ → Prop) : Prop :=
  match m s with
  | .ok a t => test a t
  | .error _ _ => False

instance {m : Program ε σ α} {s : σ} {test : α → σ → Prop} [∀ a t, Decidable (test a t)] :
    Decidable (Passes m s test) :=
  match h : m s with
  | .ok a t => decidable_of_iff (test a t) (by simp [Passes, h])
  | .error _ _ => isFalse (by simp [Passes, h])

theorem Passes.exists {m : Program ε σ α} {s : σ} {test : α → σ → Prop}
    (h : Passes m s test) : ∃ a t, m s = .ok a t ∧ test a t := by
  unfold Passes at h
  cases hm : m s with
  | ok a t => rw [hm] at h; exact ⟨a, t, rfl, h⟩
  | error e t => rw [hm] at h; exact h.elim

/-- What a test says of the only state a program can lead to. -/
instance {m : Program ε σ Unit} {s : σ} {test : σ → Prop} [DecidablePred test] :
    Decidable (∀ t, m s = .ok () t → test t) :=
  match h : m s with
  | .ok () t => decidable_of_iff (test t)
      ⟨fun ht u hu => by cases hu; exact ht, fun hall => hall t rfl⟩
  | .error _ _ => isTrue fun t ht => by cases ht

end Program

namespace Tulips.Tcpv4.Testbed

/-! ## The device -/

structure Script where
  /-- The number of the next buffer. -/
  next : Nat
  /-- Whether the next calls of `prepare` succeed. -/
  prepares : List Bool
  /-- What the next calls of `commit` return. -/
  commits : List Status

def Script.empty : Script := ⟨0, [], []⟩

def noMoreResources : Failure := ⟨.noMoreResources, Status.noMoreResources_ne_ok⟩

def device : Device Script where
  mtu := 1500
  mss := 1514
  receiveBufferLengthLog2 := 11
  receiveBuffersAvailable _ := 16
  prepare d :=
    if d.prepares.headD true then
      (.ok (d.next, fun _ => 0), { d with next := d.next + 1, prepares := d.prepares.tail })
    else (.error noMoreResources, { d with prepares := d.prepares.tail })
  commit d _ _ _ := (d.commits.headD .ok, { d with commits := d.commits.tail })
  listen d _ := (.ok, d)
  unlisten d _ := d

/-! ## The event handler -/

/-- The answers to the next callbacks: an action and the bytes to send. -/
abbrev Answers := List (Action × List UInt8)

def handler : EventHandler Answers := fun answers e _ =>
  let answer := answers.headD (.continue, [])
  { hdl := answers.tail
    cookie := e.cookie
    opts := e.opts
    action := answer.1
    sdata := answer.2
    slen := UInt32.ofNat answer.2.length }

def env : Env Script Answers where
  config := ⟨true, true, false⟩
  hostMac := .zero
  hostIp := ⟨1⟩
  device := device
  handler := handler

/-! ## The peer -/

def peer : Ipv4.Address := ⟨2⟩

/-- The header of a segment of the peer from its port 80 to the given one. -/
def header (port : Port) (flags : UInt8) (seq ack : UInt32) : Header where
  srcport := htons 80
  destport := htons port
  seqno := htonl seq
  ackno := htonl ack
  reserved := 0
  offset := 5
  flags := flags
  wnd := htons 512
  chksum := 0
  urgp := 0

def incoming (h : Header) (payload : List UInt8) : Incoming where
  ethSrc := .zero
  ipSrc := peer
  ipDst := env.hostIp
  len := UInt16.ofNat (headerLen + payload.length)
  data := fun i => (h.bytes ++ payload).getD i 0

def segment (port : Port) (flags : UInt8) (seq ack : UInt32) (payload : List UInt8) :
    Processor.Op :=
  .process (incoming (header port flags seq ack) payload)

/-- Connect to the peer from the given port. -/
def connectFrom (port : UInt64) : Processor.Op := .connect .zero peer 80 [port]

/-- The processor in front of the script, and what it becomes. -/
def start (n : Nat) (script : Script) (answers : Answers) : Processor Script Answers n :=
  .initial n script answers

/-- A run of the testbed that passes a test reaches a processor that does. -/
theorem reaches (n : Nat) (script : Script) (answers : Answers) (ops : List Processor.Op)
    (test : Processor Script Answers n → Prop) (hn : n < 2 ^ 16)
    (h : Program.Passes (Processor.execAll env ops) (start n script answers) fun _ p => test p) :
    ∃ p, Processor.execAll env ops (start n script answers) = .ok () p ∧
      Processor.Reachable env p ∧ test p := by
  obtain ⟨_, p, hrun, htest⟩ := h.exists
  exact ⟨p, hrun, ⟨hn, script, answers, ops, hrun⟩, htest⟩

/-- Operations that meet a condition lead to a processor that passes a test. -/
def LeadsBy {n : Nat} (good : Processor Script Answers n → Processor.Op → Prop)
    (test : Processor Script Answers n → Prop) :
    List Processor.Op → Processor Script Answers n → Prop
  | [], p => test p
  | op :: ops, p =>
      good p op ∧ Program.Passes (Processor.exec env op) p fun _ q => LeadsBy good test ops q

/-- Whether a run meets the condition and passes the test can be computed. -/
def LeadsBy.decide {n : Nat} {good : Processor Script Answers n → Processor.Op → Prop}
    {test : Processor Script Answers n → Prop} [∀ p op, Decidable (good p op)]
    [DecidablePred test] : (ops : List Processor.Op) → (p : Processor Script Answers n) →
    Decidable (LeadsBy good test ops p)
  | [], p => inferInstanceAs (Decidable (test p))
  | op :: ops, p =>
      have : ∀ q : Processor Script Answers n, Decidable (LeadsBy good test ops q) :=
        fun q => LeadsBy.decide ops q
      inferInstanceAs (Decidable (good p op ∧
        Program.Passes (Processor.exec env op) p fun _ q => LeadsBy good test ops q))

instance {n : Nat} {good : Processor Script Answers n → Processor.Op → Prop}
    {test : Processor Script Answers n → Prop} [∀ p op, Decidable (good p op)]
    [DecidablePred test] (ops : List Processor.Op) (p : Processor Script Answers n) :
    Decidable (LeadsBy good test ops p) := LeadsBy.decide ops p

theorem LeadsBy.reaches {n : Nat} {good : Processor Script Answers n → Processor.Op → Prop}
    {test : Processor Script Answers n → Prop} {ops : List Processor.Op}
    {p : Processor Script Answers n} (h : LeadsBy good test ops p)
    (hp : Processor.ReachableBy env good p) :
    ∃ q, Processor.ReachableBy env good q ∧ test q := by
  induction ops generalizing p with
  | nil => exact ⟨p, hp, h⟩
  | cons op ops ih =>
      obtain ⟨_, q, hop, hrest⟩ := h.2.exists
      exact ih hrest (hp.exec h.1 hop)

/-! ## Hosts -/

/-- The host of the testbed in front of a device, in a network without routers. -/
def net {D : Type} (device : Device D) : Net D Answers where
  config := env.config
  hostMac := env.hostMac
  hostIp := env.hostIp
  device := device
  handler := handler
  netMask := ⟨0⟩
  defaultRouterAddress := ⟨0⟩
  enableArp := true
  enableIcmp := true
  enableRaw := false

/-- A run that passes a test reaches a host that does. -/
theorem reachesHost {D : Type} (n : Nat) (device : Device D) (first : D) (answers : Answers)
    (ops : List Host.Op) (test : Host D Answers n → Prop) (hn : n < 2 ^ 16)
    (h : Program.Passes (Host.execAll (net device) ops) (Host.initial n first answers)
      fun _ s => test s) : ∃ s, Host.Reachable (net device) first s ∧ test s := by
  obtain ⟨_, s, hrun, htest⟩ := h.exists
  exact ⟨s, ⟨hn, answers, ops, hrun⟩, htest⟩

end Tulips.Tcpv4.Testbed
