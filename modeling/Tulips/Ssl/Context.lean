import Tulips.Api.Status
import Tulips.Lib.Program

/-!
# SSL contexts

What an endpoint keeps for a connection: the state of its handshake and the
output of OpenSSL that waits to be sent. What OpenSSL, the connection below and
the delegate answer is up to a script; the delegate asks for what it wants by the
action and the response it returns.
-/

namespace Tulips.Ssl

inductive State
  | closed
  | connect
  | accept
  | ready
  | shutdown
  deriving DecidableEq

/-- What `SSL_get_error` says of a result. -/
inductive Error
  | none
  | zeroReturn
  | wantRead
  | wantWrite
  | wantConnect
  | wantAccept
  | wantX509Lookup
  | syscall
  | ssl
  deriving DecidableEq

structure Context where
  state : State
  /-- What is pending on the write channel. -/
  bout : List UInt8
  blocked : Bool

/-- A new context. -/
def Context.create : Context := ⟨.closed, [], false⟩

/-- What a call of OpenSSL returns, what its result stands for, the bytes a read
has decrypted, and what it adds to the write channel. -/
structure Answer where
  ret : Int
  error : Error
  data : List UInt8
  out : List UInt8

/-- What a callback of the delegate returns. -/
structure Reply where
  action : Action
  response : List UInt8

/-- A callback of the delegate, or application bytes passed to `SSL_write`, each
with the state of the context. -/
inductive Event
  | onAcked (key : Nat) (state : State)
  | onNewData (key : Nat) (state : State) (data : List UInt8)
  | write (key : Nat) (state : State) (data : List UInt8)
  deriving DecidableEq

structure World where
  contexts : Nat → Option Context
  openssl : List Answer
  delegate : List Reply
  /-- What the calls of the client or server below return, and how much they send. -/
  below : List (Status × Nat)
  log : List Event

/-- Why a run stops: the script ends, or a context is used that is not there. -/
inductive Stop
  | script
  | context

abbrev SslProgram (α : Type) := Program Stop World α

/-- The context a cookie points to. -/
def context (key : Nat) : SslProgram Context := fun w =>
  match w.contexts key with
  | none => .error .context w
  | some c => .ok c w

def setContext (key : Nat) (c : Context) : SslProgram Unit :=
  .update fun w => { w with contexts := fun k => if k = key then some c else w.contexts k }

def record (ev : Event) : SslProgram Unit := .update fun w => { w with log := ev :: w.log }

/-- Call OpenSSL on a context. -/
def openssl (key : Nat) : SslProgram Answer := do
  let c ← context key
  match ← .gets World.openssl with
  | [] => .fault .script
  | answer :: rest =>
      .update fun w => { w with openssl := rest }
      setContext key { c with bout := c.bout ++ answer.out }
      pure answer

/-- `SSL_write` of application bytes. -/
def sslWrite (key : Nat) (data : List UInt8) : SslProgram Answer := do
  let c ← context key
  record (.write key c.state data)
  openssl key

/-- What the delegate returns from its next callback. -/
def nextReply : SslProgram Reply := do
  match ← .gets World.delegate with
  | [] => .fault .script
  | reply :: rest =>
      .update fun w => { w with delegate := rest }
      pure reply

/-- Call the delegate. -/
def notify (ev : Event) : SslProgram Reply := do
  record ev
  nextReply

namespace Context

/-- `Context::flush`, with the response. -/
def flush (key alen : Nat) : SslProgram (Action × List UInt8) := do
  let c ← context key
  if c.bout = [] then pure (.continue, [])
  else
    let rlen := min c.bout.length alen
    setContext key { c with bout := c.bout.drop rlen }
    pure (.continue, c.bout.take rlen)

/-- `Context::abortOrClose` -/
def abortOrClose (key : Nat) (r : Action) (alen : Nat) : SslProgram (Action × List UInt8) := do
  if r = .abort then pure (.abort, [])
  else if r = .close then
    let first ← openssl key
    let e ← if first.ret = 0 then openssl key else pure first
    if e.ret < 0 then
      if e.error ≠ .wantRead then pure (.abort, [])
      else
        let c ← context key
        setContext key { c with state := .shutdown }
        flush key alen
    else pure (.abort, [])
  else pure (.continue, [])

/-- `Context::onAcked` -/
def onAcked (key alen : Nat) : SslProgram (Action × List UInt8) := do
  let c ← context key
  setContext key { c with blocked := false }
  if c.bout ≠ [] then flush key alen
  else
    let reply ← notify (.onAcked key c.state)
    if reply.action ≠ .continue then abortOrClose key reply.action alen
    else
      let _ ← sslWrite key (reply.response.take alen)
      flush key alen

/-- What a read without data means: whether to go on, or to abort. -/
def readError (key : Nat) (answer : Answer) : SslProgram Action := do
  if answer.ret < 0 then pure (if answer.error = .wantRead then .continue else .abort)
  else if answer.error = .zeroReturn ∨ answer.error = .ssl then
    let shut ← openssl key
    pure (if shut.ret ≠ 1 then .abort else .continue)
  else pure .abort

/-- Process the internal buffer as long as there is data available. -/
def readData (key : Nat) : Nat → SslProgram Action
  | 0 => .fault .script
  | fuel + 1 => do
      let answer ← openssl key
      if answer.ret ≤ 0 then readError key answer
      else
        let c ← context key
        let reply ← notify (.onNewData key c.state answer.data)
        if reply.action ≠ .continue then pure .abort else readData key fuel

/-- `Context::onNewData` without a response. -/
def onNewData (key : Nat) : SslProgram Action := do
  let c ← context key
  if c.state ≠ .ready then pure .abort
  else
    let answers ← .gets World.openssl
    readData key (answers.length + 1)

/-- Process the internal buffer, and encrypt the responses: `acc` bytes so far. -/
def readDataResponse (key alen : Nat) : Nat → Nat → SslProgram (Action × List UInt8)
  | 0, _ => .fault .script
  | fuel + 1, acc => do
      let answer ← openssl key
      if answer.ret ≤ 0 then
        let act ← readError key answer
        if act = .continue then flush key alen else pure (.abort, [])
      else
        let c ← context key
        let reply ← notify (.onNewData key c.state answer.data)
        if reply.action ≠ .continue then abortOrClose key reply.action alen
        else
          let response := reply.response.take (alen - acc)
          let _ ← sslWrite key response
          readDataResponse key alen fuel (acc + response.length)

/-- A step of the handshake has returned. -/
def handshake (key alen : Nat) : SslProgram (Action × List UInt8) := do
  let e ← openssl key
  if e.ret = 0 then pure (.abort, [])
  else if e.ret = 1 then
    let c ← context key
    setContext key { c with state := .ready }
    flush key alen
  else if e.error = .wantRead then flush key alen
  else pure (.abort, [])

/-- `Context::onNewData` -/
def onNewDataResponse (key alen : Nat) : SslProgram (Action × List UInt8) := do
  let c ← context key
  match c.state with
  | .closed => pure (.abort, [])
  -- `SSL_connect` and `SSL_accept`
  | .connect => handshake key alen
  | .accept => handshake key alen
  | .ready =>
      let answers ← .gets World.openssl
      readDataResponse key alen (answers.length + 1) 0
  | .shutdown =>
      let e ← openssl key
      pure (if e.ret = 1 then .close else .abort, [])

end Context

end Tulips.Ssl
