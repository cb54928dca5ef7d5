import Tulips.Ssl.Context

/-!
# SSL clients and servers

The callbacks an endpoint gets from the client or server below, and the calls of
its user. A context is known by its cookie.
-/

namespace Tulips.Ssl

inductive Role
  | client
  | server
  deriving DecidableEq

/-- A call of the client or server below. -/
def below : SslProgram (Status × Nat) := do
  match ← .gets World.below with
  | [] => .fault .script
  | answer :: rest =>
      .update fun w => { w with below := rest }
      pure answer

namespace Endpoint

/-- `flush`: send what is pending. -/
def flush (key : Nat) : SslProgram Status := do
  let c ← context key
  if c.bout = [] then pure .ok
  else
    let (res, rem) ← below
    if res ≠ .ok then
      setContext key { c with blocked := decide (res = .operationInProgress) }
      pure res
    else
      setContext key { c with bout := c.bout.drop rem }
      pure .ok

/-! ## Callbacks -/

/-- A connection gets its context, in which the handshake starts. -/
def onConnected (role : Role) (key : Nat) : SslProgram Unit :=
  setContext key { Context.create with
    state := match role with
      | .client => .connect
      | .server => .accept }

def onAcked (key : Nat) : SslProgram Action := do
  let c ← context key
  if c.state ≠ .ready then pure .continue
  else
    let reply ← notify (.onAcked key c.state)
    pure reply.action

def onAckedResponse (key alen : Nat) : SslProgram (Action × List UInt8) :=
  Context.onAcked key alen

def onNewData (key : Nat) : SslProgram Action := Context.onNewData key

def onNewDataResponse (key alen : Nat) : SslProgram (Action × List UInt8) :=
  Context.onNewDataResponse key alen

/-- Only the client looks whether there is a context. -/
def onClosed (role : Role) (cookie : Option Nat) : SslProgram Unit :=
  match cookie with
  | none => if role = .client then pure () else .fault .context
  | some key => do
      let _ ← context key
      .update fun w => { w with contexts := fun k => if k = key then none else w.contexts k }

/-! ## Calls of the user -/

/-- `send`, with the progress report: the last argument until something is written. -/
def send (cookie : Option Nat) (data : List UInt8) (off : UInt32) :
    SslProgram (Status × UInt32) :=
  match cookie with
  | none => pure (.invalidArgument, off)
  | some key => do
      let c ← context key
      if c.state ≠ .ready then pure (.invalidConnection, off)
      else if c.blocked then pure (.operationInProgress, off)
      else
        let answer ← sslWrite key data
        let ret ← flush key
        pure (ret, UInt32.ofInt answer.ret)

def close (role : Role) (cookie : Option Nat) : SslProgram Status :=
  match cookie with
  | none => pure (if role = .client then .notConnected else .invalidArgument)
  | some key => do
      let c ← context key
      if c.state ≠ .ready ∧ c.state ≠ .shutdown then pure .notConnected
      else if c.state = .shutdown then pure .operationInProgress
      else
        setContext key { c with state := .shutdown }
        let e ← openssl key
        if e.ret = 0 then
          let _ ← flush key
          pure .operationInProgress
        else if e.ret = 1 then
          let answer ← below
          pure answer.1
        else pure .protocolError

/-- `Client::connect`, when the connection below has a context already. -/
def handshake (key : Nat) : SslProgram Status := do
  let c ← context key
  match c.state with
  | .connect =>
      let e ← openssl key
      if e.ret = 0 then pure .protocolError
      else if e.ret = 1 then
        let c ← context key
        setContext key { c with state := .ready }
        pure .ok
      else if e.error ≠ .wantRead then pure .protocolError
      else
        let res ← flush key
        pure (if res ≠ .ok then res else .operationInProgress)
  | .ready => pure .ok
  | .shutdown => pure .invalidArgument
  | .closed | .accept => pure .protocolError

/-- `Client::connect`, with the cookies before and after the client below has
been asked to connect. -/
def connect (cookie later : Option Nat) : SslProgram Status :=
  match cookie with
  | some key => handshake key
  | none => do
      let answer ← below
      if answer.1 ≠ .ok then pure answer.1
      else match later with
        | none => .fault .context
        | some key => handshake key

/-- `Client::abort` -/
def abort (cookie : Option Nat) : SslProgram Status :=
  match cookie with
  | none => pure .invalidArgument
  | some key => do
      let c ← context key
      if c.state ≠ .ready ∧ c.state ≠ .shutdown then pure .notConnected
      else
        let answer ← below
        pure answer.1

end Endpoint

/-! ## Runs -/

/-- What happens to an endpoint, in any order. -/
inductive Op : Role → Type
  | onConnected {role : Role} (key : Nat) : Op role
  | onAcked {role : Role} (key : Nat) : Op role
  | onAckedResponse {role : Role} (key alen : Nat) : Op role
  | onNewData {role : Role} (key : Nat) : Op role
  | onNewDataResponse {role : Role} (key alen : Nat) : Op role
  | onClosed {role : Role} (cookie : Option Nat) : Op role
  | send {role : Role} (cookie : Option Nat) (data : List UInt8) (off : UInt32) : Op role
  | close {role : Role} (cookie : Option Nat) : Op role
  | connect (cookie later : Option Nat) : Op .client
  | abort (cookie : Option Nat) : Op .client

namespace Op

def exec {role : Role} : Op role → SslProgram Unit
  | .onConnected key => Endpoint.onConnected role key
  | .onAcked key => discard (Endpoint.onAcked key)
  | .onAckedResponse key alen => discard (Endpoint.onAckedResponse key alen)
  | .onNewData key => discard (Endpoint.onNewData key)
  | .onNewDataResponse key alen => discard (Endpoint.onNewDataResponse key alen)
  | .onClosed cookie => Endpoint.onClosed role cookie
  | .send cookie data off => discard (Endpoint.send cookie data off)
  | .close cookie => discard (Endpoint.close role cookie)
  | .connect cookie later => discard (Endpoint.connect cookie later)
  | .abort cookie => discard (Endpoint.abort cookie)

/-- One operation after the other. -/
def execAll {role : Role} : List (Op role) → SslProgram Unit
  | [] => pure ()
  | op :: ops => do
      op.exec
      execAll ops

end Op

end Tulips.Ssl
