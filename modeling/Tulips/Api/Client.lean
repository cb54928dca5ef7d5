import Tulips.Stack.Host

/-!
# The client

`tulips::Client` gives out handles for connections and passes what happens to
them on to its delegate. It is the event handler of the TCP processor of its host,
so its table of handles is the state of the handler.
-/

namespace Tulips

open Tcpv4 (EventHandler Callback Reply Port)

namespace Client

/-! ## Handles -/

inductive State
  | closed
  | opened
  | resolving
  | connecting
  | connected
  deriving DecidableEq

structure Connection where
  state : State
  /-- The connection of the TCP processor. -/
  conn : UInt16
  count : UInt64
  pre : UInt64
  lat : UInt64
  history : List UInt64

/-- `Connection::Connection` -/
def Connection.initial : Connection := ⟨.closed, 0xffff, 0, 0, 0, []⟩

/-! ## The delegate -/

/-- The methods of `interface::Delegate`. The data callbacks come in two forms; the
one that may send is given the length of the response area. -/
inductive Call
  | onConnected
  | onAcked (alen : Option UInt32)
  | onNewData (data : List UInt8) (alen : Option UInt32)
  | onClosed
  deriving DecidableEq

/-- How a method returns: `onConnected` with a cookie and options, a data callback
with an action, the bytes it put in the response area and the length it claims. -/
structure Answer (S : Type) where
  dlg : S
  cookie : Option Nat
  opts : UInt8
  action : Action
  sdata : List UInt8
  slen : UInt32

/-- A delegate is called with the handle of the connection and its cookie. -/
abbrev Delegate (S : Type) := S → UInt16 → Option Nat → Call → Answer S

end Client

/-- The members of a client that its event handler works on. -/
structure Client (S : Type) where
  /-- `m_cns` -/
  cns : UInt16 → Client.Connection
  /-- `m_idx`; a connection without an entry is given handle 0. -/
  idx : UInt16 → UInt16
  /-- How often the clock has been read. -/
  reads : Nat
  dlg : S
  /-- An empty list has been asked for its first element, which is undefined. -/
  undefined : Bool

namespace Client

variable {D S : Type} {n : Nat}

def initial (dlg : S) : Client S := ⟨fun _ => .initial, fun _ => 0, 0, dlg, false⟩

def setConn (cl : Client S) (id : UInt16) (d : Connection) : Client S :=
  { cl with cns := Function.update cl.cns id d }

/-! ## Events -/

/-- A callback that leaves the connection alone. -/
def pass (cl : Client S) (e : Tcpv4.Connection) (action : Action) : Reply (Client S) where
  hdl := cl
  cookie := e.cookie
  opts := e.opts
  action := action
  sdata := []
  slen := 0

/-- `Client::onConnected` -/
def onConnected (dlg : Delegate S) (cl : Client S) (e : Tcpv4.Connection) (id : UInt16) :
    Reply (Client S) :=
  let answer := dlg cl.dlg id none .onConnected
  { pass { cl.setConn id { cl.cns id with state := .connected } with dlg := answer.dlg } e
      .continue with
    cookie := answer.cookie
    opts := e.opts ||| answer.opts.toUInt64 }

/-- `Client::onAborted`, `Client::onTimedOut` and `Client::onClosed` -/
def onClosed (dlg : Delegate S) (cl : Client S) (e : Tcpv4.Connection) (id : UInt16) :
    Reply (Client S) :=
  let answer := dlg cl.dlg id e.cookie .onClosed
  { pass { cl.setConn id { cl.cns id with state := .closed } with dlg := answer.dlg } e
      .continue with
    cookie := none }

/-- `Client::onSent` -/
def onSent (monitor : Bool) (cl : Client S) (id : UInt16) : Client S :=
  let d := cl.cns id
  if monitor then cl.setConn id { d with history := d.history ++ [d.pre], pre := 0 } else cl

/-- The latency of an acknowledgement is counted; the oldest time in the history is
the one the data was given to the client at. -/
def noteLatency (clock : Nat → UInt64) (cl : Client S) (id : UInt16) : Client S :=
  let d := cl.cns id
  let now := clock cl.reads
  let cl := { cl with reads := cl.reads + 1 }
  match d.history with
  | [] => { cl with undefined := true }
  | first :: rest =>
      cl.setConn id { d with
        count := d.count + 1
        lat := d.lat + (now - first)
        history := rest }

/-- A data callback of the delegate. -/
def forward (dlg : Delegate S) (cl : Client S) (e : Tcpv4.Connection) (id : UInt16)
    (call : Call) : Reply (Client S) :=
  let answer := dlg cl.dlg id e.cookie call
  { pass { cl with dlg := answer.dlg } e answer.action with
    sdata := answer.sdata
    slen := answer.slen }

/-- The client as an event handler. Events of a connection that its handle has left
are ignored. -/
def handler (monitor : Bool) (clock : Nat → UInt64) (dlg : Delegate S) :
    EventHandler (Client S) := fun cl e cb =>
  let id := cl.idx e.id
  if (cl.cns id).conn ≠ e.id then cl.pass e .abort
  else
    match cb with
    | .onConnected => cl.onConnected dlg e id
    | .onAborted | .onTimedOut | .onClosed => cl.onClosed dlg e id
    | .onSent => (cl.onSent monitor id).pass e .continue
    | .onAcked alen =>
        (if monitor then cl.noteLatency clock id else cl).forward dlg e id (.onAcked alen)
    | .onNewData data alen => cl.forward dlg e id (.onNewData data alen)

/-- What a client is built with. -/
structure Setup (D S : Type) extends Net D Unit where
  clock : Nat → UInt64
  delegate : Delegate S

/-- The network of the client, whose processor calls the client. -/
def Setup.net (env : Setup D S) : Net D (Client S) where
  config := env.config
  hostMac := env.hostMac
  hostIp := env.hostIp
  device := env.device
  handler := handler env.config.latencyMonitor env.clock env.delegate
  netMask := env.netMask
  defaultRouterAddress := env.defaultRouterAddress
  enableArp := env.enableArp
  enableIcmp := env.enableIcmp
  enableRaw := env.enableRaw

/-! ## Operations -/

/-- The client of a host. -/
def of (s : Host D (Client S) n) : Client S := s.tcp.w.hdl

/-- Change the client. -/
def modify (f : Client S → Client S) : HostProgram D (Client S) n Unit :=
  .update fun s => { s with tcp.w.hdl := f s.tcp.w.hdl }

def setState (id : UInt16) (st : State) : HostProgram D (Client S) n Unit :=
  modify fun cl => cl.setConn id { cl.cns id with state := st }

/-- `Client::open` -/
def «open» : HostProgram D (Client S) n (Status × Option UInt16) := do
  let cl ← .gets of
  match ((List.range n).map UInt16.ofNat).find? fun i => (cl.cns i).state == .closed with
  | none => pure (.noMoreResources, none)
  | some id =>
      setState id .opened
      pure (.ok, some id)

/-- Connect a handle whose hardware address is known. The connection is only set by
an attempt that gets to its end, and left as it was by one that returns `Ok` before. -/
def connectTo (env : Setup D S) (id : UInt16) (rhwaddr : Ethernet.Address)
    (ripaddr : Ipv4.Address) (rport : Port) (clock : List UInt64) :
    HostProgram D (Client S) n Status := do
  let (ret, conn) ← Host.onTcp
    (Tcpv4.Processor.connect env.net.toEnv rhwaddr ripaddr rport clock)
  if ret = .ok then
    modify fun cl =>
      let c := cl.cns id
      let conn := (conn.map fun i => UInt16.ofNat i.val).getD c.conn
      let cl := cl.setConn id { c with conn := conn, state := .connecting }
      { cl with idx := Function.update cl.idx conn id }
    pure .operationInProgress
  else pure ret

/-- `Client::connect`. Without ARP, the translation comes from the operating system. -/
def connect (env : Setup D S) (id : UInt16) (ripaddr : Ipv4.Address) (rport : Port)
    (found : Option Ethernet.Address) (clock : List UInt64) :
    HostProgram D (Client S) n Status := do
  if n ≤ id.toNat then pure .invalidConnection
  else
    let s ← .gets fun s => s
    match ((of s).cns id).state with
    | .closed => pure .invalidConnection
    | .opened =>
        if env.enableArp then
          match s.arp.query env.net ripaddr with
          | none =>
              let ret ← Host.world (s.arp.discover env.net ripaddr)
              if ret = .ok then
                setState id .resolving
                pure .operationInProgress
              else pure ret
          | some rhwaddr => connectTo env id rhwaddr ripaddr rport clock
        else
          match found with
          | none => pure .hardwareTranslationMissing
          | some rhwaddr => connectTo env id rhwaddr ripaddr rport clock
    | .resolving =>
        match s.arp.query env.net ripaddr with
        | none => pure .operationInProgress
        | some rhwaddr => connectTo env id rhwaddr ripaddr rport clock
    | .connecting => pure .operationInProgress
    | .connected => pure .ok

/-- `Client::abort` and `Client::close`: an operation on a connected handle. -/
def onConn (id : UInt16) (m : UInt16 → Tcpv4.ProcProgram D (Client S) n Status) :
    HostProgram D (Client S) n Status := do
  if n ≤ id.toNat then pure .invalidConnection
  else
    let cl ← .gets of
    if (cl.cns id).state ≠ .connected then pure .notConnected
    else Host.onTcp (m (cl.cns id).conn)

def abort (env : Setup D S) (id : UInt16) : HostProgram D (Client S) n Status :=
  onConn id (Tcpv4.Processor.abort env.net.toEnv)

def close (env : Setup D S) (id : UInt16) : HostProgram D (Client S) n Status :=
  onConn id (Tcpv4.Processor.close env.net.toEnv)

def isClosed (cl : Client S) (n : Nat) (id : UInt16) : Bool :=
  n ≤ id.toNat || (cl.cns id).state == .closed

/-- Note when data was first given to the client. -/
def stamp (clock : Nat → UInt64) (cl : Client S) (id : UInt16) : Client S :=
  let c := cl.cns id
  if c.pre = 0 then
    { cl.setConn id { c with pre := clock cl.reads } with reads := cl.reads + 1 }
  else cl

/-- `Client::send`, with the new value of `off`. -/
def send (env : Setup D S) (id : UInt16) (len : UInt32) (data : Option Bytes) (off : UInt32) :
    HostProgram D (Client S) n (Status × UInt32) := do
  if n ≤ id.toNat then pure (.invalidConnection, off)
  else
    .when (env.config.latencyMonitor = true) (modify fun cl => cl.stamp env.clock id)
    let cl ← .gets of
    Host.onTcp (Tcpv4.Processor.send env.net.toEnv (cl.cns id).conn len data off)

/-- `Client::get` -/
def get (s : Host D (Client S) n) (id : UInt16) : Except Status (Ipv4.Address × Port × Port) :=
  if n ≤ id.toNat then .error .invalidConnection else s.tcp.get ((of s).cns id).conn

/-- `Client::averageLatency` starts the average anew. Its result, in nanoseconds, is
left out. -/
def averageLatency (env : Setup D S) (id : UInt16) : HostProgram D (Client S) n Unit :=
  if n ≤ id.toNat then pure ()
  else
    .when (env.config.latencyMonitor = true) do
      modify fun cl => cl.setConn id { cl.cns id with lat := 0, count := 0 }

/-- `Client::cookie` -/
def cookie (s : Host D (Client S) n) (id : UInt16) : Option Nat :=
  if n ≤ id.toNat then none else s.tcp.cookie ((of s).cns id).conn

/-! ## Runs -/

/-- What is done to a client. -/
inductive Op
  | «open»
  | connect (id : UInt16) (ripaddr : Ipv4.Address) (rport : Port)
      (found : Option Ethernet.Address) (clock : List UInt64)
  | abort (id : UInt16)
  | close (id : UInt16)
  | send (id : UInt16) (len : UInt32) (data : Option Bytes) (off : UInt32)
  | averageLatency (id : UInt16)
  /-- A frame arrives. -/
  | process (len : UInt16) (data : Bytes)
  | run (arpExpired tcpExpired : Bool)

def exec (env : Setup D S) : Op → HostProgram D (Client S) n Unit
  | .«open» => do
      let _ ← «open»
      pure ()
  | .connect id ripaddr rport found clock => do
      let _ ← connect env id ripaddr rport found clock
      pure ()
  | .abort id => do
      let _ ← abort env id
      pure ()
  | .close id => do
      let _ ← close env id
      pure ()
  | .send id len data off => do
      let _ ← send env id len data off
      pure ()
  | .averageLatency id => averageLatency env id
  | .process len data => Host.exec env.net (.frame len data)
  | .run arpExpired tcpExpired => Host.exec env.net (.run arpExpired tcpExpired)

/-- A client as it is built. -/
def start (n : Nat) (dev : D) (dlg : S) : Host D (Client S) n := .initial n dev (initial dlg)

end Client

end Tulips
