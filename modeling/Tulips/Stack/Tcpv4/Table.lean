import Tulips.Stack.Tcpv4.Client

/-!
# The table of connections

The TCP processor as a whole: its connections, the ports it listens on and the
initial sequence number it hands out. Its operations find the connection they
are about and run on it.
-/

namespace Tulips.Tcpv4

structure Processor (D H : Type) (n : Nat) where
  conns : Fin n → Connection
  iss : UInt32
  listenports : List Port
  w : World D H

variable {D H : Type} {n : Nat}

abbrev ProcProgram (D H : Type) (n : Nat) (α : Type) := Program Fault (Processor D H n) α

namespace Processor

/-- The processor as it is built, every connection closed. -/
def initial (n : Nat) (dev : D) (hdl : H) : Processor D H n where
  conns i := Connection.initial (UInt16.ofNat i)
  iss := 0
  listenports := []
  w := World.initial dev hdl

/-- One connection of the table with the world. -/
def ctx (p : Processor D H n) (i : Fin n) : Ctx D H := ⟨p.conns i, p.w⟩

def setCtx (i : Fin n) (p : Processor D H n) (s : Ctx D H) : Processor D H n :=
  { p with conns := Function.update p.conns i s.e, w := s.w }

def world {α : Type} (m : WorldProgram D H α) : ProcProgram D H n α :=
  .zoom Processor.w (fun p w => { p with w := w }) m

def onConn {α : Type} (i : Fin n) (m : ConnProgram D H α) : ProcProgram D H n α :=
  .zoom (fun p => p.ctx i) (setCtx i) m

/-- The connection with the given number, if there is one. -/
def slot? (n : Nat) (id : UInt16) : Option (Fin n) :=
  if h : id.toNat < n then some ⟨id.toNat, h⟩ else none

/-! ## Finding a connection -/

/-- The connection a segment is for. -/
def demux (p : Processor D H n) (inc : Incoming) : Option (Fin n) :=
  (List.finRange n).find? fun i =>
    (p.conns i).state != .closed && inc.hdr.destport == (p.conns i).lport &&
      inc.hdr.srcport == (p.conns i).rport && inc.ipSrc == (p.conns i).ripaddr

/-- The longest waiting connection in TIME_WAIT. -/
def oldestWaiting (p : Processor D H n) : Option (Fin n) :=
  (List.finRange n).foldl (fun best i =>
    if (p.conns i).state = .timeWait then
      match best with
      | none => some i
      | some b => if (p.conns b).timer < (p.conns i).timer then some i else some b
    else best) none

/-- The slot for a new connection: the first closed one, else the one that has
waited the longest. -/
def vacant (p : Processor D H n) : Option (Fin n) :=
  match (List.finRange n).find? fun i => (p.conns i).state == .closed with
  | some i => some i
  | none => p.oldestWaiting

/-- A local port nobody uses, from successive readings of the clock. -/
def localPort (p : Processor D H n) (clock : List UInt64) : Option Port :=
  (clock.map UInt64.toUInt16).find? fun lport =>
    4096 ≤ lport && (List.finRange n).all fun i =>
      (p.conns i).state == .closed || (p.conns i).lport != htons lport

/-! ## Operations -/

def listen (env : Env D H) (port : Port) : ProcProgram D H n Unit := do
  let ret ← world (deviceListen env port)
  .when (ret = .ok) (.update fun p => { p with listenports := p.listenports.insert (htons port) })

def unlisten (env : Env D H) (port : Port) : ProcProgram D H n Unit := do
  world (deviceUnlisten env port)
  .update fun p => { p with listenports := p.listenports.filter (· ≠ htons port) }

/-- Prepare a buffer for a segment to the given addresses. -/
def prepareTo (env : Env D H) (rhwaddr : Ethernet.Address) (ripaddr : Ipv4.Address) :
    WorldProgram D H (Except Failure Ptr) := do
  Ipv4Producer.setProtocol Ipv4.protoTcp
  Ipv4Producer.setDestination ripaddr
  EthernetProducer.setDestination rhwaddr
  Ipv4Producer.prepare env none

/-- `Processor::reset` -/
def reset (env : Env D H) (inc : Incoming) : WorldProgram D H Status := do
  match ← prepareTo env inc.ethSrc inc.ipSrc with
  | .error ret => pure ret.val
  | .ok outdata =>
      -- No reset answers a reset; the buffer stays with the device.
      if inc.has tcpRst then pure .ok
      else
        modifyHeader none (some outdata) fun h =>
          { h with
            flags := tcpRst
            offset := 5
            seqno := inc.hdr.ackno
            ackno := htonl (inc.seqno + 1)
            srcport := inc.hdr.destport
            destport := inc.hdr.srcport }
        sendFrame env none inc.ipSrc (UInt32.ofNat headerLen) env.initialMss (some outdata)

/-- Answer a SYN on a port the processor listens on. -/
def acceptSyn (env : Env D H) (inc : Incoming) : ProcProgram D H n Status := do
  let p ← .gets id
  match p.vacant with
  | none => pure .ok
  | some i =>
      match ← world (prepareTo env inc.ethSrc inc.ipSrc) with
      | .error ret => pure ret.val
      | .ok outdata => onConn i (openSynRcvd env inc p.iss outdata)

/-- `Processor::process` -/
def process (env : Env D H) (inc : Incoming) : ProcProgram D H n Status := do
  let p ← .gets id
  if env.config.disableChecksumCheck = false ∧
      tcpChecksum inc.ipSrc inc.ipDst inc.len inc.data ≠ 0xffff then pure .corruptedData
  else
    match p.demux inc with
    | some i => onConn i (processSegment env inc)
    | none =>
        if inc.ctlIs tcpSyn = false then world (reset env inc)
        else if inc.hdr.destport ∈ p.listenports then acceptSyn env inc
        else world (reset env inc)

/-- The loop of `Processor::run` over the connections that remain. -/
def tickFrom (env : Env D H) : List (Fin n) → ProcProgram D H n Status
  | [] => pure .ok
  | i :: rest => do
      match ← onConn i (tick env) with
      | some ret => pure ret
      | none => tickFrom env rest

/-- `Processor::run` -/
def run (env : Env D H) (expired : Bool) : ProcProgram D H n Status := do
  if expired = false then pure .ok
  else
    .update fun p => { p with iss := p.iss + 1 }
    tickFrom env (List.finRange n)

/-- `Processor::connect`, with the connection it has opened. -/
def connect (env : Env D H) (rhwaddr : Ethernet.Address) (ripaddr : Ipv4.Address) (rport : Port)
    (clock : List UInt64) : ProcProgram D H n (Status × Option (Fin n)) := do
  match ← world (prepareTo env rhwaddr ripaddr) with
  | .error ret => pure (ret.val, none)
  | .ok outdata =>
      let p ← .gets id
      match p.localPort clock with
      | none => .fault .clockExhausted
      | some lport =>
          match p.vacant with
          | none => pure (.noMoreResources, none)
          | some i =>
              let ret ← world (deviceListen env lport)
              if ret ≠ .ok then pure (ret, none)
              else
                let syn ← onConn i (openSynSent env rhwaddr ripaddr lport rport p.iss outdata)
                if syn ≠ .ok then
                  world (deviceUnlisten env lport)
                  onConn i (setState .closed)
                  -- The status of the registration is returned, not the one of the SYN.
                  pure (ret, none)
                else pure (.ok, some i)

/-- An operation on the connection with the given number. -/
def onId (id : UInt16) (m : ConnProgram D H Status) : ProcProgram D H n Status :=
  match slot? n id with
  | none => pure .invalidConnection
  | some i => onConn i m

def abort (env : Env D H) (id : UInt16) : ProcProgram D H n Status :=
  onId id (Tcpv4.abort env)

def close (env : Env D H) (id : UInt16) : ProcProgram D H n Status :=
  onId id (Tcpv4.close env)

def send (env : Env D H) (id : UInt16) (len : UInt32) (data : Option Bytes) (off : UInt32) :
    ProcProgram D H n (Status × UInt32) :=
  match slot? n id with
  | none => pure (.invalidConnection, off)
  | some i => onConn i (Tcpv4.send env len data off)

def isClosed (p : Processor D H n) (id : UInt16) : Bool :=
  match slot? n id with
  | none => true
  | some i => (p.conns i).state == .closed

/-- `Processor::get` -/
def get (p : Processor D H n) (id : UInt16) : Except Status (Ipv4.Address × Port × Port) :=
  match slot? n id with
  | none => .error .invalidConnection
  | some i =>
      let c := p.conns i
      if c.state ≠ .established then .error .notConnected
      else .ok (c.ripaddr, ntohs c.lport, ntohs c.rport)

def cookie (p : Processor D H n) (id : UInt16) : Option Nat :=
  match slot? n id with
  | none => none
  | some i => (p.conns i).cookie

/-! ## Runs -/

/-- The operations that change the processor. -/
inductive Op
  | listen (port : Port)
  | unlisten (port : Port)
  | connect (rhwaddr : Ethernet.Address) (ripaddr : Ipv4.Address) (rport : Port)
      (clock : List UInt64)
  | abort (id : UInt16)
  | close (id : UInt16)
  | send (id : UInt16) (len : UInt32) (data : Option Bytes) (off : UInt32)
  | process (inc : Incoming)
  | run (expired : Bool)

def exec (env : Env D H) : Op → ProcProgram D H n Unit
  | .listen port => listen env port
  | .unlisten port => unlisten env port
  | .connect rhwaddr ripaddr rport clock => do
      let _ ← connect env rhwaddr ripaddr rport clock
      pure ()
  | .abort id => do
      let _ ← abort env id
      pure ()
  | .close id => do
      let _ ← close env id
      pure ()
  | .send id len data off => do
      let _ ← send env id len data off
      pure ()
  | .process inc => do
      let _ ← process env inc
      pure ()
  | .run expired => do
      let _ ← run env expired
      pure ()

/-- Operations one after the other, up to the first that faults. -/
def execAll (env : Env D H) : List Op → ProcProgram D H n Unit
  | [] => pure ()
  | op :: ops => do
      exec env op
      execAll env ops

end Processor

end Tulips.Tcpv4
