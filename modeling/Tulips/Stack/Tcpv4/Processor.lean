import Tulips.Stack.Tcpv4.Send

/-!
# Receiving

The part of `tcpv4::Processor` that works on one connection: what a segment
does to the connection it is addressed to, state by state, and what a tick of
the timer does.
-/

namespace Tulips.Tcpv4

variable {D H : Type}

/-! ## Incoming segments -/

/-- A TCP segment as the IPv4 processor hands it over, with the addresses its
frame came with. -/
structure Incoming where
  ethSrc : Ethernet.Address
  ipSrc : Ipv4.Address
  ipDst : Ipv4.Address
  len : UInt16
  data : Bytes

namespace Incoming

def hdr (inc : Incoming) : Header := Header.load inc.data

def seqno (inc : Incoming) : UInt32 := ntohl inc.hdr.seqno

def ackno (inc : Incoming) : UInt32 := ntohl inc.hdr.ackno

def window (inc : Incoming) : UInt16 := ntohs inc.hdr.wnd

def has (inc : Incoming) (flag : UInt8) : Bool := inc.hdr.has flag

/-- The control flags are exactly the given ones. -/
def ctlIs (inc : Incoming) (flags : UInt8) : Bool := inc.hdr.flags &&& tcpCtl == flags

/-- The length of the payload: what the header leaves of the segment. -/
def plen (inc : Incoming) : UInt16 := inc.len - inc.hdr.lenWithOpts

/-- The length of the urgent data. -/
def urglen (inc : Incoming) : UInt16 := if inc.has tcpUrg then ntohs inc.hdr.urgp else 0

/-- The length of the payload without the urgent data. -/
def datalen (inc : Incoming) : UInt16 := inc.plen - inc.urglen

/-- `n` bytes of the segment, from `off` bytes into the payload. -/
def bytes (inc : Incoming) (off n : UInt16) : List UInt8 :=
  (List.range n.toNat).map fun i => inc.data (inc.hdr.lenWithOpts.toNat + off.toNat + i)

/-- The payload of the segment. -/
def payload (inc : Incoming) : List UInt8 := inc.bytes 0 inc.plen

/-- The number of bytes of SYN options, when there are any. -/
def optlen (inc : Incoming) : UInt16 := UInt16.ofNat ((inc.hdr.offset.val - 5) * 4)

end Incoming

namespace Connection

/-- The processing of a segment starts with no news. -/
def clearNews (e : Connection) : Connection :=
  { e with ackdata := false, newdata := false, pshdata := false }

/-- Take in `n` bytes of payload as new data. -/
def receive (e : Connection) (inc : Incoming) (n : UInt16) : Connection :=
  { e with rcvNxt := e.rcvNxt + n.toUInt32, newdata := true, pshdata := inc.has tcpPsh }

/-- Take over the window of the peer and bound the MSS with it. -/
def updateWindow (e : Connection) (wnd : UInt16) : Connection :=
  let e := { e with wnd := wnd }
  { e with mss :=
      if e.window ≤ e.initialmss.toUInt32 ∧ 0 < e.window then e.window.toUInt16 else e.initialmss }

/-- Parse the SYN options, if the segment has any. -/
def parseOptions (e : Connection) (inc : Incoming) : Connection :=
  if 5 < inc.hdr.offset.val then Options.parse e inc.optlen inc.data else e

/-- Whether the application may put data in the send buffer. -/
def canSend (e : Connection) : Bool :=
  e.hasAvailableSegments && UInt32.ofNat e.slen.toNat < e.window

end Connection

/-- How much the send buffer of a connection may hold. -/
def Env.bound (env : Env D H) (e : Connection) : UInt32 :=
  if e.window < env.mss then e.window else env.mss

/-! ## Responses of the application -/

/-- Count bytes that now stand behind the pending ones as pending. -/
def accept (bytes : List UInt8) : ConnProgram D H Unit := do
  let e ← .gets Ctx.e
  onWorld (record (.append e.id e.slen bytes))
  modifyConn fun e => { e with slen := e.slen + BitVec.ofNat 24 bytes.length }

/-- The `n` bytes behind the pending ones. -/
def Ctx.tail (s : Ctx D H) (n : Nat) : List UInt8 :=
  match s.e.sdat with
  | none => List.replicate n 0
  | some p => s.w.mem.read p.buf (p.off + headerLen + s.e.slen.toNat) n

/-- Call a data callback and do what it asks for. When the connection can send,
the callback gets the response area behind the pending data, and what it puts
there is pending afterwards. -/
def respond (env : Env D H) (cb : Option UInt32 → Callback) (canSend : Bool)
    (next : ConnProgram D H Status) : ConnProgram D H Status := do
  let e ← .gets Ctx.e
  let alen := env.bound e - UInt32.ofNat e.slen.toNat
  let reply ← callback env (cb (if canSend then some alen else none))
  .when (canSend = true ∧ reply.sdata ≠ []) do
    onWorld (store (some e.id) e.sdat (headerLen + e.slen.toNat) (reply.sdata.take alen.toNat))
  match reply.action with
  | .abort => sendAbort env
  | .close => sendClose env
  | .continue =>
      .when (canSend = true) do
        let rlen := if alen < reply.slen then alen else reply.slen
        let bytes ← .gets fun s => s.tail rlen.toNat
        accept bytes
      next

/-! ## One function for each state -/

/-- Hand over the payload when no answer can be sent along. -/
def deliver (env : Env D H) (inc : Incoming) : ConnProgram D H Unit := do
  let _ ← callback env (.onNewData inc.payload none)
  pure ()

def processSynRcvd (env : Env D H) (inc : Incoming) : ConnProgram D H Status := do
  let e ← .gets Ctx.e
  if e.ackdata then
    setState .established
    let _ ← callback env .onConnected
    if 0 < inc.plen then
      modifyConn fun e => e.receive inc inc.plen
      deliver env inc
      sendAck env
    else pure .ok
  else pure .ok

def processSynSent (env : Env D H) (inc : Incoming) : ConnProgram D H Status := do
  let e ← .gets Ctx.e
  if e.ackdata = true ∧ inc.ctlIs (tcpSyn ||| tcpAck) = true then
    setState .established
    onWorld (record (.synced e.id inc.seqno))
    modifyConn fun e => { e with rcvNxt := inc.seqno + 1, wnd := inc.window }
    modifyConn fun e => e.parseOptions inc
    let _ ← callback env .onConnected
    .when (0 < inc.plen) do
      modifyConn fun e => { e with newdata := true, pshdata := inc.has tcpPsh }
      deliver env inc
    sendAck env
  else
    let _ ← callback env .onAborted
    sendAbort env

/-- A FIN in ESTABLISHED: the connection closes on this side as well. -/
def processFin (env : Env D H) (inc : Incoming) : ConnProgram D H Status := do
  let e ← .gets Ctx.e
  if e.hasOutstandingSegments then pure .ok
  else
    modifyConn fun e => { e with rcvNxt := e.rcvNxt + inc.plen.toUInt32 + 1 }
    .when (0 < inc.plen) (deliver env inc)
    setState .lastAck
    pushFinAck env

/-- Send what is pending, or the delayed acknowledgement. -/
def flush (env : Env D H) (canSend : Bool) : ConnProgram D H Status := do
  let e ← .gets Ctx.e
  if e.hasPendingSendData = true ∧ canSend = true then sendNoDelay env tcpPsh
  else if e.hasDelayedAck = true ∧ e.newdata = true then sendAck env
  else pure .ok

/-- Acknowledge new data, unless that is delayed, and hand it over. -/
def notifyNewData (env : Env D H) (inc : Incoming) (canSend : Bool)
    (next : ConnProgram D H Status) : ConnProgram D H Status := do
  let e ← .gets Ctx.e
  if e.newdata then
    let data := inc.bytes inc.urglen inc.datalen
    if e.hasDelayedAck then respond env (.onNewData data) canSend next
    else
      let ret ← sendAck env
      onWorld (record (.immediateAck e.id ret))
      if ret ≠ .ok then pure ret
      else respond env (.onNewData data) canSend next
  else next

/-- Tell the application about acknowledged data. -/
def notifyAcked (env : Env D H) (canSend : Bool)
    (next : Bool → ConnProgram D H Status) : ConnProgram D H Status := do
  let e ← .gets Ctx.e
  if e.ackdata then
    respond env .onAcked canSend do
      let e ← .gets Ctx.e
      next (canSend && e.canSend)
  else next canSend

def processEstablished (env : Env D H) (inc : Incoming) : ConnProgram D H Status := do
  if inc.has tcpFin then processFin env inc
  else
    .when (0 < inc.datalen) (modifyConn fun e => e.receive inc inc.datalen)
    modifyConn fun e => e.updateWindow inc.window
    let e ← .gets Ctx.e
    if e.ackdata = true ∨ e.newdata = true then
      notifyAcked env e.canSend fun canSend =>
        notifyNewData env inc canSend (flush env canSend)
    else pure .ok

def processLastAck (env : Env D H) : ConnProgram D H Status := do
  let e ← .gets Ctx.e
  .when (e.ackdata = true) do
    onWorld (deviceUnlisten env e.lport)
    setState .closed
    let _ ← callback env .onClosed
    pure ()
  pure .ok

/-- Count the payload in FIN_WAIT_1 and FIN_WAIT_2; it is not handed over. -/
def skipPayload (inc : Incoming) : ConnProgram D H Unit :=
  .when (0 < inc.plen) (modifyConn fun e => { e with rcvNxt := e.rcvNxt + inc.plen.toUInt32 })

/-- Enter TIME_WAIT with a fresh timer. -/
def enterTimeWait : ConnProgram D H Unit := do
  setState .timeWait
  modifyConn fun e => { e with timer := 0 }

/-- Acknowledge a FIN of the peer once the state has been changed. -/
def acknowledgeFin (env : Env D H) : ConnProgram D H Status := do
  modifyConn fun e => { e with rcvNxt := e.rcvNxt + 1 }
  let _ ← callback env .onClosed
  sendAck env

def processFinWait1 (env : Env D H) (inc : Incoming) : ConnProgram D H Status := do
  skipPayload inc
  let e ← .gets Ctx.e
  if inc.has tcpFin then
    if e.ackdata then enterTimeWait else setState .closing
    acknowledgeFin env
  else if e.ackdata then
    setState .finWait2
    pure .ok
  else if 0 < inc.plen then sendAck env
  else pure .ok

def processFinWait2 (env : Env D H) (inc : Incoming) : ConnProgram D H Status := do
  skipPayload inc
  if inc.has tcpFin then
    enterTimeWait
    acknowledgeFin env
  else if 0 < inc.plen then sendAck env
  else pure .ok

def processClose (env : Env D H) (inc : Incoming) : ConnProgram D H Status := do
  let e ← .gets Ctx.e
  if e.hasOutstandingSegments then pure .ok
  else
    setState .finWait1
    let i ← pushSegment 1
    .when (0 < inc.plen) (modifyConn fun e => e.receive inc inc.plen)
    sendFinAck env i

def processClosing : ConnProgram D H Status := do
  let e ← .gets Ctx.e
  .when (e.ackdata = true) enterTimeWait
  pure .ok

/-- The switch over the state of the connection. -/
def processState (env : Env D H) (inc : Incoming) : ConnProgram D H Status := do
  let e ← .gets Ctx.e
  match e.state with
  | .synRcvd => processSynRcvd env inc
  | .synSent => processSynSent env inc
  | .established => processEstablished env inc
  | .lastAck => processLastAck env
  | .finWait1 => processFinWait1 env inc
  | .finWait2 => processFinWait2 env inc
  | .timeWait => sendAck env
  | .close => processClose env inc
  | .closing => processClosing
  | .stopped | .closed => pure .ok

/-- Scan for acknowledged segments. The flag tells whether the peer has asked
for a retransmission. -/
def processAck (inc : Incoming) : ConnProgram D H Bool := do
  let e ← .gets Ctx.e
  if inc.has tcpAck = true ∧ e.hasOutstandingSegments = true then
    let scan := e.ackScan inc.window inc.ackno segmentCount
    modifyConn fun _ => scan.1
    pure scan.2
  else pure false

def processRst (env : Env D H) : ConnProgram D H Status := do
  let e ← .gets Ctx.e
  onWorld (deviceUnlisten env e.lport)
  setState .closed
  let _ ← callback env .onAborted
  pure .ok

/-- Whether a segment fails the sequence check of a connection. -/
def Connection.outOfSequence (e : Connection) (inc : Incoming) : Bool :=
  !(e.state == .synSent && inc.ctlIs (tcpSyn ||| tcpAck)) &&
    (0 < inc.plen || inc.has (tcpSyn ||| tcpFin)) && inc.seqno != e.rcvNxt

/-- `Processor::process(Connection&, len, data)` -/
def processSegment (env : Env D H) (inc : Incoming) : ConnProgram D H Status := do
  modifyConn Connection.clearNews
  let e ← .gets Ctx.e
  if inc.has tcpRst then processRst env
  else if e.outOfSequence inc then sendAck env
  else
    let again ← processAck inc
    if again then rexmit env
    else processState env inc

/-! ## Timers -/

/-- Count a tick of a connection that waits for its end. -/
def tickWaiting (env : Env D H) : ConnProgram D H Unit := do
  modifyConn fun e => { e with timer := e.timer + 1 }
  let e ← .gets Ctx.e
  .when (e.timer = timeWaitTimeout) do
    onWorld (deviceUnlisten env e.lport)
    setState .closed

/-- Whether a connection has been retransmitting for too long. -/
def Connection.exhausted (e : Connection) : Bool :=
  e.nrtx == maxRtx || (e.state == .synSent || e.state == .synRcvd) && e.nrtx == maxSynRtx

/-- The part of a tick that deals with outstanding segments. The result is the
status with which `Processor::run` ends, if it ends here. -/
def tickOutstanding (env : Env D H) : ConnProgram D H (Option Status) := do
  modifyConn fun e => { e with timer := e.timer - 1 }
  let e ← .gets Ctx.e
  if 0 < e.timer then pure none
  else if e.exhausted then
    let _ ← callback env .onTimedOut
    some <$> sendAbort env
  else
    modifyConn fun e => { e with
      timer := rto <<< (if 4 < e.nrtx then 4 else UInt8.ofNat e.nrtx.toNat), nrtx := e.nrtx + 1 }
    some <$> rexmit env

/-- The body of the loop of `Processor::run`. -/
def tick (env : Env D H) : ConnProgram D H (Option Status) := do
  let e ← .gets Ctx.e
  if e.state = .closed then pure none
  else
    .when (e.state = .timeWait ∨ e.state = .finWait2) (tickWaiting env)
    let e ← .gets Ctx.e
    if e.state = .closed then pure none
    else if e.hasOutstandingSegments then tickOutstanding env
    else pure none

end Tulips.Tcpv4
