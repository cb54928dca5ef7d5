import Tulips.Stack.Tcpv4.Processor

/-!
# Opening, using and ending a connection

The operations of `tcpv4::Processor` on the connection they have chosen: the
first segment of either side, and the application's sending, closing and
aborting.
-/

namespace Tulips.Tcpv4

variable {D H : Type}

/-- The fields both ways of opening a connection reset. -/
def Connection.start (e : Connection) (initialmss : UInt16) : Connection :=
  { e with
    opts := 0
    ackdata := false
    newdata := false
    pshdata := false
    wndscl := 0
    segidx := 0
    slen := 0
    sdat := none
    initialmss := initialmss
    mss := initialmss
    sa := 0
    rto := Tcpv4.rto
    timer := Tcpv4.rto }

/-- Put the SYN of a new connection in its first free slot. -/
def pushSyn (outdata : Ptr) : ConnProgram D H (Fin segmentCount) := do
  let e ← .gets Ctx.e
  match e.nextAvailableSegment with
  | none => .fault .noSegment
  | some i =>
      modifyConn fun e => e.setSegment i ⟨1, e.sndNxt, some outdata⟩
      pure i

/-- The end of `Processor::process`: a SYN opens a connection. -/
def openSynRcvd (env : Env D H) (inc : Incoming) (iss : UInt32) (outdata : Ptr) :
    ConnProgram D H Status := do
  let e ← .gets Ctx.e
  onWorld (record (.create e.id iss outdata.buf e.hasOutstandingSegments))
  onWorld (record (.synced e.id inc.seqno))
  modifyConn fun e =>
    { e.start env.initialMss with
      rethaddr := inc.ethSrc
      ripaddr := inc.ipSrc
      lport := inc.hdr.destport
      rport := inc.hdr.srcport
      rcvNxt := inc.seqno + 1
      sndNxt := iss
      state := .synRcvd
      wnd := inc.window
      nrtx := 0
      sv := 4 }
  let i ← pushSyn outdata
  modifyConn fun e => e.parseOptions inc
  sendSynAck env i

/-- The end of `Processor::connect`: open a connection with a SYN. -/
def openSynSent (env : Env D H) (rhwaddr : Ethernet.Address) (ripaddr : Ipv4.Address)
    (lport rport : Port) (iss : UInt32) (outdata : Ptr) : ConnProgram D H Status := do
  let e ← .gets Ctx.e
  onWorld (record (.create e.id iss outdata.buf e.hasOutstandingSegments))
  modifyConn fun e =>
    { e.start env.initialMss with
      rethaddr := rhwaddr
      ripaddr := ripaddr
      lport := htons lport
      rport := htons rport
      rcvNxt := 0
      sndNxt := iss
      state := .synSent
      wnd := 0
      nrtx := 1
      sv := 16
      cookie := none }
  let i ← pushSyn outdata
  setFlags (some outdata) 0 none
  sendSyn env i

/-- `Processor::abort` -/
def abort (env : Env D H) : ConnProgram D H Status := do
  let e ← .gets Ctx.e
  onWorld (deviceUnlisten env e.lport)
  setState .closed
  let _ ← callback env .onAborted
  setFlags e.sdat 0 none
  sendAbort env

/-- `Processor::close` -/
def close (env : Env D H) : ConnProgram D H Status := do
  let e ← .gets Ctx.e
  if e.state ≠ .established then pure .notConnected
  else if e.hasOutstandingSegments then
    setState .close
    pure .ok
  else
    setFlags e.sdat 0 none
    sendClose env

/-- How much of `len - off` bytes the send buffer takes. -/
def Env.fitting (env : Env D H) (e : Connection) (len off : UInt32) : UInt32 :=
  let slen := len - off
  if UInt32.ofNat e.slen.toNat + slen > env.bound e then
    env.bound e - UInt32.ofNat e.slen.toNat
  else slen

/-- Copy the data of the application behind the pending data. -/
def copyPayload (data : Bytes) (off slen : UInt32) : ConnProgram D H Unit := do
  let e ← .gets Ctx.e
  let bytes := (List.range slen.toNat).map fun i => data (off.toNat + i)
  onWorld (store (some e.id) e.sdat (headerLen + e.slen.toNat) bytes)
  accept bytes

/-- `Processor::send(id, len, data, off)`, with the new value of `off`. -/
def send (env : Env D H) (len : UInt32) (data : Option Bytes) (off : UInt32) :
    ConnProgram D H (Status × UInt32) := do
  let e ← .gets Ctx.e
  if e.state ≠ .established then pure (.notConnected, off)
  else if e.hasNoDelay = true ∧ e.hasAvailableSegments = false then
    pure (.operationInProgress, off)
  else match data with
  | none => pure (.invalidArgument, off)
  | some data =>
    if len = 0 ∨ len ≤ off then pure (.invalidArgument, off)
    else if env.bound e < UInt32.ofNat e.slen.toNat then pure (.operationInProgress, off)
    else
      let slen := env.fitting e len off
      .when (slen ≠ 0) (copyPayload data off slen)
      if e.hasAvailableSegments = false then
        pure (if slen = 0 then .operationInProgress else .ok, off + slen)
      else if e.hasNoDelay then
        let ret ← sendNoDelay env (if off + slen = len then tcpPsh else 0)
        pure (ret, off + slen)
      else
        let ret ← sendNagle env (env.bound e)
        pure (ret, off + slen)

end Tulips.Tcpv4
