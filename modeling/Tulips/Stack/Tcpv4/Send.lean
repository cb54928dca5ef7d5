import Tulips.Stack.Producer

/-!
# Sending

The transmission paths of `tcpv4::Processor`: the low-level commit of a TCP
frame, control segments, data and FIN segments held in the ring, and their
retransmission. They run on one connection together with the world.
-/

namespace Tulips.Tcpv4

variable {D H : Type}

/-- One connection and the world. -/
structure Ctx (D H : Type) where
  e : Connection
  w : World D H

abbrev ConnProgram (D H α : Type) := Program Fault (Ctx D H) α

/-- Run a program of the world. -/
def onWorld {α : Type} (m : WorldProgram D H α) : ConnProgram D H α :=
  .zoom Ctx.w (fun s w => { s with w := w }) m

/-- Change the connection. -/
def modifyConn (f : Connection → Connection) : ConnProgram D H Unit :=
  .update fun s => { s with e := f s.e }

def setState (st : State) : ConnProgram D H Unit :=
  modifyConn fun e => { e with state := st }

/-- Call the event handler; the answer of a data callback is returned. -/
def callback (env : Env D H) (cb : Callback) : ConnProgram D H (Reply H) := do
  let reply ← .gets fun s => env.handler s.w.hdl s.e cb
  .update fun s =>
    { e := { s.e with cookie := reply.cookie, opts := reply.opts }
      w := { s.w with hdl := reply.hdl, log := .callback s.e.id cb reply.action :: s.w.log } }
  pure reply

/-- `Device::listen` -/
def deviceListen (env : Env D H) (port : Port) : WorldProgram D H Status := do
  let answer ← .gets fun w => env.device.listen w.dev port
  .update fun w => { w with dev := answer.2, log := .listen port answer.1 :: w.log }
  pure answer.1

/-- `Device::unlisten` -/
def deviceUnlisten (env : Env D H) (port : Port) : WorldProgram D H Unit :=
  .update fun w => { w with dev := env.device.unlisten w.dev port, log := .unlisten port :: w.log }

/-! ## Committing a TCP frame -/

/-- `Processor::checksum` -/
def tcpChecksum (src dst : Ipv4.Address) (len : UInt16) (data : Bytes) : UInt16 :=
  let sum := len + Ipv4.protoTcp.toUInt16
  let sum := Utils.checksum sum (fun i => src.bytes.getD i 0) 4
  let sum := Utils.checksum sum (fun i => dst.bytes.getD i 0) 4
  let sum := Utils.checksum sum data len
  if sum = 0 then 0xffff else htons sum

/-- `Processor::send(dst, len, mss, outdata)` -/
def sendFrame (env : Env D H) (who : Option UInt16) (dst : Ipv4.Address) (len : UInt32)
    (mss : UInt16) (outdata : Option Ptr) : WorldProgram D H Status := do
  modifyHeader who outdata fun h => { h with urgp := 0, chksum := 0, reserved := 0 }
  match outdata with
  | none => .fault .nullPointer
  | some p =>
      .when (env.config.hwChecksum = false) do
        let csum ← .gets fun w =>
          tcpChecksum env.hostIp dst len.toUInt16 (w.mem.bytesFrom p.buf p.off)
        modifyHeader who outdata fun h => { h with chksum := ~~~csum }
      Ipv4Producer.commit env who len p mss

/-- The window field of an outgoing header with the given flags. -/
def windowField (env : Env D H) (w : World D H) (state : State) (flags : UInt8) : UInt16 :=
  if state = .stopped then 0
  else if flags &&& tcpSyn ≠ 0 then
    htons (Utils.cap ((env.device.receiveBuffersAvailable w.dev).toUInt32 <<<
      env.device.receiveBufferLengthLog2.toUInt32))
  else htons (env.device.receiveBuffersAvailable w.dev)

/-- Fill in the header fields common to all segments of a connection. -/
def fillHeader (env : Env D H) (seqno : UInt32) (outdata : Option Ptr) :
    ConnProgram D H Unit := do
  let s ← .gets id
  onWorld (modifyHeader (some s.e.id) outdata fun h =>
    { h with
      ackno := htonl s.e.rcvNxt
      seqno := htonl seqno
      srcport := s.e.lport
      destport := s.e.rport
      wnd := windowField env s.w s.e.state h.flags })

/-- Whether the connection refers to a buffer. -/
def Connection.refersTo (e : Connection) (buf : Nat) : Bool :=
  (e.sdat.map Ptr.buf == some buf) ||
    (List.finRange segmentCount).any fun i =>
      !(e.segments i).isFree && (e.segments i).dat.map Ptr.buf == some buf

/-- Prepare the next send buffer once a frame has gone out. -/
def refill (env : Env D H) (first : Bool) : ConnProgram D H Status := do
  let e ← .gets Ctx.e
  onWorld (Ipv4Producer.setProtocol Ipv4.protoTcp)
  onWorld (Ipv4Producer.setDestination e.ripaddr)
  onWorld (EthernetProducer.setDestination e.rethaddr)
  match ← onWorld (Ipv4Producer.prepare env (some e.id)) with
  | .error ret =>
      onWorld (record (.refill e.id e.state first none false))
      pure ret.val
  | .ok p =>
      onWorld (record (.refill e.id e.state first (some p.buf) (e.refersTo p.buf)))
      modifyConn fun e => { e with sdat := some p }
      pure .ok

/-- `Processor::send(Connection&)`: a segment without data, from the send buffer. -/
def sendControl (env : Env D H) : ConnProgram D H Status := do
  let e ← .gets Ctx.e
  onWorld (record (.control e.id e.state e.slen))
  fillHeader env e.sndNxt e.sdat
  let ret ← onWorld (sendFrame env (some e.id) e.ripaddr (UInt32.ofNat headerLen) e.mss e.sdat)
  if ret ≠ .ok then pure ret else refill env false

/-- `Processor::send(Connection&, len, Segment&)`: the segment in slot `i`. -/
def sendSegment (env : Env D H) (len : UInt32) (i : Fin segmentCount) :
    ConnProgram D H Status := do
  let e ← .gets Ctx.e
  let seg := e.segments i
  let rexmit := seg.seq != e.sndNxt
  fillHeader env seg.seq seg.dat
  let ret ← onWorld (sendFrame env (some e.id) e.ripaddr len e.mss seg.dat)
  onWorld (record (.transmit e.id e.state seg.seq seg.len rexmit ret))
  if ret ≠ .ok then pure ret
  else
    .when (rexmit = false) do
      .when (env.config.latencyMonitor = true) do
        let h ← onWorld (loadHeader seg.dat)
        .when (h.has tcpPsh = true) do
          let _ ← callback env .onSent
          pure ()
      modifyConn fun e => { e with sndNxt := e.sndNxt + seg.len }
    refill env (!rexmit)

/-! ## Segments of each kind -/

/-- Assign the flags and, when given, the data offset of a header. -/
def setFlags (outdata : Option Ptr) (flags : UInt8) (offset : Option (Fin 16)) :
    ConnProgram D H Unit := do
  let e ← .gets Ctx.e
  onWorld (modifyHeader (some e.id) outdata fun h =>
    { h with flags := flags, offset := offset.getD h.offset })

/-- Set further flags and the data offset of a header. -/
def orFlags (outdata : Option Ptr) (flags : UInt8) (offset : Fin 16) : ConnProgram D H Unit := do
  let e ← .gets Ctx.e
  onWorld (modifyHeader (some e.id) outdata fun h =>
    { h with flags := h.flags ||| flags, offset := offset })

/-- The option bytes of a SYN: window scale, then MSS. -/
def synOptions (env : Env D H) (initialmss : UInt16) : List UInt8 :=
  [Options.optWsc, Options.optWscLen, env.device.receiveBufferLengthLog2,
    Options.optMss, Options.optMssLen] ++ store16 (htons initialmss) ++ [Options.optEnd]

/-- `Processor::sendSyn` -/
def sendSyn (env : Env D H) (i : Fin segmentCount) : ConnProgram D H Status := do
  let e ← .gets Ctx.e
  let outdata := (e.segments i).dat
  orFlags outdata tcpSyn 7
  onWorld (store (some e.id) outdata headerLen (synOptions env e.initialmss))
  sendSegment env (UInt32.ofNat headerLen + 8) i

/-- `Processor::sendSynAck` -/
def sendSynAck (env : Env D H) (i : Fin segmentCount) : ConnProgram D H Status := do
  let e ← .gets Ctx.e
  setFlags (e.segments i).dat tcpAck none
  sendSyn env i

/-- `Processor::sendFin` -/
def sendFin (env : Env D H) (i : Fin segmentCount) : ConnProgram D H Status := do
  let e ← .gets Ctx.e
  orFlags (e.segments i).dat tcpFin 5
  sendSegment env (UInt32.ofNat headerLen) i

/-- `Processor::sendFinAck` -/
def sendFinAck (env : Env D H) (i : Fin segmentCount) : ConnProgram D H Status := do
  let e ← .gets Ctx.e
  setFlags (e.segments i).dat tcpAck none
  sendFin env i

/-- `Processor::send(Connection&, Segment&, flags)`: a data segment. -/
def sendData (env : Env D H) (i : Fin segmentCount) (flags : UInt8) : ConnProgram D H Status := do
  let e ← .gets Ctx.e
  setFlags (e.segments i).dat (flags ||| tcpAck) (some 5)
  sendSegment env ((e.segments i).len + UInt32.ofNat headerLen) i

/-! ## The processor's entry points -/

/-- Put the send buffer in the next free slot as a segment of the given length,
and start an empty send buffer. -/
def pushSegment (len : UInt32) : ConnProgram D H (Fin segmentCount) := do
  let e ← .gets Ctx.e
  match e.nextAvailableSegment with
  | none => .fault .noSegment
  | some i =>
      modifyConn fun e => (e.setSegment i ⟨len, e.sndNxt, e.sdat⟩).resetSendBuffer
      pure i

/-- `Processor::sendNoDelay` -/
def sendNoDelay (env : Env D H) (flag : UInt8) : ConnProgram D H Status := do
  let e ← .gets Ctx.e
  let i ← pushSegment (UInt32.ofNat e.slen.toNat)
  sendData env i flag

/-- `Processor::sendNagle` -/
def sendNagle (env : Env D H) (bound : UInt32) : ConnProgram D H Status := do
  let e ← .gets Ctx.e
  -- A full send buffer goes out immediately.
  if UInt32.ofNat e.slen.toNat = bound then sendNoDelay env tcpPsh
  else if e.hasOutstandingSegments then pure .ok
  else sendNoDelay env tcpPsh

/-- `Processor::sendAbort` -/
def sendAbort (env : Env D H) : ConnProgram D H Status := do
  let e ← .gets Ctx.e
  onWorld (deviceUnlisten env e.lport)
  setState .closed
  setFlags e.sdat (tcpRst ||| if e.newdata then tcpAck else 0) (some 5)
  sendControl env

/-- Send a FIN from the send buffer, after the state has been changed. -/
def pushFinAck (env : Env D H) : ConnProgram D H Status := do
  let i ← pushSegment 1
  sendFinAck env i

/-- `Processor::sendClose` -/
def sendClose (env : Env D H) : ConnProgram D H Status := do
  let e ← .gets Ctx.e
  if e.hasAvailableSegments = false then pure .noMoreResources
  else
    setState .finWait1
    pushFinAck env

/-- `Processor::sendAck`. With data pending, the flags go to a spare buffer
taken from the device, but the segment still leaves from the send buffer. -/
def sendAck (env : Env D H) : ConnProgram D H Status := do
  let e ← .gets Ctx.e
  if e.hasPendingSendData then
    match ← onWorld (EthernetProducer.devicePrepare env (some e.id)) with
    | .error ret => pure ret.val
    | .ok buf =>
        setFlags (some ⟨buf, 0⟩) tcpAck (some 5)
        sendControl env
  else
    setFlags e.sdat tcpAck (some 5)
    sendControl env

/-- Whether `Segment::swap` keeps the payload of a segment: the header is copied
with it, so the end of the payload is only right if it is there already. -/
def Segment.swapKeeps (seg : Segment) (mem : BlockMemory) (sdat : Option Ptr) : Bool :=
  match sdat, seg.dat with
  | some sdat, some dat =>
      let start := max headerLen seg.len.toNat
      mem.read sdat.buf (sdat.off + start) (headerLen + seg.len.toNat - start) ==
        mem.read dat.buf (dat.off + start) (headerLen + seg.len.toNat - start)
  | _, _ => true

/-- `Segment::swap` on the oldest segment, then a fresh send buffer. -/
def swapSegment : ConnProgram D H Unit := do
  let s ← .gets id
  let seg := s.e.segment
  .when (seg.len ≠ 0) do
    match seg.dat with
    | none => .fault .nullPointer
    | some dat => onWorld (store (some s.e.id) s.e.sdat 0
        (s.w.mem.read dat.buf dat.off seg.len.toNat))
  modifyConn fun e =>
    (e.setSegment e.segidx { seg with dat := e.sdat }).resetSendBuffer

/-- `Processor::rexmit` -/
def rexmit (env : Env D H) : ConnProgram D H Status := do
  let s ← .gets id
  onWorld (record (.rexmit s.e.id s.e.state s.e.slen s.e.segment
    (s.e.segment.swapKeeps s.w.mem s.e.sdat)))
  match s.e.state with
  | .synRcvd =>
      swapSegment
      sendSynAck env s.e.segidx
  | .synSent =>
      swapSegment
      setFlags s.e.sdat 0 none
      sendSyn env s.e.segidx
  | .established =>
      swapSegment
      sendData env s.e.segidx tcpPsh
  | .finWait1 | .closing | .lastAck =>
      swapSegment
      sendFinAck env s.e.segidx
  | .close | .finWait2 | .timeWait | .stopped | .closed => pure .ok

end Tulips.Tcpv4
