import Tulips.Stack.Icmpv4
import Tulips.Stack.Tcpv4.Table

/-!
# The stack of a host

The Ethernet and IPv4 processors hand every frame to ARP, ICMP or TCP, which
share one pair of producers and thereby one device. The raw processors accept
whatever they are given.
-/

namespace Tulips

/-- The processors of a host; the world of the TCP processor is shared. -/
structure Host (D H : Type) (n : Nat) where
  arp : Arp.Processor
  icmp : Icmpv4.Processor
  tcp : Tcpv4.Processor D H n

variable {D H : Type} {n : Nat}

abbrev HostProgram (D H : Type) (n : Nat) (α : Type) := Program Tcpv4.Fault (Host D H n) α

namespace Host

def initial (n : Nat) (dev : D) (hdl : H) : Host D H n where
  arp := .initial
  icmp := .initial
  tcp := .initial n dev hdl

/-- The world the processors share. -/
def w (s : Host D H n) : Tcpv4.World D H := s.tcp.w

def setW (s : Host D H n) (w : Tcpv4.World D H) : Host D H n := { s with tcp.w := w }

def world {α : Type} (m : Tcpv4.WorldProgram D H α) : HostProgram D H n α := .zoom Host.w setW m

def onTcp {α : Type} (m : Tcpv4.ProcProgram D H n α) : HostProgram D H n α :=
  .zoom Host.tcp (fun s tcp => { s with tcp := tcp }) m

def setArp (arp : Arp.Processor) : HostProgram D H n Unit := .update fun s => { s with arp := arp }

def setIcmp (icmp : Icmpv4.Processor) : HostProgram D H n Unit :=
  .update fun s => { s with icmp := icmp }

/-! ## Incoming frames -/

/-- What `ipv4::Processor::process` takes a packet for. -/
inductive Packet
  | rejected (ret : Status)
  | tcp (inc : Tcpv4.Incoming)
  | icmp (ipSrc : Ipv4.Address) (len : UInt16) (data : Bytes)
  | raw (len : UInt16) (data : Bytes)

/-- The checks of `ipv4::Processor::process` and its choice of a processor. The
length of the frame is not used. -/
def ipv4Packet (env : Net D H) (ethSrc : Ethernet.Address) (_len : UInt16) (data : Bytes) :
    Packet :=
  if data 0 ≠ 0x45 then .rejected .protocolError
  else if data 6 &&& 0x3f ≠ 0 ∨ data 7 ≠ 0 then .rejected .protocolError
  else if Ipv4.Address.load data 16 ≠ env.hostIp then .rejected .protocolError
  else if env.config.disableChecksumCheck = false ∧ Ipv4.checksum data ≠ 0xffff then
    .rejected .corruptedData
  else
    let iplen := ntohs (load16 data 2) - UInt16.ofNat Ipv4.headerLen
    let payload : Bytes := fun i => data (Ipv4.headerLen + i)
    if data 9 = Ipv4.protoTcp then
      .tcp ⟨ethSrc, .load data 12, .load data 16, iplen, payload⟩
    else if data 9 = Ipv4.protoIcmp ∧ env.enableIcmp = true then
      .icmp (.load data 12) iplen payload
    else if data 9 = Ipv4.protoTest ∧ env.enableRaw = true then .raw iplen payload
    else .rejected .unsupportedProtocol

/-- `ipv4::Processor::process` -/
def processIpv4 (env : Net D H) (ethSrc : Ethernet.Address) (len : UInt16) (data : Bytes) :
    HostProgram D H n Status := do
  match ipv4Packet env ethSrc len data with
  | .rejected ret => pure ret
  | .tcp inc => onTcp (Tcpv4.Processor.process env.toEnv inc)
  | .icmp ipSrc _ payload =>
      let s ← .gets id
      let (ret, icmp) ← world (s.icmp.process env ethSrc ipSrc payload)
      setIcmp icmp
      pure ret
  | .raw _ _ => pure .ok

/-- `ethernet::Processor::process` -/
def process (env : Net D H) (len : UInt16) (data : Bytes) : HostProgram D H n Status := do
  let type := ntohs (load16 data 12)
  let rest := len - UInt16.ofNat Ethernet.headerLen
  let payload : Bytes := fun i => data (Ethernet.headerLen + i)
  if type = Ethernet.ethtypeArp ∧ env.enableArp = true then
    let s ← .gets id
    let (ret, arp) ← world (Arp.Processor.process env s.arp rest payload)
    setArp arp
    pure ret
  else if type = Ethernet.ethtypeIp then processIpv4 env (.load data 6) rest payload
  else if env.enableRaw = true ∧ type ≤ 1500 then pure .ok
  else pure .unsupportedProtocol

/-! ## Timers -/

/-- `ethernet::Processor::run`, given which of the timers have expired. -/
def run (env : Net D H) (arpExpired tcpExpired : Bool) : HostProgram D H n Status := do
  .when (env.enableArp = true) (.update fun s => { s with arp := s.arp.run arpExpired })
  onTcp (Tcpv4.Processor.run env.toEnv tcpExpired)

/-! ## Runs -/

/-- What is done to a host. -/
inductive Op
  /-- An operation of the TCP processor. -/
  | tcp (op : Tcpv4.Processor.Op)
  /-- A frame arrives. -/
  | frame (len : UInt16) (data : Bytes)
  | run (arpExpired tcpExpired : Bool)
  | discover (destipaddr : Ipv4.Address)
  | attach
  | detach (req : Nat)
  /-- An echo request is invoked. -/
  | ping (req : Nat) (dst : Ipv4.Address)

def ping (env : Net D H) (i : Nat) (dst : Ipv4.Address) : HostProgram D H n Status := do
  let s ← .gets id
  match s.icmp.request? i with
  | none => .fault .nullPointer
  | some req =>
      let (ret, req) ← world (req.call env s.arp dst)
      setIcmp (s.icmp.setRequest i req)
      pure ret

def exec (env : Net D H) : Op → HostProgram D H n Unit
  | .tcp op => onTcp (Tcpv4.Processor.exec env.toEnv op)
  | .frame len data => do
      let _ ← process env len data
      pure ()
  | .run arpExpired tcpExpired => do
      let _ ← run env arpExpired tcpExpired
      pure ()
  | .discover destipaddr => do
      let s ← .gets id
      let _ ← world (Arp.Processor.discover env s.arp destipaddr)
      pure ()
  | .attach => .update fun s => { s with icmp := s.icmp.attach.1 }
  | .detach i => do
      let s ← .gets id
      match s.icmp.detach i with
      | none => .fault .nullPointer
      | some icmp => setIcmp icmp
  | .ping i dst => do
      let _ ← ping env i dst
      pure ()

/-- Operations one after the other, up to the first that faults. -/
def execAll (env : Net D H) : List Op → HostProgram D H n Unit
  | [] => pure ()
  | op :: ops => do
      exec env op
      execAll env ops

end Host

end Tulips
