import Tulips.Stack.Producer

/-!
# ARP

The address resolution processor: a table of translations that ages, the
answer to requests for the address of this host, and discoveries. A netmask and
a default router decide which address is asked for.
-/

namespace Tulips

open Tcpv4 (World WorldProgram EthernetProducer store)

/-- A device and a handler in a network. -/
structure Net (D H : Type) extends Tcpv4.Env D H where
  netMask : Ipv4.Address
  defaultRouterAddress : Ipv4.Address
  /-- `TULIPS_ENABLE_ARP` -/
  enableArp : Bool
  /-- `TULIPS_ENABLE_ICMP` -/
  enableIcmp : Bool
  /-- `TULIPS_ENABLE_RAW` -/
  enableRaw : Bool

variable {D H : Type}

/-- `ipv4::Producer::isLocal` -/
def Net.isLocal (env : Net D H) (addr : Ipv4.Address) : Bool :=
  addr.data &&& env.netMask.data == env.hostIp.data &&& env.netMask.data

namespace Arp

structure Header where
  hwtype : UInt16
  protocol : UInt16
  hwlen : UInt8
  protolen : UInt8
  opcode : UInt16
  shwaddr : Ethernet.Address
  sipaddr : Ipv4.Address
  dhwaddr : Ethernet.Address
  dipaddr : Ipv4.Address
  deriving DecidableEq

def headerLen : Nat := 28

def request : UInt16 := 1

def reply : UInt16 := 2

def hwtypeEth : UInt16 := 1

def maxAge : Int := 120

def tableSize : Nat := 32

namespace Header

def bytes (h : Header) : List UInt8 :=
  store16 h.hwtype ++ store16 h.protocol ++ [h.hwlen, h.protolen] ++ store16 h.opcode ++
    h.shwaddr.data.toList ++ h.sipaddr.bytes ++ h.dhwaddr.data.toList ++ h.dipaddr.bytes

def load (data : Bytes) : Header where
  hwtype := load16 data 0
  protocol := load16 data 2
  hwlen := data 4
  protolen := data 5
  opcode := load16 data 6
  shwaddr := .load data 8
  sipaddr := .load data 14
  dhwaddr := .load data 18
  dipaddr := .load data 24

end Header

/-- A translation; it is unused when its address is empty. -/
structure Entry where
  ipaddr : Ipv4.Address
  ethaddr : Ethernet.Address
  time : UInt8
  deriving DecidableEq

structure Processor where
  table : List Entry
  time : UInt8

namespace Processor

def initial : Processor := ⟨List.replicate tableSize ⟨⟨0⟩, .zero, 0⟩, 0⟩

/-- Clear an entry that has not been refreshed for too long. The difference of
the two 8-bit counts is taken without wrapping. -/
def expire (time : UInt8) (e : Entry) : Entry :=
  if e.ipaddr.empty then e
  else if (time.toNat : Int) - e.time.toNat ≥ maxAge then { e with ipaddr := ⟨0⟩ }
  else e

/-- `Processor::run` -/
def run (arp : Processor) (expired : Bool) : Processor :=
  if expired then
    let time := arp.time + 1
    { table := arp.table.map (expire time), time := time }
  else arp

/-- The address to resolve for a destination. -/
def hopAddress (env : Net D H) (addr : Ipv4.Address) : Ipv4.Address :=
  if env.isLocal addr then addr else env.defaultRouterAddress

def query (arp : Processor) (env : Net D H) (destipaddr : Ipv4.Address) :
    Option Ethernet.Address :=
  if destipaddr = .broadcast then some .broadcast
  else (arp.table.find? (·.ipaddr == hopAddress env destipaddr)).map Entry.ethaddr

def has (arp : Processor) (env : Net D H) (destipaddr : Ipv4.Address) : Bool :=
  (arp.query env destipaddr).isSome

/-- The entry an update goes to: the one of the address, else the first unused
one, else the first that is as old as the last of the table. -/
def slotFor (arp : Processor) (ipaddr : Ipv4.Address) : Option Nat :=
  match arp.table.findIdx? fun e => !e.ipaddr.empty && ipaddr == e.ipaddr with
  | some i => some i
  | none =>
      match arp.table.findIdx? (·.ipaddr.empty) with
      | some i => some i
      | none =>
          match arp.table.getLast? with
          | none => none
          | some last => arp.table.findIdx? (·.time == last.time)

def update (arp : Processor) (ipaddr : Ipv4.Address) (ethaddr : Ethernet.Address) : Processor :=
  match arp.slotFor ipaddr with
  | none => arp
  | some i => { arp with table := arp.table.set i ⟨ipaddr, ethaddr, arp.time⟩ }

/-- Prepare an ARP message to a hardware address, for a party that knows what to
put in it, and commit it. -/
def transmit (env : Net D H) (dest : Ethernet.Address) (hdr : Header) :
    WorldProgram D H (Except Failure Status) := do
  EthernetProducer.setType Ethernet.ethtypeArp
  EthernetProducer.setDestination dest
  match ← EthernetProducer.prepare env.toEnv none with
  | .error ret => pure (.error ret)
  | .ok outdata =>
      store none (some outdata) 0 hdr.bytes
      let ret ← EthernetProducer.commit env.toEnv none (UInt32.ofNat headerLen) outdata 0
      pure (.ok ret)

/-- A message of this host. -/
def message (env : Net D H) (opcode : UInt16) (dhwaddr : Ethernet.Address)
    (dipaddr : Ipv4.Address) : Header where
  hwtype := htons hwtypeEth
  protocol := htons Ethernet.ethtypeIp
  hwlen := 6
  protolen := 4
  opcode := htons opcode
  shwaddr := env.hostMac
  sipaddr := env.hostIp
  dhwaddr := dhwaddr
  dipaddr := dipaddr

/-- `Processor::process` -/
def process (env : Net D H) (arp : Processor) (len : UInt16) (data : Bytes) :
    WorldProgram D H (Status × Processor) := do
  if len < UInt16.ofNat headerLen then pure (.incompleteData, arp)
  else
    let hdr := Header.load data
    if ntohs hdr.opcode = request then
      if hdr.dipaddr ≠ env.hostIp then pure (.ok, arp)
      else
        match ← transmit env hdr.shwaddr (message env reply hdr.shwaddr hdr.sipaddr) with
        | .error ret => pure (ret.val, arp)
        -- The status of the commit is ignored.
        | .ok _ => pure (.ok, arp.update hdr.sipaddr hdr.shwaddr)
    else if ntohs hdr.opcode = reply then
      if hdr.dipaddr ≠ env.hostIp then pure (.ok, arp)
      else pure (.ok, arp.update hdr.sipaddr hdr.shwaddr)
    else pure (.ok, arp)

/-- `Processor::discover` -/
def discover (env : Net D H) (arp : Processor) (destipaddr : Ipv4.Address) :
    WorldProgram D H Status := do
  if arp.has env destipaddr then pure .ok
  else
    match ← transmit env .broadcast (message env request .zero (hopAddress env destipaddr)) with
    | .error ret => pure ret.val
    | .ok ret => pure ret

end Processor

end Arp

end Tulips
