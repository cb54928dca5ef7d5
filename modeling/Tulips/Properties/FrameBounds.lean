import Tulips.Machine.Frames
import Tulips.Machine.Testbed

/-!
# Frames and their lengths

Four lengths under the control of the peer say where a segment ends and where
its payload starts: the length of the frame, the one of its IP packet, the data
offset and the urgent pointer. The stack hardly compares them. It stays inside a
frame, whatever its state, exactly when the frame is well-formed.
-/

namespace Tulips

open Tcpv4

variable {D H : Type} {n : Nat}

/-! ## What a connection does with a segment -/

namespace Tcpv4

/-- The length of the header, as the data offset has it. -/
def Incoming.hdrlen (inc : Incoming) : Nat := inc.hdr.offset.val * 4

/-- The connection gets as far as its state: the segment is no reset, it is in
sequence, and it asks for no retransmission. -/
def Connection.Reaches (e : Connection) (inc : Incoming) (st : State) : Prop :=
  e.state = st ∧ inc.has tcpRst = false ∧ e.clearNews.outOfSequence inc = false ∧
    (e.clearNews.scanned inc).2 = false

/-- The urgent pointer of the segment is taken off the length of its payload. -/
def Connection.ReadsUrgent (e : Connection) (inc : Incoming) : Prop :=
  e.Reaches inc .established ∧ inc.has tcpFin = false ∧ inc.has tcpUrg = true

/-- The segment acknowledges data of the connection. -/
def Connection.IsAcked (e : Connection) (inc : Incoming) : Prop :=
  (e.clearNews.scanned inc).1.ackdata = true

/-- The connection takes in bytes of the segment, from an offset into the payload
on, to hand them over. In ESTABLISHED the urgent data is left out. -/
inductive Connection.Takes (e : Connection) (inc : Incoming) : UInt16 → UInt16 → Prop
  | synRcvd (hreach : e.Reaches inc .synRcvd) (hack : e.IsAcked inc) (hlen : 0 < inc.plen) :
      Takes e inc 0 inc.plen
  | synSent (hreach : e.Reaches inc .synSent) (hack : e.IsAcked inc)
      (hctl : inc.ctlIs (tcpSyn ||| tcpAck) = true) (hlen : 0 < inc.plen) :
      Takes e inc 0 inc.plen
  | fin (hreach : e.Reaches inc .established) (hfin : inc.has tcpFin = true)
      (hnone : (e.clearNews.scanned inc).1.hasOutstandingSegments = false)
      (hlen : 0 < inc.plen) : Takes e inc 0 inc.plen
  | data (hreach : e.Reaches inc .established) (hfin : inc.has tcpFin = false)
      (hlen : 0 < inc.datalen) : Takes e inc inc.urglen inc.datalen

/-- The SYN of the segment opens a connection. -/
def Processor.TakesSyn (env : Env D H) (inc : Incoming) (p : Processor D H n) : Prop :=
  p.demux inc = none ∧ inc.ctlIs tcpSyn = true ∧ inc.hdr.destport ∈ p.listenports ∧
    ∃ i, p.vacant = some i ∧ (p.conns i).hasAvailableSegments = true ∧
      ∃ outdata w, prepareTo env inc.ethSrc inc.ipSrc p.w = .ok (.ok outdata) w

/-- The options of the segment are parsed. -/
def Processor.ParsesOptions (env : Env D H) (inc : Incoming) (p : Processor D H n) : Prop :=
  5 < inc.hdr.offset.val ∧ (p.TakesSyn env inc ∨
    ∃ i, p.demux inc = some i ∧ (p.conns i).Reaches inc .synSent ∧
      (p.conns i).IsAcked inc ∧ inc.ctlIs (tcpSyn ||| tcpAck) = true)

end Tcpv4

/-! ## Staying inside -/

namespace Host

/-- The frame is for ARP, IP or the raw processor. -/
def Handled (env : Net D H) (data : Bytes) : Prop :=
  let type := ntohs (load16 data 12)
  type = Ethernet.ethtypeArp ∧ env.enableArp = true ∨ type = Ethernet.ethtypeIp ∨
    env.enableRaw = true ∧ type ≤ 1500

/-- The packet passes the checks of `ipv4::Processor::process`. -/
def PassesIpv4 (env : Net D H) (data : Bytes) : Prop :=
  data 0 = 0x45 ∧ ¬(data 6 &&& 0x3f ≠ 0 ∨ data 7 ≠ 0) ∧
    Ipv4.Address.load data 16 = env.hostIp ∧
    ¬(env.config.disableChecksumCheck = false ∧ Ipv4.checksum data ≠ 0xffff)

/-- The total length of an IP packet. -/
def totalLen (data : Bytes) : UInt16 := ntohs (load16 data 2)

/-- Processing a frame of `len` bytes, the stack uses no byte behind them as part
of a TCP segment, no payload starts inside the header, and no length falls below
zero. What stands behind the frame makes no difference. -/
structure Inside (env : Net D H) (len : UInt16) (data : Bytes) (s : Host D H n) : Prop where
  frame : Handled env data → Ethernet.headerLen ≤ len.toNat
  packet : ntohs (load16 data 12) = Ethernet.ethtypeIp → PassesIpv4 env (packet data) →
    Ipv4.headerLen ≤ (totalLen (packet data)).toNat
  checked : ∀ inc, segment? env len data = some inc → env.config.disableChecksumCheck = false →
    tcpOffset + inc.len.toNat ≤ len.toNat
  header : ∀ inc, segment? env len data = some inc → env.Verifies inc →
    tcpOffset + headerLen ≤ len.toNat
  segment : ∀ inc, segment? env len data = some inc → env.Verifies inc →
    ∀ i, s.tcp.demux inc = some i → inc.has tcpRst = false → inc.hdrlen ≤ inc.len.toNat
  urgent : ∀ inc, segment? env len data = some inc → env.Verifies inc →
    ∀ i, s.tcp.demux inc = some i → (s.tcp.conns i).ReadsUrgent inc →
      inc.urglen.toNat ≤ inc.plen.toNat
  options : ∀ inc, segment? env len data = some inc → env.Verifies inc →
    s.tcp.ParsesOptions env.toEnv inc → tcpOffset + inc.optionsEnd ≤ len.toNat
  payload : ∀ inc, segment? env len data = some inc → env.Verifies inc →
    ∀ i, s.tcp.demux inc = some i → ∀ off n, (s.tcp.conns i).Takes inc off n →
      headerLen ≤ inc.hdrlen ∧ tcpOffset + inc.hdrlen + off.toNat + n.toNat ≤ len.toNat
  alike : ∀ inc, segment? env len data = some inc →
    ∀ other : Bytes, (∀ i < max tcpOffset len.toNat, other i = data i) →
      process env len other s = process env len data s

/-! ## Well-formed frames -/

/-- The payload of the segment can be handed over. -/
def Delivers (inc : Incoming) : Prop :=
  0 < inc.plen ∧ (inc.has tcpFin = true ∨ inc.has tcpAck = true ∨ 0 < inc.datalen)

/-- The segment can open a connection. -/
def Opens (inc : Incoming) : Prop :=
  inc.ctlIs tcpSyn = true ∨ inc.ctlIs (tcpSyn ||| tcpAck) = true

/-- The lengths of a frame fit each other, as far as they matter. -/
structure WellFormed (env : Net D H) (len : UInt16) (data : Bytes) : Prop where
  frame : Handled env data → Ethernet.headerLen ≤ len.toNat
  packet : ntohs (load16 data 12) = Ethernet.ethtypeIp → PassesIpv4 env (packet data) →
    Ipv4.headerLen ≤ (totalLen (packet data)).toNat
  checked : ∀ inc, segment? env len data = some inc → env.config.disableChecksumCheck = false →
    tcpOffset + inc.len.toNat ≤ len.toNat
  header : ∀ inc, segment? env len data = some inc → env.Verifies inc →
    tcpOffset + headerLen ≤ len.toNat
  segment : ∀ inc, segment? env len data = some inc → env.Verifies inc →
    inc.has tcpRst = false → inc.hdrlen ≤ inc.len.toNat
  urgent : ∀ inc, segment? env len data = some inc → env.Verifies inc →
    inc.has tcpRst = false → inc.has tcpFin = false → inc.urglen.toNat ≤ inc.plen.toNat
  options : ∀ inc, segment? env len data = some inc → env.Verifies inc →
    5 < inc.hdr.offset.val → Opens inc → tcpOffset + inc.optionsEnd ≤ len.toNat
  payload : ∀ inc, segment? env len data = some inc → env.Verifies inc →
    inc.has tcpRst = false → Delivers inc →
      headerLen ≤ inc.hdrlen ∧ tcpOffset + inc.len.toNat ≤ len.toNat

/-! ## Well-formed frames are stayed inside -/

section Lengths

variable {inc : Incoming}

theorem lenWithOpts_toNat (inc : Incoming) : inc.hdr.lenWithOpts.toNat = inc.hdrlen := by
  have := inc.hdr.offset.isLt
  rw [Header.lenWithOpts, UInt16.toNat_ofNat', Nat.mod_eq_of_lt (by omega)]
  rfl

theorem plen_toNat (h : inc.hdrlen ≤ inc.len.toNat) :
    inc.hdrlen + inc.plen.toNat = inc.len.toNat := by
  rw [← lenWithOpts_toNat] at h ⊢
  rw [Incoming.plen, UInt16.toNat_sub_of_le _ _ (UInt16.le_iff_toNat_le.mpr h)]
  omega

theorem datalen_toNat (h : inc.urglen.toNat ≤ inc.plen.toNat) :
    inc.urglen.toNat + inc.datalen.toNat = inc.plen.toNat := by
  rw [Incoming.datalen, UInt16.toNat_sub_of_le _ _ (UInt16.le_iff_toNat_le.mpr h)]
  omega

end Lengths

section Inside

variable {env : Net D H} {len : UInt16} {data : Bytes} {inc : Incoming}

/-- Nothing is acknowledged without the flag. -/
theorem has_ack_of_isAcked {e : Connection} (h : e.IsAcked inc) : inc.has tcpAck = true := by
  unfold Connection.IsAcked Connection.scanned at h
  split_ifs at h with hack
  · exact hack.1
  · cases h

theorem Takes.delivers {e : Connection} {off n : UInt16} (h : e.Takes inc off n)
    (hurg : inc.has tcpFin = false → inc.urglen.toNat ≤ inc.plen.toNat) :
    inc.has tcpRst = false ∧ Delivers inc ∧ off.toNat + n.toNat = inc.plen.toNat := by
  cases h with
  | synRcvd hreach hack hlen =>
      exact ⟨hreach.2.1, ⟨hlen, .inr (.inl (has_ack_of_isAcked hack))⟩, Nat.zero_add _⟩
  | synSent hreach hack _ hlen =>
      exact ⟨hreach.2.1, ⟨hlen, .inr (.inl (has_ack_of_isAcked hack))⟩, Nat.zero_add _⟩
  | fin hreach hfin _ hlen => exact ⟨hreach.2.1, ⟨hlen, .inl hfin⟩, Nat.zero_add _⟩
  | data hreach hfin hlen =>
      have hsum := datalen_toNat (hurg hfin)
      have hpos := UInt16.lt_iff_toNat_lt.mp hlen
      refine ⟨hreach.2.1, ⟨UInt16.lt_iff_toNat_lt.mpr ?_, .inr (.inr hlen)⟩, hsum⟩
      omega

theorem ParsesOptions.opens {p : Processor D H n} (h : p.ParsesOptions env.toEnv inc) :
    5 < inc.hdr.offset.val ∧ Opens inc := by
  obtain ⟨hofs, ⟨-, hctl, -⟩ | ⟨_, -, -, -, hctl⟩⟩ := h
  · exact ⟨hofs, .inl hctl⟩
  · exact ⟨hofs, .inr hctl⟩

/-- A well-formed segment agrees with every other that starts with its frame. -/
theorem WellFormed.alike (h : WellFormed env len data) (hinc : segment? env len data = some inc)
    (hsum : env.Verifies inc) {other : Bytes} (hother : ∀ i < len.toNat - tcpOffset,
      other i = inc.data i) : inc.Alike { inc with data := other } := by
  have hfit : ∀ m, tcpOffset + m ≤ len.toNat → m ≤ len.toNat - tcpOffset := fun m hm => by omega
  have hend : ∀ {off n : UInt16}, inc.has tcpRst = false → Delivers inc →
      off.toNat + n.toNat = inc.plen.toNat → ∀ i < n.toNat,
        inc.hdr.lenWithOpts.toNat + off.toNat + i < len.toNat - tcpOffset := by
    intro off n hrst hdeliver hlen i hi
    have hplen := plen_toNat (h.segment inc hinc hsum hrst)
    have := (h.payload inc hinc hsum hrst hdeliver).2
    rw [lenWithOpts_toNat]
    omega
  refine Incoming.alike_of_bytes (fun i hi => hother i ?_) ?_ ?_ ?_
  · exact Nat.lt_of_lt_of_le hi (hfit _ (h.header inc hinc hsum))
  · intro hrst hlen hflag i hi
    have hdeliver : Delivers inc := ⟨hlen, hflag.imp_right .inl⟩
    have hzero : (0 : UInt16).toNat + inc.plen.toNat = inc.plen.toNat := Nat.zero_add _
    exact hother _ (hend hrst hdeliver hzero i hi)
  · intro hrst hfin hlen i hi
    have hplen := datalen_toNat (h.urgent inc hinc hsum hrst hfin)
    have hpos := UInt16.lt_iff_toNat_lt.mp hlen
    have hdeliver : Delivers inc := ⟨UInt16.lt_iff_toNat_lt.mpr (by omega), .inr (.inr hlen)⟩
    exact hother _ (hend hrst hdeliver hplen i hi)
  · intro hctl hofs i hi
    exact hother i (Nat.lt_of_lt_of_le hi (hfit _ (h.options inc hinc hsum hofs hctl)))

theorem segment?_data (hinc : segment? env len data = some inc) :
    inc.data = fun i => data (Ethernet.headerLen + (Ipv4.headerLen + i)) := by
  have hagree : ∀ i < tcpOffset, data i = data i := fun _ _ => rfl
  have hsame := segment?_congr hinc hagree
  rw [hinc] at hsame
  exact congrArg Incoming.data (Option.some_inj.mp hsame)

theorem WellFormed.process_eq (h : WellFormed env len data) {other : Bytes}
    (hinc : segment? env len data = some inc)
    (hother : ∀ i < max tcpOffset len.toNat, other i = data i) :
    (process env len other : HostProgram D H n Status) = process env len data := by
  let rest : Bytes := fun i => other (Ethernet.headerLen + (Ipv4.headerLen + i))
  have hother' : segment? env len other = some { inc with data := rest } :=
    segment?_congr hinc fun i hi => hother i (by omega)
  have hrest : ∀ i < len.toNat - tcpOffset, rest i = inc.data i := by
    intro i hi
    rw [segment?_data hinc]
    refine hother _ ?_
    simp only [tcpOffset, Ethernet.headerLen, Ipv4.headerLen] at *
    omega
  have hchecksum : env.config.disableChecksumCheck = false →
      tcpChecksum inc.ipSrc inc.ipDst inc.len rest =
        tcpChecksum inc.ipSrc inc.ipDst inc.len inc.data := fun hon =>
    tcpChecksum_congr fun i hi => hrest i (by have := h.checked inc hinc hon; omega)
  rw [process_of_segment hinc, process_of_segment hother']
  congr 1
  by_cases hsum : env.Verifies inc
  · exact Processor.process_alike (h.alike hinc hsum hrest) hchecksum
  · -- The checksum is wrong, with or without what stands behind the frame.
    obtain ⟨hon, hwrong⟩ := not_or.mp hsum
    have hon' : env.config.disableChecksumCheck = false := Bool.eq_false_iff.mpr hon
    have hwrong' : tcpChecksum inc.ipSrc inc.ipDst inc.len rest ≠ 0xffff := by
      rw [hchecksum hon']
      exact hwrong
    funext p
    unfold Processor.process
    rw [Program.bind_gets_id, Program.bind_gets_id, if_pos ⟨hon', hwrong'⟩,
      if_pos ⟨hon', hwrong⟩]

theorem WellFormed.inside (h : WellFormed env len data) (s : Host D H n) :
    Inside env len data s where
  frame := h.frame
  packet := h.packet
  checked := h.checked
  header := h.header
  segment inc hinc hsum _ _ hrst := h.segment inc hinc hsum hrst
  urgent inc hinc hsum _ _ hread :=
    h.urgent inc hinc hsum hread.1.2.1 hread.2.1
  options inc hinc hsum hparse :=
    h.options inc hinc hsum (ParsesOptions.opens hparse).1 (ParsesOptions.opens hparse).2
  payload inc hinc hsum _ _ off n htake := by
    have hrst : inc.has tcpRst = false := by
      cases htake with
      | synRcvd hreach | synSent hreach | fin hreach | data hreach => exact hreach.2.1
    obtain ⟨-, hdeliver, hlen⟩ := Takes.delivers htake (h.urgent inc hinc hsum hrst)
    obtain ⟨hstart, hfit⟩ := h.payload inc hinc hsum hrst hdeliver
    have hplen := plen_toNat (h.segment inc hinc hsum hrst)
    exact ⟨hstart, by omega⟩
  alike _ hinc _ hother := congrFun (h.process_eq hinc hother) s

end Inside

/-! ## States that look at everything -/

section States

variable {inc : Incoming} {st : State}

/-- A connection that expects the segment, with nothing in flight. -/
def expecting (inc : Incoming) (st : State) : Connection :=
  { Connection.initial 0 with
    state := st
    lport := inc.hdr.destport
    rport := inc.hdr.srcport
    ripaddr := inc.ipSrc
    rcvNxt := inc.seqno }

/-- A connection that expects the segment and waits for its acknowledgement. -/
def waiting (inc : Incoming) (st : State) : Connection :=
  (expecting inc st).setSegment 0 ⟨1, inc.ackno - 1, none⟩

theorem expecting_scanned : (expecting inc st).clearNews.scanned inc =
    ((expecting inc st).clearNews, false) := by
  have hnone : (expecting inc st).clearNews.hasOutstandingSegments = false :=
    show (Connection.initial 0).hasOutstandingSegments = false by decide
  unfold Connection.scanned
  rw [if_neg]
  rintro ⟨-, hout⟩
  rw [hnone] at hout
  cases hout

theorem waiting_outstanding : (waiting inc st).clearNews.hasOutstandingSegments = true := by
  refine List.any_eq_true.mpr ⟨0, List.mem_finRange _, ?_⟩
  simp [waiting, Connection.clearNews, Connection.setSegment, Segment.isFree]

/-- The acknowledgement is exact, also when it stands at the end of the sequence space. -/
theorem waiting_scanned (hack : inc.has tcpAck = true) :
    (waiting inc st).clearNews.scanned inc =
      ((waiting inc st).clearNews.noteAck.clearSegment, false) := by
  have hseg : (waiting inc st).clearNews.segment = ⟨1, inc.ackno - 1, none⟩ := by
    simp [Connection.segment, waiting, Connection.clearNews, Connection.setSegment, expecting,
      Connection.initial]
  have hlt := inc.ackno.toNat_lt
  have hsub : (inc.ackno - 1).toNat = (2 ^ 32 - 1 + inc.ackno.toNat) % 2 ^ 32 :=
    UInt32.toNat_sub _ _
  have hne : inc.ackno ≠ inc.ackno - 1 := by
    intro heq
    have := congrArg UInt32.toNat heq
    omega
  have hexact : (if inc.ackno < inc.ackno - 1 then inc.ackno.toNat + 2 ^ 32 else
      inc.ackno.toNat) = (inc.ackno - 1).toNat + (1 : UInt32).toNat := by
    have hone : (1 : UInt32).toNat = 1 := rfl
    split_ifs with hwrap
    · have := UInt32.lt_iff_toNat_lt.mp hwrap
      omega
    · have hle : ¬inc.ackno.toNat < (inc.ackno - 1).toNat := fun h =>
        hwrap (UInt32.lt_iff_toNat_lt.mpr h)
      omega
  unfold Connection.scanned
  rw [if_pos ⟨hack, waiting_outstanding⟩]
  show Connection.ackScan _ _ (15 + 1) _ = _
  unfold Connection.ackScan
  rw [hseg]
  dsimp only
  rw [if_neg hne, hexact, if_neg (Nat.lt_irrefl _), if_pos rfl]

theorem expecting_reaches (hrst : inc.has tcpRst = false) : (expecting inc st).Reaches inc st :=
  ⟨rfl, hrst, by simp [Connection.outOfSequence, expecting, Connection.clearNews],
    by rw [expecting_scanned]⟩

theorem waiting_reaches (hrst : inc.has tcpRst = false) (hack : inc.has tcpAck = true) :
    (waiting inc st).Reaches inc st :=
  ⟨rfl, hrst, by simp [Connection.outOfSequence, waiting, expecting, Connection.setSegment,
    Connection.clearNews], by rw [waiting_scanned hack]⟩

theorem waiting_isAcked (hack : inc.has tcpAck = true) : (waiting inc st).IsAcked inc := by
  unfold Connection.IsAcked
  rw [waiting_scanned hack]
  simp [Connection.noteAck, Connection.clearNews, Connection.clearSegment, Connection.setSegment]

/-- A host with one connection. -/
def single (e : Connection) (d : D) (hdl : H) : Host D H 1 :=
  { Host.initial 1 d hdl with tcp := { Processor.initial 1 d hdl with conns := fun _ => e } }

theorem single_demux {e : Connection} {d : D} {hdl : H} (hopen : e.state ≠ .closed)
    (hlport : e.lport = inc.hdr.destport) (hrport : e.rport = inc.hdr.srcport)
    (hripaddr : e.ripaddr = inc.ipSrc) :
    (single e d hdl : Host D H 1).tcp.demux inc = some 0 := by
  unfold Processor.demux
  rw [show List.finRange 1 = [0] from rfl, List.find?_cons_of_pos]
  simp [single, hopen, hlport, hrport, hripaddr]

end States

/-- A device that can hand out a buffer lets a new host accept every SYN. -/
theorem prepareTo_of_device {env : Env D H} {d : D} {out : Nat × Bytes}
    (hd : (env.device.prepare d).1 = .ok out) (hdl : H) (rhwaddr : Ethernet.Address)
    (ripaddr : Ipv4.Address) : ∃ outdata w,
      Processor.prepareTo env rhwaddr ripaddr (World.initial d hdl) = .ok (.ok outdata) w := by
  obtain ⟨buf, content⟩ := out
  simp only [Processor.prepareTo, Ipv4Producer.setProtocol, Ipv4Producer.setDestination,
    EthernetProducer.setDestination, Ipv4Producer.prepare, EthernetProducer.setType,
    EthernetProducer.prepare, EthernetProducer.devicePrepare, Program.bind_assoc_apply,
    Program.bind_update, Program.bind_gets, World.initial, hd]
  exact ⟨_, _, rfl⟩

/-- The stack stays inside a frame whatever its state, exactly when the frame is
well-formed. The device can hand out a buffer at all. -/
theorem inside_iff (env : Net D H) (d : D) (out : Nat × Bytes) (hdl : H)
    (hd : (env.device.prepare d).1 = .ok out) (len : UInt16) (data : Bytes) :
    (∀ n (s : Host D H n), Inside env len data s) ↔ WellFormed env len data := by
  refine ⟨fun h => ?_, fun h n s => h.inside s⟩
  have hany := h 0 (Host.initial 0 d hdl)
  -- Each range is asked for in a state that looks at it.
  have hsegment : ∀ inc, segment? env len data = some inc → env.Verifies inc →
      inc.has tcpRst = false → inc.hdrlen ≤ inc.len.toNat := fun inc hinc hsum hrst =>
    (h 1 (single (expecting inc .established) d hdl)).segment inc hinc hsum 0
      (single_demux State.noConfusion rfl rfl rfl) hrst
  have hurgent : ∀ inc, segment? env len data = some inc → env.Verifies inc →
      inc.has tcpRst = false → inc.has tcpFin = false → inc.urglen.toNat ≤ inc.plen.toNat := by
    intro inc hinc hsum hrst hfin
    by_cases hurg : inc.has tcpUrg = true
    · exact (h 1 (single (expecting inc .established) d hdl)).urgent inc hinc hsum 0
        (single_demux State.noConfusion rfl rfl rfl) ⟨expecting_reaches hrst, hfin, hurg⟩
    · rw [Incoming.urglen, if_neg hurg]
      exact Nat.zero_le _
  refine ⟨hany.frame, hany.packet, hany.checked, hany.header, hsegment, hurgent, ?_, ?_⟩
  · intro inc hinc hsum hofs hopens
    rcases hopens with hctl | hctl
    · -- A new host that listens on the port of the SYN.
      let s : Host D H 1 := { Host.initial 1 d hdl with
        tcp := { Processor.initial 1 d hdl with listenports := [inc.hdr.destport] } }
      refine (h 1 s).options inc hinc hsum ⟨hofs, .inl ⟨rfl, hctl, List.mem_singleton.mpr rfl,
        0, rfl, ?_, prepareTo_of_device hd hdl _ _⟩⟩
      exact show (Connection.initial 0).hasAvailableSegments = true by decide
    · have hack := Incoming.has_ack_of_ctlIs hctl
      have hrst : inc.has tcpRst = false := Incoming.has_of_ctlIs hctl rfl
      exact (h 1 (single (waiting inc .synSent) d hdl)).options inc hinc hsum
        ⟨hofs, .inr ⟨0, single_demux State.noConfusion rfl rfl rfl, waiting_reaches hrst hack,
          waiting_isAcked hack, hctl⟩⟩
  · rintro inc hinc hsum hrst ⟨hlen, hcase⟩
    have hplen := plen_toNat (hsegment inc hinc hsum hrst)
    have hall : ∀ {e : Connection} {off n : UInt16}, e.state ≠ .closed →
        e.lport = inc.hdr.destport → e.rport = inc.hdr.srcport → e.ripaddr = inc.ipSrc →
        e.Takes inc off n → off.toNat + n.toNat = inc.plen.toNat →
        headerLen ≤ inc.hdrlen ∧ tcpOffset + inc.len.toNat ≤ len.toNat := by
      intro e off n hopen hlport hrport hripaddr htake hsum'
      obtain ⟨hstart, hfit⟩ := (h 1 (single e d hdl)).payload inc hinc hsum 0
        (single_demux hopen hlport hrport hripaddr) off n htake
      exact ⟨hstart, by omega⟩
    -- Where the payload is handed over depends on the flags.
    by_cases hfin : inc.has tcpFin = true
    · refine hall (e := expecting inc .established) State.noConfusion rfl rfl rfl
        (.fin (expecting_reaches hrst) hfin ?_ hlen) (Nat.zero_add _)
      rw [expecting_scanned]
      exact show (Connection.initial 0).hasOutstandingSegments = false by decide
    · have hfin' : inc.has tcpFin = false := Bool.eq_false_iff.mpr hfin
      by_cases hack : inc.has tcpAck = true
      · exact hall (e := waiting inc .synRcvd) State.noConfusion rfl rfl rfl
          (.synRcvd (waiting_reaches hrst hack) (waiting_isAcked hack) hlen) (Nat.zero_add _)
      · have hdata : 0 < inc.datalen := (hcase.resolve_left hfin).resolve_left hack
        exact hall (e := expecting inc .established) State.noConfusion rfl rfl rfl
          (.data (expecting_reaches hrst) hfin' hdata)
          (datalen_toNat (hurgent inc hinc hsum hrst hfin'))

open Testbed

/-- A frame of the peer that holds a TCP header with the given data offset. -/
def frameOf (offset : Fin 16) : Bytes := fun i =>
  (Ethernet.headerBytes .zero .zero Ethernet.ethtypeIp ++ [0x45, 0] ++ store16 (htons 40) ++
    [0, 0, 0, 0, Ipv4.ttl, Ipv4.protoTcp, 0, 0] ++ peer.bytes ++ env.hostIp.bytes ++
    { header 5000 tcpAck 7 1 with offset := offset : Header }.bytes).getD i 0

/-- An acknowledgement without options or payload. -/
theorem inside_iff_ack :
    (∀ n (s : Host Script Answers n), Inside (net Testbed.device) 54 (frameOf 5) s) ↔
      WellFormed (net Testbed.device) 54 (frameOf 5) :=
  inside_iff (net Testbed.device) .empty (0, fun _ => 0) [] rfl 54 (frameOf 5)

/-- The segment whose header of 20 bytes claims 60. -/
def overlong : Incoming where
  ethSrc := .load (frameOf 15) 6
  ipSrc := .load (packet (frameOf 15)) 12
  ipDst := .load (packet (frameOf 15)) 16
  len := totalLen (packet (frameOf 15)) - 20
  data i := frameOf 15 (Ethernet.headerLen + (Ipv4.headerLen + i))

/-- The bytes that the segment lacks count as its payload, modulo 2^16. -/
theorem not_inside : ¬ ∀ (n : Nat) (s : Host Script Answers n) (len : UInt16) (data : Bytes),
    Reachable (net Testbed.device) .empty s → Inside (net Testbed.device) len data s := by
  intro hall
  obtain ⟨s, hs, hdemux⟩ := reachesHost 1 Testbed.device .empty [] [.tcp (connectFrom 5000)]
    (fun s => s.tcp.demux overlong = some 0) (by decide) (by decide +kernel)
  have hfits := (hall 1 s 54 (frameOf 15) hs).segment overlong rfl (.inl rfl) 0 hdemux
    (by decide +kernel)
  revert hfits
  decide +kernel

end Host

end Tulips
