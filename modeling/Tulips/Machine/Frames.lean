import Tulips.Machine.Effects
import Tulips.Stack.Host

/-!
# What a frame is processed by

The code looks at the header of a segment, at its payload where it hands it over
and at its options where it opens a connection. Frames that agree there are
processed alike.
-/

namespace Tulips

/-! ## Bytes -/

section Bytes

variable {data other : Bytes} {off n : Nat}

theorem load16_congr (h : ∀ i < 2, other (off + i) = data (off + i)) :
    load16 other off = load16 data off := by
  rw [load16, load16, h 1 (by decide), show other off = data off from h 0 (by decide)]

theorem load32_congr (h : ∀ i < 4, other (off + i) = data (off + i)) :
    load32 other off = load32 data off := by
  rw [load32, load32, h 1 (by decide), h 2 (by decide), h 3 (by decide),
    show other off = data off from h 0 (by decide)]

theorem Ipv4.Address.load_congr (h : ∀ i < 4, other (off + i) = data (off + i)) :
    load other off = load data off := by
  rw [load, load32_congr h, load]

theorem Ethernet.Address.load_congr (h : ∀ i < 6, other (off + i) = data (off + i)) :
    load other off = load data off := by
  unfold load
  congr 2
  funext i
  exact h i i.isLt

/-- The sum goes over as many bytes as it is told. -/
theorem Utils.checksumFrom_congr {sum : UInt16}
    (h : ∀ i < n, other (off + i) = data (off + i)) :
    checksumFrom other n off sum = checksumFrom data n off sum := by
  induction n, off, sum using checksumFrom.induct data with
  | case1 off sum => rfl
  | case2 off sum =>
      have hlast : other off = data off := h 0 (by decide)
      rw [checksumFrom, checksumFrom, hlast]
  | case3 n off sum ih =>
      have hhigh : other off = data off := h 0 (by omega)
      have hlow : other (off + 1) = data (off + 1) := h 1 (by omega)
      have hword : word other off = word data off := by rw [word, word, hhigh, hlow]
      have hrest : ∀ i < n, other (off + 2 + i) = data (off + 2 + i) := by
        intro i hi
        have := h (2 + i) (by omega)
        rwa [← Nat.add_assoc] at this
      rw [checksumFrom, checksumFrom, hword, ih hrest]

theorem Utils.checksum_congr {seed len : UInt16} (h : ∀ i < len.toNat, other i = data i) :
    checksum seed other len = checksum seed data len :=
  checksumFrom_congr fun i hi => by rw [Nat.zero_add]; exact h i hi

theorem Tcpv4.tcpChecksum_congr {src dst : Ipv4.Address} {len : UInt16}
    (h : ∀ i < len.toNat, other i = data i) :
    tcpChecksum src dst len other = tcpChecksum src dst len data := by
  simp only [tcpChecksum, Utils.checksum_congr h]

theorem Ipv4.checksum_congr (h : ∀ i < headerLen, other i = data i) :
    checksum other = checksum data := by
  have hsum : Utils.checksum 0 other (UInt16.ofNat headerLen) =
      Utils.checksum 0 data (UInt16.ofNat headerLen) := Utils.checksum_congr h
  rw [checksum, hsum, checksum]

end Bytes

namespace Tcpv4

variable {D H : Type} {n : Nat}

/-! ## Options -/

/-- How many bytes of the options `Options::parse` looks at, from the option at
offset `c` on. -/
def Options.extentFrom (options : Bytes) (len : Nat) : Nat → Nat → Nat
  | 0, _ => 0
  | fuel + 1, c =>
      if len ≤ c then 0
      else if options c = optEnd then c + 1
      else if options c = optNoop then max (c + 1) (extentFrom options len fuel (c + 1))
      else if options c = optMss ∧ options (c + 1) = optMssLen then
        max (c + 4) (extentFrom options len fuel (c + 4))
      else if options c = optWsc ∧ options (c + 1) = optWscLen then
        max (c + 3) (extentFrom options len fuel (c + 3))
      else if options (c + 1) = 0 ∨ 40 ≤ c + (options (c + 1)).toNat then c + 2
      else max (c + 2) (extentFrom options len fuel (c + (options (c + 1)).toNat))

theorem Options.parseFrom_congr {options other : Bytes} {len fuel c : Nat} (e : Connection)
    (h : ∀ i < extentFrom options len fuel c, other i = options i) :
    parseFrom other len fuel c e = parseFrom options len fuel c e := by
  induction fuel generalizing c e with
  | zero => rfl
  | succ fuel ih =>
      unfold extentFrom at h
      unfold parseFrom
      by_cases hend : len ≤ c
      · rw [if_pos hend, if_pos hend]
      rw [if_neg hend] at h ⊢
      rw [if_neg hend, show other c = options c from h c (by split_ifs <;> omega)]
      by_cases hstop : options c = optEnd
      · rw [if_pos hstop, if_pos hstop]
      rw [if_neg hstop] at h ⊢
      rw [if_neg hstop]
      by_cases hnoop : options c = optNoop
      · rw [if_pos hnoop] at h ⊢
        rw [if_pos hnoop]
        exact ih _ fun i hi => h i (by omega)
      rw [if_neg hnoop] at h ⊢
      rw [if_neg hnoop, show other (c + 1) = options (c + 1) from h _ (by split_ifs <;> omega)]
      by_cases hmss : options c = optMss ∧ options (c + 1) = optMssLen
      · rw [if_pos hmss] at h ⊢
        rw [if_pos hmss, load16_congr fun i hi => h _ (by omega)]
        exact ih _ fun i hi => h i (by omega)
      rw [if_neg hmss] at h ⊢
      rw [if_neg hmss]
      by_cases hwsc : options c = optWsc ∧ options (c + 1) = optWscLen
      · rw [if_pos hwsc] at h ⊢
        rw [if_pos hwsc, show other (c + 2) = options (c + 2) from h _ (by omega)]
        exact ih _ fun i hi => h i (by omega)
      rw [if_neg hwsc] at h ⊢
      rw [if_neg hwsc]
      by_cases hzero : options (c + 1) = 0
      · rw [if_pos hzero, if_pos hzero]
      rw [if_neg hzero, if_neg hzero]
      by_cases hlong : 40 ≤ c + (options (c + 1)).toNat
      · rw [if_pos hlong, if_pos hlong]
      rw [if_neg hlong, if_neg hlong]
      rw [if_neg (not_or.mpr ⟨hzero, hlong⟩)] at h
      exact ih _ fun i hi => h i (by omega)

/-- How many bytes of a segment are looked at for its options. -/
def Incoming.optionsEnd (inc : Incoming) : Nat :=
  headerLen + Options.extentFrom (fun i => inc.data (headerLen + i)) inc.optlen.toNat
    inc.optlen.toNat 0

/-! ## Segments -/

/-- Two segments agree as far as they are looked at. -/
structure Incoming.Alike (inc other : Incoming) : Prop where
  ethSrc : other.ethSrc = inc.ethSrc
  ipSrc : other.ipSrc = inc.ipSrc
  ipDst : other.ipDst = inc.ipDst
  len : other.len = inc.len
  hdr : other.hdr = inc.hdr
  payload : inc.has tcpRst = false → inc.has tcpFin = true ∨ inc.has tcpAck = true →
    other.payload = inc.payload
  data : inc.has tcpRst = false → inc.has tcpFin = false →
    other.bytes inc.urglen inc.datalen = inc.bytes inc.urglen inc.datalen
  options : inc.ctlIs tcpSyn = true ∨ inc.ctlIs (tcpSyn ||| tcpAck) = true →
    ∀ e : Connection, e.parseOptions other = e.parseOptions inc

namespace Incoming.Alike

variable {inc other : Incoming} (h : inc.Alike other)

include h

theorem seqno : other.seqno = inc.seqno := by rw [Incoming.seqno, h.hdr, Incoming.seqno]

theorem ackno : other.ackno = inc.ackno := by rw [Incoming.ackno, h.hdr, Incoming.ackno]

theorem window : other.window = inc.window := by rw [Incoming.window, h.hdr, Incoming.window]

theorem has (flag : UInt8) : other.has flag = inc.has flag := by
  rw [Incoming.has, h.hdr, Incoming.has]

theorem ctlIs (flags : UInt8) : other.ctlIs flags = inc.ctlIs flags := by
  rw [Incoming.ctlIs, h.hdr, Incoming.ctlIs]

theorem plen : other.plen = inc.plen := by rw [Incoming.plen, h.len, h.hdr, Incoming.plen]

theorem urglen : other.urglen = inc.urglen := by
  rw [Incoming.urglen, h.has, h.hdr, Incoming.urglen]

theorem datalen : other.datalen = inc.datalen := by
  rw [Incoming.datalen, h.plen, h.urglen, Incoming.datalen]

theorem receive (e : Connection) (n : UInt16) : e.receive other n = e.receive inc n := by
  rw [Connection.receive, h.has, Connection.receive]

theorem outOfSequence (e : Connection) : e.outOfSequence other = e.outOfSequence inc := by
  simp only [Connection.outOfSequence, h.ctlIs, h.plen, h.has, h.seqno]

theorem processAck : (processAck other : ConnProgram D H Bool) = processAck inc := by
  simp only [Tcpv4.processAck, h.has, h.window, h.ackno]

theorem skipPayload : (skipPayload other : ConnProgram D H Unit) = skipPayload inc := by
  unfold Tcpv4.skipPayload
  rw [h.plen]

end Incoming.Alike

/-- Segments agree whose bytes do, up to the end of what is looked at. -/
theorem Incoming.alike_of_bytes {inc : Incoming} {data : Bytes}
    (hheader : ∀ i < headerLen, data i = inc.data i)
    (hpayload : inc.has tcpRst = false → 0 < inc.plen →
      inc.has tcpFin = true ∨ inc.has tcpAck = true → ∀ i < inc.plen.toNat,
        data (inc.hdr.lenWithOpts.toNat + i) = inc.data (inc.hdr.lenWithOpts.toNat + i))
    (hdata : inc.has tcpRst = false → inc.has tcpFin = false → 0 < inc.datalen →
      ∀ i < inc.datalen.toNat, data (inc.hdr.lenWithOpts.toNat + inc.urglen.toNat + i) =
        inc.data (inc.hdr.lenWithOpts.toNat + inc.urglen.toNat + i))
    (hoptions : inc.ctlIs tcpSyn = true ∨ inc.ctlIs (tcpSyn ||| tcpAck) = true →
      5 < inc.hdr.offset.val → ∀ i < inc.optionsEnd, data i = inc.data i) :
    inc.Alike { inc with data := data } := by
  have hhdr : ({ inc with data := data } : Incoming).hdr = inc.hdr := Header.load_congr hheader
  have hpos : ∀ {n : UInt16} {i : Nat}, i < n.toNat → 0 < n := fun hi =>
    UInt16.lt_iff_toNat_lt.mpr (by rw [UInt16.toNat_zero]; omega)
  refine ⟨rfl, rfl, rfl, rfl, hhdr, fun hrst hflag => ?_, fun hrst hfin => ?_, fun hctl e => ?_⟩
  · rw [Incoming.payload, Incoming.plen, hhdr, Incoming.bytes, hhdr, Incoming.payload,
      Incoming.bytes]
    refine List.map_congr_left fun i hi => ?_
    have hlt := List.mem_range.mp hi
    exact hpayload hrst (hpos hlt) hflag i hlt
  · rw [Incoming.bytes, hhdr, Incoming.bytes]
    refine List.map_congr_left fun i hi => ?_
    have hlt := List.mem_range.mp hi
    exact hdata hrst hfin (hpos hlt) i hlt
  · unfold Connection.parseOptions
    rw [Incoming.optlen, hhdr, Incoming.optlen]
    by_cases hofs : 5 < inc.hdr.offset.val
    · rw [if_pos hofs, if_pos hofs]
      exact Options.parseFrom_congr e fun i hi => hoptions hctl hofs _ (by
        unfold Incoming.optionsEnd
        exact Nat.add_lt_add_left hi _)
    · rw [if_neg hofs, if_neg hofs]

section States

variable {env : Env D H} {inc other : Incoming} {s : Ctx D H}

theorem deliver_alike (hpayload : other.payload = inc.payload) :
    deliver env other = deliver env inc := by
  rw [deliver, hpayload, deliver]

/-- The handshake is only completed by an acknowledgement. -/
theorem processSynRcvd_alike (h : inc.Alike other) (hrst : inc.has tcpRst = false)
    (hack : s.e.ackdata = true → inc.has tcpAck = true) :
    processSynRcvd env other s = processSynRcvd env inc s := by
  unfold processSynRcvd
  rw [Program.bind_gets, Program.bind_gets]
  by_cases hdata : s.e.ackdata = true
  · simp only [h.plen, h.receive, deliver_alike (h.payload hrst (.inr (hack hdata)))]
  · rw [if_neg hdata, if_neg hdata]

/-- Exact control flags decide about every one of them. -/
theorem Incoming.has_of_ctlIs {flags f : UInt8} (h : inc.ctlIs flags = true)
    (hf : tcpCtl &&& f = f) : inc.has f = (flags &&& f != 0) := by
  have hctl : inc.hdr.flags &&& tcpCtl = flags := by simpa [Incoming.ctlIs] using h
  have hand : inc.hdr.flags &&& f = flags &&& f := by rw [← hctl, UInt8.and_assoc, hf]
  rw [Incoming.has, Header.has, hand]

theorem Incoming.has_ack_of_ctlIs (h : inc.ctlIs (tcpSyn ||| tcpAck) = true) :
    inc.has tcpAck = true :=
  Incoming.has_of_ctlIs h rfl

theorem processSynSent_alike (h : inc.Alike other) (hrst : inc.has tcpRst = false) :
    processSynSent env other = processSynSent env inc := by
  funext s
  unfold processSynSent
  rw [Program.bind_gets, Program.bind_gets]
  by_cases hctl : inc.ctlIs (tcpSyn ||| tcpAck) = true
  · have hack := Incoming.has_ack_of_ctlIs hctl
    rw [h.plen, deliver_alike (h.payload hrst (.inr hack))]
    simp only [h.ctlIs, h.seqno, h.window, h.has, h.options (.inr hctl)]
  · rw [h.ctlIs, if_neg fun hboth => hctl hboth.2, if_neg fun hboth => hctl hboth.2]

theorem processFin_alike (h : inc.Alike other) (hrst : inc.has tcpRst = false)
    (hfin : inc.has tcpFin = true) : processFin env other = processFin env inc := by
  unfold processFin
  rw [h.plen, deliver_alike (h.payload hrst (.inl hfin))]

theorem notifyNewData_alike (h : inc.Alike other) (hrst : inc.has tcpRst = false)
    (hfin : inc.has tcpFin = false) : notifyNewData env other = notifyNewData env inc := by
  funext canSend next
  simp only [notifyNewData, h.urglen, h.datalen, h.data hrst hfin]

theorem processEstablished_alike (h : inc.Alike other) (hrst : inc.has tcpRst = false) :
    processEstablished env other = processEstablished env inc := by
  unfold processEstablished
  rw [h.has]
  by_cases hfin : inc.has tcpFin = true
  · rw [if_pos hfin, if_pos hfin, processFin_alike h hrst hfin]
  · rw [if_neg hfin, if_neg hfin, h.datalen, h.window,
      notifyNewData_alike h hrst (Bool.eq_false_iff.mpr hfin)]
    simp only [h.receive]

theorem processFinWait1_alike (h : inc.Alike other) :
    processFinWait1 env other = processFinWait1 env inc := by
  simp only [processFinWait1, h.skipPayload, h.has, h.plen]

theorem processFinWait2_alike (h : inc.Alike other) :
    processFinWait2 env other = processFinWait2 env inc := by
  simp only [processFinWait2, h.skipPayload, h.has, h.plen]

theorem processClose_alike (h : inc.Alike other) :
    processClose env other = processClose env inc := by
  unfold processClose
  rw [h.plen]
  simp only [h.receive]

theorem processState_alike (h : inc.Alike other) (hrst : inc.has tcpRst = false)
    (hack : s.e.ackdata = true → inc.has tcpAck = true) :
    processState env other s = processState env inc s := by
  unfold processState
  rw [Program.bind_gets, Program.bind_gets]
  cases s.e.state with
  | synRcvd => exact processSynRcvd_alike h hrst hack
  | synSent => exact congrFun (processSynSent_alike h hrst) s
  | established => exact congrFun (processEstablished_alike h hrst) s
  | finWait1 => exact congrFun (processFinWait1_alike h) s
  | finWait2 => exact congrFun (processFinWait2_alike h) s
  | close => exact congrFun (processClose_alike h) s
  | lastAck | timeWait | closing | stopped | closed => rfl

/-- A segment without the flag acknowledges nothing. -/
theorem processAck_ackdata {again : Bool} {t : Ctx D H} (hnone : s.e.ackdata = false)
    (hok : processAck inc s = .ok again t) (hdata : t.e.ackdata = true) :
    inc.has tcpAck = true := by
  unfold processAck at hok
  rw [Program.bind_gets] at hok
  by_contra hack
  rw [if_neg fun h => hack h.1] at hok
  cases hok
  rw [hnone] at hdata
  cases hdata

theorem processSegment_alike (h : inc.Alike other) :
    processSegment env other = processSegment env inc := by
  funext s
  unfold processSegment modifyConn
  simp only [Program.bind_update]
  rw [Program.bind_gets, Program.bind_gets, h.has, h.outOfSequence, h.processAck]
  by_cases hrst : inc.has tcpRst = true
  · rw [if_pos hrst, if_pos hrst]
  · rw [if_neg hrst, if_neg hrst]
    split_ifs with hseq
    · rfl
    · rw [Program.bind_apply, Program.bind_apply]
      cases hack : processAck inc { s with e := s.e.clearNews } with
      | error e t => rfl
      | ok again t =>
          dsimp only
          split_ifs
          · rfl
          · exact processState_alike h (Bool.eq_false_iff.mpr hrst)
              (processAck_ackdata rfl hack)

end States

/-! ## The table -/

namespace Processor

variable {env : Env D H} {inc other : Incoming}

theorem demux_alike (h : inc.Alike other) (p : Processor D H n) :
    p.demux other = p.demux inc := by
  simp only [demux, h.hdr, h.ipSrc]

theorem reset_alike (h : inc.Alike other) : reset env other = reset env inc := by
  simp only [reset, h.ethSrc, h.ipSrc, h.has, h.hdr, h.seqno]

theorem openSynRcvd_alike (h : inc.Alike other) (hctl : inc.ctlIs tcpSyn = true) (iss : UInt32)
    (outdata : Ptr) : openSynRcvd env other iss outdata = openSynRcvd env inc iss outdata := by
  simp only [openSynRcvd, h.ethSrc, h.ipSrc, h.hdr, h.seqno, h.window,
    h.options (.inl hctl)]

theorem acceptSyn_alike (h : inc.Alike other) (hctl : inc.ctlIs tcpSyn = true) :
    (acceptSyn env other : ProcProgram D H n Status) = acceptSyn env inc := by
  simp only [acceptSyn, h.ethSrc, h.ipSrc, openSynRcvd_alike h hctl]

/-- Segments that agree where they are looked at, and in their checksums, are
processed alike. -/
theorem process_alike (h : inc.Alike other)
    (hsum : env.config.disableChecksumCheck = false →
      tcpChecksum other.ipSrc other.ipDst other.len other.data =
        tcpChecksum inc.ipSrc inc.ipDst inc.len inc.data) :
    (process env other : ProcProgram D H n Status) = process env inc := by
  funext p
  unfold process
  rw [Program.bind_gets_id, Program.bind_gets_id]
  have hcheck : (env.config.disableChecksumCheck = false ∧
      tcpChecksum other.ipSrc other.ipDst other.len other.data ≠ 0xffff) ↔
      env.config.disableChecksumCheck = false ∧
        tcpChecksum inc.ipSrc inc.ipDst inc.len inc.data ≠ 0xffff :=
    and_congr_right fun hon => by rw [hsum hon]
  simp only [hcheck, demux_alike h, processSegment_alike h, reset_alike h, h.ctlIs, h.hdr]
  cases p.demux inc with
  | some i => rfl
  | none =>
      dsimp only
      by_cases hctl : inc.ctlIs tcpSyn = true
      · rw [acceptSyn_alike h hctl]
      · rw [if_pos (Bool.eq_false_iff.mpr hctl), if_pos (Bool.eq_false_iff.mpr hctl)]

end Processor

end Tcpv4

namespace Host

open Tcpv4

variable {D H : Type} {n : Nat} {env : Net D H} {len : UInt16} {data other : Bytes}

/-! ## Frames -/

/-- The IP packet of a frame. -/
def packet (data : Bytes) : Bytes := fun i => data (Ethernet.headerLen + i)

/-- The segment a frame is taken for. -/
def segment? (env : Net D H) (len : UInt16) (data : Bytes) : Option Incoming :=
  if ntohs (load16 data 12) = Ethernet.ethtypeIp then
    match ipv4Packet env (.load data 6) (len - UInt16.ofNat Ethernet.headerLen) (packet data) with
    | .tcp inc => some inc
    | _ => none
  else none

theorem process_of_segment {inc : Incoming} (h : segment? env len data = some inc) :
    (process env len data : HostProgram D H n Status) =
      onTcp (Processor.process env.toEnv inc) := by
  unfold segment? at h
  split_ifs at h with htype
  unfold process
  dsimp only
  have harp : ¬(ntohs (load16 data 12) = Ethernet.ethtypeArp ∧ env.enableArp = true) := by
    rw [htype]
    exact fun hboth => absurd hboth.1 (by decide)
  rw [if_neg harp, if_pos htype]
  unfold processIpv4
  rw [show (fun i => data (Ethernet.headerLen + i)) = packet data from rfl]
  revert h
  cases ipv4Packet env (.load data 6) (len - UInt16.ofNat Ethernet.headerLen) (packet data) with
  | tcp found => intro h; cases h; rfl
  | rejected | icmp | raw => intro h; cases h

/-- The segment is found by the two lower headers. -/
theorem segment?_congr {inc : Incoming} (h : segment? env len data = some inc)
    (hagree : ∀ i < tcpOffset, other i = data i) :
    segment? env len other =
      some { inc with data := fun i => other (Ethernet.headerLen + (Ipv4.headerLen + i)) } := by
  have hfield : ∀ off n, off + n ≤ tcpOffset → ∀ i < n, other (off + i) = data (off + i) :=
    fun off n hfit i hi => hagree _ (by omega)
  have hpacket : ∀ off n, off + n ≤ Ipv4.headerLen →
      ∀ i < n, packet other (off + i) = packet data (off + i) :=
    fun off n hfit i hi => hagree _ (by
      simp only [tcpOffset, Ethernet.headerLen, Ipv4.headerLen] at *; omega)
  have hbyte : ∀ i < Ipv4.headerLen, packet other i = packet data i := fun i hi => by
    have := hpacket i 1 hi 0 (by decide)
    rwa [Nat.add_zero] at this
  unfold segment? ipv4Packet at h ⊢
  rw [load16_congr (hfield 12 2 (by decide)), Ethernet.Address.load_congr (hfield 6 6 (by decide)),
    hbyte 0 (by decide), hbyte 6 (by decide), hbyte 7 (by decide), hbyte 9 (by decide),
    Ipv4.Address.load_congr (hpacket 12 4 (by decide)),
    Ipv4.Address.load_congr (hpacket 16 4 (by decide)), load16_congr (hpacket 2 2 (by decide)),
    Ipv4.checksum_congr hbyte]
  split_ifs at h ⊢
  cases h
  rfl

end Host

end Tulips
