import Tulips.Machine.Slot

/-!
# What the transmission paths do

Every routine below the processor's entry points is total once its buffer is
known, and what it leaves behind is one of the effects of the abstract machine.
-/

namespace Tulips.Tcpv4

variable {D H : Type} {env : Env D H}

/-! ## Effects on the world -/

/-- Bytes of a buffer have been stored for a party, all between two offsets. -/
structure Wrote (who : Option UInt16) (p : Ptr) (lo hi : Nat) (w w' : World D H) : Prop where
  hdl : w'.hdl = w.hdl
  log : ∃ writes, w'.log = writes ++ w.log ∧ ∀ ev ∈ writes, ev = .write who p.buf
  mem : BlockMemory.SameOutside p.buf lo hi w.mem w'.mem

namespace Wrote

variable {who : Option UInt16} {p : Ptr} {lo hi lo' hi' : Nat} {w₁ w₂ w₃ : World D H}

theorem refl : Wrote who p lo hi w₁ w₁ :=
  ⟨rfl, ⟨[], rfl, by simp⟩, .refl⟩

theorem trans (h₁ : Wrote who p lo hi w₁ w₂) (h₂ : Wrote who p lo hi w₂ w₃) :
    Wrote who p lo hi w₁ w₃ := by
  obtain ⟨ev₁, hlog₁, hev₁⟩ := h₁.log
  obtain ⟨ev₂, hlog₂, hev₂⟩ := h₂.log
  refine ⟨h₂.hdl.trans h₁.hdl, ⟨ev₂ ++ ev₁, ?_, ?_⟩, h₁.mem.trans h₂.mem⟩
  · rw [hlog₂, hlog₁, List.append_assoc]
  · intro ev hev
    rcases List.mem_append.mp hev with h | h
    · exact hev₂ ev h
    · exact hev₁ ev h

theorem mono (h : Wrote who p lo hi w₁ w₂) (hlo : lo' ≤ lo) (hhi : hi ≤ hi') :
    Wrote who p lo' hi' w₁ w₂ :=
  ⟨h.hdl, h.log, h.mem.mono hlo hhi⟩

end Wrote

/-- The TCP header at a pointer. -/
def World.headerAt (w : World D H) (p : Ptr) : Header := Header.load (w.mem.bytesFrom p.buf p.off)

theorem Header.load_congr {data data' : Bytes} (h : ∀ i < headerLen, data' i = data i) :
    Header.load data' = Header.load data := by
  simp only [Header.load, load16, load32]
  rw [h 0 (by decide), h 1 (by decide), h 2 (by decide), h 3 (by decide), h 4 (by decide),
    h 5 (by decide), h 6 (by decide), h 7 (by decide), h 8 (by decide), h 9 (by decide),
    h 10 (by decide), h 11 (by decide), h 12 (by decide), h 13 (by decide), h 14 (by decide),
    h 15 (by decide), h 16 (by decide), h 17 (by decide), h 18 (by decide), h 19 (by decide)]

/-- Stores away from a header keep it. -/
theorem World.headerAt_congr {who : Option UInt16} {p q : Ptr} {lo hi : Nat} {w w' : World D H}
    (h : Wrote who q lo hi w w') (hout : p.buf = q.buf → p.off + headerLen ≤ lo ∨ hi ≤ p.off) :
    w'.headerAt p = w.headerAt p := by
  apply Header.load_congr
  intro i hi'
  apply h.mem
  intro hbuf
  have := hout hbuf
  omega

@[simp] theorem store_none (who : Option UInt16) (off : Nat) (bytes : List UInt8)
    (w : World D H) : store who none off bytes w = .error .nullPointer w := rfl

theorem store_some (who : Option UInt16) (p : Ptr) (off : Nat) (bytes : List UInt8)
    (w : World D H) :
    ∃ w', store who (some p) off bytes w = .ok () w' ∧
      w'.mem = w.mem.write p.buf (p.off + off) bytes ∧
      Wrote who p (p.off + off) (p.off + off + bytes.length) w w' :=
  ⟨_, rfl, rfl, rfl, ⟨[_], rfl, by simp⟩, BlockMemory.write_sameOutside⟩

@[simp] theorem modifyHeader_none (who : Option UInt16) (f : Header → Header) (w : World D H) :
    modifyHeader who none f w = .error .nullPointer w := rfl

theorem modifyHeader_some (who : Option UInt16) (p : Ptr) (f : Header → Header)
    (w : World D H) :
    ∃ w', modifyHeader who (some p) f w = .ok () w' ∧
      w'.headerAt p = f (w.headerAt p) ∧ Wrote who p p.off (p.off + headerLen) w w' := by
  obtain ⟨w', hok, hmem, hwrote⟩ := store_some who p 0 (f (w.headerAt p)).bytes w
  refine ⟨w', hok, ?_, hwrote⟩
  apply Header.load_of_bytes
  intro i hi
  rw [hmem]
  exact BlockMemory.write_apply_of_lt (by simpa using hi)

/-- What a committed frame is made of: the header at its pointer and the bytes
behind it. -/
theorem frame_eq {w : World D H} {p : Ptr} {frame : List UInt8} {len : Nat}
    (hframe : frame = w.mem.read p.buf (p.off - tcpOffset) (tcpOffset + len))
    (hoff : tcpOffset ≤ p.off) :
    (headerLen ≤ len → Frame.header frame = w.headerAt p) ∧
      ∀ k ≤ len, frame.drop (tcpOffset + k) = w.mem.read p.buf (p.off + k) (len - k) := by
  constructor
  · intro hlen
    apply Header.load_congr
    intro i hi
    rw [hframe, List.getD_eq_getElem?_getD, BlockMemory.getElem?_read (by omega),
      Option.getD_some, BlockMemory.bytesFrom]
    congr 1
    omega
  · intro k hk
    rw [hframe, BlockMemory.drop_read (by omega)]
    congr 1 <;> omega

/-- `ethernet::Producer::commit` hands over what stands in the buffer. -/
theorem EthernetProducer.commit_some (env : Env D H) (who : Option UInt16) (len : UInt32)
    (p : Ptr) (mss : UInt16) (w : World D H) :
    ∃ w' ret frame, EthernetProducer.commit env who len p mss w = .ok ret w' ∧
      w'.hdl = w.hdl ∧ w'.mem = w.mem ∧ w'.log = .commit who p.buf frame mss ret :: w.log ∧
      frame = w.mem.read p.buf (p.off - Ethernet.headerLen) (len.toNat + Ethernet.headerLen) := by
  let frame := w.mem.read p.buf (p.off - Ethernet.headerLen) (len.toNat + Ethernet.headerLen)
  let answer := env.device.commit w.dev p.buf frame mss
  exact ⟨{ w with dev := answer.2, log := .commit who p.buf frame mss answer.1 :: w.log },
    answer.1, frame, rfl, rfl, rfl, rfl, rfl⟩

/-- `ipv4::Producer::commit`: the length and the checksum are stored in the IPv4
header before the pointer, and the frame is committed. -/
theorem Ipv4Producer.commit_some (env : Env D H) (who : Option UInt16) (len : UInt32) (p : Ptr)
    (mss : UInt16) (w : World D H) :
    ∃ w' w₁ ret frame, Ipv4Producer.commit env who len p mss w = .ok ret w' ∧
      Wrote who p (p.off - Ipv4.headerLen) (p.off - Ipv4.headerLen + 12) w w₁ ∧
      w'.hdl = w₁.hdl ∧ w'.mem = w₁.mem ∧ w'.log = .commit who p.buf frame mss ret :: w₁.log ∧
      frame = w₁.mem.read p.buf (p.off - Ipv4.headerLen - Ethernet.headerLen)
        ((len + UInt32.ofNat Ipv4.headerLen).toNat + Ethernet.headerLen) := by
  let ip : Ptr := ⟨p.buf, p.off - Ipv4.headerLen⟩
  obtain ⟨w₁, h₁, _, hw₁⟩ := store_some who ip 2
    (store16 (htons (len + UInt32.ofNat Ipv4.headerLen).toUInt16)) w
  obtain ⟨w₂, h₂, hw₂⟩ : ∃ w₂,
      (Program.when (env.config.hwChecksum = false) do
        let sum ← Program.gets fun w : World D H => Ipv4.checksum (w.mem.bytesFrom ip.buf ip.off)
        store who (some ip) 10 (store16 (~~~sum)) : WorldProgram D H Unit) w₁ = .ok () w₂ ∧
      Wrote who ip (ip.off + 10) (ip.off + 12) w₁ w₂ := by
    unfold Program.when
    split
    · obtain ⟨w₂, h₂, _, hw₂⟩ := store_some who ip 10
        (store16 (~~~(Ipv4.checksum (w₁.mem.bytesFrom ip.buf ip.off)))) w₁
      exact ⟨w₂, h₂, hw₂⟩
    · exact ⟨w₁, rfl, .refl⟩
  obtain ⟨w₃, ret, frame, h₃, hhdl, hmem, hlog, hframe⟩ :=
    EthernetProducer.commit_some env who (len + UInt32.ofNat Ipv4.headerLen) ip mss w₂
  refine ⟨w₃, w₂, ret, frame, ?_, ?_, hhdl, hmem, hlog, hframe⟩
  · unfold Ipv4Producer.commit
    rw [Program.bind_of_ok h₁, Program.bind_of_ok h₂, h₃]
  · have hmono : ∀ {lo hi : Nat} {v v' : World D H}, Wrote who ip lo hi v v' →
        ip.off ≤ lo → hi ≤ ip.off + 12 →
        Wrote who p (p.off - Ipv4.headerLen) (p.off - Ipv4.headerLen + 12) v v' :=
      fun h hlo hhi => ⟨h.hdl, h.log, h.mem.mono hlo hhi⟩
    exact (hmono hw₁ (by omega) (by simp [store16])).trans (hmono hw₂ (by omega) (by omega))

/-- `Processor::send(dst, len, mss, outdata)` on a buffer: some stores around
the header, then one commit. -/
theorem sendFrame_some (env : Env D H) (who : Option UInt16) (dst : Ipv4.Address) (len : UInt32)
    (mss : UInt16) (p : Ptr) (w : World D H) :
    ∃ w' w₁ ret frame, sendFrame env who dst len mss (some p) w = .ok ret w' ∧
      Wrote who p (p.off - tcpOffset) (p.off + headerLen) w w₁ ∧
      w'.hdl = w₁.hdl ∧ w'.mem = w₁.mem ∧ w'.log = .commit who p.buf frame mss ret :: w₁.log ∧
      (tcpOffset ≤ p.off → (w₁.headerAt p).seqno = (w.headerAt p).seqno ∧
        (w₁.headerAt p).offset = (w.headerAt p).offset ∧
        (w₁.headerAt p).flags = (w.headerAt p).flags) ∧
      (len.toNat + tcpOffset < 2 ^ 32 →
        frame = w₁.mem.read p.buf (p.off - tcpOffset) (tcpOffset + len.toNat)) := by
  obtain ⟨w₁, h₁, hhdr₁, hw₁⟩ := modifyHeader_some who p
    (fun h => { h with urgp := 0, chksum := 0, reserved := 0 }) w
  -- The TCP checksum, when the device does not compute it.
  obtain ⟨w₂, h₂, hhdr₂, hw₂⟩ : ∃ w₂,
      (Program.when (env.config.hwChecksum = false) do
        let csum ← Program.gets fun w : World D H =>
          tcpChecksum env.hostIp dst len.toUInt16 (w.mem.bytesFrom p.buf p.off)
        modifyHeader who (some p) fun h => { h with chksum := ~~~csum } :
          WorldProgram D H Unit) w₁ = .ok () w₂ ∧
      ((w₂.headerAt p).seqno = (w₁.headerAt p).seqno ∧
        (w₂.headerAt p).offset = (w₁.headerAt p).offset ∧
        (w₂.headerAt p).flags = (w₁.headerAt p).flags) ∧
      Wrote who p p.off (p.off + headerLen) w₁ w₂ := by
    unfold Program.when
    split
    · obtain ⟨w₂, h₂, hhdr₂, hw₂⟩ := modifyHeader_some who p (fun h => { h with chksum :=
        ~~~(tcpChecksum env.hostIp dst len.toUInt16 (w₁.mem.bytesFrom p.buf p.off)) }) w₁
      exact ⟨w₂, h₂, by simp [hhdr₂], hw₂⟩
    · exact ⟨w₁, rfl, ⟨rfl, rfl, rfl⟩, .refl⟩
  obtain ⟨w', w₃, ret, frame, h₃, hw₃, hhdl, hmem, hlog, hframe⟩ :=
    Ipv4Producer.commit_some env who len p mss w₂
  refine ⟨w', w₃, ret, frame, ?_, ?_, hhdl, hmem, hlog, ?_, ?_⟩
  · unfold sendFrame
    rw [Program.bind_of_ok h₁]
    simp only
    rw [Program.bind_of_ok h₂, h₃]
  · refine ((hw₁.mono ?_ ?_).trans (hw₂.mono ?_ ?_)).trans (hw₃.mono ?_ ?_) <;>
      simp only [tcpOffset, Ethernet.headerLen, Ipv4.headerLen, headerLen] <;> omega
  · intro hoff
    -- The IPv4 header ends where the TCP header starts.
    have h₃₂ : w₃.headerAt p = w₂.headerAt p := World.headerAt_congr hw₃ fun _ => by
      simp only [tcpOffset, Ethernet.headerLen, Ipv4.headerLen] at *
      omega
    rw [h₃₂, hhdr₂.1, hhdr₂.2.1, hhdr₂.2.2, hhdr₁]
    exact ⟨rfl, rfl, rfl⟩
  · intro hfit
    have hadd : (len + UInt32.ofNat Ipv4.headerLen).toNat = len.toNat + Ipv4.headerLen := by
      simp only [tcpOffset, Ethernet.headerLen, Ipv4.headerLen] at *
      rw [UInt32.toNat_add, UInt32.toNat_ofNat']
      omega
    have hstart : p.off - Ipv4.headerLen - Ethernet.headerLen = p.off - tcpOffset := by
      simp only [tcpOffset, Ethernet.headerLen, Ipv4.headerLen]
      omega
    have hwhole : len.toNat + Ipv4.headerLen + Ethernet.headerLen = tcpOffset + len.toNat := by
      simp only [tcpOffset]
      omega
    rw [hframe, hadd, hstart, hwhole]

/-- `Device::prepare` either fails or yields a buffer with some content. -/
theorem devicePrepare_cases (env : Env D H) (who : Option UInt16) (w : World D H) :
    ∃ w', w'.hdl = w.hdl ∧
      ((∃ ret, EthernetProducer.devicePrepare env who w = .ok (.error ret) w' ∧
          w'.mem = w.mem ∧ w'.log = .prepare who none :: w.log) ∨
        ∃ buf, EthernetProducer.devicePrepare env who w = .ok (.ok buf) w' ∧
          BlockMemory.SameOff buf w.mem w'.mem ∧ w'.log = .prepare who (some buf) :: w.log) := by
  unfold EthernetProducer.devicePrepare
  rw [Program.bind_gets]
  rcases env.device.prepare w.dev with ⟨ret | ⟨buf, content⟩, dev⟩
  · refine ⟨_, ?_, .inl ⟨ret, rfl, ?_, ?_⟩⟩ <;> rfl
  · refine ⟨_, ?_, .inr ⟨buf, rfl, BlockMemory.fill_sameOff, ?_⟩⟩ <;> rfl

/-- `ethernet::Producer::prepare` lays its header into the buffer. -/
theorem EthernetProducer.prepare_cases (env : Env D H) (who : Option UInt16) (w : World D H) :
    ∃ w', w'.hdl = w.hdl ∧
      ((∃ ret, EthernetProducer.prepare env who w = .ok (.error ret) w' ∧
          w'.mem = w.mem ∧ w'.log = .prepare who none :: w.log) ∨
        ∃ buf writes, EthernetProducer.prepare env who w = .ok (.ok ⟨buf, Ethernet.headerLen⟩) w' ∧
          BlockMemory.SameOff buf w.mem w'.mem ∧ (∀ ev ∈ writes, ev = .write who buf) ∧
          w'.log = writes ++ .prepare who (some buf) :: w.log) := by
  unfold EthernetProducer.prepare
  obtain ⟨w₁, hhdl, ⟨ret, h₁, hmem, hlog⟩ | ⟨buf, h₁, hmem, hlog⟩⟩ := devicePrepare_cases env who w
  · rw [Program.bind_of_ok h₁]
    exact ⟨w₁, hhdl, .inl ⟨ret, rfl, hmem, hlog⟩⟩
  · rw [Program.bind_of_ok h₁]
    obtain ⟨w₂, h₂, _, hw₂⟩ := store_some who ⟨buf, 0⟩ 0
      (Ethernet.headerBytes w₁.ethto.destAddress env.hostMac w₁.ethto.type) w₁
    obtain ⟨writes, hlog₂, hwrites⟩ := hw₂.log
    refine ⟨w₂, hw₂.hdl.trans hhdl, .inr ⟨buf, writes, ?_, hmem.trans hw₂.mem.sameOff, hwrites, ?_⟩⟩
    · simp only [Program.bind_gets]
      rw [Program.bind_of_ok h₂]
      rfl
    · rw [hlog₂, hlog]

/-- `ipv4::Producer::prepare` lays the two lower headers into the buffer. -/
theorem prepare_cases (env : Env D H) (who : Option UInt16) (w : World D H) :
    ∃ w', w'.hdl = w.hdl ∧
      ((∃ ret, Ipv4Producer.prepare env who w = .ok (.error ret) w' ∧
          w'.mem = w.mem ∧ w'.log = .prepare who none :: w.log) ∨
        ∃ buf writes, Ipv4Producer.prepare env who w = .ok (.ok ⟨buf, tcpOffset⟩) w' ∧
          BlockMemory.SameOff buf w.mem w'.mem ∧ (∀ ev ∈ writes, ev = .write who buf) ∧
          w'.log = writes ++ .prepare who (some buf) :: w.log) := by
  unfold Ipv4Producer.prepare EthernetProducer.setType
  rw [Program.bind_update]
  obtain ⟨w₁, hhdl, ⟨ret, h₁, hmem, hlog⟩ | ⟨buf, writes, h₁, hmem, hwrites, hlog⟩⟩ :=
    EthernetProducer.prepare_cases env who
      { w with ethto := { w.ethto with type := Ethernet.ethtypeIp } }
  · rw [Program.bind_of_ok h₁]
    exact ⟨w₁, hhdl, .inl ⟨ret, rfl, hmem, hlog⟩⟩
  · rw [Program.bind_of_ok h₁]
    let w₂ : World D H := { w₁ with ip4to := { w₁.ip4to with ipid := w₁.ip4to.ipid + 1 } }
    obtain ⟨w₃, h₃, _, hw₃⟩ := store_some who ⟨buf, Ethernet.headerLen⟩ 0
      (Ipv4.headerBytes w₂.ip4to.ipid w₂.ip4to.proto env.hostIp w₂.ip4to.destAddress) w₂
    obtain ⟨ev₃, hlog₃, hev₃⟩ := hw₃.log
    refine ⟨w₃, hw₃.hdl.trans hhdl, .inr ⟨buf, ev₃ ++ writes, ?_, ?_, ?_, ?_⟩⟩
    · simp only [Program.bind_update, Program.bind_gets]
      rw [Program.bind_of_ok h₃]
      rfl
    · exact hmem.trans hw₃.mem.sameOff
    · intro ev hev
      rcases List.mem_append.mp hev with h | h
      · exact hev₃ ev h
      · exact hwrites ev h
    · rw [hlog₃, show w₂.log = w₁.log from rfl, hlog, List.append_assoc]

/-! ## Effects on a connection -/

theorem onWorld_ok {α : Type} {m : WorldProgram D H α} {s : Ctx D H} {w : World D H} {a : α}
    (h : m s.w = .ok a w) : onWorld m s = .ok a { s with w := w } :=
  Program.zoom_of_ok h

@[simp] theorem bind_record {α : Type} (ev : Event) (k : Unit → ConnProgram D H α)
    (s : Ctx D H) : (onWorld (record ev) >>= k) s =
      k () { s with w := { s.w with log := ev :: s.w.log } } := rfl

@[simp] theorem bind_loadHeader {α : Type} (p : Ptr) (k : Header → ConnProgram D H α)
    (s : Ctx D H) : (onWorld (loadHeader (some p)) >>= k) s = k (s.w.headerAt p) s := rfl

theorem Wrote.stored {p : Ptr} {lo hi : Nat} {s : Ctx D H} {w : World D H}
    (h : Wrote (some s.e.id) p lo hi s.w w) :
    Stored p lo hi s.slot { s with w := w : Ctx D H }.slot := by
  obtain ⟨writes, hlog, hwrites⟩ := h.log
  refine ⟨w.mem, writes, ?_, hwrites, h.mem⟩
  simp only [Ctx.slot, h.hdl, hlog]

theorem Connection.refersTo_iff (e : Connection) (buf : Nat) :
    e.refersTo buf = true ↔ e.core.refersTo buf := by
  simp [Connection.refersTo, Core.refersTo, Connection.core, List.any_eq_true]

theorem Connection.hasOutstandingSegments_iff (e : Connection) :
    e.hasOutstandingSegments = true ↔ e.core.hasOutstanding := by
  simp [Connection.hasOutstandingSegments, Core.hasOutstanding, Connection.core,
    List.any_eq_true]

theorem Connection.hasAvailableSegments_iff (e : Connection) :
    e.hasAvailableSegments = true ↔ e.core.hasFree := by
  simp [Connection.hasAvailableSegments, Core.hasFree, Connection.core, List.any_eq_true]

theorem refill_spec (env : Env D H) (first : Bool) (s : Ctx D H) :
    ∃ t ret sdat, refill env first s = .ok ret t ∧ t.e = { s.e with sdat := sdat } ∧
      Refilled first s.slot t.slot ∧ (ret = .ok ↔ Replenished t.slot) := by
  let w₀ : World D H := { s.w with
    ip4to := { s.w.ip4to with proto := Ipv4.protoTcp, destAddress := s.e.ripaddr }
    ethto := { s.w.ethto with destAddress := s.e.rethaddr } }
  obtain ⟨w, hhdl, ⟨ret, hok, hmem, hlog⟩ | ⟨buf, writes, hok, hmem, hwrites, hlog⟩⟩ :=
    prepare_cases env (some s.e.id) w₀
  · have hrun : refill env first s = .ok ret.val
        ⟨s.e, { w with log := .refill s.e.id s.e.state first none false :: w.log }⟩ := by
      unfold refill
      simp only [onWorld, Ipv4Producer.setProtocol, Ipv4Producer.setDestination,
        EthernetProducer.setDestination, record, Program.bind_apply, Program.zoom,
        Program.gets_apply, Program.update_apply]
      rw [show Ipv4Producer.prepare env (some s.e.id) _ = _ from hok]
      rfl
    refine ⟨_, ret.val, s.e.sdat, hrun, rfl, .inl ?_, fun h => absurd h ret.property, ?_⟩
    · simp only [Ctx.slot, Slot.logged, hhdl, hmem, hlog]
      rfl
    · rintro ⟨_, _, _, _, _, _, h⟩
      cases (List.cons.inj h).1
  · have hrun : refill env first s = .ok .ok
        ⟨{ s.e with sdat := some ⟨buf, tcpOffset⟩ },
          { w with log := .refill s.e.id s.e.state first (some buf) (s.e.refersTo buf) ::
              w.log }⟩ := by
      unfold refill
      simp only [onWorld, Ipv4Producer.setProtocol, Ipv4Producer.setDestination,
        EthernetProducer.setDestination, record, modifyConn, Program.bind_apply, Program.zoom,
        Program.gets_apply, Program.update_apply]
      rw [show Ipv4Producer.prepare env (some s.e.id) _ = _ from hok]
      rfl
    refine ⟨_, .ok, some ⟨buf, tcpOffset⟩, hrun, rfl,
      .inr ⟨buf, w.mem, writes, _, s.e.refersTo_iff buf, hwrites, hmem, ?_⟩,
      fun _ => ⟨_, _, _, _, _, _, rfl⟩, fun _ => rfl⟩
    simp only [Ctx.slot, hhdl, hlog]
    rfl

/-! ## Committing a frame of a connection -/

theorem fillHeader_some (env : Env D H) (seqno : UInt32) (p : Ptr) (s : Ctx D H) :
    ∃ w, fillHeader env seqno (some p) s = .ok () { s with w := w } ∧
      (w.headerAt p).seqno = htonl seqno ∧ (w.headerAt p).offset = (s.w.headerAt p).offset ∧
      (w.headerAt p).flags = (s.w.headerAt p).flags ∧
      Wrote (some s.e.id) p p.off (p.off + headerLen) s.w w := by
  obtain ⟨w, hok, hhdr, hwrote⟩ := modifyHeader_some (some s.e.id) p (fun h =>
    { h with
      ackno := htonl s.e.rcvNxt
      seqno := htonl seqno
      srcport := s.e.lport
      destport := s.e.rport
      wnd := windowField env s.w s.e.state h.flags }) s.w
  refine ⟨w, onWorld_ok hok, ?_, ?_, ?_, hwrote⟩ <;> rw [hhdr]

theorem fillHeader_none (env : Env D H) (seqno : UInt32) (s : Ctx D H) :
    fillHeader env seqno none s = .error .nullPointer s := rfl

/-- Filling in a header and handing its frame to the device. -/
theorem sendFilled_spec (env : Env D H) (seqno len : UInt32) (p : Ptr) (s : Ctx D H) :
    ∃ w₁ w₂ ret, fillHeader env seqno (some p) s = .ok () { s with w := w₁ } ∧
      onWorld (sendFrame env (some s.e.id) s.e.ripaddr len s.e.mss (some p))
        { s with w := w₁ } = .ok ret { s with w := w₂ } ∧
      ∀ (known : Prop) (hlen n : Nat), headerLen ≤ hlen →
        (known → hlen + n + tcpOffset < 2 ^ 32 ∧ len = UInt32.ofNat (hlen + n) ∧
          (s.w.headerAt p).offset.val * 4 = hlen) →
        Committed known p hlen seqno n ret s.slot { s with w := w₂ : Ctx D H }.slot := by
  obtain ⟨w₁, hfill, hseq, hofs, -, hw₁⟩ := fillHeader_some env seqno p s
  obtain ⟨w₂, w, ret, frame, hsend, hw, hhdl, hmem, hlog, hhdr, hframe⟩ :=
    sendFrame_some env (some s.e.id) s.e.ripaddr len s.e.mss p w₁
  refine ⟨w₁, w₂, ret, hfill, onWorld_ok hsend, ?_⟩
  intro known hlen n hmin hknown
  have hstored : Wrote (some s.e.id) p (p.off - tcpOffset) (p.off + hlen) s.w w :=
    (hw₁.mono (by omega) (by omega)).trans (hw.mono (by omega) (by omega))
  refine ⟨_, frame, s.e.mss, hstored.stored, ?_, ?_⟩
  · simp only [Ctx.slot, Slot.logged, Connection.core, hhdl, hmem, hlog]
  · intro hoff hisknown
    obtain ⟨hfit, hlenEq, hset⟩ := hknown hisknown
    have hlenNat : len.toNat = hlen + n := by
      rw [hlenEq, UInt32.toNat_ofNat', Nat.mod_eq_of_lt (by omega)]
    have hframe := hframe (by omega)
    rw [hlenNat] at hframe
    constructor
    · rw [Frame.seqno, (frame_eq hframe hoff).1 (by omega), (hhdr hoff).1, hseq, ntohl_htonl]
    · rw [Frame.payload, (frame_eq hframe hoff).1 (by omega), (hhdr hoff).2.1, hofs, hset,
        (frame_eq hframe hoff).2 hlen (by omega), Nat.add_sub_cancel_left]
      -- The stores so far end where the payload starts.
      exact ((hw₁.mono (by omega) (Nat.le_refl _)).trans hw).mem.read_eq fun _ => .inr (by omega)

/-- A segment without data leaves from the send buffer. -/
theorem sendControl_spec (env : Env D H) {s : Ctx D H} {p : Ptr} (hsdat : s.e.sdat = some p)
    (known : Prop) (hknown : known → (s.w.headerAt p).offset = 5) :
    ∃ t ret sdat, sendControl env s = .ok ret t ∧ t.e = { s.e with sdat := sdat } ∧
      SentControl known s.slot t.slot := by
  let s₁ : Ctx D H :=
    { s with w := { s.w with log := .control s.e.id s.e.state s.e.slen :: s.w.log } }
  obtain ⟨w₁, w₂, ret, hfill, hsend, hcommit⟩ :=
    sendFilled_spec env s.e.sndNxt (UInt32.ofNat headerLen) p s₁
  have hcommitted := hcommit known headerLen 0 (Nat.le_refl _) fun h => by
    refine ⟨by decide, rfl, ?_⟩
    rw [show s₁.w.headerAt p = s.w.headerAt p from rfl, hknown h]
    rfl
  have hrun : sendControl env s = (if ret ≠ .ok then pure ret else refill env false :
      ConnProgram D H Status) { s with w := w₂ } := by
    unfold sendControl
    rw [Program.bind_gets, bind_record, hsdat, Program.bind_of_ok hfill,
      Program.bind_of_ok hsend]
  by_cases hret : ret = .ok
  · obtain ⟨t, ret', sdat, hok, he, hrefill, -⟩ := refill_spec env false { s with w := w₂ }
    refine ⟨t, ret', sdat, ?_, he, p, _, ret, hsdat, hcommitted, .inr ⟨hret, hrefill⟩⟩
    rw [hrun, if_neg (by simp [hret]), hok]
  · refine ⟨{ s with w := w₂ }, ret, s.e.sdat, ?_, rfl, p, _, ret, hsdat, hcommitted,
      .inl ⟨hret, rfl⟩⟩
    rw [hrun, if_pos hret]
    rfl

theorem sendControl_none (env : Env D H) {s : Ctx D H} (hsdat : s.e.sdat = none) :
    ∃ t, sendControl env s = .error .nullPointer t ∧
      t.w.log = .control s.e.id s.e.state s.e.slen :: s.w.log := by
  unfold sendControl
  rw [Program.bind_gets, bind_record, hsdat]
  exact ⟨_, Program.bind_of_error (fillHeader_none _ _ _), rfl⟩

/-- What a callback may change of a connection. -/
def SameButCookie (e e' : Connection) : Prop :=
  ∃ cookie opts, e' = { e with cookie := cookie, opts := opts }

theorem callback_spec (env : Env D H) (cb : Callback) (s : Ctx D H) :
    ∃ t reply, callback env cb s = .ok reply t ∧ reply = env.handler s.w.hdl s.e cb ∧
      SameButCookie s.e t.e ∧ t.w.mem = s.w.mem ∧ Called env.handler cb s.slot t.slot :=
  ⟨_, _, rfl, rfl, ⟨_, _, rfl⟩, rfl, s.e, rfl, rfl⟩

/-- What sending a segment may change of a connection. -/
def SameButSent (e e' : Connection) : Prop :=
  ∃ sndNxt sdat cookie opts, e' = { e with
    sndNxt := sndNxt, sdat := sdat, cookie := cookie, opts := opts }

/-- The report of a departure and the advance of the next sequence number. -/
theorem counted_spec (env : Env D H) (i : Fin segmentCount) {p : Ptr} {s : Ctx D H}
    (hdat : (s.e.segments i).dat = some p) (len : UInt32) :
    ∃ t, (do
        Program.when (env.config.latencyMonitor = true) do
          let h ← onWorld (loadHeader (s.e.segments i).dat)
          Program.when (h.has tcpPsh = true) do
            let _ ← callback env .onSent
            pure ()
        modifyConn fun e => { e with sndNxt := e.sndNxt + len } : ConnProgram D H Unit) s =
          .ok () t ∧
      SameButSent s.e t.e ∧ Counted env.handler len s.slot t.slot := by
  obtain ⟨u, reply, hcall, _, ⟨cookie, opts, he⟩, _, hcalled⟩ := callback_spec env .onSent s
  unfold Program.when
  split
  · rw [hdat]
    simp only [Program.bind_assoc_apply, bind_loadHeader]
    split
    · simp only [Program.bind_assoc_apply]
      rw [Program.bind_of_ok hcall]
      refine ⟨{ u with e := { u.e with sndNxt := u.e.sndNxt + len } }, rfl,
        ⟨s.e.sndNxt + len, s.e.sdat, cookie, opts, ?_⟩, u.slot, .inr hcalled, rfl⟩
      simp only [he]
    · exact ⟨_, rfl, ⟨_, _, _, _, rfl⟩, s.slot, .inl rfl, rfl⟩
  · exact ⟨_, rfl, ⟨_, _, _, _, rfl⟩, s.slot, .inl rfl, rfl⟩

/-- The segment in a slot of the ring is sent. -/
theorem sendSegment_spec (env : Env D H) {i : Fin segmentCount} {p : Ptr} {s : Ctx D H}
    (hdat : (s.e.segments i).dat = some p) (known : Prop) (hlen n : Nat) (len : UInt32)
    (hmin : headerLen ≤ hlen)
    (hknown : known → hlen + n + tcpOffset < 2 ^ 32 ∧ len = UInt32.ofNat (hlen + n) ∧
      (s.w.headerAt p).offset.val * 4 = hlen) :
    ∃ t ret, sendSegment env len i s = .ok ret t ∧ SameButSent s.e t.e ∧
      Transmitted env.handler known i hlen n s.slot t.slot ∧
      (ret = .ok ↔ Replenished t.slot) := by
  obtain ⟨w₁, w₂, ret, hfill, hsend, hcommit⟩ :=
    sendFilled_spec env (s.e.segments i).seq len p s
  have hcommitted := hcommit known hlen n hmin hknown
  let seg := s.e.segments i
  let again := seg.seq != s.e.sndNxt
  let s₂ : Ctx D H := { s with w := { w₂ with
    log := .transmit s.e.id s.e.state seg.seq seg.len again ret :: w₂.log } }
  by_cases hret : ret = .ok
  · -- The counting of a new segment, then the next buffer.
    obtain ⟨u, hcount, hu, hcounted⟩ : ∃ u,
        (Program.when (again = false) do
          Program.when (env.config.latencyMonitor = true) do
            let h ← onWorld (loadHeader seg.dat)
            Program.when (h.has tcpPsh = true) do
              let _ ← callback env .onSent
              pure ()
          modifyConn fun e => { e with sndNxt := e.sndNxt + seg.len } :
            ConnProgram D H Unit) s₂ = .ok () u ∧ SameButSent s.e u.e ∧
        if again then u.slot = s₂.slot else Counted env.handler seg.len s₂.slot u.slot := by
      cases hagain : again with
      | true => exact ⟨s₂, rfl, ⟨_, _, _, _, rfl⟩, rfl⟩
      | false =>
          obtain ⟨u, hrun, hu, hcounted⟩ := counted_spec env i (s := s₂) hdat seg.len
          exact ⟨u, hrun, hu, hcounted⟩
    obtain ⟨t, ret', sdat, hok, he, hrefill, hfull⟩ := refill_spec env (!again) u
    refine ⟨t, ret', ?_, ?_, ⟨p, _, ret, hdat, hcommitted,
      .inr ⟨hret, u.slot, hcounted, hrefill⟩⟩, hfull⟩
    · unfold sendSegment
      rw [Program.bind_gets, hdat, Program.bind_of_ok hfill, Program.bind_of_ok hsend,
        bind_record, if_neg (by simp [hret]), ← hdat, Program.bind_of_ok hcount, hok]
    · obtain ⟨sndNxt, _, cookie, opts, hu⟩ := hu
      exact ⟨sndNxt, sdat, cookie, opts, by rw [he, hu]⟩
  · refine ⟨s₂, ret, ?_, ⟨_, _, _, _, rfl⟩, ⟨p, _, ret, hdat, hcommitted, .inl ⟨hret, rfl⟩⟩,
      fun h => absurd h hret, ?_⟩
    swap
    · rintro ⟨_, _, _, _, _, _, h⟩
      cases (List.cons.inj h).1
    unfold sendSegment
    rw [Program.bind_gets, hdat, Program.bind_of_ok hfill, Program.bind_of_ok hsend,
      bind_record, if_pos hret]
    rfl

theorem sendSegment_none (env : Env D H) {i : Fin segmentCount} {s : Ctx D H}
    (hdat : (s.e.segments i).dat = none) (len : UInt32) :
    ∃ t, sendSegment env len i s = .error .nullPointer t := by
  unfold sendSegment
  rw [Program.bind_gets, hdat]
  exact ⟨_, Program.bind_of_error (fillHeader_none _ _ _)⟩

end Tulips.Tcpv4
