import Tulips.Machine.Courses
import Tulips.Machine.Replay

/-!
# Runs of a host

The programs of ARP, ICMP and the whole host replay the device as well, so the
history of every reached host does. A device that keeps its buffers in a queue
hands them out in turn. What ARP and ICMP do to the world is what the TCP
processor does when it answers for no connection, so what holds of every reached
processor also holds in a host.
-/

namespace Tulips

open Tcpv4 Turns

variable {D H : Type} {n : Nat} {α : Type}

/-! ## Replaying the device -/

section Walk

variable {env : Net D H} {first : D}

theorem Arp.Processor.transmit_tracks (dest : Ethernet.Address) (hdr : Header) :
    WorldTracks env.toEnv first (transmit env dest hdr) := by
  refine .bind (.update fun _ hw => hw) fun _ => .bind (.update fun _ hw => hw) fun _ =>
    .bind EthernetProducer.prepare_tracks fun ret => ?_
  cases ret with
  | error ret => exact .pure _
  | ok outdata =>
      exact .bind (store_tracks _ _ _) fun _ =>
        .bind (EthernetProducer.commit_tracks _ _ _) fun _ => .pure _

theorem Arp.Processor.process_tracks (arp : Arp.Processor) (len : UInt16) (data : Bytes) :
    WorldTracks env.toEnv first (process env arp len data) := by
  refine .ite (.pure _) (.ite (.ite (.pure _) ?_) (.ite (.ite (.pure _) (.pure _)) (.pure _)))
  refine .bind (transmit_tracks _ _) fun ret => ?_
  cases ret with
  | error ret => exact .pure _
  | ok ret => exact .pure _

theorem Icmpv4.Processor.process_tracks (icmp : Icmpv4.Processor) (ethSrc : Ethernet.Address)
    (ipSrc : Ipv4.Address) (data : Bytes) :
    WorldTracks env.toEnv first (process env icmp ethSrc ipSrc data) := by
  refine .ite (.pure _) (.ite ?_ ?_)
  · cases icmp.reqs (Header.load data).id with
    | none => exact .pure _
    | some i =>
        dsimp only
        cases icmp.request? i with
        | none => exact .fault _
        | some req => exact .ite (.pure _) (.pure _)
  · refine .bind (.update fun _ hw => hw) fun _ => .bind (.update fun _ hw => hw) fun _ =>
      .bind (.update fun _ hw => hw) fun _ => .bind Ipv4Producer.prepare_tracks fun ret => ?_
    cases ret with
    | error ret => exact .pure _
    | ok outdata =>
        exact .bind (store_tracks _ _ _) fun _ =>
          .bind (Ipv4Producer.commit_tracks _ _ _) fun _ => .pure _

namespace Host

variable (env first) in
/-- The program keeps a history that replays the device. -/
abbrev Tracks (m : HostProgram D H n α) : Prop :=
  Program.Keeps (fun s => Tracked env.toEnv first s.w) m

theorem world_tracks {m : WorldProgram D H α} (h : WorldTracks env.toEnv first m) :
    Tracks (n := n) env first (world m) :=
  .zoom (fun _ hs => hs) (fun _ _ _ hw => hw) h

theorem onTcp_tracks {m : ProcProgram D H n α} (h : ProcTracks env.toEnv first m) :
    Tracks env first (onTcp m) :=
  .zoom (fun _ hs => hs) (fun _ _ _ hp => hp) h

theorem setIcmp_tracks (icmp : Icmpv4.Processor) :
    Tracks (H := H) (n := n) env first (setIcmp icmp) := .update fun _ hs => hs

theorem processIpv4_tracks (ethSrc : Ethernet.Address) (len : UInt16) (data : Bytes) :
    Tracks (n := n) env first (processIpv4 env ethSrc len data) := by
  unfold processIpv4
  cases ipv4Packet env ethSrc len data with
  | rejected ret => exact .pure _
  | tcp inc => exact onTcp_tracks (Processor.process_tracks inc)
  | icmp ipSrc len payload =>
      exact .bind (.gets _) fun s =>
        .bind (world_tracks (Icmpv4.Processor.process_tracks _ _ _ _)) fun _ =>
        .bind (setIcmp_tracks _) fun _ => .pure _
  | raw len payload => exact .pure _

theorem process_tracks (len : UInt16) (data : Bytes) :
    Tracks (n := n) env first (process env len data) := by
  refine .ite ?_ (.ite (processIpv4_tracks _ _ _) (.ite (.pure _) (.pure _)))
  exact .bind (.gets _) fun s =>
    .bind (world_tracks (Arp.Processor.process_tracks _ _ _)) fun _ =>
    .bind (.update fun _ hs => hs) fun _ => .pure _

end Host

end Walk

/-! ## What ARP and ICMP do -/

/-- Nothing was sent, a buffer was refused, or one frame was sent from a buffer
of its own. -/
def SentOne (w w' : World D H) : Prop :=
  w'.hdl = w.hdl ∧
    ((w'.mem = w.mem ∧ (w'.log = w.log ∨ w'.log = .prepare none none :: w.log)) ∨
      ∃ buf writes frame mss ret, BlockMemory.SameOff buf w.mem w'.mem ∧
        (∀ ev ∈ writes, ev = .write none buf) ∧
        w'.log = .commit none buf frame mss ret ::
          (writes ++ .prepare none (some buf) :: w.log))

section Sending

variable {env : Net D H} {w w' : World D H}

theorem SentOne.refl : SentOne w w := ⟨rfl, .inl ⟨rfl, .inl rfl⟩⟩

theorem Arp.Processor.transmit_sentOne {dest : Ethernet.Address} {hdr : Header}
    {ret : Except Failure Status} (hok : transmit env dest hdr w = .ok ret w') :
    SentOne w w' := by
  unfold transmit at hok
  obtain ⟨w₁, hhdl, ⟨ret₁, h₁, hmem, hlog⟩ | ⟨buf, writes, h₁, hmem, hwrites, hlog⟩⟩ :=
    EthernetProducer.prepare_cases env.toEnv none
      { w with ethto := ⟨dest, Ethernet.ethtypeArp⟩ }
  · change (EthernetProducer.prepare env.toEnv none >>= _ : WorldProgram D H _) _ = _ at hok
    rw [Program.bind_of_ok h₁] at hok
    cases hok
    exact ⟨hhdl, .inl ⟨hmem, .inr hlog⟩⟩
  · change (EthernetProducer.prepare env.toEnv none >>= _ : WorldProgram D H _) _ = _ at hok
    rw [Program.bind_of_ok h₁] at hok
    obtain ⟨w₂, h₂, -, hw₂⟩ := store_some none ⟨buf, Ethernet.headerLen⟩ 0 hdr.bytes w₁
    obtain ⟨w₃, ret₃, frame, h₃, hhdl₃, hmem₃, hlog₃, -⟩ := EthernetProducer.commit_some env.toEnv
      none (UInt32.ofNat headerLen) ⟨buf, Ethernet.headerLen⟩ 0 w₂
    obtain ⟨ev₂, hlog₂, hev₂⟩ := hw₂.log
    dsimp only at hok
    rw [Program.bind_of_ok h₂, Program.bind_of_ok h₃] at hok
    cases hok
    refine ⟨hhdl₃.trans (hw₂.hdl.trans hhdl), .inr ⟨buf, ev₂ ++ writes, frame, 0, ret₃, ?_,
      fun ev hev => (List.mem_append.mp hev).elim (hev₂ ev) (hwrites ev), ?_⟩⟩
    · rw [hmem₃]
      exact hmem.trans hw₂.mem.sameOff
    · rw [hlog₃, hlog₂, hlog, List.append_assoc]

/-- An IPv4 frame of its own: a buffer is prepared, filled and committed. -/
theorem sentOne_of_ipv4 (w₀ : World D H) (hhdl : w₀.hdl = w.hdl) (hmem : w₀.mem = w.mem)
    (hlog : w₀.log = w.log) {a : α} (f : Failure → α) (g : Status → α) (bytes : List UInt8)
    (len : UInt32)
    (hok : (do
      match ← Ipv4Producer.prepare env.toEnv none with
      | .error ret => pure (f ret)
      | .ok outdata =>
          store none (some outdata) 0 bytes
          let ret ← Ipv4Producer.commit env.toEnv none len outdata 0
          pure (g ret) : WorldProgram D H α) w₀ = .ok a w') : SentOne w w' := by
  obtain ⟨w₁, hhdl₁, ⟨ret₁, h₁, hmem₁, hlog₁⟩ | ⟨buf, writes, h₁, hmem₁, hwrites, hlog₁⟩⟩ :=
    prepare_cases env.toEnv none w₀
  · rw [Program.bind_of_ok h₁] at hok
    cases hok
    exact ⟨hhdl₁.trans hhdl, .inl ⟨hmem₁.trans hmem, .inr (by rw [hlog₁, hlog])⟩⟩
  · rw [Program.bind_of_ok h₁] at hok
    obtain ⟨w₂, h₂, -, hw₂⟩ := store_some none ⟨buf, tcpOffset⟩ 0 bytes w₁
    obtain ⟨w₄, w₃, ret', frame, h₄, hw₃, hhdl₄, hmem₄, hlog₄, -⟩ :=
      Ipv4Producer.commit_some env.toEnv none len ⟨buf, tcpOffset⟩ 0 w₂
    dsimp only at hok
    rw [Program.bind_of_ok h₂, Program.bind_of_ok h₄] at hok
    cases hok
    obtain ⟨ev₂, hlog₂, hev₂⟩ := hw₂.log
    obtain ⟨ev₃, hlog₃, hev₃⟩ := hw₃.log
    refine ⟨hhdl₄.trans (hw₃.hdl.trans (hw₂.hdl.trans (hhdl₁.trans hhdl))),
      .inr ⟨buf, ev₃ ++ (ev₂ ++ writes), frame, 0, ret', ?_, fun ev hev => ?_, ?_⟩⟩
    · rw [hmem₄, ← hmem]
      exact (hmem₁.trans hw₂.mem.sameOff).trans hw₃.mem.sameOff
    · rcases List.mem_append.mp hev with h | h
      · exact hev₃ ev h
      · exact (List.mem_append.mp h).elim (hev₂ ev) (hwrites ev)
    · rw [hlog₄, hlog₃, hlog₂, hlog₁, hlog]
      simp

theorem Arp.Processor.process_sentOne {arp : Arp.Processor} {len : UInt16} {data : Bytes}
    {ret : Status × Arp.Processor} (hok : process env arp len data w = .ok ret w') :
    SentOne w w' := by
  unfold process at hok
  dsimp only at hok
  split_ifs at hok
  · cases hok; exact .refl
  · cases hok; exact .refl
  · obtain ⟨ret', w₁, hsend, hok⟩ := Program.bind_eq_ok.mp hok
    cases ret' <;> cases hok <;> exact transmit_sentOne hsend
  all_goals cases hok; exact .refl

theorem Arp.Processor.discover_sentOne {arp : Arp.Processor} {destipaddr : Ipv4.Address}
    {ret : Status} (hok : discover env arp destipaddr w = .ok ret w') : SentOne w w' := by
  unfold discover at hok
  split_ifs at hok
  · cases hok; exact .refl
  · obtain ⟨ret', w₁, hsend, hok⟩ := Program.bind_eq_ok.mp hok
    cases ret' <;> cases hok <;> exact transmit_sentOne hsend

theorem Icmpv4.Request.call_sentOne {arp : Arp.Processor} {req : Request} {dst : Ipv4.Address}
    {ret : Status × Request} (hok : req.call env arp dst w = .ok ret w') : SentOne w w' := by
  unfold call at hok
  cases hstate : req.state with
  | request => rw [hstate] at hok; cases hok; exact .refl
  | response => rw [hstate] at hok; cases hok; exact .refl
  | idle =>
      rw [hstate] at hok
      dsimp only at hok
      cases hquery : arp.query env dst with
      | none => rw [hquery] at hok; cases hok; exact .refl
      | some addr =>
          rw [hquery] at hok
          exact sentOne_of_ipv4
            { w with ip4to := { w.ip4to with destAddress := dst, proto := Ipv4.protoIcmp } }
            rfl rfl rfl (fun ret => (ret.val, req))
            (fun ret => (ret, { req with state := .request })) _ _ hok

theorem Icmpv4.Processor.process_sentOne {icmp : Icmpv4.Processor} {ethSrc : Ethernet.Address}
    {ipSrc : Ipv4.Address} {data : Bytes} {ret : Status × Icmpv4.Processor}
    (hok : process env icmp ethSrc ipSrc data w = .ok ret w') : SentOne w w' := by
  unfold process at hok
  split_ifs at hok
  · cases hok; exact .refl
  · cases hreq : icmp.reqs (Header.load data).id with
    | none => rw [hreq] at hok; cases hok; exact .refl
    | some i =>
        rw [hreq] at hok
        dsimp only at hok
        cases hheap : icmp.request? i with
        | none => rw [hheap] at hok; cases hok
        | some req =>
            rw [hheap] at hok
            dsimp only at hok
            split_ifs at hok <;> cases hok <;> exact .refl
  · exact sentOne_of_ipv4 { w with
        ip4to := { w.ip4to with destAddress := ipSrc, proto := Ipv4.protoIcmp }
        ethto := { w.ethto with destAddress := ethSrc } }
      rfl rfl rfl (fun ret => (ret.val, icmp)) (fun ret => (ret, icmp)) _ _ hok

end Sending

/-- Frames sent next to the TCP processor are steps of its table. -/
theorem SentOne.table {p : Processor D H n} {w : World D H} (h : SentOne p.w w) :
    ({ p with w := w } : Processor D H n).table = p.table ∨
      WorldAct p.table ({ p with w := w } : Processor D H n).table := by
  obtain ⟨hhdl, ⟨hmem, hlog | hlog⟩ | ⟨buf, writes, frame, mss, ret, hmem, hwrites, hlog⟩⟩ := h
  · rw [table_world hhdl, hmem, hlog]
    exact .inl rfl
  · exact .inr (.of_note _ rfl rfl hhdl hmem hlog)
  · rw [table_world hhdl, hlog]
    exact .inr (.reset hwrites hmem)

/-! ## Reached hosts -/

namespace Host

/-- Operations that all return lead from a new host in front of the device to the host. -/
def Reachable (env : Net D H) (first : D) (s : Host D H n) : Prop :=
  n < 2 ^ 16 ∧ ∃ hdl ops, execAll env ops (initial n first hdl) = .ok () s

variable {env : Net D H} {first : D} {s t : Host D H n}

/-- The TCP processor has done an operation of its own, or another processor may
have sent a frame next to it. -/
def Moved (env : Net D H) (p q : Processor D H n) : Prop :=
  (∃ op, Processor.exec env.toEnv op p = .ok () q) ∨ ∃ w, SentOne p.w w ∧ q = { p with w := w }

theorem Moved.refl (env : Net D H) (p : Processor D H n) : Moved env p p := .inr ⟨p.w, .refl, rfl⟩

theorem world_moved {m : WorldProgram D H α} {a : α} (hok : world m s = .ok a t)
    (h : ∀ w, m s.w = .ok a w → SentOne s.w w) : Moved env s.tcp t.tcp := by
  obtain ⟨w, hrun, rfl⟩ := Program.zoom_eq_ok.mp hok
  exact .inr ⟨w, h w hrun, rfl⟩

theorem onTcp_moved {m : ProcProgram D H n α} {a : α} (op : Processor.Op)
    (hok : onTcp m s = .ok a t)
    (h : ∀ q, m s.tcp = .ok a q → Processor.exec env.toEnv op s.tcp = .ok () q) :
    Moved env s.tcp t.tcp := by
  obtain ⟨q, hrun, rfl⟩ := Program.zoom_eq_ok.mp hok
  exact .inl ⟨op, h q hrun⟩

theorem processIpv4_moved {ethSrc : Ethernet.Address} {len : UInt16} {data : Bytes} {ret : Status}
    (hok : processIpv4 env ethSrc len data s = .ok ret t) : Moved env s.tcp t.tcp := by
  unfold processIpv4 at hok
  cases hpacket : ipv4Packet env ethSrc len data with
  | rejected ret => rw [hpacket] at hok; cases hok; exact .refl env _
  | tcp inc =>
      rw [hpacket] at hok
      exact onTcp_moved (.process inc) hok fun q hq =>
        Program.bind_eq_ok.mpr ⟨ret, q, hq, rfl⟩
  | icmp ipSrc len payload =>
      rw [hpacket] at hok
      dsimp only at hok
      rw [Program.bind_gets_id] at hok
      obtain ⟨r, u, hrun, hok⟩ := Program.bind_eq_ok.mp hok
      have hmoved : Moved env s.tcp u.tcp :=
        world_moved hrun fun w => Icmpv4.Processor.process_sentOne
      cases hok
      exact hmoved
  | raw len payload => rw [hpacket] at hok; cases hok; exact .refl env _

theorem exec_moved {op : Op} (hok : exec env op s = .ok () t) : Moved env s.tcp t.tcp := by
  cases op with
  | tcp op => exact onTcp_moved op hok fun _ hq => hq
  | frame len data =>
      obtain ⟨ret, u, hrun, hrest⟩ := Program.bind_eq_ok.mp hok
      cases hrest
      unfold process at hrun
      dsimp only at hrun
      split_ifs at hrun
      · rw [Program.bind_gets_id] at hrun
        obtain ⟨r, v, harp, hrest⟩ := Program.bind_eq_ok.mp hrun
        have hmoved : Moved env s.tcp v.tcp :=
          world_moved harp fun w => Arp.Processor.process_sentOne
        cases hrest
        exact hmoved
      · exact processIpv4_moved hrun
      all_goals cases hrun; exact .refl env _
  | run arpExpired tcpExpired =>
      obtain ⟨ret, u, hrun, hrest⟩ := Program.bind_eq_ok.mp hok
      cases hrest
      obtain ⟨_, v, harp, hrun⟩ := Program.bind_eq_ok.mp hrun
      -- The timers of the ARP processor do not reach the TCP processor.
      have hv : v.tcp = s.tcp := by
        unfold Program.when at harp
        split_ifs at harp <;> cases harp <;> rfl
      rw [← hv]
      exact onTcp_moved (.run tcpExpired) hrun fun q hq =>
        Program.bind_eq_ok.mpr ⟨ret, q, hq, rfl⟩
  | discover destipaddr =>
      change (do
        let _ ← world (Arp.Processor.discover env s.arp destipaddr)
        pure () : HostProgram D H n Unit) s = _ at hok
      obtain ⟨ret, u, hrun, hrest⟩ := Program.bind_eq_ok.mp hok
      cases hrest
      exact world_moved hrun fun w => Arp.Processor.discover_sentOne
  | attach => cases hok; exact .refl env _
  | detach i =>
      obtain ⟨_, _, hget, hok⟩ := Program.bind_eq_ok.mp hok
      cases hget
      dsimp only [id] at hok
      cases hdetach : s.icmp.detach i with
      | none => rw [hdetach] at hok; cases hok
      | some icmp => rw [hdetach] at hok; cases hok; exact .refl env _
  | ping i dst =>
      obtain ⟨ret, u, hrun, hrest⟩ := Program.bind_eq_ok.mp hok
      cases hrest
      unfold ping at hrun
      rw [Program.bind_gets_id] at hrun
      cases hreq : s.icmp.request? i with
      | none => rw [hreq] at hrun; cases hrun
      | some req =>
          rw [hreq] at hrun
          obtain ⟨r, v, hcall, hrest⟩ := Program.bind_eq_ok.mp hrun
          have hmoved : Moved env s.tcp v.tcp :=
            world_moved hcall fun w => Icmpv4.Request.call_sentOne
          cases hrest
          exact hmoved

/-- What the operations of the TCP processor keep, and frames sent next to it do
not disturb, holds of the processor of every reached host. -/
theorem Reachable.induction {I : Processor D H n → Prop} (hs : Reachable env first s)
    (hinitial : ∀ hdl, I (.initial n first hdl))
    (hexec : ∀ p q op, Processor.exec env.toEnv op p = .ok () q → I p → I q)
    (hsent : ∀ p w, SentOne p.w w → I p → I { p with w := w }) : I s.tcp := by
  obtain ⟨-, hdl, ops, hrun⟩ := hs
  have hrest : ∀ (ops : List Op) (s t : Host D H n), execAll env ops s = .ok () t →
      I s.tcp → I t.tcp := by
    intro ops
    induction ops with
    | nil => intro s t hrun hI; cases hrun; exact hI
    | cons op ops ih =>
        intro s t hrun hI
        obtain ⟨_, u, hop, hrun⟩ := Program.bind_eq_ok.mp hrun
        refine ih u t hrun ?_
        rcases exec_moved hop with ⟨op', hop'⟩ | ⟨w, hsend, hu⟩
        · exact hexec _ _ _ hop' hI
        · rw [hu]
          exact hsent _ w hsend hI
  exact hrest ops _ _ hrun (hinitial hdl)

/-- A kept property holds of every connection of a reached host whose history is
good. -/
theorem Reachable.each {good : List Event → Prop} {J : Core → List Event → Prop}
    (hs : Reachable env first s) (hkept : Kept env.handler good J)
    (hinit : ∀ id, J (Connection.initial id).core []) :
    s.tcp.table.Numbered ∧ (good s.w.log → ∀ i, J (s.tcp.conns i).core s.w.log) := by
  have hn := hs.1
  let I (p : Processor D H n) : Prop :=
    p.table.Numbered ∧ (good p.w.log → ∀ i, J (p.conns i).core p.w.log)
  refine Reachable.induction (I := I) hs ?_ ?_ ?_
  · exact fun hdl => ⟨Processor.initial_numbered first hdl, fun _ i => hinit _⟩
  · exact fun p q op hop ⟨hid, hJ⟩ => (Processor.exec_outcome hop).each hkept hn hid hJ
  · intro p w hsend ⟨hid, hJ⟩
    rcases hsend.table with htable | hact
    · have hlog : w.log = p.w.log := congrArg Table.log htable
      exact ⟨hid, by rw [hlog]; exact hJ⟩
    · exact hkept.world hact hid hJ

end Host

/-! ## Devices that hand out their buffers in turn -/

namespace Tcpv4

/-- What a call of the device does to the queue of its buffers. -/
def Event.turn : Event → Option (Turn Nat)
  | .prepare _ (some buf) => some (.take buf)
  | .commit _ buf _ _ ret => if ret = .ok then some (.give buf) else none
  | _ => none

end Tcpv4

end Tulips
