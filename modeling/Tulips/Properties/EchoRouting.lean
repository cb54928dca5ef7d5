import Tulips.Properties.EchoReplies
import Tulips.Machine.Addresses

/-!
# Echo requests

The echo requests of a host are found by their identifier when a reply comes in, and
their frames are sent through the producers that TCP and ARP use as well.
-/

namespace Tulips

open Tcpv4 (World WorldProgram EthernetProducer Ipv4Producer Event commits Addressed
  prepare_departs prepare_addressed store_laid store_sameOutside tcpOffset addressing)

variable {D H : Type} {n : Nat}

namespace Icmpv4

/-! ## Requests -/

/-- What an echo reply should make of a request: it completes the one that waits for
it. -/
def Request.answered (req : Request) (hdr : Header) : Request :=
  if req.state = .request ∧ req.id = hdr.id ∧ req.seq = hdr.seqno then
    { req with state := .response }
  else req

/-- The frame is an echo request of this request for an address. -/
def Request.Asks (req : Request) (mac : Ethernet.Address) (dst : Ipv4.Address) (ev : Event) :
    Prop :=
  ∃ buf frame mss ret icmpchksum, ev = .commit none buf frame mss ret ∧
    Addressed (Tcpv4.Frame.bytes frame) mac dst Ipv4.protoIcmp ∧
    Header.load (asBytes (messageOf frame)) = ⟨echo, 0, icmpchksum, req.id, req.seq⟩

namespace Processor

/-- The requests that are live have identifiers of their own. -/
def Distinct (icmp : Processor) : Prop :=
  ∀ i j r r', icmp.request? i = some r → icmp.request? j = some r' → r.id = r'.id → i = j

/-- A request, and what is found under its identifier. -/
def entry (icmp : Processor) (i : Nat) : Option (Request × Option Nat) :=
  (icmp.request? i).map fun req => (req, icmp.reqs req.id)

/-- At most one request is live. It has the first identifier and is found under it. -/
structure Sole (icmp : Processor) : Prop where
  ids : icmp.ids = 0
  live {i : Nat} {req : Request} : icmp.request? i = some req →
    req.id = 1 ∧ icmp.reqs 1 = some i
  found {id : UInt16} {i : Nat} : icmp.reqs id = some i → id = 1

theorem initial_sole : initial.Sole where
  ids := rfl
  live h := by cases h
  found h := by cases h

theorem Sole.distinct {icmp : Processor} (h : icmp.Sole) : icmp.Distinct := by
  intro i j r r' hr hr' _
  have hi := (h.live hr).2
  rw [(h.live hr').2] at hi
  exact (Option.some.inj hi).symm

/-! ### What becomes of a request -/

variable {icmp : Processor}

theorem request?_lt {i : Nat} {req : Request} (h : icmp.request? i = some req) :
    i < icmp.heap.length := by
  unfold request? at h
  by_contra hle
  rw [List.getElem?_eq_none (Nat.le_of_not_lt hle)] at h
  cases h

theorem request?_setRequest {i : Nat} {old req : Request} (hold : icmp.request? i = some old)
    (j : Nat) :
    (icmp.setRequest i req).request? j = if j = i then some req else icmp.request? j := by
  unfold setRequest request?
  rw [List.getElem?_set]
  by_cases hij : i = j
  · rw [if_pos hij, if_pos (request?_lt hold), if_pos hij.symm]
    rfl
  · rw [if_neg hij, if_neg (Ne.symm hij)]

theorem request?_attach (j : Nat) :
    icmp.attach.1.request? j =
      if j = icmp.heap.length then some ⟨icmp.ids + 1, .idle, 1⟩ else icmp.request? j := by
  unfold attach request?
  rw [List.getElem?_append]
  by_cases hlt : j < icmp.heap.length
  · rw [if_pos hlt, if_neg (Nat.ne_of_lt hlt)]
  · rw [if_neg hlt]
    by_cases heq : j = icmp.heap.length
    · rw [if_pos heq, heq, Nat.sub_self]
      rfl
    · rw [if_neg heq, List.getElem?_eq_none (Nat.le_of_not_lt hlt),
        List.getElem?_eq_none (by simp only [List.length_singleton]; omega)]

theorem detach_eq_some {i : Nat} {icmp' : Processor} (h : icmp.detach i = some icmp') :
    ∃ req, icmp.request? i = some req ∧
      icmp' = { icmp with
        reqs := Function.update icmp.reqs req.id none
        heap := icmp.heap.set i none } := by
  unfold detach at h
  cases hreq : icmp.request? i with
  | none =>
      rw [hreq] at h
      cases h
  | some req =>
      rw [hreq] at h
      exact ⟨req, rfl, (Option.some.inj h).symm⟩

theorem request?_detach {i : Nat} {icmp' : Processor} (h : icmp.detach i = some icmp') (j : Nat) :
    icmp'.request? j = if j = i then none else icmp.request? j := by
  obtain ⟨req, hreq, rfl⟩ := detach_eq_some h
  unfold request?
  rw [List.getElem?_set]
  by_cases hij : i = j
  · rw [if_pos hij, if_pos (request?_lt hreq), if_pos hij.symm]
    rfl
  · rw [if_neg hij, if_neg (Ne.symm hij)]

/-! ### One request at a time -/

theorem Sole.setRequest (h : icmp.Sole) {i : Nat} {old req : Request}
    (hold : icmp.request? i = some old) (hid : req.id = old.id) : (icmp.setRequest i req).Sole where
  ids := h.ids
  live := by
    intro j r hr
    rw [request?_setRequest hold] at hr
    split at hr
    · next hj =>
        cases hr
        rw [hid, hj]
        exact h.live hold
    · exact h.live hr
  found := h.found

theorem Sole.attach (h : icmp.Sole) (hnone : ∀ i, icmp.request? i = none) :
    icmp.attach.1.Sole where
  ids := h.ids
  live := by
    intro j r hr
    rw [request?_attach] at hr
    split at hr
    · next hj =>
        cases hr
        rw [h.ids, hj]
        refine ⟨rfl, ?_⟩
        simp [Processor.attach, h.ids]
    · rw [hnone] at hr
      cases hr
  found := by
    intro id i hi
    simp only [Processor.attach, h.ids, Function.update_apply] at hi
    split at hi
    · next heq => exact heq
    · exact h.found hi

theorem Sole.detach (h : icmp.Sole) {i : Nat} {icmp' : Processor}
    (hdetach : icmp.detach i = some icmp') : icmp'.Sole ∧ ∀ j, icmp'.request? j = none := by
  have hgone : ∀ j, icmp'.request? j = none := by
    intro j
    rw [request?_detach hdetach]
    split
    · rfl
    · next hj =>
        cases hreq : icmp.request? j with
        | none => rfl
        | some r =>
            obtain ⟨req, hi, -⟩ := detach_eq_some hdetach
            exact absurd (h.distinct _ _ _ _ hreq hi ((h.live hreq).1.trans (h.live hi).1.symm)) hj
  refine ⟨⟨?_, ?_, ?_⟩, hgone⟩
  · obtain ⟨req, -, rfl⟩ := detach_eq_some hdetach
    exact h.ids
  · intro j r hr
    rw [hgone] at hr
    cases hr
  · intro id j hj
    obtain ⟨req, -, rfl⟩ := detach_eq_some hdetach
    simp only [Function.update_apply] at hj
    split at hj
    · cases hj
    · exact h.found hj

end Processor

/-! ### Invoking a request -/

/-- An invocation that gets as far as sending a frame. -/
def Request.Sends (env : Net D H) (arp : Arp.Processor) (req : Request) (dst : Ipv4.Address)
    (w : World D H) (mac : Ethernet.Address) : Prop :=
  req.state = .idle ∧ arp.query env dst = some mac ∧
    ∃ buf content, (env.device.prepare w.dev).1 = .ok (buf, content)

/-- The frame goes to where the Ethernet producer was set before. -/
theorem Request.call_cases {env : Net D H} {arp : Arp.Processor} {req req' : Request}
    {dst : Ipv4.Address} {w w' : World D H} {ret : Status}
    (h : req.call env arp dst w = .ok (ret, req') w') :
    req'.id = req.id ∧ req'.state ≠ .response ∧
      ((commits w'.log = commits w.log ∧ ∀ mac, ¬req.Sends env arp dst w mac) ∨
        ∃ mac ev, req.Sends env arp dst w mac ∧ commits w'.log = ev :: commits w.log ∧
          req.Asks w.ethto.destAddress dst ev) := by
  unfold call at h
  -- Only an idle request sends.
  cases hstate : req.state with
  | request =>
      rw [hstate] at h
      cases h
      refine ⟨rfl, by simp [hstate], .inl ⟨rfl, fun mac hsends => ?_⟩⟩
      rw [hsends.1] at hstate
      cases hstate
  | response =>
      rw [hstate] at h
      cases h
      refine ⟨rfl, by simp, .inl ⟨rfl, fun mac hsends => ?_⟩⟩
      rw [hsends.1] at hstate
      cases hstate
  | idle =>
      rw [hstate] at h
      cases hquery : arp.query env dst with
      | none =>
          rw [hquery] at h
          cases h
          refine ⟨rfl, by simp [hstate], .inl ⟨rfl, fun mac hsends => ?_⟩⟩
          rw [hsends.2.1] at hquery
          cases hquery
      | some mac =>
          rw [hquery] at h
          unfold Ipv4Producer.setDestination Ipv4Producer.setProtocol at h
          simp only [Program.bind_update] at h
          let w₀ : World D H := { w with
            ip4to := { w.ip4to with proto := Ipv4.protoIcmp, destAddress := dst } }
          let hdr : Header := ⟨echo, 0, 0, req.id, req.seq⟩
          let asked : Header :=
            { hdr with icmpchksum := ~~~(checksum fun i => hdr.bytes.getD i 0) }
          -- The device may have no buffer.
          rcases hdev : (env.device.prepare w.dev).1 with ret₁ | ⟨buf, content⟩
          · obtain ⟨ret₂, w₁, -, h₁, hcommits, -⟩ | ⟨buf, content, w₁, hbuf, -⟩ :=
              prepare_departs env.toEnv none w₀
            · rw [Program.bind_of_ok h₁] at h
              cases h
              refine ⟨rfl, by simp [hstate], .inl ⟨hcommits, fun mac hsends => ?_⟩⟩
              obtain ⟨buf, content, hbuf⟩ := hsends.2.2
              rw [hdev] at hbuf
              cases hbuf
            · have hbuf' : (env.device.prepare w.dev).1 = .ok (buf, content) := hbuf
              rw [hdev] at hbuf'
              cases hbuf'
          · have hbuf₀ : (env.device.prepare w₀.dev).1 = .ok (buf, content) := hdev
            obtain ⟨ret₁, w₁, w₂, w₃, frame, h₁, h₂, h₃, hcommits, hmsg, haddr⟩ :=
              message_departs env asked.length_bytes hbuf₀
            rw [Program.bind_of_ok h₁] at h
            simp only at h
            rw [Program.bind_of_ok h₂, Program.bind_of_ok h₃] at h
            cases h
            have hsends : req.Sends env arp dst w mac := ⟨hstate, hquery, buf, content, hdev⟩
            refine ⟨rfl, by simp, .inr ⟨mac, _, hsends, hcommits, buf, frame, 0, _,
              asked.icmpchksum, rfl, haddr, ?_⟩⟩
            rw [hmsg, Header.load_bytes]

end Icmpv4

namespace Host

open Icmpv4 (Header echoReply Request)

/-! ## Steps of a host -/

/-- The echo reply that an operation hands to ICMP. -/
def Op.reply (env : Net D H) : Op → Option Header
  | .frame len data =>
      let type := ntohs (load16 data 12)
      if type = Ethernet.ethtypeArp ∧ env.enableArp = true then none
      else if type = Ethernet.ethtypeIp then
        match ipv4Packet env (.load data 6) (len - UInt16.ofNat Ethernet.headerLen)
            fun i => data (Ethernet.headerLen + i) with
        | .icmp _ _ msg =>
            if (Header.load msg).type = echoReply then some (.load msg) else none
        | _ => none
      else none
  | _ => none

/-- What the step does to the requests is what is asked of it. -/
structure Routes (env : Net D H) (s : Host D H n) (op : Op) (s' : Host D H n) : Prop where
  distinct : s'.icmp.Distinct
  detached : ∀ i, op = .detach i → ∀ j ≠ i, s'.icmp.entry j = s.icmp.entry j
  replied : ∀ hdr, op.reply env = some hdr →
    ∀ j, s'.icmp.request? j = (s.icmp.request? j).map fun req => req.answered hdr
  moved : op.reply env = none → ∀ j req req', s.icmp.request? j = some req →
    s'.icmp.request? j = some req' → req'.state = .response → req.state = .response
  sent : ∀ i dst, op = .ping i dst → ∃ new, commits s'.w.log = new ++ commits s.w.log ∧
    ∀ ev ∈ new, ∃ req mac, s.icmp.request? i = some req ∧ s.arp.query env dst = some mac ∧
      req.Asks mac dst ev

/-- A request is only attached when no other is live, a reply that names a waiting
request has its sequence number, and the Ethernet producer is set to the translation of
the destination when a request is sent. -/
def Routable (env : Net D H) (s : Host D H n) (op : Op) : Prop :=
  match op with
  | .attach => ∀ i, s.icmp.request? i = none
  | .ping i dst => ∀ req mac, s.icmp.request? i = some req → req.Sends env s.arp dst s.w mac →
      s.w.ethto.destAddress = mac
  | op => ∀ hdr, op.reply env = some hdr → ∀ j req, s.icmp.request? j = some req →
      req.state = .request → req.id = hdr.id → req.seq = hdr.seqno

/-! ## What a step does to the requests -/

section Step

variable {env : Net D H} {s s' : Host D H n}

theorem onTcp_icmp {α : Type} {m : Tcpv4.ProcProgram D H n α} {a : α}
    (h : onTcp m s = .ok a s') : s'.icmp = s.icmp := by
  obtain ⟨tcp, -, rfl⟩ := Program.zoom_eq_ok.mp h
  rfl

theorem world_icmp {α : Type} {m : WorldProgram D H α} {a : α} (h : world m s = .ok a s') :
    s'.icmp = s.icmp := by
  obtain ⟨w, -, rfl⟩ := Program.zoom_eq_ok.mp h
  rfl

/-- What ICMP makes of an echo reply. -/
def Completes (icmp : Icmpv4.Processor) (hdr : Header) (icmp' : Icmpv4.Processor) : Prop :=
  (icmp.reqs hdr.id = none ∧ icmp' = icmp) ∨
    ∃ i req, icmp.reqs hdr.id = some i ∧ icmp.request? i = some req ∧
      icmp' = if req.state = .request then icmp.setRequest i { req with state := .response }
        else icmp

theorem icmp_process_cases {icmp icmp' : Icmpv4.Processor} {ethSrc : Ethernet.Address}
    {ipSrc : Ipv4.Address} {data : Bytes} {w w' : World D H} {ret : Status}
    (h : icmp.process env ethSrc ipSrc data w = .ok (ret, icmp') w') :
    if (Header.load data).type = echoReply then Completes icmp (.load data) icmp'
    else icmp' = icmp := by
  unfold Icmpv4.Processor.process at h
  by_cases hreply : (Header.load data).type = echoReply
  · rw [if_neg (by simp [hreply]), if_pos hreply] at h
    rw [if_pos hreply]
    -- A reply is looked up by its identifier; without a request nothing happens.
    cases hid : icmp.reqs (Header.load data).id with
    | none =>
        rw [hid] at h
        cases h
        exact .inl ⟨hid, rfl⟩
    | some i =>
        rw [hid] at h
        dsimp only at h
        cases hreq : icmp.request? i with
        | none =>
            rw [hreq] at h
            cases h
        | some req =>
            rw [hreq] at h
            refine .inr ⟨i, req, hid, hreq, ?_⟩
            dsimp only at h
            split_ifs at h with hstate
            · cases h
              rw [if_neg hstate]
            · cases h
              rw [if_pos (not_not.mp hstate)]
  · rw [if_neg hreply]
    split_ifs at h with htype
    · cases h
      rfl
    · unfold Ipv4Producer.setProtocol Ipv4Producer.setDestination
        EthernetProducer.setDestination at h
      simp only [Program.bind_update] at h
      obtain ⟨ret, w₁, -, h⟩ := Program.bind_eq_ok.mp h
      cases ret with
      | error ret =>
          cases h
          rfl
      | ok outdata =>
          obtain ⟨_, w₂, -, h⟩ := Program.bind_eq_ok.mp h
          obtain ⟨_, w₃, -, h⟩ := Program.bind_eq_ok.mp h
          cases h
          rfl

theorem process_icmp {len : UInt16} {data : Bytes} {ret : Status}
    (h : process env len data s = .ok ret s') :
    match (Op.frame len data).reply env with
    | none => s'.icmp = s.icmp
    | some hdr => Completes s.icmp hdr s'.icmp := by
  unfold process at h
  simp only [Op.reply]
  split_ifs at h ⊢ with harp hip hraw
  · rw [Program.bind_gets_id] at h
    obtain ⟨r, u, hrun, h⟩ := Program.bind_eq_ok.mp h
    cases h
    have hkept : u.icmp = s.icmp := world_icmp hrun
    exact hkept
  · unfold processIpv4 at h
    cases hpacket : ipv4Packet env (.load data 6) (len - UInt16.ofNat Ethernet.headerLen)
        fun i => data (Ethernet.headerLen + i) with
    | rejected ret' =>
        rw [hpacket] at h
        cases h
        rfl
    | tcp inc =>
        rw [hpacket] at h
        exact onTcp_icmp h
    | icmp ipSrc iplen msg =>
        rw [hpacket] at h
        obtain ⟨_, _, hget, h⟩ := Program.bind_eq_ok.mp h
        cases hget
        obtain ⟨⟨ret', icmp⟩, u, hrun, h⟩ := Program.bind_eq_ok.mp h
        cases h
        obtain ⟨w, hicmp, -⟩ := Program.zoom_eq_ok.mp hrun
        have hcases := icmp_process_cases hicmp
        dsimp only
        by_cases htype : (Header.load msg).type = echoReply
        · rw [if_pos htype] at hcases ⊢
          exact hcases
        · rw [if_neg htype] at hcases ⊢
          exact hcases
    | raw iplen msg =>
        rw [hpacket] at h
        cases h
        rfl
  · cases h
    rfl
  · cases h
    rfl

/-- Without a test of the sequence number, the reply completes the request that it
names. -/
theorem Completes.request? {icmp icmp' : Icmpv4.Processor} {hdr : Header}
    (h : Completes icmp hdr icmp') (hsole : icmp.Sole) (j : Nat) :
    icmp'.request? j = (icmp.request? j).map fun req =>
      if req.state = .request ∧ req.id = hdr.id then { req with state := .response } else req := by
  rcases h with ⟨hnone, rfl⟩ | ⟨i, req, hfound, hreq, rfl⟩
  · cases hj : icmp'.request? j with
    | none => rfl
    | some r =>
        have hne : r.id ≠ hdr.id := by
          intro heq
          rw [← heq, (hsole.live hj).1, (hsole.live hj).2] at hnone
          cases hnone
        rw [Option.map_some, if_neg fun hboth => hne hboth.2]
  · have hid : req.id = hdr.id := (hsole.live hreq).1.trans (hsole.found hfound).symm
    by_cases hji : j = i
    · rw [hji, hreq, Option.map_some]
      by_cases hstate : req.state = .request
      · rw [if_pos hstate, if_pos ⟨hstate, hid⟩, Icmpv4.Processor.request?_setRequest hreq,
          if_pos rfl]
      · rw [if_neg hstate, if_neg fun hboth => hstate hboth.1, hreq]
    · have hother : icmp.request? j = none := by
        cases hj : icmp.request? j with
        | none => rfl
        | some r =>
            have hsame := (hsole.live hj).1.trans (hsole.live hreq).1.symm
            exact absurd (hsole.distinct _ _ _ _ hj hreq hsame) hji
      rw [hother, Option.map_none]
      split
      · rw [Icmpv4.Processor.request?_setRequest hreq, if_neg hji, hother]
      · exact hother

theorem Completes.sole {icmp icmp' : Icmpv4.Processor} {hdr : Header}
    (h : Completes icmp hdr icmp') (hsole : icmp.Sole) : icmp'.Sole := by
  rcases h with ⟨-, rfl⟩ | ⟨i, req, -, hreq, rfl⟩
  · exact hsole
  · split
    · exact hsole.setRequest hreq rfl
    · exact hsole

/-- It is the right one if the sequence number happens to agree. -/
theorem Completes.answered_iff {icmp icmp' : Icmpv4.Processor} {hdr : Header}
    (h : Completes icmp hdr icmp') (hsole : icmp.Sole) :
    (∀ j, icmp'.request? j = (icmp.request? j).map fun req => req.answered hdr) ↔
      ∀ j req, icmp.request? j = some req → req.state = .request → req.id = hdr.id →
        req.seq = hdr.seqno := by
  constructor
  · intro hall j req hreq hstate hid
    have hj := hall j
    rw [h.request? hsole, hreq, Option.map_some, Option.map_some, if_pos ⟨hstate, hid⟩] at hj
    by_contra hseq
    have hkept : req.answered hdr = req := if_neg fun hboth => hseq hboth.2.2
    have hresponse := congrArg Request.state (Option.some.inj hj)
    rw [hkept, hstate] at hresponse
    cases hresponse
  · intro hall j
    rw [h.request? hsole]
    cases hreq : icmp.request? j with
    | none => rfl
    | some req =>
        rw [Option.map_some, Option.map_some, Request.answered]
        by_cases hboth : req.state = .request ∧ req.id = hdr.id
        · rw [if_pos hboth, if_pos ⟨hboth.1, hboth.2, hall j req hreq hboth.1 hboth.2⟩]
        · rw [if_neg hboth, if_neg fun hthree => hboth ⟨hthree.1, hthree.2.1⟩]

/-- A step that leaves the requests alone. -/
theorem routes_of_kept {op : Op} (hsole : s.icmp.Sole) (hkept : s'.icmp = s.icmp)
    (hreply : op.reply env = none) (hping : ∀ i dst, op ≠ .ping i dst) : Routes env s op s' where
  distinct := by
    rw [hkept]
    exact hsole.distinct
  detached i _ j _ := by rw [hkept]
  replied hdr h := by
    rw [hreply] at h
    cases h
  moved _ j req req' hreq hreq' hstate := by
    rw [hkept, hreq] at hreq'
    cases hreq'
    exact hstate
  sent i dst h := absurd h (hping i dst)

theorem frame_routes {len : UInt16} {data : Bytes} (hsole : s.icmp.Sole)
    (h : exec env (.frame len data) s = .ok () s') :
    s'.icmp.Sole ∧
      (Routes env s (.frame len data) s' ↔ Routable env s (.frame len data)) := by
  obtain ⟨ret, _, hrun, hrest⟩ := Program.bind_eq_ok.mp h
  cases hrest
  have hicmp := process_icmp hrun
  cases hreply : (Op.frame len data).reply env with
  | none =>
      rw [hreply] at hicmp
      refine ⟨by rw [hicmp]; exact hsole, fun _ hdr h => ?_, fun _ =>
        routes_of_kept hsole hicmp hreply fun i dst h => by cases h⟩
      rw [hreply] at h
      cases h
  | some hdr =>
      rw [hreply] at hicmp
      have hsole' := Completes.sole hicmp hsole
      refine ⟨hsole', fun hroutes => ?_, fun hroutable => ?_⟩
      · intro hdr' hhdr'
        rw [hreply] at hhdr'
        cases hhdr'
        exact (Completes.answered_iff hicmp hsole).mp (hroutes.replied hdr hreply)
      · exact {
          distinct := hsole'.distinct
          detached := fun i h => by cases h
          replied := by
            intro hdr' hhdr'
            rw [hreply] at hhdr'
            cases hhdr'
            exact (Completes.answered_iff hicmp hsole).mpr (hroutable hdr hreply)
          moved := fun h => by
            rw [hreply] at h
            cases h
          sent := fun i dst h => by cases h }

theorem attach_routes (hsole : s.icmp.Sole) (h : exec env .attach s = .ok () s') :
    (Routable env s .attach → s'.icmp.Sole) ∧
      (Routes env s .attach s' ↔ Routable env s .attach) := by
  cases h
  refine ⟨fun hnone => hsole.attach hnone, fun hroutes => ?_, fun hnone => ?_⟩
  · -- Every request is given the first identifier.
    intro i
    by_contra hlive
    obtain ⟨req, hreq⟩ := Option.ne_none_iff_exists'.mp hlive
    have hlt := Icmpv4.Processor.request?_lt hreq
    have hold : s.icmp.attach.1.request? i = some req := by
      rw [Icmpv4.Processor.request?_attach, if_neg (Nat.ne_of_lt hlt), hreq]
    have hnew : s.icmp.attach.1.request? s.icmp.heap.length = some ⟨s.icmp.ids + 1, .idle, 1⟩ := by
      rw [Icmpv4.Processor.request?_attach, if_pos rfl]
    have hid : req.id = s.icmp.ids + 1 := by
      rw [(hsole.live hreq).1, hsole.ids]
      rfl
    exact Nat.ne_of_lt hlt (hroutes.distinct _ _ _ _ hold hnew hid)
  · exact {
      distinct := (hsole.attach hnone).distinct
      detached := fun i h => by cases h
      replied := fun hdr h => by cases h
      moved := by
        intro _ j req req' hreq
        rw [hnone] at hreq
        cases hreq
      sent := fun i dst h => by cases h }

theorem detach_routes {i : Nat} (hsole : s.icmp.Sole) (h : exec env (.detach i) s = .ok () s') :
    s'.icmp.Sole ∧ Routes env s (.detach i) s' := by
  obtain ⟨_, _, hget, h⟩ := Program.bind_eq_ok.mp h
  cases hget
  simp only [id] at h
  cases hdetach : s.icmp.detach i with
  | none =>
      rw [hdetach] at h
      cases h
  | some icmp =>
      rw [hdetach] at h
      cases h
      obtain ⟨hsole', hnone⟩ := hsole.detach hdetach
      refine ⟨hsole', ?_⟩
      exact {
        distinct := hsole'.distinct
        detached := by
          intro k hk j hj
          cases hk
          have hother := hnone j
          rw [Icmpv4.Processor.request?_detach hdetach, if_neg hj] at hother
          simp only [Icmpv4.Processor.entry, hnone j, hother, Option.map_none]
        replied := fun hdr h => by cases h
        moved := by
          intro _ j req req' _ hreq'
          rw [hnone] at hreq'
          cases hreq'
        sent := fun i dst h => by cases h }

theorem ping_routes {i : Nat} {dst : Ipv4.Address} (hsole : s.icmp.Sole)
    (h : exec env (.ping i dst) s = .ok () s') :
    s'.icmp.Sole ∧ (Routes env s (.ping i dst) s' ↔ Routable env s (.ping i dst)) := by
  obtain ⟨ret, _, hrun, hrest⟩ := Program.bind_eq_ok.mp h
  cases hrest
  unfold ping at hrun
  rw [Program.bind_gets_id] at hrun
  cases hreq : s.icmp.request? i with
  | none =>
      rw [hreq] at hrun
      cases hrun
  | some req =>
      rw [hreq] at hrun
      obtain ⟨⟨ret', req'⟩, u, hworld, hrest⟩ := Program.bind_eq_ok.mp hrun
      cases hrest
      obtain ⟨w, hcall, hu⟩ := Program.zoom_eq_ok.mp hworld
      obtain ⟨hid, hstate, hframes⟩ := Request.call_cases hcall
      have hsole' := hsole.setRequest hreq hid
      have hlog : commits u.w.log = commits w.log := by
        rw [← hu]
        rfl
      refine ⟨hsole', fun hroutes => ?_, fun hroutable => ?_⟩
      -- The frame that was sent is the only one, so its address is the translation.
      · intro req₁ mac hreq₁ hsends
        rw [hreq] at hreq₁
        cases hreq₁
        rcases hframes with ⟨-, hnone⟩ | ⟨mac', ev, -, hcommits, hasks⟩
        · exact absurd hsends (hnone mac)
        · obtain ⟨new, hnew, hall⟩ := hroutes.sent i dst rfl
          have hlist : ev :: commits s.w.log = new ++ commits s.w.log := by
            rw [← hnew]
            exact hcommits.symm.trans hlog.symm
          have hone : new = [ev] := List.append_cancel_right (hlist.symm.trans rfl)
          have hmem : ev ∈ new := by
            rw [hone]
            exact List.mem_singleton_self ev
          obtain ⟨req₂, mac₂, -, hquery, hasks₂⟩ := hall ev hmem
          rw [hsends.2.1] at hquery
          cases hquery
          obtain ⟨buf, frame, mss, st, chk, rfl, haddr, -⟩ := hasks
          obtain ⟨buf', frame', mss', st', chk', heq, haddr', -⟩ := hasks₂
          cases heq
          exact haddr.mac.symm.trans haddr'.mac
      · exact {
          distinct := hsole'.distinct
          detached := fun i h => by cases h
          replied := fun hdr h => by cases h
          moved := by
            intro _ j r r' hr hr' hresponse
            rw [Icmpv4.Processor.request?_setRequest hreq] at hr'
            split at hr'
            · cases hr'
              exact absurd hresponse hstate
            · rw [hr] at hr'
              cases hr'
              exact hresponse
          sent := by
            intro i' dst' heq
            cases heq
            rcases hframes with ⟨hcommits, -⟩ | ⟨mac, ev, hsends, hcommits, hasks⟩
            · exact ⟨[], hlog.trans hcommits, fun ev hev => by cases hev⟩
            · refine ⟨[ev], hlog.trans hcommits, fun ev' hev => ?_⟩
              rw [List.mem_singleton.mp hev]
              refine ⟨req, mac, hreq, hsends.2.1, ?_⟩
              rw [← hroutable req mac hreq hsends]
              exact hasks }

/-- Only the condition makes a step do what is asked of it, and it keeps what the
other steps rely on. -/
theorem exec_routes {op : Op} (hsole : s.icmp.Sole) (h : exec env op s = .ok () s') :
    (Routable env s op → s'.icmp.Sole) ∧ (Routes env s op s' ↔ Routable env s op) := by
  have hother : s'.icmp = s.icmp → op.reply env = none → (∀ i dst, op ≠ .ping i dst) →
      Routable env s op →
      (Routable env s op → s'.icmp.Sole) ∧ (Routes env s op s' ↔ Routable env s op) := by
    intro hkept hreply hping hroutable
    refine ⟨fun _ => ?_, fun _ => hroutable, fun _ => routes_of_kept hsole hkept hreply hping⟩
    rw [hkept]
    exact hsole
  cases op with
  | tcp op => exact hother (onTcp_icmp h) rfl nofun nofun
  | frame len data =>
      obtain ⟨hsole', hiff⟩ := frame_routes hsole h
      exact ⟨fun _ => hsole', hiff⟩
  | run arpExpired tcpExpired =>
      obtain ⟨ret, _, hrun, hrest⟩ := Program.bind_eq_ok.mp h
      cases hrest
      obtain ⟨_, u, harp, htcp⟩ := Program.bind_eq_ok.mp hrun
      have hkept : u.icmp = s.icmp := by
        rcases Program.when_eq_ok.mp harp with ⟨-, hupdate⟩ | ⟨-, rfl⟩
        · cases hupdate
          rfl
        · rfl
      exact hother ((onTcp_icmp htcp).trans hkept) rfl nofun nofun
  | discover dst =>
      obtain ⟨_, _, hget, h⟩ := Program.bind_eq_ok.mp h
      cases hget
      obtain ⟨ret, _, hrun, hrest⟩ := Program.bind_eq_ok.mp h
      cases hrest
      exact hother (world_icmp hrun) rfl nofun nofun
  | attach => exact attach_routes hsole h
  | detach i =>
      obtain ⟨hsole', hroutes⟩ := detach_routes hsole h
      exact ⟨fun _ => hsole', fun _ => nofun, fun _ => hroutes⟩
  | ping i dst =>
      obtain ⟨hsole', hiff⟩ := ping_routes hsole h
      exact ⟨fun _ => hsole', hiff⟩

/-! ## Runs -/

/-- Reached by steps that all meet a condition on what they find. -/
inductive ReachableBy (env : Net D H) (good : Host D H n → Op → Prop) : Host D H n → Prop
  | initial (dev : D) (hdl : H) : ReachableBy env good (initial n dev hdl)
  | exec {s s' : Host D H n} (op : Op) (hs : ReachableBy env good s) (hgood : good s op)
      (hop : exec env op s = .ok () s') : ReachableBy env good s'

theorem ReachableBy.sole (h : ReachableBy env (Routable env) s) : s.icmp.Sole := by
  induction h with
  | initial dev hdl => exact Icmpv4.Processor.initial_sole
  | exec op hs hgood hop ih => exact (exec_routes ih hop).1 hgood

/-- In a run whose steps all meet the condition the live requests have identifiers of
their own, and the next step treats the requests and their frames as it should exactly
if it meets the condition as well. -/
theorem routes_iff (hs : ReachableBy env (Routable env) s) :
    s.icmp.Distinct ∧ ∀ op s', exec env op s = .ok () s' →
      (Routes env s op s' ↔ Routable env s op) :=
  ⟨hs.sole.distinct, fun _ _ hop => (exec_routes hs.sole hop).2⟩

section Answered

open Tcpv4.Testbed

def peerMac : Ethernet.Address := ⟨#v[2, 0, 0, 0, 0, 2]⟩

/-- A frame of the peer with the given payload. -/
def frameFrom (type : UInt16) (payload : List UInt8) : Op :=
  .frame 1500 fun i => (Ethernet.headerBytes .zero peerMac type ++ payload).getD i 0

/-- The peer asks for the hardware address of the host. -/
def whoHas : Op :=
  frameFrom Ethernet.ethtypeArp (Arp.Header.bytes ⟨htons Arp.hwtypeEth, htons Ethernet.ethtypeIp,
    6, 4, htons Arp.request, peerMac, peer, .zero, Tcpv4.Testbed.env.hostIp⟩)

/-- The peer answers the first request of the host. -/
def answer : Op :=
  frameFrom Ethernet.ethtypeIp ([0x45, 0] ++ store16 (htons 28) ++
    [0, 0, 0, 0, Ipv4.ttl, Ipv4.protoIcmp, 0, 0] ++ peer.bytes ++
    Tcpv4.Testbed.env.hostIp.bytes ++ Header.bytes ⟨echoReply, 0, 0, 1, 1⟩)

/-- A request is attached, the address of the peer learnt, the request invoked, and its
reply received. -/
theorem routes_iff_answered : ∃ s : Host Script Answers 1,
    (s.icmp.request? 0).map Request.state = some .response ∧ s.icmp.Distinct ∧
      ∀ op s', exec (net device) op s = .ok () s' →
        (Routes (net device) s op s' ↔ Routable (net device) s op) := by
  let first : Host Script Answers 1 := initial 1 .empty []
  let s₁ : Host Script Answers 1 := { first with icmp := first.icmp.attach.1 }
  have hquiet : whoHas.reply (net device) = none := by decide +kernel
  have hrun : Program.Passes (exec (net device) whoHas) s₁ fun _ s₂ =>
    (s₂.arp.query (net device) peer = some peerMac ∧ s₂.w.ethto.destAddress = peerMac) ∧
    Program.Passes (exec (net device) (.ping 0 peer)) s₂ fun _ s₃ =>
    (answer.reply (net device) = some ⟨echoReply, 0, 0, 1, 1⟩ ∧ s₃.icmp.heap.length = 1 ∧
      (s₃.icmp.request? 0).map Request.seq = some 1) ∧
    Program.Passes (exec (net device) answer) s₃ fun _ s₄ =>
      (s₄.icmp.request? 0).map Request.state = some .response := by decide +kernel
  obtain ⟨_, s₂, h₂, ⟨hknown, hset⟩, hrun⟩ := hrun.exists
  obtain ⟨_, s₃, h₃, ⟨hreply, hsingle, hseq⟩, hrun⟩ := hrun.exists
  obtain ⟨_, s₄, h₄, hresponse⟩ := hrun.exists
  have hs₁ : ReachableBy (net device) (Routable (net device)) s₁ :=
    .exec .attach (.initial _ _) (fun _ => rfl) rfl
  have hs₂ : ReachableBy (net device) (Routable (net device)) s₂ := by
    refine hs₁.exec whoHas (fun hdr h => ?_) h₂
    rw [hquiet] at h
    cases h
  have hs₃ : ReachableBy (net device) (Routable (net device)) s₃ := by
    refine hs₂.exec (.ping 0 peer) (fun req mac _ hsends => ?_) h₃
    rw [hset]
    exact Option.some_inj.mp (hknown.symm.trans hsends.2.1)
  have hs₄ : ReachableBy (net device) (Routable (net device)) s₄ := by
    refine hs₃.exec answer (fun hdr h j req hj _ _ => ?_) h₄
    rw [hreply] at h
    cases h
    -- There is no other request than the first.
    have hlt : j < s₃.icmp.heap.length := by
      by_contra hge
      rw [Icmpv4.Processor.request?, List.getElem?_eq_none (not_lt.mp hge)] at hj
      cases hj
    have hfirst : j = 0 := by omega
    rw [hfirst] at hj
    rw [hj] at hseq
    exact Option.some_inj.mp hseq
  exact ⟨s₄, hresponse, routes_iff hs₄⟩

end Answered

/-- The second request of a host has the identifier of the first one. -/
theorem not_routes : ¬ ∀ (D H : Type) (n : Nat) (env : Net D H) (first : D) (s : Host D H n),
    Reachable env first s →
    s.icmp.Distinct ∧ ∀ op s', exec env op s = .ok () s' → Routes env s op s' := by
  intro hall
  obtain ⟨s, hs, hfirst, hsecond⟩ := Tcpv4.Testbed.reachesHost 1 Tcpv4.Testbed.device .empty []
    [.attach, .attach] (fun s => (s.icmp.request? 0).map Request.id = some 1 ∧
      (s.icmp.request? 1).map Request.id = some 1) (by decide) (by decide +kernel)
  obtain ⟨r, hr, hid⟩ := Option.map_eq_some_iff.mp hfirst
  obtain ⟨r', hr', hid'⟩ := Option.map_eq_some_iff.mp hsecond
  have hsame := (hall _ _ 1 _ _ s hs).1 0 1 r r' hr hr' (hid.trans hid'.symm)
  cases hsame

end Step

end Host

end Tulips
