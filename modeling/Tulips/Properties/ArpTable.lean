import Tulips.Lib.KeyedSlots
import Tulips.Machine.Testbed

/-!
# What ARP translates

A translation that is found was told to this host, by the last message about its
address. An unused entry has the empty address, and is found under it.
-/

namespace Tulips.Arp

open Tcpv4 (World WorldProgram)
open KeyedSlots

variable {D H : Type} {env : Net D H}

/-! ## Messages -/

/-- The translation an ARP message to this host carries. -/
def told (env : Net D H) (len : UInt16) (data : Bytes) :
    Option (Ipv4.Address × Ethernet.Address) :=
  let hdr := Header.load data
  if ¬len < UInt16.ofNat headerLen ∧
      (ntohs hdr.opcode = request ∨ ntohs hdr.opcode = reply) ∧ hdr.dipaddr = env.hostIp then
    some (hdr.sipaddr, hdr.shwaddr)
  else none

/-- A message to this host. It is refused when its processing fails, and lost
when the table had another translation of its address then. -/
structure Message where
  ipaddr : Ipv4.Address
  ethaddr : Ethernet.Address
  refused : Bool
  lost : Bool

/-- The address an entry translates, unless it is unused. -/
def Entry.key (e : Entry) : Option Ipv4.Address := if e.ipaddr.empty then none else some e.ipaddr

namespace Processor

/-- The table translates an address to something else. -/
def Differs (arp : Processor) (ipaddr : Ipv4.Address) (ethaddr : Ethernet.Address) : Prop :=
  ∃ e ∈ arp.table, e.key = some ipaddr ∧ e.ethaddr ≠ ethaddr

instance (arp : Processor) (ipaddr : Ipv4.Address) (ethaddr : Ethernet.Address) :
    Decidable (arp.Differs ipaddr ethaddr) :=
  inferInstanceAs (Decidable (∃ e ∈ arp.table, _ ∧ _))

/-- The messages the host has got after another one, which was answered with a
status. -/
def hears (env : Net D H) (arp : Processor) (len : UInt16) (data : Bytes) (ret : Status)
    (h : List Message) : List Message :=
  match told env len data with
  | none => h
  | some (ipaddr, ethaddr) =>
      ⟨ipaddr, ethaddr, decide (ret ≠ .ok), decide (ret ≠ .ok ∧ arp.Differs ipaddr ethaddr)⟩ :: h

/-- The processor is reached by timer ticks, received frames and discoveries, in
any state of the world, with the messages it has got so far, latest first. -/
inductive Reached (env : Net D H) : List Message → Processor → Prop
  | initial : Reached env [] .initial
  | run {h : List Message} {arp : Processor} (expired : Bool) (hrun : Reached env h arp) :
      Reached env h (arp.run expired)
  | process {h : List Message} {arp arp' : Processor} {len : UInt16} {data : Bytes} {ret : Status}
      {w w' : World D H} (hrun : Reached env h arp)
      (hstep : process env arp len data w = .ok (ret, arp') w') :
      Reached env (arp.hears env len data ret h) arp'
  | discover {h : List Message} {arp : Processor} {destipaddr : Ipv4.Address} {ret : Status}
      {w w' : World D H} (hrun : Reached env h arp)
      (hstep : discover env arp destipaddr w = .ok ret w') : Reached env h arp

/-- A translation is found for the broadcast address only, or for an address with
an entry, as the last of the messages has told. -/
def Sound (env : Net D H) (h : List Message) (arp : Processor) (destipaddr : Ipv4.Address) :
    Prop :=
  ∀ ethaddr, arp.query env destipaddr = some ethaddr →
    (destipaddr = .broadcast ∧ ethaddr = .broadcast) ∨
      (∃ e ∈ arp.table, e.key = some (hopAddress env destipaddr) ∧ e.ethaddr = ethaddr) ∧
        ∃ m, h.find? (·.ipaddr == hopAddress env destipaddr) = some m ∧ m.ethaddr = ethaddr

/-! ## Steps -/

/-- A message is taken in just when it is for this host and not refused. -/
theorem process_cases {arp arp' : Processor} {len : UInt16} {data : Bytes} {ret : Status}
    {w w' : World D H} (h : process env arp len data w = .ok (ret, arp') w') :
    (told env len data = none ∧ arp' = arp) ∨
      ∃ ipaddr ethaddr, told env len data = some (ipaddr, ethaddr) ∧
        ((ret = .ok ∧ arp' = arp.update ipaddr ethaddr) ∨ (ret ≠ .ok ∧ arp' = arp)) := by
  unfold process at h
  unfold told
  dsimp only at h ⊢
  by_cases hlen : len < UInt16.ofNat headerLen
  · rw [if_pos hlen] at h
    cases h
    exact .inl ⟨if_neg fun hand => hand.1 hlen, rfl⟩
  rw [if_neg hlen] at h
  by_cases hrequest : ntohs (Header.load data).opcode = request
  · rw [if_pos hrequest] at h
    by_cases hhost : (Header.load data).dipaddr = env.hostIp
    · refine .inr ⟨_, _, if_pos ⟨hlen, .inl hrequest, hhost⟩, ?_⟩
      rw [if_neg (not_not_intro hhost)] at h
      obtain ⟨result, w₁, -, h⟩ := Program.bind_eq_ok.mp h
      cases result with
      | error ret' =>
          cases h
          exact .inr ⟨ret'.property, rfl⟩
      | ok =>
          cases h
          exact .inl ⟨rfl, rfl⟩
    · rw [if_pos hhost] at h
      cases h
      exact .inl ⟨if_neg fun hand => hhost hand.2.2, rfl⟩
  rw [if_neg hrequest] at h
  by_cases hreply : ntohs (Header.load data).opcode = reply
  · rw [if_pos hreply] at h
    by_cases hhost : (Header.load data).dipaddr = env.hostIp
    · refine .inr ⟨_, _, if_pos ⟨hlen, .inr hreply, hhost⟩, ?_⟩
      rw [if_neg (not_not_intro hhost)] at h
      cases h
      exact .inl ⟨rfl, rfl⟩
    · rw [if_pos hhost] at h
      cases h
      exact .inl ⟨if_neg fun hand => hhost hand.2.2, rfl⟩
  · rw [if_neg hreply] at h
    cases h
    exact .inl ⟨if_neg fun hand => hand.2.1.elim hrequest hreply, rfl⟩

theorem key_iff (e : Entry) (ipaddr : Ipv4.Address) :
    e.key = some ipaddr ↔ (!e.ipaddr.empty && ipaddr == e.ipaddr) = true := by
  rw [Entry.key]
  cases hempty : e.ipaddr.empty with
  | true => simp
  | false =>
      rw [if_neg Bool.false_ne_true, Option.some_inj, Bool.not_false, Bool.true_and, beq_iff_eq,
        eq_comm]

/-- The slot of an update is the one of its address, or no slot has it. -/
theorem slotFor_cases (arp : Processor) (ipaddr : Ipv4.Address) :
    (∃ i e, arp.slotFor ipaddr = some i ∧ arp.table[i]? = some e ∧ e.key = some ipaddr) ∨
      ∀ e ∈ arp.table, e.key ≠ some ipaddr := by
  unfold slotFor
  cases hfind : arp.table.findIdx? fun e => !e.ipaddr.empty && ipaddr == e.ipaddr with
  | none =>
      refine .inr fun e he hkey => ?_
      have hnot := List.findIdx?_eq_none_iff.mp hfind e he
      rw [(key_iff e ipaddr).mp hkey] at hnot
      cases hnot
  | some i =>
      obtain ⟨hlt, hkey, -⟩ := List.findIdx?_eq_some_iff_getElem.mp hfind
      exact .inl ⟨i, _, rfl, List.getElem?_eq_getElem hlt, (key_iff _ ipaddr).mpr hkey⟩

/-- An update keeps the addresses of the entries apart. -/
theorem update_unique {arp : Processor} (h : Unique Entry.key arp.table) (ipaddr : Ipv4.Address)
    (ethaddr : Ethernet.Address) : Unique Entry.key (arp.update ipaddr ethaddr).table := by
  unfold update
  split
  · exact h
  · rename_i i hi
    refine h.set fun j e k hj hkey hnew => ?_
    have hk : k = ipaddr := by
      rw [Entry.key] at hnew
      split_ifs at hnew
      exact (Option.some_inj.mp hnew).symm
    subst hk
    rcases slotFor_cases arp k with ⟨i', e', hi', he', hkey'⟩ | hnone
    · have hii : i = i' := Option.some_inj.mp (hi.symm.trans hi')
      rw [hii]
      exact h j i' e e' k hj he' hkey hkey'
    · exact absurd hkey (hnone e (List.mem_of_getElem? hj))

/-- After an update an entry is the new one, or was there before for another
address. -/
theorem mem_update {arp : Processor} (h : Unique Entry.key arp.table) {ipaddr k : Ipv4.Address}
    {ethaddr : Ethernet.Address} {e : Entry} (he : e ∈ (arp.update ipaddr ethaddr).table)
    (hkey : e.key = some k) :
    (k = ipaddr ∧ e.ethaddr = ethaddr) ∨ (k ≠ ipaddr ∧ e ∈ arp.table) := by
  obtain ⟨j, hj⟩ := List.mem_iff_getElem?.mp he
  rcases slotFor_cases arp ipaddr with ⟨i, e', hi, he', hkey'⟩ | hnone
  · simp only [update, hi] at hj
    rcases getElem?_set_cases hj with ⟨-, rfl⟩ | ⟨hji, hj'⟩
    · rw [Entry.key] at hkey
      split_ifs at hkey
      exact .inl ⟨(Option.some_inj.mp hkey).symm, rfl⟩
    · refine .inr ⟨?_, List.mem_of_getElem? hj'⟩
      rintro rfl
      exact hji (h j i e e' k hj' he' hkey hkey')
  · have hother : ∀ a ∈ arp.table, a.key = some k → k ≠ ipaddr := by
      intro a ha hk heq
      exact hnone a ha (heq ▸ hk)
    unfold update at hj
    split at hj
    · have he' := List.mem_of_getElem? hj
      exact .inr ⟨hother e he' hkey, he'⟩
    · rcases getElem?_set_cases hj with ⟨-, rfl⟩ | ⟨-, hj'⟩
      · rw [Entry.key] at hkey
        split_ifs at hkey
        exact .inl ⟨(Option.some_inj.mp hkey).symm, rfl⟩
      · have he' := List.mem_of_getElem? hj'
        exact .inr ⟨hother e he' hkey, he'⟩

/-- A tick may take entries out of use. -/
theorem key_expire {time : UInt8} {e : Entry} {k : Ipv4.Address}
    (h : (expire time e).key = some k) : expire time e = e := by
  unfold expire at h ⊢
  split_ifs at h ⊢
  · rfl
  · simp [Entry.key, Ipv4.Address.empty] at h
  · rfl

theorem run_unique {arp : Processor} (h : Unique Entry.key arp.table) (expired : Bool) :
    Unique Entry.key (arp.run expired).table := by
  unfold run
  split
  · refine h.map fun e k hkey => ?_
    rwa [key_expire hkey] at hkey
  · exact h

theorem mem_run {arp : Processor} {expired : Bool} {e : Entry} {k : Ipv4.Address}
    (he : e ∈ (arp.run expired).table) (hkey : e.key = some k) : e ∈ arp.table := by
  unfold run at he
  split at he
  · obtain ⟨e', he', rfl⟩ := List.mem_map.mp he
    rwa [key_expire hkey]
  · exact he

/-! ## Runs -/

/-- No two entries are for one address, and each is what the last of the messages
about its address has told. -/
structure Told (h : List Message) (arp : Processor) : Prop where
  unique : Unique Entry.key arp.table
  last : ∀ e ∈ arp.table, ∀ k, e.key = some k →
    ∃ m, h.find? (·.ipaddr == k) = some m ∧ m.ethaddr = e.ethaddr

theorem Told.initial : Told [] .initial := by
  have hnone : ∀ e ∈ Processor.initial.table, Entry.key e = none := by
    intro e he
    rw [List.eq_of_mem_replicate he]
    rfl
  constructor
  · intro i j a b k hi hj hak hbk
    rw [hnone a (List.mem_of_getElem? hi)] at hak
    cases hak
  · intro e he k hkey
    rw [hnone e he] at hkey
    cases hkey

theorem Told.run {h : List Message} {arp : Processor} (htold : Told h arp) (expired : Bool) :
    Told h (arp.run expired) where
  unique := run_unique htold.unique expired
  last e he k hkey := htold.last e (mem_run he hkey) k hkey

/-- A message about another address does not matter. -/
theorem find?_cons_of_ne {h : List Message} {m : Message} {k : Ipv4.Address} (hne : k ≠ m.ipaddr) :
    (m :: h).find? (·.ipaddr == k) = h.find? (·.ipaddr == k) :=
  List.find?_cons_of_neg (by simpa using Ne.symm hne)

theorem find?_cons_self {h : List Message} {m : Message} :
    (m :: h).find? (·.ipaddr == m.ipaddr) = some m :=
  List.find?_cons_of_pos (by simp)

/-- A message that is taken in is the last one about its address. -/
theorem Told.update {h : List Message} {arp : Processor} (htold : Told h arp) (m : Message) :
    Told (m :: h) (arp.update m.ipaddr m.ethaddr) where
  unique := update_unique htold.unique m.ipaddr m.ethaddr
  last e he k hkey := by
    rcases mem_update htold.unique he hkey with ⟨rfl, heth⟩ | ⟨hne, he'⟩
    · exact ⟨m, find?_cons_self, heth.symm⟩
    · rw [find?_cons_of_ne hne]
      exact htold.last e he' k hkey

/-- A message may be missed that says what the table says. -/
theorem Told.missed {h : List Message} {arp : Processor} (htold : Told h arp) {m : Message}
    (hsame : ¬arp.Differs m.ipaddr m.ethaddr) : Told (m :: h) arp where
  unique := htold.unique
  last e he k hkey := by
    by_cases hk : k = m.ipaddr
    · subst hk
      refine ⟨m, find?_cons_self, ?_⟩
      by_contra hne
      exact hsame ⟨e, he, hkey, Ne.symm hne⟩
    · rw [find?_cons_of_ne hk]
      exact htold.last e he k hkey

/-- The messages that were not refused. -/
def learned (h : List Message) : List Message := h.filter (!·.refused)

theorem learned_of_refused {h : List Message} {m : Message} (hm : m.refused = true) :
    learned (m :: h) = learned h :=
  List.filter_cons_of_neg (by simp [hm])

/-- The table holds what was learned last, which is what was told last as long as
no message is lost. -/
theorem Reached.told {h : List Message} {arp : Processor} (hrun : Reached env h arp) :
    Told (learned h) arp ∧ ((∀ m ∈ h, m.lost = false) → Told h arp) := by
  induction hrun with
  | initial => exact ⟨.initial, fun _ => .initial⟩
  | run expired _ ih => exact ⟨ih.1.run expired, fun hlost => (ih.2 hlost).run expired⟩
  | discover _ _ ih => exact ih
  | process _ hstep ih =>
      obtain ⟨hlearned, htold⟩ := ih
      rcases process_cases hstep with
        ⟨hnone, rfl⟩ | ⟨ipaddr, ethaddr, hsome, ⟨rfl, rfl⟩ | ⟨hret, rfl⟩⟩
      · rw [hears, hnone]
        exact ⟨hlearned, htold⟩
      · rw [hears, hsome]
        refine ⟨hlearned.update ⟨ipaddr, ethaddr, false, _⟩, fun hlost => ?_⟩
        exact (htold fun m hm => hlost m (List.mem_cons_of_mem _ hm)).update ⟨ipaddr, ethaddr, _, _⟩
      · rw [hears, hsome]
        refine ⟨?_, fun hlost => ?_⟩
        · rw [learned_of_refused (decide_eq_true hret)]
          exact hlearned
        · have hkept := hlost _ List.mem_cons_self
          refine (htold fun m hm => hlost m (List.mem_cons_of_mem _ hm)).missed fun hdiffers => ?_
          simp [hret, hdiffers] at hkept

/-- The destination is the broadcast address, or its hop has an address, or no
entry is unused. -/
def Resolvable (env : Net D H) (arp : Processor) (destipaddr : Ipv4.Address) : Prop :=
  destipaddr = .broadcast ∨ (hopAddress env destipaddr).empty = false ∨
    ∀ e ∈ arp.table, e.ipaddr.empty = false

theorem Told.sound_iff {h : List Message} {arp : Processor} (htold : Told h arp)
    (env : Net D H) (destipaddr : Ipv4.Address) :
    Sound env h arp destipaddr ↔ Resolvable env arp destipaddr := by
  by_cases hbroadcast : destipaddr = .broadcast
  · refine ⟨fun _ => .inl hbroadcast, fun _ ethaddr hquery => .inl ⟨hbroadcast, ?_⟩⟩
    rw [query, if_pos hbroadcast] at hquery
    exact (Option.some_inj.mp hquery).symm
  have hlookup : arp.query env destipaddr =
      (arp.table.find? (·.ipaddr == hopAddress env destipaddr)).map Entry.ethaddr := by
    rw [query, if_neg hbroadcast]
  constructor
  · intro hsound
    by_contra hnot
    simp only [Resolvable, not_or, Bool.not_eq_false, not_forall] at hnot
    obtain ⟨-, hhop, e, he, hempty⟩ := hnot
    -- An unused entry is found under the empty address.
    have haddr : ∀ a : Ipv4.Address, a.empty = true → a = ⟨0⟩ := by
      intro a ha
      rw [← eq_of_beq ha]
    have hsame : (e.ipaddr == hopAddress env destipaddr) = true := by
      rw [haddr _ hhop, haddr _ hempty]
      rfl
    have hfound : (arp.table.find? (·.ipaddr == hopAddress env destipaddr)).isSome = true :=
      List.find?_isSome.mpr ⟨e, he, hsame⟩
    obtain ⟨e', he'⟩ := Option.isSome_iff_exists.mp hfound
    rw [he'] at hlookup
    rcases hsound _ hlookup with ⟨hdest, -⟩ | ⟨⟨e'', -, hkey, -⟩, -⟩
    · exact hbroadcast hdest
    · rw [Entry.key] at hkey
      split_ifs at hkey with hused
      rw [Option.some_inj.mp hkey] at hused
      exact hused hhop
  · intro hresolvable ethaddr hquery
    rw [hlookup] at hquery
    obtain ⟨e, hfind, rfl⟩ := Option.map_eq_some_iff.mp hquery
    have he := List.mem_of_find?_eq_some hfind
    have haddr : e.ipaddr = hopAddress env destipaddr :=
      eq_of_beq (List.find?_some (p := fun a : Entry => a.ipaddr == _) hfind)
    have hused : e.ipaddr.empty = false := by
      rcases hresolvable with hdest | hhop | hall
      · exact absurd hdest hbroadcast
      · rw [haddr]
        exact hhop
      · exact hall e he
    have hkey : e.key = some (hopAddress env destipaddr) := by
      rw [Entry.key, hused, haddr]
      rfl
    exact .inr ⟨⟨e, he, hkey, rfl⟩, htold.last e he _ hkey⟩

/-- In every reached state: no address has two entries, and what a query returns
was learned, as the last of the messages that were not refused has told, just when
the destination is the broadcast address, or its hop has an address, or no entry
is unused. As long as no message is lost that is the last message to this host. -/
theorem query_sound {h : List Message} {arp : Processor} (hrun : Reached env h arp)
    (destipaddr : Ipv4.Address) : Unique Entry.key arp.table ∧
      (Sound env (learned h) arp destipaddr ↔ Resolvable env arp destipaddr) ∧
      ((∀ m ∈ h, m.lost = false) →
        (Sound env h arp destipaddr ↔ Resolvable env arp destipaddr)) := by
  obtain ⟨hlearned, htold⟩ := hrun.told
  exact ⟨hlearned.unique, hlearned.sound_iff env destipaddr,
    fun hlost => (htold hlost).sound_iff env destipaddr⟩

/-- A network of 24 bits without a default router. -/
def subnet : Net Tcpv4.Testbed.Script Tcpv4.Testbed.Answers :=
  { Tcpv4.Testbed.net Tcpv4.Testbed.device with netMask := ⟨0x00ffffff⟩ }

/-- The reply of a neighbour. -/
def neighbour : Header where
  hwtype := htons hwtypeEth
  protocol := htons Ethernet.ethtypeIp
  hwlen := 6
  protolen := 4
  opcode := htons reply
  shwaddr := .broadcast
  sipaddr := ⟨0x02000001⟩
  dhwaddr := .zero
  dipaddr := subnet.hostIp

/-- A neighbour has replied. -/
theorem query_sound_neighbour :
    let data : Bytes := fun i => neighbour.bytes.getD i 0
    let arp := initial.update neighbour.sipaddr neighbour.shwaddr
    let h := initial.hears subnet 28 data .ok []
    Unique Entry.key arp.table ∧
      (Sound subnet (learned h) arp neighbour.sipaddr ↔
        Resolvable subnet arp neighbour.sipaddr) ∧
      ((∀ m ∈ h, m.lost = false) → (Sound subnet h arp neighbour.sipaddr ↔
        Resolvable subnet arp neighbour.sipaddr)) :=
  query_sound (.process (w := .initial Tcpv4.Testbed.Script.empty []) .initial rfl)
    neighbour.sipaddr

/-- A destination outside the network is translated before anything was heard. -/
theorem not_query_sound : ¬ ∀ (D H : Type) (env : Net D H) (h : List Message) (arp : Processor),
    Reached env h arp → ∀ destipaddr, Sound env h arp destipaddr := by
  intro hall
  have hsound := hall _ _ subnet [] initial .initial ⟨0x08080808⟩ .zero (by decide)
  rcases hsound with ⟨hdest, -⟩ | ⟨-, m, hm, -⟩
  · exact absurd hdest (by decide)
  · cases hm

end Processor

end Tulips.Arp
