import Tulips.Stack.Checksums
import Tulips.Machine.Frames
import Tulips.Machine.Testbed

/-!
# The options of a SYN

An option is its kind, its length and its value, and the area of the options is
read from left to right. The parser only checks that the kind of an option is
inside the area, and takes the window over once for every scale it finds.
-/

namespace Tulips.Tcpv4.Options

/-! ## The options of an area -/

/-- An option, as far as it is in the area. -/
structure Element where
  kind : UInt8
  length : Option UInt8
  value : List UInt8

/-- The options of an area. An option takes as many bytes as its length says; one
of length zero, or without a length, is the last. -/
def elements : Nat → List UInt8 → List Element
  | 0, _ => []
  | _ + 1, [] => []
  | fuel + 1, kind :: rest =>
      if kind = optEnd then []
      else if kind = optNoop then elements fuel rest
      else
        let length := rest.head?.getD 0
        ⟨kind, rest.head?, rest.tail.take (length.toNat - 2)⟩ ::
          if length = 0 then [] else elements fuel ((kind :: rest).drop length.toNat)

namespace Element

def isMss (el : Element) : Prop := el.kind = optMss ∧ el.length = some optMssLen

def isWsc (el : Element) : Prop := el.kind = optWsc ∧ el.length = some optWscLen

instance (el : Element) : Decidable el.isMss := inferInstanceAs (Decidable (_ ∧ _))

instance (el : Element) : Decidable el.isWsc := inferInstanceAs (Decidable (_ ∧ _))

/-- The value of a well-formed MSS option. -/
def mss? (el : Element) : Option UInt16 :=
  if el.isMss then
    match el.value with
    | [hi, lo] => some (UInt16.ofNat (hi.toNat * 256 + lo.toNat))
    | _ => none
  else none

/-- The scale of a well-formed window-scale option. -/
def scale? (el : Element) : Option UInt8 :=
  if el.isWsc then
    match el.value with
    | [wsc] => some (if wsc > 14 then 14 else wsc)
    | _ => none
  else none

/-- The length of the option is in the area, and so is the value if it is read. -/
structure Whole (el : Element) : Prop where
  length : el.length ≠ none
  mss : el.isMss → el.value.length = 2
  wsc : el.isWsc → el.value.length = 1

instance (el : Element) : Decidable el.Whole :=
  decidable_of_iff (el.length ≠ none ∧ (el.isMss → el.value.length = 2) ∧
      (el.isWsc → el.value.length = 1))
    ⟨fun h => ⟨h.1, h.2.1, h.2.2⟩, fun h => ⟨h.length, h.mss, h.wsc⟩⟩

end Element

/-- What the options of an area say about the terms of a connection. -/
def meant (e : Connection) (els : List Element) : Connection :=
  { e with
    initialmss := (els.filterMap Element.mss?).foldl min e.initialmss
    wndscl := (els.filterMap Element.scale?).getLast?.getD e.wndscl
    wnd := match (els.filterMap Element.scale?).getLast? with
      | none => e.wnd
      | some scale => e.wnd >>> scale.toUInt16 }

/-- The window does not change if it is shifted by all scales instead of the last one. -/
def ShiftsOnce (e : Connection) (els : List Element) : Prop :=
  ∀ scale ∈ (els.filterMap Element.scale?).getLast?, e.wnd.toNat < 2 ^ scale.toNat ∨
    ∀ other ∈ (els.filterMap Element.scale?).dropLast, other = 0

instance (e : Connection) (els : List Element) : Decidable (ShiftsOnce e els) :=
  have : Decidable (∀ other ∈ (els.filterMap Element.scale?).dropLast, other = 0) :=
    List.decidableBAll _ _
  match h : (els.filterMap Element.scale?).getLast? with
  | none => isTrue (by simp [ShiftsOnce, h])
  | some scale =>
      decidable_of_iff (e.wnd.toNat < 2 ^ scale.toNat ∨
        ∀ other ∈ (els.filterMap Element.scale?).dropLast, other = 0) (by simp [ShiftsOnce, h])

/-! ## The loop -/

/-- The body of the loop of `Options::parse`, with the place where it goes on. -/
def round (options : Bytes) (len : Nat) (x : Nat × Connection) : Option (Nat × Connection) :=
  if len ≤ x.1 then none
  else if options x.1 = optEnd then none
  else if options x.1 = optNoop then some (x.1 + 1, x.2)
  else if options x.1 = optMss ∧ options (x.1 + 1) = optMssLen then
    some (x.1 + 4, applyMss x.2 (ntohs (load16 options (x.1 + 2))))
  else if options x.1 = optWsc ∧ options (x.1 + 1) = optWscLen then
    some (x.1 + 3, applyWsc x.2 (options (x.1 + 2)))
  else if options (x.1 + 1) = 0 then none
  else if 40 ≤ x.1 + (options (x.1 + 1)).toNat then none
  else some (x.1 + (options (x.1 + 1)).toNat, x.2)

/-- The given number of rounds, unless the loop ends before. -/
def rounds (options : Bytes) (len : Nat) : Nat → Nat × Connection → Option (Nat × Connection)
  | 0, x => some x
  | k + 1, x => (round options len x).bind (rounds options len k)

/-- The bytes behind the header. -/
def behind (data : Bytes) : Bytes := fun i => data (headerLen + i)

/-- The options of a segment. -/
def elementsOf (len : UInt16) (data : Bytes) : List Element :=
  elements len.toNat ((List.range len.toNat).map (behind data))

/-- The loop ends, with the result of the parser, reads no byte behind the area, and
takes over what it says. -/
structure Sound (e : Connection) (len : UInt16) (data : Bytes) : Prop where
  ends : ∃ k c, rounds (behind data) len.toNat k (0, e) = some (c, parse e len data) ∧
    round (behind data) len.toNat (c, parse e len data) = none
  inside : extentFrom (behind data) len.toNat len.toNat 0 ≤ len.toNat
  meaning : parse e len data = meant e (elementsOf len data)

variable {options : Bytes} {len : Nat}

theorem toNat_pos {b : UInt8} (h : b ≠ 0) : 0 < b.toNat := by
  apply Nat.pos_of_ne_zero
  intro hzero
  exact h (UInt8.toNat_inj.mp hzero)

theorem round_advances {x y : Nat × Connection} (h : round options len x = some y) :
    x.1 < y.1 := by
  unfold round at h
  repeat' split at h
  all_goals
    cases h
  · simp
  · simp
  · simp
  · next hne _ => exact Nat.lt_add_of_pos_right (toNat_pos hne)

theorem parseFrom_succ (fuel : Nat) (x : Nat × Connection) :
    parseFrom options len (fuel + 1) x.1 x.2 =
      match round options len x with
      | none => x.2
      | some y => parseFrom options len fuel y.1 y.2 := by
  unfold round
  rw [parseFrom]
  split_ifs <;> rfl

/-- As many rounds as there are bytes left reach the end of the loop. -/
theorem rounds_end (fuel : Nat) (x : Nat × Connection) (h : len ≤ x.1 + fuel) :
    ∃ k c, rounds options len k x = some (c, parseFrom options len fuel x.1 x.2) ∧
      round options len (c, parseFrom options len fuel x.1 x.2) = none := by
  induction fuel generalizing x with
  | zero => exact ⟨0, x.1, rfl, if_pos h⟩
  | succ fuel ih =>
      rw [parseFrom_succ]
      cases hround : round options len x with
      | none => exact ⟨0, x.1, rfl, hround⟩
      | some y =>
          have hadvances := round_advances hround
          obtain ⟨k, c, hk, hend⟩ := ih y (by omega)
          refine ⟨k + 1, c, ?_, hend⟩
          rw [rounds, hround]
          exact hk

/-! ## Reading inside the area -/

/-- The bytes of the area from an offset on. -/
def area (options : Bytes) (len c : Nat) : List UInt8 :=
  (List.range' c (len - c)).map options

theorem area_zero : area options len 0 = (List.range len).map options := by
  rw [area, Nat.sub_zero, List.range_eq_range']

theorem area_of_le {c : Nat} (h : len ≤ c) : area options len c = [] := by
  rw [area, Nat.sub_eq_zero_of_le h]
  rfl

theorem area_cons {c : Nat} (h : c < len) :
    area options len c = options c :: area options len (c + 1) := by
  have hlen : len - c = len - (c + 1) + 1 := by omega
  rw [area, hlen, List.range'_succ]
  rfl

theorem drop_area (c k : Nat) : (area options len c).drop k = area options len (c + k) := by
  rw [area, area, ← List.map_drop, List.drop_range']
  congr 2 <;> omega

theorem length_take_area (c k : Nat) : ((area options len c).take k).length = min k (len - c) := by
  rw [area, List.length_take, List.length_map, List.length_range']

section Elements

variable {fuel c : Nat}

theorem elements_nil : elements fuel [] = [] := by
  cases fuel <;> rfl

theorem elements_end (hc : c < len) (hkind : options c = optEnd) :
    elements (fuel + 1) (area options len c) = [] := by
  rw [area_cons hc, elements, if_pos hkind]

theorem elements_noop (hc : c < len) (hend : options c ≠ optEnd) (hkind : options c = optNoop) :
    elements (fuel + 1) (area options len c) = elements fuel (area options len (c + 1)) := by
  rw [area_cons hc, elements, if_neg hend, if_pos hkind]

/-- The length of the last option is outside. -/
theorem elements_cut (hc : c + 1 = len) (hend : options c ≠ optEnd)
    (hnoop : options c ≠ optNoop) :
    elements (fuel + 1) (area options len c) = [⟨options c, none, []⟩] := by
  rw [area_cons (by omega), area_of_le (by omega), elements, if_neg hend, if_neg hnoop]
  rfl

/-- The option at an offset of the area. -/
def elementAt (options : Bytes) (len c : Nat) : Element where
  kind := options c
  length := some (options (c + 1))
  value := (area options len (c + 2)).take ((options (c + 1)).toNat - 2)

theorem elements_cons (hc : c + 1 < len) (hend : options c ≠ optEnd)
    (hnoop : options c ≠ optNoop) :
    elements (fuel + 1) (area options len c) = elementAt options len c ::
      if options (c + 1) = 0 then []
      else elements fuel (area options len (c + (options (c + 1)).toNat)) := by
  have hrest : area options len (c + 1) = options (c + 1) :: area options len (c + 2) :=
    area_cons hc
  rw [← drop_area, area_cons (by omega), elements, if_neg hend, if_neg hnoop, hrest]
  rfl

theorem isMss_elementAt : (elementAt options len c).isMss ↔
    options c = optMss ∧ options (c + 1) = optMssLen := by
  simp [Element.isMss, elementAt]

theorem isWsc_elementAt : (elementAt options len c).isWsc ↔
    options c = optWsc ∧ options (c + 1) = optWscLen := by
  simp [Element.isWsc, elementAt]

/-- An option whose length is inside is whole if its value is, where it is read. -/
theorem whole_elementAt (hc : c + 1 < len) : (elementAt options len c).Whole ↔
    ((elementAt options len c).isMss → c + 4 ≤ len) ∧
      ((elementAt options len c).isWsc → c + 3 ≤ len) := by
  have hvalue : (elementAt options len c).value.length =
      min ((options (c + 1)).toNat - 2) (len - (c + 2)) := length_take_area _ _
  have hmss : (elementAt options len c).isMss → (options (c + 1)).toNat = 4 := by
    intro h
    rw [(isMss_elementAt.mp h).2]
    rfl
  have hwsc : (elementAt options len c).isWsc → (options (c + 1)).toNat = 3 := by
    intro h
    rw [(isWsc_elementAt.mp h).2]
    rfl
  constructor
  · intro h
    constructor
    · intro hkind
      have := h.mss hkind
      have := hmss hkind
      omega
    · intro hkind
      have := h.wsc hkind
      have := hwsc hkind
      omega
  · rintro ⟨hin, hin'⟩
    refine ⟨by simp [elementAt], fun hkind => ?_, fun hkind => ?_⟩
    · have := hin hkind
      have := hmss hkind
      omega
    · have := hin' hkind
      have := hwsc hkind
      omega

/-- The parser looks at no byte behind the area exactly if every option is whole. -/
theorem extentFrom_le_iff (hlen : len ≤ 40) (fuel c : Nat) (hfuel : len ≤ c + fuel) :
    extentFrom options len fuel c ≤ len ↔
      ∀ el ∈ elements fuel (area options len c), el.Whole := by
  -- The induction follows the loop of the parser, one option at a time.
  induction fuel generalizing c with
  | zero => simp [extentFrom, elements]
  | succ fuel ih =>
      rw [extentFrom]
      by_cases hc : len ≤ c
      · rw [if_pos hc, area_of_le hc]
        simp [elements]
      rw [if_neg hc]
      by_cases hend : options c = optEnd
      · rw [if_pos hend, elements_end (by omega) hend]
        simp
        omega
      rw [if_neg hend]
      by_cases hnoop : options c = optNoop
      · rw [if_pos hnoop, elements_noop (by omega) hend hnoop, ← ih (c + 1) (by omega)]
        omega
      rw [if_neg hnoop]
      by_cases hcut : c + 1 = len
      · -- The length of the option is looked at in every case.
        rw [elements_cut hcut hend hnoop]
        constructor
        · intro h
          split_ifs at h <;> omega
        · intro h
          exact absurd rfl (h _ List.mem_cons_self).length
      rw [elements_cons (by omega) hend hnoop, List.forall_mem_cons,
        whole_elementAt (by omega), isMss_elementAt, isWsc_elementAt]
      by_cases hmss : options c = optMss ∧ options (c + 1) = optMssLen
      · have hL : (options (c + 1)).toNat = 4 := congrArg UInt8.toNat hmss.2
        have hne : options (c + 1) ≠ 0 := by
          rw [hmss.2]
          decide
        rw [if_pos hmss, if_neg hne, hL, ← ih (c + 4) (by omega), imp_iff_right hmss, Nat.max_le]
        constructor
        · rintro ⟨hin, hrest⟩
          exact ⟨⟨hin, fun _ => by omega⟩, hrest⟩
        · rintro ⟨⟨hin, -⟩, hrest⟩
          exact ⟨hin, hrest⟩
      by_cases hwsc : options c = optWsc ∧ options (c + 1) = optWscLen
      · have hL : (options (c + 1)).toNat = 3 := congrArg UInt8.toNat hwsc.2
        have hne : options (c + 1) ≠ 0 := by
          rw [hwsc.2]
          decide
        rw [if_neg hmss, if_pos hwsc, if_neg hne, hL, ← ih (c + 3) (by omega),
          imp_iff_right hwsc, Nat.max_le]
        constructor
        · rintro ⟨hin, hrest⟩
          exact ⟨⟨fun h => absurd h hmss, hin⟩, hrest⟩
        · rintro ⟨⟨-, hin⟩, hrest⟩
          exact ⟨hin, hrest⟩
      -- For any other option only its length is looked at.
      have hvalues : (options c = optMss ∧ options (c + 1) = optMssLen → c + 4 ≤ len) ∧
          (options c = optWsc ∧ options (c + 1) = optWscLen → c + 3 ≤ len) :=
        ⟨fun h => absurd h hmss, fun h => absurd h hwsc⟩
      rw [if_neg hmss, if_neg hwsc, and_iff_right hvalues]
      by_cases hzero : options (c + 1) = 0
      · rw [if_pos (.inl hzero), if_pos hzero]
        simp
        omega
      by_cases hlong : 40 ≤ c + (options (c + 1)).toNat
      · rw [if_pos (.inr hlong), if_neg hzero, area_of_le (by omega), elements_nil]
        simp
        omega
      · have hpos : 0 < (options (c + 1)).toNat := toNat_pos hzero
        rw [if_neg (not_or.mpr ⟨hzero, hlong⟩), if_neg hzero, ← ih _ (by omega)]
        omega

end Elements

/-! ## What the parser takes over -/

/-- What the parser does with a whole option. -/
def taken (e : Connection) (el : Element) : Connection :=
  match el.mss? with
  | some mss => { e with initialmss := min e.initialmss mss }
  | none =>
      match el.scale? with
      | some scale => { e with wndscl := scale, wnd := e.wnd >>> scale.toUInt16 }
      | none => e

section Taken

variable {fuel c : Nat} {e : Connection}

theorem mss?_eq_none {el : Element} (h : ¬el.isMss) : el.mss? = none := if_neg h

theorem scale?_eq_none {el : Element} (h : ¬el.isWsc) : el.scale? = none := if_neg h

theorem not_isMss_of_isWsc {el : Element} (h : el.isWsc) : ¬el.isMss := by
  rintro ⟨hkind, -⟩
  rw [h.1] at hkind
  cases hkind

theorem taken_mss (h : (elementAt options len c).isMss) (hin : c + 4 ≤ len) :
    taken e (elementAt options len c) = applyMss e (ntohs (load16 options (c + 2))) := by
  have hvalue : (elementAt options len c).value = [options (c + 2), options (c + 3)] := by
    have hL : (options (c + 1)).toNat - 2 = 2 := by
      rw [(isMss_elementAt.mp h).2]
      rfl
    have harea : area options len (c + 2) =
        options (c + 2) :: options (c + 3) :: area options len (c + 4) := by
      rw [area_cons (by omega), area_cons (by omega)]
    rw [elementAt, harea, hL]
    rfl
  have hmss : (elementAt options len c).mss? = some (ntohs (load16 options (c + 2))) := by
    have hword : 256 * (options (c + 2)).toNat + (options (c + 3)).toNat =
        (htons (load16 options (c + 2))).toNat := by
      rw [← Utils.word_eq, Utils.word_toNat]
    have hload : UInt16.ofNat ((options (c + 2)).toNat * 256 + (options (c + 3)).toNat) =
        ntohs (load16 options (c + 2)) := by
      have hhi := (options (c + 2)).toNat_lt
      have hlo := (options (c + 3)).toNat_lt
      apply UInt16.toNat_inj.mp
      rw [UInt16.toNat_ofNat', ntohs, ← hword]
      omega
    rw [Element.mss?, if_pos h, hvalue]
    exact congrArg some hload
  have hmin : ∀ x y : UInt16, min x y = if y > x then x else y := by
    intro x y
    show (if x ≤ y then x else y) = _
    simp only [gt_iff_lt, UInt16.le_iff_toNat_le, UInt16.lt_iff_toNat_lt]
    by_cases hlt : x.toNat < y.toNat
    · rw [if_pos hlt, if_pos (Nat.le_of_lt hlt)]
    · rw [if_neg hlt]
      split
      · exact UInt16.toNat_inj.mp (by omega)
      · rfl
  rw [taken, hmss, applyMss, ← hmin]

theorem taken_wsc (h : (elementAt options len c).isWsc) (hin : c + 3 ≤ len) :
    taken e (elementAt options len c) = applyWsc e (options (c + 2)) := by
  have hvalue : (elementAt options len c).value = [options (c + 2)] := by
    have hL : (options (c + 1)).toNat - 2 = 1 := by
      rw [(isWsc_elementAt.mp h).2]
      rfl
    rw [elementAt, area_cons (by omega), hL]
    rfl
  have hscale : (elementAt options len c).scale? =
      some (if options (c + 2) > 14 then 14 else options (c + 2)) := by
    rw [Element.scale?, if_pos h, hvalue]
  rw [taken, mss?_eq_none (not_isMss_of_isWsc h), hscale, applyWsc]

theorem taken_other {el : Element} (hmss : ¬el.isMss) (hwsc : ¬el.isWsc) : taken e el = e := by
  rw [taken, mss?_eq_none hmss, scale?_eq_none hwsc]

/-- Where every option is whole, the parser takes them over one after the other. -/
theorem parseFrom_taken (hlen : len ≤ 40) (fuel c : Nat) (e : Connection)
    (hfuel : len ≤ c + fuel) (hwhole : ∀ el ∈ elements fuel (area options len c), el.Whole) :
    parseFrom options len fuel c e =
      (elements fuel (area options len c)).foldl taken e := by
  -- The induction follows the loop of the parser, one option at a time.
  induction fuel generalizing c e with
  | zero => rfl
  | succ fuel ih =>
      rw [parseFrom]
      by_cases hc : len ≤ c
      · rw [if_pos hc, area_of_le hc, elements_nil]
        rfl
      rw [if_neg hc]
      by_cases hend : options c = optEnd
      · rw [if_pos hend, elements_end (by omega) hend]
        rfl
      rw [if_neg hend]
      by_cases hnoop : options c = optNoop
      · rw [elements_noop (by omega) hend hnoop] at hwhole ⊢
        rw [if_pos hnoop]
        exact ih (c + 1) e (by omega) hwhole
      rw [if_neg hnoop]
      -- No option of the area is cut behind its kind.
      have hcut : c + 1 < len := by
        by_contra hcut
        rw [elements_cut (by omega) hend hnoop] at hwhole
        exact (hwhole _ List.mem_cons_self).length rfl
      rw [elements_cons hcut hend hnoop, List.forall_mem_cons] at hwhole
      rw [elements_cons hcut hend hnoop, List.foldl_cons]
      obtain ⟨hhead, hrest⟩ := hwhole
      obtain ⟨hmssIn, hwscIn⟩ := (whole_elementAt hcut).mp hhead
      by_cases hmss : options c = optMss ∧ options (c + 1) = optMssLen
      · have hL : (options (c + 1)).toNat = 4 := congrArg UInt8.toNat hmss.2
        have hne : options (c + 1) ≠ 0 := by
          rw [hmss.2]
          decide
        have hin : (elementAt options len c).isMss := isMss_elementAt.mpr hmss
        rw [if_neg hne, hL] at hrest
        rw [if_pos hmss, taken_mss hin (hmssIn hin), if_neg hne, hL]
        exact ih (c + 4) _ (by omega) hrest
      by_cases hwsc : options c = optWsc ∧ options (c + 1) = optWscLen
      · have hL : (options (c + 1)).toNat = 3 := congrArg UInt8.toNat hwsc.2
        have hne : options (c + 1) ≠ 0 := by
          rw [hwsc.2]
          decide
        have hin : (elementAt options len c).isWsc := isWsc_elementAt.mpr hwsc
        rw [if_neg hne, hL] at hrest
        rw [if_neg hmss, if_pos hwsc, taken_wsc hin (hwscIn hin), if_neg hne, hL]
        exact ih (c + 3) _ (by omega) hrest
      rw [if_neg hmss, if_neg hwsc,
        taken_other (mt isMss_elementAt.mp hmss) (mt isWsc_elementAt.mp hwsc)]
      by_cases hzero : options (c + 1) = 0
      · rw [if_pos hzero, if_pos hzero]
        rfl
      rw [if_neg hzero] at hrest ⊢
      rw [if_neg hzero]
      by_cases hlong : 40 ≤ c + (options (c + 1)).toNat
      · rw [if_pos hlong, area_of_le (by omega), elements_nil]
        rfl
      have hpos : 0 < (options (c + 1)).toNat := toNat_pos hzero
      rw [if_neg hlong]
      exact ih _ e (by omega) hrest

end Taken

/-! ## The window -/

/-- The options of a list are taken over one after the other: the least MSS, the last
scale, and the window shifted by every scale. -/
theorem foldl_taken (els : List Element) (e : Connection) :
    els.foldl taken e =
      { e with
        initialmss := (els.filterMap Element.mss?).foldl min e.initialmss
        wndscl := (els.filterMap Element.scale?).getLast?.getD e.wndscl
        wnd := (els.filterMap Element.scale?).foldl (fun w s => w >>> s.toUInt16) e.wnd } := by
  induction els generalizing e with
  | nil => rfl
  | cons el els ih =>
      rw [List.foldl_cons, ih, taken]
      by_cases hmss : el.isMss
      · have hscale : el.scale? = none := scale?_eq_none fun h => not_isMss_of_isWsc h hmss
        cases hm : el.mss? <;> simp [hm, hscale]
      · have hm : el.mss? = none := mss?_eq_none hmss
        cases hscale : el.scale? <;> simp [hm, hscale, List.getLast?_cons]

theorem scale_le {el : Element} {scale : UInt8} (h : el.scale? = some scale) :
    scale.toNat ≤ 14 := by
  rw [Element.scale?] at h
  split at h
  · split at h
    · next wsc _ =>
        have hscale : (if wsc > 14 then 14 else wsc) = scale := Option.some.inj h
        rw [← hscale]
        split
        · decide
        · next hle => exact UInt8.le_iff_toNat_le.mp (UInt8.not_lt.mp hle)
    · cases h
  · cases h

theorem shiftRight_toNat {w : UInt16} {scale : UInt8} (h : scale.toNat ≤ 14) :
    (w >>> scale.toUInt16).toNat = w.toNat / 2 ^ scale.toNat := by
  rw [UInt16.toNat_shiftRight, UInt8.toNat_toUInt16, Nat.mod_eq_of_lt (by omega),
    Nat.shiftRight_eq_div_pow]

theorem foldl_shiftRight_toNat {scales : List UInt8} (h : ∀ scale ∈ scales, scale.toNat ≤ 14)
    (w : UInt16) : (scales.foldl (fun w s => w >>> s.toUInt16) w).toNat =
      w.toNat / 2 ^ (scales.map UInt8.toNat).sum := by
  induction scales generalizing w with
  | nil => simp
  | cons scale scales ih =>
      obtain ⟨hscale, hscales⟩ := List.forall_mem_cons.mp h
      rw [List.foldl_cons, ih hscales, shiftRight_toNat hscale, List.map_cons, List.sum_cons,
        Nat.pow_add, Nat.div_div_eq_div_mul]

/-- Dividing again changes nothing but a quotient that is not zero. -/
theorem div_pow_add_eq_iff (w s t : Nat) :
    w / 2 ^ (s + t) = w / 2 ^ t ↔ w < 2 ^ t ∨ s = 0 := by
  rw [Nat.add_comm, Nat.pow_add, ← Nat.div_div_eq_div_mul]
  have hpos : 0 < 2 ^ t := Nat.two_pow_pos t
  constructor
  · intro h
    by_contra hor
    obtain ⟨hw, hs⟩ := not_or.mp hor
    have hq : 0 < w / 2 ^ t := Nat.div_pos (Nat.not_lt.mp hw) hpos
    have hlt : w / 2 ^ t / 2 ^ s < w / 2 ^ t := Nat.div_lt_self hq (Nat.one_lt_two_pow hs)
    omega
  · rintro (hw | rfl)
    · rw [Nat.div_eq_of_lt hw, Nat.zero_div]
    · rw [Nat.pow_zero, Nat.div_one]

/-- Taking the options over one after the other means what they say unless the window
is shifted by a scale that is not the last. -/
theorem foldl_taken_eq_meant_iff (els : List Element) (e : Connection) :
    els.foldl taken e = meant e els ↔ ShiftsOnce e els := by
  have hscales : ∀ scale ∈ els.filterMap Element.scale?, scale.toNat ≤ 14 := by
    intro scale hmem
    obtain ⟨el, -, hel⟩ := List.mem_filterMap.mp hmem
    exact scale_le hel
  have hwnd : els.foldl taken e = meant e els ↔
      (els.filterMap Element.scale?).foldl (fun w s => w >>> s.toUInt16) e.wnd =
        match (els.filterMap Element.scale?).getLast? with
        | none => e.wnd
        | some scale => e.wnd >>> scale.toUInt16 := by
    rw [foldl_taken, meant]
    constructor
    · intro h
      exact congrArg Connection.wnd h
    · intro h
      rw [h]
  rw [hwnd, ShiftsOnce]
  generalize els.filterMap Element.scale? = scales at hscales
  rcases List.eq_nil_or_concat scales with rfl | ⟨earlier, last, rfl⟩
  · simp
  rw [List.concat_eq_append] at hscales ⊢
  obtain ⟨hearlier, hlast⟩ := List.forall_mem_append.mp hscales
  have hsum : (earlier.map UInt8.toNat).sum = 0 ↔ ∀ other ∈ earlier, other = 0 := by
    rw [List.sum_eq_zero_iff_forall_eq_nat]
    simp [← UInt8.toNat_inj]
  rw [List.getLast?_concat, List.dropLast_concat, List.foldl_append, ← UInt16.toNat_inj]
  simp only [List.foldl_cons, List.foldl_nil, Option.mem_some_iff, forall_eq']
  rw [shiftRight_toNat (hlast last List.mem_cons_self),
    shiftRight_toNat (hlast last List.mem_cons_self), foldl_shiftRight_toNat hearlier,
    Nat.div_div_eq_div_mul, ← Nat.pow_add, div_pow_add_eq_iff, hsum]

/-! ## Safety and meaning -/

/-- The parser is safe, and takes over what the area says, exactly if every option is
whole and no scale but the last changes the window. -/
theorem parse_sound_iff (e : Connection) (len : UInt16) (data : Bytes)
    (hlen : len.toNat ≤ 40) :
    Sound e len data ↔
      (∀ el ∈ elementsOf len data, el.Whole) ∧ ShiftsOnce e (elementsOf len data) := by
  have hinside : extentFrom (behind data) len.toNat len.toNat 0 ≤ len.toNat ↔
      ∀ el ∈ elementsOf len data, el.Whole := by
    rw [elementsOf, ← area_zero]
    exact extentFrom_le_iff hlen len.toNat 0 (by omega)
  have hparse : (∀ el ∈ elementsOf len data, el.Whole) →
      parse e len data = (elementsOf len data).foldl taken e := by
    rw [elementsOf, ← area_zero]
    exact parseFrom_taken hlen len.toNat 0 e (by omega)
  constructor
  · intro h
    have hwhole := hinside.mp h.inside
    refine ⟨hwhole, (foldl_taken_eq_meant_iff _ e).mp ?_⟩
    rw [← hparse hwhole]
    exact h.meaning
  · rintro ⟨hwhole, hshifts⟩
    refine ⟨rounds_end len.toNat (0, e) (by simp), hinside.mpr hwhole, ?_⟩
    rw [hparse hwhole]
    exact (foldl_taken_eq_meant_iff _ e).mpr hshifts

/-- A segment whose options are the given bytes, as long as the area is. -/
def withOptions (bytes : List UInt8) : Bytes := fun i => bytes.getD (i - headerLen) 0

/-- A connection that takes a SYN with an unscaled window. -/
def fresh : Connection := { Connection.initial 0 with initialmss := 1460, wnd := 65535 }

/-- A smaller MSS and a scale, each once. -/
theorem parse_sound_once : Sound fresh 8 (withOptions [2, 4, 2, 24, 1, 3, 3, 2]) :=
  (parse_sound_iff fresh 8 _ (by decide)).mpr ⟨by decide, by decide⟩

/-- An area that ends in a lone kind, and one with two scales. -/
theorem not_parse_sound :
    ¬Sound fresh 4 (withOptions [1, 1, 1, 2]) ∧
      ¬Sound fresh 8 (withOptions [3, 3, 1, 3, 3, 1, 0, 0]) := by
  constructor
  · intro h
    have hinside := h.inside
    revert hinside
    decide
  · intro h
    have hwnd := congrArg Connection.wnd h.meaning
    revert hwnd
    decide

end Tulips.Tcpv4.Options
