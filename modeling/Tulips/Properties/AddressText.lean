import Tulips.Stack.AddressText
import Mathlib.Data.List.Forall2

/-!
# Reading addresses

The constructors count the parts of a string that the splitter leaves, and take from
each what a stream extracts. Both forgive more than they should: the splitter drops
empty fields but the last, and the extraction stops at the first character it cannot
use, needs none at all, and is cut down to a byte.
-/

namespace Tulips

open Numerals

/-! ## Splitting -/

/-- The fields without the empty ones, apart from the last. -/
def squeeze (fields : List (List Char)) : List (List Char) :=
  fields.dropLast.filter (fun f => f ≠ []) ++ fields.getLast?.toList

theorem squeeze_cons {f : List Char} {fields : List (List Char)} (h : fields ≠ []) :
    squeeze (f :: fields) = if f = [] then squeeze fields else f :: squeeze fields := by
  obtain ⟨g, rest, rfl⟩ := List.exists_cons_of_ne_nil h
  unfold squeeze
  by_cases hf : f = [] <;> simp [hf]

theorem squeeze_of_ne_nil {fields : List (List Char)} (h : ∀ f ∈ fields, f ≠ []) :
    squeeze fields = fields := by
  induction fields with
  | nil => rfl
  | cons f fields ih =>
      have hf := h f List.mem_cons_self
      have hfields : ∀ g ∈ fields, g ≠ [] := fun g hg => h g (List.mem_cons_of_mem f hg)
      by_cases hnil : fields = []
      · simp [hnil, squeeze]
      · rw [squeeze_cons hnil, if_neg hf, ih hfields]

theorem splitFrom_eq_squeeze (d : Char) (s buffer : List Char) :
    splitFrom d s buffer = squeeze ((s.splitOn d).modifyHead (buffer ++ ·)) := by
  induction s generalizing buffer with
  | nil => simp [splitFrom, squeeze]
  | cons c s ih =>
      obtain ⟨f, rest, hfields⟩ := List.exists_cons_of_ne_nil (List.splitOn_ne_nil d s)
      rw [splitFrom, List.splitOn_cons_eq_if_modifyHead]
      by_cases hc : c = d
      · have hbeq : (c == d) = true := by simp [hc]
        have hrest : splitFrom d s [] = squeeze (s.splitOn d) := by
          rw [ih, hfields]
          rfl
        rw [if_pos hc, hrest]
        simp only [hbeq, if_true, List.modifyHead_cons, List.append_nil]
        exact (squeeze_cons (List.splitOn_ne_nil d s)).symm
      · have hbeq : ¬(c == d) = true := by simp [hc]
        rw [if_neg hc, if_neg hbeq, ih, hfields]
        simp

/-- The splitter finds the fields, short of the empty ones. -/
theorem split_eq_squeeze {s : List Char} (hs : s ≠ []) (d : Char) :
    split s d = squeeze (s.splitOn d) := by
  obtain ⟨f, rest, hfields⟩ := List.exists_cons_of_ne_nil (List.splitOn_ne_nil d s)
  rw [split, if_neg hs, splitFrom_eq_squeeze, hfields]
  rfl

/-! ## Extraction -/

section Extraction

variable {base n : Nat} {c : Char} {f : List Char}

/-- The digits stand behind the blanks and the signs. -/
theorem le_of_digit (h : (digit? base c).isSome = true) : 48 ≤ c.toNat := by
  by_contra hlt
  have hle : ∀ k : Char, k ≤ c ↔ k.toNat ≤ c.toNat := fun k => Iff.rfl
  have hlow : ∀ k : Char, 48 ≤ k.toNat → ¬k ≤ c := fun k hk => by
    rw [hle]
    omega
  simp [digit?, hlow '0' (by decide), hlow 'a' (by decide), hlow 'A' (by decide)] at h

/-- A digit is none of the characters the extraction treats in a way of their own. -/
theorem digit_plain (h : (digit? base c).isSome = true) :
    isSpace c = false ∧ c ≠ '-' ∧ c ≠ '+' ∧ c ≠ 'x' ∧ c ≠ 'X' := by
  have hle := le_of_digit h
  refine ⟨?_, ?_, ?_, ?_, ?_⟩
  · have hblank : c ≠ ' ' := by
      rintro rfl
      exact absurd hle (by decide)
    simp [isSpace, hblank]
    omega
  all_goals
    rintro rfl
  · exact absurd hle (by decide)
  · exact absurd hle (by decide)
  · simp [digit?] at h
  · simp [digit?] at h

theorem dropPrefix_of_digits (h : ∀ c ∈ f, (digit? base c).isSome = true) :
    dropPrefix base f = f := by
  unfold dropPrefix
  split
  · next c rest =>
      obtain ⟨-, -, -, hx, hX⟩ := digit_plain (h c (by simp))
      simp [hx, hX]
  · rfl

/-- A numeral is extracted as it stands. -/
theorem extractInt_of_numeral (h : numeral? base f = some n) (hn : n < 2 ^ 31) :
    extractInt base f = some (n : Int) := by
  obtain ⟨c, rest, rfl⟩ := List.exists_cons_of_ne_nil (ne_nil_of_numeral h)
  have hdigits := digits_of_numeral h
  obtain ⟨hspace, hminus, hplus, -⟩ := digit_plain (hdigits c List.mem_cons_self)
  have hclamp : clampInt n = n := by
    unfold clampInt
    omega
  have hread : extractInt base (c :: rest) =
      some (clampInt (scan base (dropPrefix base (c :: rest)) 0 : Nat)) := by
    unfold extractInt
    rw [List.dropWhile_cons_of_neg (by simp [hspace])]
    split
    · next heq => cases heq
    · next heq => exact absurd (List.cons.inj heq).1 hminus
    · next heq => exact absurd (List.cons.inj heq).1 hplus
    · rfl
  rw [hread, dropPrefix_of_digits hdigits, scan_of_numeral h, hclamp]

end Extraction

/-! ## Addresses -/

/-- The text has as many fields as there are bytes, each a number that fits a byte:
decimal numbers between dots for one kind of address, hexadecimal ones between colons
for the other. -/
def Spells (base : Nat) (sep : Char) (s : List Char) (bytes : List UInt8) : Prop :=
  List.Forall₂ (fun f b => numeral? base f = some b.toNat) (s.splitOn sep) bytes

/-- How many fields before the last are not empty. -/
def filled (sep : Char) (s : List Char) : Nat :=
  ((s.splitOn sep).dropLast.filter fun f => f ≠ []).length

section Parsing

variable {base count : Nat} {sep : Char} {what : String} {unset : Nat → Int} {s : List Char}
  {bytes : List UInt8}

theorem length_split (hcount : 1 < count) :
    (split s sep).length = count ↔ filled sep s + 1 = count := by
  by_cases hs : s = []
  · subst hs
    simp [split, filled, List.splitOn_nil]
    omega
  · have hlast : (s.splitOn sep).getLast?.toList.length = 1 := by
      rw [List.getLast?_eq_some_getLast (List.splitOn_ne_nil sep s)]
      rfl
    rw [split_eq_squeeze hs, squeeze, List.length_append, hlast, filled]

theorem mapIdx_extractInt {fields : List (List Char)}
    (h : List.Forall₂ (fun f b => numeral? base f = some b.toNat) fields bytes) :
    fields.mapIdx (fun i f => UInt8.ofInt ((extractInt base f).getD (unset i))) = bytes := by
  induction h generalizing unset with
  | nil => rfl
  | @cons f b fields bytes hf _ ih =>
      have hb := b.toNat_lt
      have hbyte : UInt8.ofInt (b.toNat : Int) = b := by
        apply UInt8.toNat_inj.mp
        rw [UInt8.ofInt, UInt8.toNat_ofNat']
        omega
      rw [List.mapIdx_cons, extractInt_of_numeral hf (by omega), Option.getD_some, hbyte]
      exact congrArg _ ih

/-- A text that spells bytes is read as them. -/
theorem parseBytes_of_spells (h : Spells base sep s bytes) (hcount : 1 < bytes.length) :
    parseBytes base sep bytes.length what unset s = .ok bytes := by
  have hlength := h.length_eq
  have hs : s ≠ [] := by
    rintro rfl
    rw [List.splitOn_nil, List.length_singleton] at hlength
    omega
  have hfields : ∀ f ∈ s.splitOn sep, f ≠ [] := by
    intro f hf
    obtain ⟨i, hi, rfl⟩ := List.getElem_of_mem hf
    exact ne_nil_of_numeral (h.get hi (hlength ▸ hi))
  have hsplit : split s sep = s.splitOn sep := by
    rw [split_eq_squeeze hs, squeeze_of_ne_nil hfields]
  unfold parseBytes
  rw [hsplit, if_neg (not_not.mpr hlength), mapIdx_extractInt h]

/-- A constructor yields an address exactly if the text spells it, as far as the
splitter does not hide that there are too many fields. -/
theorem parseBytes_iff {A : Type} {toBytes : A → List UInt8} {ofBytes : List UInt8 → A}
    (hcount : 1 < count) (hlength : ∀ a, (toBytes a).length = count)
    (hof : ∀ a, ofBytes (toBytes a) = a) :
    (∀ a, (parseBytes base sep count what unset s).map ofBytes = .ok a ↔
        Spells base sep s (toBytes a)) ↔
      filled sep s + 1 ≠ count ∨ ∃ a, Spells base sep s (toBytes a) := by
  have hread : ∀ a, Spells base sep s (toBytes a) →
      parseBytes base sep count what unset s = .ok (toBytes a) := by
    intro a ha
    have hbytes : 1 < (toBytes a).length := by
      rw [hlength]
      exact hcount
    rw [← hlength a]
    exact parseBytes_of_spells ha hbytes
  constructor
  · intro h
    by_contra hnone
    obtain ⟨hfilled, hspells⟩ := not_or.mp hnone
    have hparts : (split s sep).length = count := (length_split hcount).mpr (not_not.mp hfilled)
    let bytes := (split s sep).mapIdx fun i part =>
      UInt8.ofInt ((extractInt base part).getD (unset i))
    have hok : parseBytes base sep count what unset s = .ok bytes := if_neg (not_not.mpr hparts)
    apply hspells
    refine ⟨ofBytes bytes, (h (ofBytes bytes)).mp ?_⟩
    rw [hok]
    rfl
  · rintro (hfilled | ⟨a, ha⟩) a'
    · have hparts : (split s sep).length ≠ count := fun h => hfilled ((length_split hcount).mp h)
      have herror : parseBytes base sep count what unset s = .error ⟨what⟩ := if_pos hparts
      constructor
      · intro h
        rw [herror] at h
        cases h
      · intro h
        rw [hread a' h] at herror
        cases herror
    · rw [hread a ha]
      constructor
      · intro h
        cases h
        rwa [hof]
      · intro h
        have heq := (hread a ha).symm.trans (hread a' h)
        rw [Except.ok.inj heq]
        exact congrArg Except.ok (hof a')

end Parsing

/-! ## Printing -/

theorem numeral_decimal (b : UInt8) : numeral? 10 (decimal b) = some b.toNat := by
  have hall : ∀ n < 2 ^ 8, numeral? 10 (Nat.toDigits 10 n) = some n := by decide +kernel
  exact hall b.toNat b.toNat_lt

theorem numeral_hex2 (b : UInt8) : numeral? 16 (hex2 b) = some b.toNat := by
  have hall : ∀ n < 2 ^ 8, numeral? 16 (List.replicate (2 - (Nat.toDigits 16 n).length) '0' ++
      Nat.toDigits 16 n) = some n := by decide +kernel
  exact hall b.toNat b.toNat_lt

/-- What is printed with separators between the bytes spells them. -/
theorem spells_intercalate {base : Nat} {sep : Char} {print : UInt8 → List Char}
    {bytes : List UInt8} (hprint : ∀ b, numeral? base (print b) = some b.toNat)
    (hsep : digit? base sep = none) (hbytes : bytes ≠ []) :
    Spells base sep ([sep].intercalate (bytes.map print)) bytes := by
  have hfields : ∀ f ∈ bytes.map print, sep ∉ f := by
    intro f hf hmem
    obtain ⟨b, -, rfl⟩ := List.mem_map.mp hf
    have hdigit := digits_of_numeral (hprint b) sep hmem
    rw [hsep] at hdigit
    cases hdigit
  unfold Spells
  rw [List.splitOn_intercalate sep hfields (by simpa using hbytes), List.forall₂_map_left_iff]
  exact List.forall₂_same.mpr fun b _ => hprint b

/-! ## The two kinds -/

theorem Ipv4.Address.ofBytes_bytes (a : Ipv4.Address) : ofBytes a.bytes = a := by
  have hload : load32 (fun i => a.bytes.getD i 0) 0 = a.data := load32_eq rfl rfl rfl rfl
  rw [ofBytes, load, hload]

theorem Ethernet.Address.ofBytes_bytes (a : Ethernet.Address) : ofBytes a.bytes = a := by
  obtain ⟨data⟩ := a
  rw [ofBytes, load]
  congr 1
  apply Vector.ext
  intro i hi
  simp [bytes]

/-- The constructors accept what spells an address, and refuse the rest, exactly as
far as the splitter does not hide superfluous fields; what is printed is read again. -/
theorem addresses_parse_iff (unset : Nat → Int) :
    (∀ s, (∀ a, Ipv4.Address.ofString unset s = .ok a ↔ Spells 10 '.' s a.bytes) ↔
      filled '.' s ≠ 3 ∨ ∃ a : Ipv4.Address, Spells 10 '.' s a.bytes) ∧
    (∀ s, (∀ a, Ethernet.Address.ofString unset s = .ok a ↔ Spells 16 ':' s a.bytes) ↔
      filled ':' s ≠ 5 ∨ ∃ a : Ethernet.Address, Spells 16 ':' s a.bytes) ∧
    (∀ a : Ipv4.Address, Ipv4.Address.ofString unset a.toString = .ok a) ∧
    ∀ a : Ethernet.Address, Ethernet.Address.ofString unset a.toString = .ok a := by
  have hip : ∀ a : Ipv4.Address, a.bytes.length = 4 := fun _ => rfl
  have heth : ∀ a : Ethernet.Address, a.bytes.length = 6 := by
    intro a
    simp [Ethernet.Address.bytes]
  refine ⟨fun s => ?_, fun s => ?_, fun a => ?_, fun a => ?_⟩
  · have hiff := @parseBytes_iff 10 4 '.' "String is not a valid IPv4 address" unset s _ _ _
      (by decide) hip Ipv4.Address.ofBytes_bytes
    rw [ne_eq, Nat.succ_inj] at hiff
    exact hiff
  · have hiff := @parseBytes_iff 16 6 ':' "String is not a valid ethernet address" unset s _ _ _
      (by decide) heth Ethernet.Address.ofBytes_bytes
    rw [ne_eq, Nat.succ_inj] at hiff
    exact hiff
  · have hspells : Spells 10 '.' a.toString a.bytes :=
      spells_intercalate numeral_decimal (by decide) (List.ne_nil_of_length_eq_add_one (hip a))
    rw [Ipv4.Address.ofString, ← hip a, parseBytes_of_spells hspells (by rw [hip]; decide)]
    exact congrArg Except.ok a.ofBytes_bytes
  · have hspells : Spells 16 ':' a.toString a.bytes :=
      spells_intercalate numeral_hex2 (by decide) (List.ne_nil_of_length_eq_add_one (heth a))
    rw [Ethernet.Address.ofString, ← heth a, parseBytes_of_spells hspells (by rw [heth]; decide)]
    exact congrArg Except.ok a.ofBytes_bytes

/-- `1.2.3.256` is read as `1.2.3.0`. -/
theorem not_addresses_parse : ¬ ∀ (unset : Nat → Int) (s : List Char) (a : Ipv4.Address),
    Ipv4.Address.ofString unset s = .ok a ↔ Spells 10 '.' s a.bytes := by
  intro hall
  let s := ['1', '.', '2', '.', '3', '.', '2', '5', '6']
  let a := Ipv4.Address.ofBytes [1, 2, 3, 0]
  have hread : Ipv4.Address.ofString (fun _ => 0) s = .ok a := by decide
  have hspells := (hall (fun _ => 0) s a).mp hread
  have hlast := hspells.get (i := 3) (by decide) (by decide)
  revert hlast
  decide

end Tulips
