import Mathlib.Data.Nat.ModEq
import Tulips.Lib.Numerals

/-!
# Text

How the standard library and `system::utils` take text apart. A stream extracts an
integer from the front of a string and ignores the rest.
-/

namespace Tulips

/-- `std::invalid_argument` -/
structure InvalidArgument where
  what : String
  deriving DecidableEq

/-! ## Splitting -/

/-- The loop of `system::utils::split`: an empty buffer is not pushed. -/
def splitFrom (d : Char) : List Char → List Char → List (List Char)
  | [], buffer => [buffer]
  | c :: s, buffer =>
      if c = d then
        if buffer = [] then splitFrom d s [] else buffer :: splitFrom d s []
      else splitFrom d s (buffer ++ [c])

/-- `system::utils::split` -/
def split (s : List Char) (d : Char) : List (List Char) :=
  if s = [] then [] else splitFrom d s []

/-! ## Extraction -/

/-- `std::isspace` in the classic locale. -/
def isSpace (c : Char) : Bool := c == ' ' || 9 ≤ c.toNat && c.toNat ≤ 13

/-- What an `int` holds of a number that may be too large for it. -/
def clampInt (v : Int) : Int := max (-2 ^ 31) (min v (2 ^ 31 - 1))

/-- The prefix that a hexadecimal number may have. -/
def dropPrefix (base : Nat) (s : List Char) : List Char :=
  match s with
  | '0' :: c :: rest => if base = 16 ∧ (c = 'x' ∨ c = 'X') then rest else s
  | _ => s

/-- `std::istringstream(s) >> value` for an `int`, in decimal or after `std::hex`.
Without a digit the value is zero. If there is nothing behind the blanks, it is not set. -/
def extractInt (base : Nat) (s : List Char) : Option Int :=
  match s.dropWhile isSpace with
  | [] => none
  | '-' :: rest => some (clampInt (-(Numerals.scan base (dropPrefix base rest) 0 : Nat)))
  | '+' :: rest => some (clampInt (Numerals.scan base (dropPrefix base rest) 0 : Nat))
  | rest => some (clampInt (Numerals.scan base (dropPrefix base rest) 0 : Nat))

/-! ## Insertion -/

/-- `stream << (unsigned int)b` -/
def decimal (b : UInt8) : List Char := Nat.toDigits 10 b.toNat

/-- `stream << std::hex << std::setw(2) << std::setfill('0') << (unsigned int)b` -/
def hex2 (b : UInt8) : List Char :=
  let digits := Nat.toDigits 16 b.toNat
  List.replicate (2 - digits.length) '0' ++ digits

end Tulips
