import Tulips.Stack.Headers
import Tulips.System.Text

/-!
# Addresses as text

The constructors of the addresses from strings, and `toString`.
-/

namespace Tulips

/-- What the two constructors share. In each turn `value` starts with what is left
on the stack, and keeps it if nothing is extracted. -/
def parseBytes (base : Nat) (sep : Char) (count : Nat) (what : String) (unset : Nat → Int)
    (dst : List Char) : Except InvalidArgument (List UInt8) :=
  let parts := split dst sep
  if parts.length ≠ count then .error ⟨what⟩
  else .ok (parts.mapIdx fun i part => UInt8.ofInt ((extractInt base part).getD (unset i)))

namespace Ipv4.Address

def ofBytes (bytes : List UInt8) : Address := .load (fun i => bytes.getD i 0) 0

/-- `ipv4::Address::Address(std::string const&)` -/
def ofString (unset : Nat → Int) (dst : List Char) : Except InvalidArgument Address :=
  (parseBytes 10 '.' 4 "String is not a valid IPv4 address" unset dst).map ofBytes

/-- `ipv4::Address::toString` -/
def toString (a : Address) : List Char := ['.'].intercalate (a.bytes.map decimal)

end Ipv4.Address

namespace Ethernet.Address

def bytes (a : Address) : List UInt8 := a.data.toList

def ofBytes (bytes : List UInt8) : Address := .load (fun i => bytes.getD i 0) 0

/-- `ethernet::Address::Address(std::string const&)` -/
def ofString (unset : Nat → Int) (dst : List Char) : Except InvalidArgument Address :=
  (parseBytes 16 ':' 6 "String is not a valid ethernet address" unset dst).map ofBytes

/-- `ethernet::Address::toString` -/
def toString (a : Address) : List Char := [':'].intercalate (a.bytes.map hex2)

end Ethernet.Address

end Tulips
