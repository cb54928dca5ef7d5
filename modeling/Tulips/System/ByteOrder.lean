import Mathlib.Data.Nat.ModEq
import Mathlib.Tactic.Common

/-!
# Byte order

The stack runs on a little-endian host: a multi-byte field is loaded from and
stored to a frame low byte first, and `htons`, `htonl` and their inverses turn
a value around to the network's order.
-/

namespace Tulips

/-- The bytes from an address on, as a pointer sees them. -/
abbrev Bytes := Nat → UInt8

def htons (x : UInt16) : UInt16 := UInt16.ofNat (x.toNat % 256 * 256 + x.toNat / 256)

def ntohs (x : UInt16) : UInt16 := htons x

def htonl (x : UInt32) : UInt32 :=
  UInt32.ofNat (x.toNat % 256 * 2 ^ 24 + x.toNat / 2 ^ 8 % 256 * 2 ^ 16 +
    x.toNat / 2 ^ 16 % 256 * 2 ^ 8 + x.toNat / 2 ^ 24)

def ntohl (x : UInt32) : UInt32 := htonl x

def store16 (x : UInt16) : List UInt8 :=
  [UInt8.ofNat x.toNat, UInt8.ofNat (x.toNat / 2 ^ 8)]

def store32 (x : UInt32) : List UInt8 :=
  [UInt8.ofNat x.toNat, UInt8.ofNat (x.toNat / 2 ^ 8), UInt8.ofNat (x.toNat / 2 ^ 16),
    UInt8.ofNat (x.toNat / 2 ^ 24)]

def load16 (data : Bytes) (off : Nat) : UInt16 :=
  UInt16.ofNat ((data off).toNat + 2 ^ 8 * (data (off + 1)).toNat)

def load32 (data : Bytes) (off : Nat) : UInt32 :=
  UInt32.ofNat ((data off).toNat + 2 ^ 8 * (data (off + 1)).toNat +
    2 ^ 16 * (data (off + 2)).toNat + 2 ^ 24 * (data (off + 3)).toNat)

private theorem swap16 (a b : Nat) (_ : a < 256) (hb : b < 256) :
    (a * 256 + b) % 256 * 256 + (a * 256 + b) / 256 = a + 256 * b := by
  omega

private theorem bytes32 (a b c d : Nat) (_ : a < 256) (hb : b < 256) (hc : c < 256)
    (hd : d < 256) (n : Nat) (hn : n = a * 2 ^ 24 + b * 2 ^ 16 + c * 2 ^ 8 + d) :
    n % 256 = d ∧ n / 2 ^ 8 % 256 = c ∧ n / 2 ^ 16 % 256 = b ∧ n / 2 ^ 24 = a := by
  refine ⟨?_, ?_, ?_, ?_⟩ <;> omega

@[simp] theorem ntohs_htons (x : UInt16) : ntohs (htons x) = x := by
  have hx := x.toNat_lt
  have hlow : x.toNat % 256 < 256 := Nat.mod_lt _ (by decide)
  have hhigh : x.toNat / 256 < 256 := by omega
  have hfit : x.toNat % 256 * 256 + x.toNat / 256 < 2 ^ 16 := by omega
  apply UInt16.toNat_inj.mp
  rw [ntohs, htons, htons, UInt16.toNat_ofNat', UInt16.toNat_ofNat', Nat.mod_eq_of_lt hfit,
    swap16 _ _ hlow hhigh]
  omega

theorem htonl_toNat (x : UInt32) : (htonl x).toNat =
    x.toNat % 256 * 2 ^ 24 + x.toNat / 2 ^ 8 % 256 * 2 ^ 16 +
      x.toNat / 2 ^ 16 % 256 * 2 ^ 8 + x.toNat / 2 ^ 24 := by
  have hx := x.toNat_lt
  rw [htonl, UInt32.toNat_ofNat']
  apply Nat.mod_eq_of_lt
  omega

@[simp] theorem ntohl_htonl (x : UInt32) : ntohl (htonl x) = x := by
  have hx := x.toNat_lt
  obtain ⟨h₀, h₁, h₂, h₃⟩ := bytes32 _ _ _ _ (by omega) (by omega) (by omega) (by omega)
    (htonl x).toNat (htonl_toNat x)
  apply UInt32.toNat_inj.mp
  rw [ntohl, htonl_toNat (htonl x), h₀, h₁, h₂, h₃]
  omega

theorem htons_injective {x y : UInt16} (h : htons x = htons y) : x = y := by
  rw [← ntohs_htons x, h, ntohs_htons]

/-- Loading a field whose bytes are those of `x` yields `x`. -/
theorem load16_eq {data : Bytes} {off : Nat} {x : UInt16}
    (h₀ : data off = UInt8.ofNat x.toNat) (h₁ : data (off + 1) = UInt8.ofNat (x.toNat / 2 ^ 8)) :
    load16 data off = x := by
  have := x.toNat_lt
  apply UInt16.toNat_inj.mp
  simp only [load16, h₀, h₁, UInt16.toNat_ofNat', UInt8.toNat_ofNat']
  omega

theorem load32_eq {data : Bytes} {off : Nat} {x : UInt32}
    (h₀ : data off = UInt8.ofNat x.toNat) (h₁ : data (off + 1) = UInt8.ofNat (x.toNat / 2 ^ 8))
    (h₂ : data (off + 2) = UInt8.ofNat (x.toNat / 2 ^ 16))
    (h₃ : data (off + 3) = UInt8.ofNat (x.toNat / 2 ^ 24)) : load32 data off = x := by
  have := x.toNat_lt
  apply UInt32.toNat_inj.mp
  simp only [load32, h₀, h₁, h₂, h₃, UInt32.toNat_ofNat', UInt8.toNat_ofNat']
  omega

end Tulips
