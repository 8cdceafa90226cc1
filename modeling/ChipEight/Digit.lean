/-!
# Hexadecimal digits

The machine names its sixteen registers and its sixteen keys by one hexadecimal
digit.  `Digit` is that name.  A byte is a digit only when it is below sixteen
(`Digit.ofByte?`); `Digit.ofLowBits` instead keeps the low half of any byte.

`hexText` writes a number in uppercase hexadecimal, with zeros in front up to a
given width.  Every address and instruction word in a message is written by it.
-/

namespace ChipEight

/-- The name of a register or of a key. -/
abbrev Digit := Fin 16

namespace Digit

theorem mod_lt (n : Nat) : n % 16 < 16 := Nat.mod_lt n (by decide)

/-- The last hexadecimal digit of a number. -/
def ofNat (n : Nat) : Digit := ⟨n % 16, mod_lt n⟩

/-- The digit of a byte below sixteen. -/
def ofByte? (b : UInt8) : Option Digit :=
  if h : b.toNat < 16 then some ⟨b.toNat, h⟩ else none

/-- The digit in the low four bits of a byte. -/
def ofLowBits (b : UInt8) : Digit := ofNat b.toNat

def toByte (d : Digit) : UInt8 := UInt8.ofNat d.val

def all : List Digit := List.finRange 16

end Digit

/-! ## Text -/

/-- A number in uppercase hexadecimal, zeros in front up to `width` digits.
A longer number is written whole. -/
def hexText (width n : Nat) : String :=
  String.ofList (((Nat.toDigits 16 n).map Char.toUpper).leftpad width '0')

def Digit.text (d : Digit) : String := hexText 1 d.val

/-! ## Lemmas -/

namespace Digit

theorem ofByte?_eq_none_iff {b : UInt8} : ofByte? b = none ↔ 16 ≤ b.toNat := by
  simp only [ofByte?]
  split <;> simp <;> omega

theorem ofByte?_toByte (d : Digit) : ofByte? d.toByte = some d := by
  revert d; decide

/-- A byte that is a digit keeps it in its low bits. -/
theorem ofLowBits_of_ofByte? {b : UInt8} {d : Digit} (h : ofByte? b = some d) :
    ofLowBits b = d := by
  simp only [ofByte?] at h
  split at h
  · next hb => cases h; simp [ofLowBits, ofNat, Nat.mod_eq_of_lt hb]
  · cases h

theorem mem_all (d : Digit) : d ∈ all := List.mem_finRange d

end Digit

/-! ## Tests -/

example : Digit.ofByte? 0x0F = some 15 ∧ Digit.ofByte? 0x10 = none := by decide
example : Digit.ofLowBits 0xAB = 11 := by decide
example : hexText 3 0x204 = "204" ∧ hexText 4 0x12 = "0012" ∧ hexText 3 0x10FE = "10FE" := by
  cbv

end ChipEight
