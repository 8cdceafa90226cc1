import ChipEight.Instruction

/-!
# Instruction words

A word holds two bytes, the high byte first.  Its four hexadecimal digits are
the operation and the operands `x`, `y` and `n`; the low byte is the operand
`nn` and the low three digits are the address `nnn`.
-/

namespace ChipEight

/-- The word of two bytes, the high byte first. -/
def word (hi lo : UInt8) : UInt16 := UInt16.ofNat (hi.toNat * 256 + lo.toNat)

/-! ## The parts of a word -/

/-- The digit of a word that stands for `unit`, a power of sixteen. -/
def wordDigit (w : UInt16) (unit : Nat) : Digit := Digit.ofNat (w.toNat / unit)

def wordByte (w : UInt16) : UInt8 := UInt8.ofNat w.toNat

def wordAddress (w : UInt16) : UInt16 := UInt16.ofNat (w.toNat % 4096)

/-! ## Decoding -/

def Arithmetic.ofDigit? (d : Digit) : Option Arithmetic :=
  match d.val with
  | 0x0 => some .set
  | 0x1 => some .or
  | 0x2 => some .and
  | 0x3 => some .xor
  | 0x4 => some .add
  | 0x5 => some .sub
  | 0x6 => some .shiftRight
  | 0x7 => some .subFrom
  | 0xE => some .shiftLeft
  | _ => none

/-- The instruction of the operation `F` whose low byte is `code`. -/
def Action.ofCode? (x : Digit) (code : Nat) : Option Action :=
  match code with
  | 0x07 => some (.readDelay x)
  | 0x0A => some (.awaitKey x)
  | 0x15 => some (.setDelay x)
  | 0x18 => some (.setSound x)
  | 0x1E => some (.addToIndex x)
  | 0x29 => some (.glyph x)
  | 0x33 => some (.decimal x)
  | 0x55 => some (.store x)
  | 0x65 => some (.load x)
  | _ => none

def Instruction.decode (w : UInt16) : Instruction :=
  let x := wordDigit w 256
  let y := wordDigit w 16
  let n := wordDigit w 1
  let nn := wordByte w
  let nnn := wordAddress w
  match (wordDigit w 4096).val with
  | 0x0 =>
      match w.toNat with
      | 0x00E0 => .act .clearScreen
      | 0x00EE => .flow .ret
      | _ => .unknown w
  | 0x1 => .flow (.jump nnn)
  | 0x2 => .flow (.call nnn)
  | 0x3 => .flow (.skip (.byteEqual x nn))
  | 0x4 => .flow (.skip (.byteDiffers x nn))
  | 0x5 => if n.val = 0 then .flow (.skip (.registersEqual x y)) else .unknown w
  | 0x6 => .act (.setRegister x nn)
  | 0x7 => .act (.addToRegister x nn)
  | 0x8 =>
      match Arithmetic.ofDigit? n with
      | some op => .act (.arithmetic op x y)
      | none => .unknown w
  | 0x9 => if n.val = 0 then .flow (.skip (.registersDiffer x y)) else .unknown w
  | 0xA => .act (.setIndex nnn)
  | 0xB => .flow (.jumpOffset nnn)
  | 0xC => .act (.random x nn)
  | 0xD => .act (.draw x y n)
  | 0xE =>
      match nn.toNat with
      | 0x9E => .flow (.skip (.pressed x))
      | 0xA1 => .flow (.skip (.released x))
      | _ => .unknown w
  | _ =>
      match Action.ofCode? x nn.toNat with
      | some a => .act a
      | none => .unknown w

/-! ## Tests -/

example : Instruction.decode 0xD123 = .act (.draw 1 2 3) := by decide
example : Instruction.decode 0x00E0 = .act .clearScreen := by decide
example : Instruction.decode 0x812E = .act (.arithmetic .shiftLeft 1 2) := by decide
example : Instruction.decode 0x8128 = .unknown 0x8128 := by decide
example : Instruction.decode (word 0x12 0x04) = .flow (.jump 0x204) := by decide

end ChipEight
