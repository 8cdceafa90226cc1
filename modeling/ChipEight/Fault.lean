import ChipEight.Digit

/-!
# Faults

What can stop an instruction, and what can keep a program out of memory.  Every
fault of an instruction carries the address of that instruction.
-/

namespace ChipEight

def memorySize : Nat := 4096

/-- The address a program is loaded at and started from. -/
def programStart : Nat := 0x200

/-- The longest program that fits behind its start. -/
def maxProgramSize : Nat := memorySize - programStart

/-- The most subroutine calls that may be pending. -/
def stackDepth : Nat := 16

/-- The highest address an instruction may be at. -/
def maxAddress : Nat := 0x0FFF

/-- Why an instruction could not be executed. -/
inductive Fault where
  /-- The instruction reaches for an address outside memory. -/
  | outOfBounds (address : Nat) (pc : UInt16)
  /-- A call with all stack entries in use. -/
  | stackOverflow (pc : UInt16)
  /-- A return with no call pending. -/
  | stackUnderflow (pc : UInt16)
  /-- The word is no instruction. -/
  | unsupported (word pc : UInt16)
deriving DecidableEq, Repr

/-- A program longer than `maxProgramSize`. -/
structure Oversize where
  size : Nat
deriving DecidableEq, Repr

/-! ## Messages -/

/-- An address in a message, with at least `width` digits. -/
def addressText (width n : Nat) : String := "0x" ++ hexText width n

/-- Where the instruction is that a fault stopped. -/
def placeText (pc : UInt16) : String := " (PC " ++ addressText 3 pc.toNat ++ ")"

def Fault.message : Fault → String
  | .outOfBounds address pc =>
      "Memory access out of bounds at address " ++ addressText 4 address ++ placeText pc
  | .stackOverflow pc =>
      "Stack overflow: call nesting exceeds " ++ toString stackDepth ++ " levels" ++ placeText pc
  | .stackUnderflow pc =>
      "Stack underflow: attempted to return from a subroutine with empty call stack" ++ placeText pc
  | .unsupported word pc =>
      "Unsupported opcode: " ++ addressText 4 word.toNat ++ placeText pc

def Oversize.message (o : Oversize) : String :=
  "Program is too large (" ++ toString o.size ++ " bytes), max size is " ++
    toString maxProgramSize ++ " bytes"

/-! ## Tests -/

example : (Fault.outOfBounds 0x1000 0x202).message
    = "Memory access out of bounds at address 0x1000 (PC 0x202)" := by decide +kernel
example : (Fault.unsupported 0x0123 0x200).message
    = "Unsupported opcode: 0x0123 (PC 0x200)" := by decide +kernel
example : (Oversize.mk 3585).message
    = "Program is too large (3585 bytes), max size is 3584 bytes" := by decide +kernel

end ChipEight
