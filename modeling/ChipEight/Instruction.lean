import ChipEight.Digit

/-!
# Instructions

An instruction is one of three kinds.

* An `Action` computes on the machine.  The next instruction is the one behind
  it, so every action needs that a word behind it can be addressed.
* A `Flow` decides which instruction is next and changes nothing else, the call
  stack of `call` and `ret` apart.
* Any other word is `unknown`.

`fallsThrough` tells actions from the rest.  Before an instruction is executed, it
decides if the word behind it is asked for (`Machine.demandNext`).
-/

namespace ChipEight

/-- What a register instruction does with the registers `x` and `y`. -/
inductive Arithmetic where
  | set
  | or
  | and
  | xor
  /-- Add `y`; the flag is the carry. -/
  | add
  /-- Subtract `y`; the flag tells that `x` was the greater. -/
  | sub
  /-- Halve `x`; the flag is the bit shifted out. -/
  | shiftRight
  /-- Subtract `x` from `y`; the flag tells that `y` was the greater. -/
  | subFrom
  /-- Double `x`; the flag is the bit shifted out. -/
  | shiftLeft
deriving DecidableEq, Repr

/-- The test of a skip. -/
inductive Condition where
  | byteEqual (x : Digit) (nn : UInt8)
  | byteDiffers (x : Digit) (nn : UInt8)
  | registersEqual (x y : Digit)
  | registersDiffer (x y : Digit)
  /-- The key named by the low bits of register `x` is down. -/
  | pressed (x : Digit)
  /-- The key named by the low bits of register `x` is up. -/
  | released (x : Digit)
deriving DecidableEq, Repr

/-- Instructions that choose the next instruction. -/
inductive Flow where
  | jump (nnn : UInt16)
  | jumpOffset (nnn : UInt16)
  | call (nnn : UInt16)
  | ret
  /-- Leave out the next instruction if the condition holds. -/
  | skip (c : Condition)
deriving DecidableEq, Repr

/-- Instructions that compute and then pass to the instruction behind them. -/
inductive Action where
  | clearScreen
  | setRegister (x : Digit) (nn : UInt8)
  | addToRegister (x : Digit) (nn : UInt8)
  | arithmetic (op : Arithmetic) (x y : Digit)
  | random (x : Digit) (nn : UInt8)
  | setIndex (nnn : UInt16)
  | addToIndex (x : Digit)
  /-- Draw `n` sprite rows at column `x`, row `y`. -/
  | draw (x y n : Digit)
  | awaitKey (x : Digit)
  | readDelay (x : Digit)
  | setDelay (x : Digit)
  | setSound (x : Digit)
  /-- Point the index at a built-in glyph. -/
  | glyph (x : Digit)
  /-- Store the three decimal digits of register `x`. -/
  | decimal (x : Digit)
  /-- Store the registers 0 to `x`. -/
  | store (x : Digit)
  /-- Load the registers 0 to `x`. -/
  | load (x : Digit)
deriving DecidableEq, Repr

inductive Instruction where
  | flow (f : Flow)
  | act (a : Action)
  | unknown (word : UInt16)
deriving DecidableEq, Repr

namespace Instruction

/-- True for the instructions whose successor is the word behind them. -/
def fallsThrough : Instruction → Bool
  | .act _ => true
  | _ => false

/-- True for an instruction that waits for a key. -/
def isAwaitKey : Instruction → Bool
  | .act (.awaitKey _) => true
  | _ => false

end Instruction

end ChipEight
