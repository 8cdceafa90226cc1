import ChipEight.Instruction.Decode
import ChipEight.Machine

/-!
# Saved states

A `SavedState` is the part of a machine that outlives it: all but the place of
its random bytes and its tone requests.  Its fields may hold more than a machine
can, so a saved state from outside is checked first (`SavedState.corruption?`).

`SavedState.capture` takes the state of a machine and `SavedState.restore` puts
one into a machine.  Restoring is meant for checked states: it takes the memory
and the screen as far as they go.
-/

namespace ChipEight

def savedStateVersion : UInt32 := 1

/-- A machine's state, as it is saved. -/
structure SavedState where
  version : UInt32
  memory : List UInt8
  registers : Bank UInt8 16
  index : UInt16
  pc : UInt16
  /-- The addresses of the pending calls, the oldest first. -/
  stack : List UInt16
  delay : UInt8
  sound : UInt8
  keypad : Keypad
  /-- One byte a pixel, 0 or 1, row by row. -/
  display : List UInt8
  redraw : Bool
  /-- The keys at the start of a pending wait for a key. -/
  awaitingKey : Option Keypad
deriving DecidableEq, Repr

/-- Why a text is no saved state of a machine. -/
inductive Corruption where
  /-- The text is no JSON or lacks the fields of a saved state. -/
  | malformed
  | unsupportedVersion (version : UInt32)
  | memoryLength (bytes : Nat)
  | displayLength (pixels : Nat)
  | pixelValue (position : Nat) (value : UInt8)
  | pcOutOfRange (pc : UInt16)
  | indexOutOfRange (index : UInt16)
  | stackTooDeep (entries : Nat)
  | stackEntryOutOfRange (entry : UInt16)
  /-- A wait for a key is pending, and no instruction for it is at the address. -/
  | strayKeyWait (pc : UInt16)
deriving DecidableEq, Repr

namespace Corruption

def reason : Corruption → String
  | .malformed => "malformed blob"
  | .unsupportedVersion v =>
      "unsupported version " ++ toString v.toNat ++ " (expected " ++
        toString savedStateVersion.toNat ++ ")"
  | .memoryLength n => "memory holds " ++ toString n ++ " bytes, expected " ++ toString memorySize
  | .displayLength n =>
      "display holds " ++ toString n ++ " pixels, expected " ++ toString screenSize
  | .pixelValue position value =>
      "display pixel " ++ toString position ++ " has value " ++ toString value.toNat
  | .pcOutOfRange pc => "pc " ++ addressText 4 pc.toNat ++ " out of range"
  | .indexOutOfRange index => "index " ++ addressText 4 index.toNat ++ " out of range"
  | .stackTooDeep n => "stack depth " ++ toString n ++ " exceeds " ++ toString stackDepth
  | .stackEntryOutOfRange entry => "stack entry " ++ addressText 4 entry.toNat ++ " out of range"
  | .strayKeyWait pc =>
      "key wait pending but PC " ++ addressText 3 pc.toNat ++ " does not hold an Fx0A"

def message (c : Corruption) : String := "Corrupt save state: " ++ c.reason

end Corruption

namespace SavedState

/-! ## Saving -/

def capture (m : Machine) : SavedState where
  version := savedStateVersion
  memory := m.memory.toList
  registers := m.registers
  index := m.index
  pc := m.pc
  stack := m.stack.reverse
  delay := m.delay
  sound := m.sound
  keypad := m.keypad
  display := m.screen.toList.map fun on => if on then 1 else 0
  redraw := m.redraw
  awaitingKey := m.keyWait

/-! ## Checking -/

/-- The first pixel that is neither off nor on, with its position. -/
def badPixel? (s : SavedState) : Option (UInt8 × Nat) :=
  s.display.zipIdx.find? fun (value, _) => 1 < value

/-- The first stack entry that is no address of an instruction. -/
def badEntry? (s : SavedState) : Option UInt16 :=
  s.stack.find? fun entry => maxAddress < entry.toNat

/-- True if the word at the program counter waits for a key. -/
def waitsAtPc (s : SavedState) : Bool :=
  match s.memory[s.pc.toNat]?, s.memory[s.pc.toNat + 1]? with
  | some hi, some lo => (Instruction.decode (word hi lo)).isAwaitKey
  | _, _ => false

/-- The first thing a state holds that no machine can. -/
def corruption? (s : SavedState) : Option Corruption :=
  if s.version ≠ savedStateVersion then some (.unsupportedVersion s.version)
  else if s.memory.length ≠ memorySize then some (.memoryLength s.memory.length)
  else if s.display.length ≠ screenSize then some (.displayLength s.display.length)
  else
    match s.badPixel? with
    | some (value, position) => some (.pixelValue position value)
    | none =>
        if maxAddress < s.pc.toNat then some (.pcOutOfRange s.pc)
        else if maxAddress < s.index.toNat then some (.indexOutOfRange s.index)
        else if stackDepth < s.stack.length then some (.stackTooDeep s.stack.length)
        else
          match s.badEntry? with
          | some entry => some (.stackEntryOutOfRange entry)
          | none =>
              if s.awaitingKey.isSome ∧ s.waitsAtPc = false then some (.strayKeyWait s.pc)
              else none

/-! ## Restoring -/

/-- The machine in the saved state.  It is reset, and then every field that is
saved gets its value. -/
def restore (s : SavedState) (m : Machine) : Machine :=
  { m.reset with
    memory := Bank.ofList memorySize 0 s.memory
    registers := s.registers
    index := s.index
    pc := s.pc
    stack := s.stack.reverse
    delay := s.delay
    sound := s.sound
    keypad := s.keypad
    screen := Bank.ofList screenSize false (s.display.map (· == 1))
    redraw := s.redraw
    keyWait := s.awaitingKey }

end SavedState

end ChipEight
