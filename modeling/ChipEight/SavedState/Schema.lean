import ChipEight.Json.Value
import ChipEight.SavedState

/-!
# The text of a saved state

A saved state is written as a JSON object with a member for each of its fields,
in the order of `fieldNames`.  It is read from an object with the same members
in any order, each name once, and from an array of the values in that order.
The member `awaiting_key` alone may be missing; it then reads as null.

A number must be written with digits alone and fit its field.
-/

namespace ChipEight

open Json (Value)

namespace SavedState

/-- The names of the fields, in the order they are written. -/
def fieldNames : List String :=
  ["version", "memory", "v", "i", "pc", "stack", "delay_timer", "sound_timer", "keypad",
    "display", "redraw", "awaiting_key"]

/-! ## Writing -/

def bytesValue (bs : List UInt8) : Value := .array (bs.map fun b => .ofNat b.toNat)

def wordsValue (ws : List UInt16) : Value := .array (ws.map fun w => .ofNat w.toNat)

def keypadValue (k : Keypad) : Value := .array (k.toList.map .bool)

def members (s : SavedState) : List (String × Value) :=
  [("version", .ofNat s.version.toNat),
    ("memory", bytesValue s.memory),
    ("v", bytesValue s.registers.toList),
    ("i", .ofNat s.index.toNat),
    ("pc", .ofNat s.pc.toNat),
    ("stack", wordsValue s.stack),
    ("delay_timer", .ofNat s.delay.toNat),
    ("sound_timer", .ofNat s.sound.toNat),
    ("keypad", keypadValue s.keypad),
    ("display", bytesValue s.display),
    ("redraw", .bool s.redraw),
    ("awaiting_key", (s.awaitingKey.map keypadValue).getD .null)]

def text (s : SavedState) : String := (Value.object s.members).render

/-! ## Reading the fields -/

/-- A natural number below a bound. -/
def natBelow? (bound : Nat) (v : Value) : Option Nat := v.natural?.filter (· < bound)

def byte? (v : Value) : Option UInt8 := (natBelow? 0x100 v).map UInt8.ofNat

def word? (v : Value) : Option UInt16 := (natBelow? 0x10000 v).map UInt16.ofNat

def doubleWord? (v : Value) : Option UInt32 := (natBelow? 0x100000000 v).map UInt32.ofNat

def bool? : Value → Option Bool
  | .bool b => some b
  | _ => none

def list? {α : Type} (element? : Value → Option α) : Value → Option (List α)
  | .array vs => vs.mapM element?
  | _ => none

def sixteen? {α : Type} (element? : Value → Option α) (v : Value) : Option (Bank α 16) := do
  let xs ← list? element? v
  if h : xs.length = 16 then some ⟨xs.toArray, h⟩ else none

/-- Null, or which keys are down. -/
def keyWait? : Value → Option (Option Keypad)
  | .null => some none
  | v => (sixteen? bool? v).map some

/-! ## Reading -/

/-- The state of members whose names are known and differ. -/
def ofMembers? (ms : List (String × Value)) : Option SavedState := do
  guard (∀ m ∈ ms, m.1 ∈ fieldNames)
  guard (ms.map Prod.fst).Nodup
  return {
    version := ← (ms.lookup "version").bind doubleWord?
    memory := ← (ms.lookup "memory").bind (list? byte?)
    registers := ← (ms.lookup "v").bind (sixteen? byte?)
    index := ← (ms.lookup "i").bind word?
    pc := ← (ms.lookup "pc").bind word?
    stack := ← (ms.lookup "stack").bind (list? word?)
    delay := ← (ms.lookup "delay_timer").bind byte?
    sound := ← (ms.lookup "sound_timer").bind byte?
    keypad := ← (ms.lookup "keypad").bind (sixteen? bool?)
    display := ← (ms.lookup "display").bind (list? byte?)
    redraw := ← (ms.lookup "redraw").bind bool?
    awaitingKey := ← keyWait? ((ms.lookup "awaiting_key").getD .null) }

def ofValue? : Value → Option SavedState
  | .object ms => ofMembers? ms
  | .array vs => if vs.length ≤ fieldNames.length then ofMembers? (fieldNames.zip vs) else none
  | _ => none

/-- The state a text holds.  It need not be one a machine can have. -/
def parse? (text : String) : Option SavedState := (Value.read? text).bind ofValue?

end SavedState

/-- Put the machine in the state a text holds.  The text is read and checked as a
whole before anything is changed. -/
def Procedure.restore (text : String) : Procedure Corruption Unit := do
  match SavedState.parse? text with
  | none => throw .malformed
  | some s =>
      match s.corruption? with
      | some c => throw c
      | none => modify s.restore

namespace Machine

/-! ## Saving and restoring a machine -/

def save (m : Machine) : String := (SavedState.capture m).text

def restore (m : Machine) (text : String) : Except Corruption Machine :=
  ((Procedure.restore text).result m).map Prod.snd

end Machine

end ChipEight
