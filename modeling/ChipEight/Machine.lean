import ChipEight.Fault
import ChipEight.Glyphs
import ChipEight.Keystream
import ChipEight.Screen

/-!
# The machine

A machine is its memory, screen, registers, call stack, timers and keys, and the
place its random bytes are taken from.

`Machine.reset` gives every part its first value except the stream of random
bytes, which goes on where it was.  What a host does between two instructions is
here as well: the timers count down (`tickTimers`), keys go down and up (`setKey`,
`setKeys`), and the host collects the tones asked for (`takeTones`) and the redraw
flag (`clearRedraw`).  Executing instructions is the next module.

What may fail is a `Procedure`.  It works on the machine in place, and when it
fails the machine stays as it was changed until then; that nothing was changed is
a theorem about each procedure, not a property of all.  `Procedure.load` resets
and puts a program at `programStart`, and `Machine.load` is the machine it leaves
when it does not fail.
-/

namespace ChipEight

/-- Which keys are down. -/
abbrev Keypad := Bank Bool 16

/-- The most tone requests that are counted. -/
def toneLimit : Nat := 0xFFFFFFFF

structure Machine where
  memory : Bank UInt8 memorySize
  screen : Screen
  /-- Set when the screen was written since the host last cleared it. -/
  redraw : Bool
  pc : UInt16
  index : UInt16
  registers : Bank UInt8 16
  /-- The addresses of the pending calls, the latest first. -/
  stack : List UInt16
  delay : UInt8
  sound : UInt8
  /-- The keys at the start of a pending wait for a key. -/
  keyWait : Option Keypad
  keypad : Keypad
  /-- Cycles that ended with the sound timer running, since last collected. -/
  tones : Nat
  /-- Where the next random byte comes from. -/
  noise : Keystream
deriving DecidableEq, Repr

namespace Machine

/-! ## Start -/

/-- Memory with nothing but the glyphs. -/
def bareMemory : Bank UInt8 memorySize :=
  Bank.write (Vector.replicate memorySize 0) glyphBase glyphRows

/-- A machine before its first program. -/
def boot (noise : Keystream) : Machine where
  memory := bareMemory
  screen := Screen.blank
  redraw := false
  pc := UInt16.ofNat programStart
  index := 0
  registers := Vector.replicate 16 0
  stack := []
  delay := 0
  sound := 0
  keyWait := none
  keypad := Vector.replicate 16 false
  tones := 0
  noise := noise

def ofSeed (seed : UInt64) : Machine := boot (Keystream.ofSeed seed)

/-- Everything starts anew but the random bytes. -/
def reset (m : Machine) : Machine := boot m.noise

@[simp] theorem boot_tones (noise : Keystream) : (boot noise).tones = 0 := by rw [boot]

@[simp] theorem boot_noise (noise : Keystream) : (boot noise).noise = noise := by rw [boot]

@[simp] theorem reset_tones (m : Machine) : m.reset.tones = 0 := by rw [reset, boot]

@[simp] theorem reset_noise (m : Machine) : m.reset.noise = m.noise := by rw [reset, boot]

/-! ## Reading -/

/-- The byte at an address; outside memory there are only zeros. -/
def byteAt (m : Machine) (address : Nat) : UInt8 := m.memory[address]?.getD 0

/-- The bytes from an address on. -/
def bytesFrom (m : Machine) (start length : Nat) : List UInt8 :=
  (List.range length).map fun k => m.byteAt (start + k)

@[simp] theorem length_bytesFrom (m : Machine) (start length : Nat) :
    (m.bytesFrom start length).length = length := by
  rw [bytesFrom, List.length_map, List.length_range]

def register (m : Machine) (x : Digit) : UInt8 := m.registers.get x

def isDown (m : Machine) (k : Digit) : Bool := m.keypad.get k

def isAwaitingKey (m : Machine) : Bool := m.keyWait.isSome

/-! ## Writing -/

def setRegister (m : Machine) (x : Digit) (b : UInt8) : Machine :=
  { m with registers := m.registers.put x b }

def store (m : Machine) (start : Nat) (bytes : List UInt8) : Machine :=
  { m with memory := Bank.write m.memory start bytes }

@[simp] theorem store_tones (m : Machine) (start : Nat) (bytes : List UInt8) :
    (m.store start bytes).tones = m.tones := by rw [store]

@[simp] theorem store_noise (m : Machine) (start : Nat) (bytes : List UInt8) :
    (m.store start bytes).noise = m.noise := by rw [store]

/-! ## What the host does -/

/-- Both timers count down and stop at zero. -/
def tickTimers (m : Machine) : Machine :=
  { m with delay := UInt8.ofNat (m.delay.toNat - 1), sound := UInt8.ofNat (m.sound.toNat - 1) }

def setKey (m : Machine) (k : Digit) (down : Bool) : Machine :=
  { m with keypad := m.keypad.put k down }

def setKeys (m : Machine) (keys : Keypad) : Machine := { m with keypad := keys }

def takeTones (m : Machine) : Nat × Machine := (m.tones, { m with tones := 0 })

def clearRedraw (m : Machine) : Machine := { m with redraw := false }

end Machine

/-! ## Procedures -/

/-- Work on a machine in place.  What was changed before a failure stays changed. -/
abbrev Procedure (ε α : Type) := EStateM ε Machine α

namespace Procedure

variable {ε α : Type}

/-- Ask the machine a question that may fail, and change nothing. -/
def check (question : Machine → Except ε α) : Procedure ε α := do
  match question (← get) with
  | .ok a => return a
  | .error e => throw e

/-- The result and the machine behind it, of a procedure that does not fail. -/
def result (p : Procedure ε α) (m : Machine) : Except ε (α × Machine) :=
  match p.run m with
  | .ok a after => .ok (a, after)
  | .error e _ => .error e

/-- The machine a procedure leaves, also if it fails. -/
def after (p : Procedure ε α) (m : Machine) : Machine :=
  match p.run m with
  | .ok _ after => after
  | .error _ after => after

def answer (p : Procedure ε α) (m : Machine) : Except ε α :=
  match p.run m with
  | .ok a _ => .ok a
  | .error e _ => .error e

/-- Reset and put a program in memory.  One that does not fit is refused before
anything is reset. -/
def load (program : List UInt8) : Procedure Oversize Unit := do
  if maxProgramSize < program.length then
    throw ⟨program.length⟩
  modify Machine.reset
  modify fun m => m.store programStart program

/-! ## Lemmas -/

theorem run_check (question : Machine → Except ε α) (m : Machine) :
    (check question).run m =
      match question m with
      | .ok a => .ok a m
      | .error e => .error e m := by
  simp only [check, EStateM.run_bind, EStateM.run_get]
  cases question m <;> rfl

theorem after_of_run_ok {p : Procedure ε α} {m m' : Machine} {a : α}
    (h : p.run m = .ok a m') : p.after m = m' := by
  rw [after, h]

theorem after_of_run_error {p : Procedure ε α} {m m' : Machine} {e : ε}
    (h : p.run m = .error e m') : p.after m = m' := by
  rw [after, h]

theorem answer_of_run_ok {p : Procedure ε α} {m m' : Machine} {a : α}
    (h : p.run m = .ok a m') : p.answer m = .ok a := by
  rw [answer, h]

theorem answer_of_run_error {p : Procedure ε α} {m m' : Machine} {e : ε}
    (h : p.run m = .error e m') : p.answer m = .error e := by
  rw [answer, h]

/-- A program is refused for its length alone, and the machine is then as it was. -/
theorem run_load (program : List UInt8) (m : Machine) :
    (load program).run m =
      if maxProgramSize < program.length then .error ⟨program.length⟩ m
      else .ok () (m.reset.store programStart program) := by
  unfold load
  split <;> rfl

/-- Loading is refused, or starts the machine anew with the program. -/
theorem load_cases (program : List UInt8) (m : Machine) :
    (∃ o, (load program).run m = .error o m) ∨
      (load program).run m = .ok () (m.reset.store programStart program) := by
  rw [run_load]
  by_cases h : maxProgramSize < program.length
  · exact Or.inl ⟨_, if_pos h⟩
  · exact Or.inr (if_neg h)

end Procedure

namespace Machine

def load (m : Machine) (program : List UInt8) : Except Oversize Machine :=
  ((Procedure.load program).result m).map Prod.snd

theorem load_eq (m : Machine) (program : List UInt8) :
    m.load program =
      if maxProgramSize < program.length then .error ⟨program.length⟩
      else .ok (m.reset.store programStart program) := by
  rw [load, Procedure.result, Procedure.run_load]
  by_cases h : maxProgramSize < program.length
  · rw [if_pos h, if_pos h]
    rfl
  · rw [if_neg h, if_neg h]
    rfl

end Machine

end ChipEight
