import ChipEight.Instruction.Decode
import ChipEight.Machine

/-!
# One cycle

`Procedure.cycle` fetches the word at the program counter, decodes it and executes
the instruction on the machine in place.

The word behind an instruction that falls through must be addressable, and that is
checked before the instruction is looked at any further (`Machine.demandNext`).  A
flow instruction finds the next address (`follow`); a call and a return change the
stack on the way.  An action has the memory checked that it touches at the index
(`Action.span`).  What it then does is a plain function (`Machine.perform`).  The
last step of every instruction is to go to the next address (`goTo`).  That step
has a check of its own, which comes after everything the instruction changed.

`Machine.cycle` is the outcome of a cycle that does not fail, with the machine
behind it.
-/

namespace ChipEight

/-- How a cycle that did not fail ended. -/
inductive Outcome where
  /-- The next cycle may follow at once. -/
  | proceed
  /-- The screen was drawn on; the next cycle belongs to the next frame. -/
  | frameDone
  /-- The instruction waits for a key and will be executed again. -/
  | awaitingKey
deriving DecidableEq, Repr

/-! ## Register arithmetic -/

def flagRegister : Digit := Digit.ofNat 0xF

def flagByte (b : Bool) : UInt8 := if b then 1 else 0

/-- The result for the operands `a` and `b`, and the flag if there is one. -/
def Arithmetic.apply (op : Arithmetic) (a b : UInt8) : UInt8 × Option UInt8 :=
  match op with
  | .set => (b, none)
  | .or => (a ||| b, none)
  | .and => (a &&& b, none)
  | .xor => (a ^^^ b, none)
  | .add => (a + b, some (flagByte (255 < a.toNat + b.toNat)))
  | .sub => (a - b, some (flagByte (b < a)))
  | .shiftRight => (a >>> 1, some (a &&& 1))
  | .subFrom => (b - a, some (flagByte (a < b)))
  | .shiftLeft => (a <<< 1, some (a >>> 7))

/-- How many bytes an action touches at the index, if it touches memory. -/
def Action.span : Action → Option Nat
  | .draw _ _ n => some n.val
  | .decimal _ => some 3
  | .store x | .load x => some (x.val + 1)
  | _ => none

namespace Machine

/-! ## Demands -/

/-- An address an instruction may be at. -/
def reach (m : Machine) (target : UInt16) : Except Fault UInt16 :=
  if target.toNat ≤ maxAddress then .ok target else .error (.outOfBounds target.toNat m.pc)

/-- Bytes from `start` on must lie in memory; the fault names the last one. -/
def demand (m : Machine) (start length : Nat) : Except Fault Unit :=
  if start + length ≤ memorySize then .ok () else .error (.outOfBounds (start + length - 1) m.pc)

/-- The word behind an instruction that falls through must be addressable. -/
def demandNext (m : Machine) (i : Instruction) : Except Fault Unit := do
  if i.fallsThrough then
    discard (m.reach (m.pc + 2))

/-- The bytes an action touches at the index must lie in memory. -/
def demandSpan (m : Machine) (a : Action) : Except Fault Unit :=
  match a.span with
  | some length => m.demand m.index.toNat length
  | none => .ok ()

def fetch (m : Machine) : Except Fault UInt16 := do
  m.demand m.pc.toNat 2
  return word (m.byteAt m.pc.toNat) (m.byteAt (m.pc.toNat + 1))

/-! ## Flow -/

def holds (m : Machine) : Condition → Bool
  | .byteEqual x nn => m.register x == nn
  | .byteDiffers x nn => m.register x != nn
  | .registersEqual x y => m.register x == m.register y
  | .registersDiffer x y => m.register x != m.register y
  | .pressed x => m.isDown (Digit.ofLowBits (m.register x))
  | .released x => !m.isDown (Digit.ofLowBits (m.register x))

/-! ## Actions -/

/-- A register operation; the flag is written last. -/
def compute (m : Machine) (op : Arithmetic) (x y : Digit) : Machine :=
  let (result, flag) := op.apply (m.register x) (m.register y)
  let m := m.setRegister x result
  match flag with
  | some f => m.setRegister flagRegister f
  | none => m

/-- The sprite an instruction draws: its rows stand at the index, its place is in
two registers. -/
def spriteAt (m : Machine) (x y n : Digit) : Sprite :=
  ⟨(m.register x).toNat, (m.register y).toNat, m.bytesFrom m.index.toNat n.val⟩

/-- Draw a sprite; the flag tells whether it hit a pixel that was on. -/
def drawSprite (m : Machine) (sprite : Sprite) : Machine :=
  { m with
    screen := m.screen.draw sprite
    registers := m.registers.put flagRegister (flagByte (m.screen.hits sprite))
    redraw := true }

/-- The lowest key that is not as it was. -/
def changedKey? (m : Machine) (before : Keypad) : Option Digit :=
  Digit.all.find? fun k => m.isDown k != before.get k

/-- The first visit notes the keys; a later one that finds a key changed names it
in the register and ends the wait. -/
def awaitKey (m : Machine) (x : Digit) : Outcome × Machine :=
  match m.keyWait with
  | none => (.awaitingKey, { m with keyWait := some m.keypad })
  | some before =>
      match m.changedKey? before with
      | none => (.awaitingKey, m)
      | some k => (.proceed, { m.setRegister x k.toByte with keyWait := none })

/-- What an action whose demands are met does, the program counter apart. -/
def perform (m : Machine) : Action → Outcome × Machine
  | .clearScreen => (.proceed, { m with screen := Screen.blank, redraw := true })
  | .setRegister x nn => (.proceed, m.setRegister x nn)
  | .addToRegister x nn => (.proceed, m.setRegister x (m.register x + nn))
  | .arithmetic op x y => (.proceed, m.compute op x y)
  | .random x nn =>
      let (b, noise) := m.noise.take
      (.proceed, { m.setRegister x (b &&& nn) with noise })
  | .setIndex nnn => (.proceed, { m with index := nnn })
  | .addToIndex x =>
      (.proceed,
        { m with index := UInt16.ofNat ((m.index.toNat + (m.register x).toNat) % memorySize) })
  | .draw x y n => (.frameDone, m.drawSprite (m.spriteAt x y n))
  | .awaitKey x => m.awaitKey x
  | .readDelay x => (.proceed, m.setRegister x m.delay)
  | .setDelay x => (.proceed, { m with delay := m.register x })
  | .setSound x => (.proceed, { m with sound := m.register x })
  | .glyph x => (.proceed, { m with index := glyphAddress (m.register x) })
  | .decimal x =>
      let v := m.register x
      (.proceed, m.store m.index.toNat [v / 100, v / 10 % 10, v % 10])
  | .store x => (.proceed, m.store m.index.toNat (m.registers.toList.take (x.val + 1)))
  | .load x =>
      let bytes := m.bytesFrom m.index.toNat (x.val + 1)
      (.proceed, { m with registers := Bank.write m.registers 0 bytes })

def countTone (m : Machine) : Machine :=
  if m.sound = 0 then m else { m with tones := min (m.tones + 1) toneLimit }

end Machine

namespace Procedure

/-! ## Executing -/

/-- Where a flow instruction leads.  Addresses wrap around at sixteen bits. -/
def follow : Flow → Procedure Fault UInt16
  | .jump nnn => return nnn
  | .jumpOffset nnn => check fun m => m.reach (nnn + (m.register (Digit.ofNat 0)).toUInt16)
  | .call nnn => do
      let m ← get
      if stackDepth ≤ m.stack.length then
        throw (.stackOverflow m.pc)
      set { m with stack := m.pc :: m.stack }
      return nnn
  | .ret => do
      let m ← get
      match m.stack with
      | [] => throw (.stackUnderflow m.pc)
      | caller :: rest =>
          let target ← check fun m => m.reach (caller + 2)
          set { m with stack := rest }
          return target
  | .skip c => do
      let m ← get
      return m.pc + if m.holds c then 4 else 2

def goTo (target : UInt16) : Procedure Fault Unit := do
  let pc ← check fun m => m.reach target
  modify fun m => { m with pc }

/-- Check the memory an action touches, perform it and go on behind it.  An action that
waits for a key stays where it is. -/
def act (a : Action) : Procedure Fault Outcome := do
  let here := (← get).pc
  check fun m => m.demandSpan a
  let outcome ← modifyGet fun m => m.perform a
  goTo (if outcome = .awaitingKey then here else here + 2)
  return outcome

def execute (i : Instruction) : Procedure Fault Outcome := do
  check fun m => m.demandNext i
  match i with
  | .flow f => do
      goTo (← follow f)
      return .proceed
  | .act a => act a
  | .unknown w => do throw (.unsupported w (← get).pc)

def cycle : Procedure Fault Outcome := do
  let w ← check Machine.fetch
  let outcome ← execute (Instruction.decode w)
  modify Machine.countTone
  return outcome

end Procedure

def Machine.cycle (m : Machine) : Except Fault (Outcome × Machine) := Procedure.cycle.result m

end ChipEight
