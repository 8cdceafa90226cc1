import ChipEight.Proofs.Calls
import ChipEight.Proofs.Strict.Operations

/-!
# Machines that trap

All that is done to a machine or to a pacer, once more, and with the strict operations
wherever a cell is read or written, numbers are added up or cut, or a byte is taken for a
digit.  What needs no such operation is used as it is: the tests of addresses, the pending
calls, the random bytes, the arithmetic of bytes, which wraps, and the reading of texts.
Saving a machine needs none either, so it has no strict form.

A strict procedure can fail like any other, and it can trap (`Stop`).  `Procedure.guarded`
is a procedure that never traps, as one of these.
-/

namespace ChipEight

variable {ε α : Type}

/-! ## Guarded procedures -/

/-- What ends a procedure before its end. -/
inductive Stop (ε : Type) where
  | fault (e : ε)
  | trap (t : Trap)

abbrev Guarded (ε α : Type) := Procedure (Stop ε) α

def Procedure.guarded (p : Procedure ε α) : Guarded ε α := fun m =>
  match p.run m with
  | .ok a after => .ok a after
  | .error e after => .error (.fault e) after

namespace Guarded

/-- Ask the machine a question that may trap, and change nothing. -/
def attempt (question : Machine → Except Trap α) : Guarded ε α :=
  Procedure.check fun m =>
    match question m with
    | .ok a => .ok a
    | .error t => .error (.trap t)

/-- Ask the machine a question that may trap or fail, and change nothing. -/
def check (question : Machine → Except Trap (Except ε α)) : Guarded ε α := do
  match ← attempt question with
  | .ok a => return a
  | .error e => throw (.fault e)

/-- Work on the machine. -/
def change (work : Machine → Except Trap Machine) : Guarded ε Unit := do
  set (← attempt work)

/-- The answer and the machine behind it, unless the procedure traps. -/
def outcome (g : Guarded ε α) (m : Machine) : Except Trap (Except ε α × Machine) :=
  match g.run m with
  | .ok a after => .ok (.ok a, after)
  | .error (.fault e) after => .ok (.error e, after)
  | .error (.trap t) _ => .error t

end Guarded

namespace Strict

open Guarded (attempt)

/-! ## Programs -/

def reset (m : Machine) : Except Trap Machine := do
  let memory ← copy (Vector.replicate memorySize 0) glyphBase glyphEnd glyphRows
  return { m.reset with memory }

/-- A machine before its first program.  Its memory is blank until it is reset. -/
def boot (noise : Keystream) : Except Trap Machine :=
  reset { Machine.boot noise with memory := Vector.replicate memorySize 0 }

def load (program : List UInt8) : Guarded Oversize Unit := do
  if maxProgramSize < program.length then
    throw (.fault ⟨program.length⟩)
  Guarded.change reset
  Guarded.change fun m => do
    let stop ← size (programStart + program.length)
    let memory ← copy m.memory programStart stop program
    return { m with memory }

/-! ## Demands -/

def demand (m : Machine) (start length : Nat) : Except Trap (Except Fault Unit) := do
  match ← size (start + length) with
  | 0 => return .ok ()
  | last + 1 =>
      return if memorySize ≤ last then .error (.outOfBounds last m.pc) else .ok ()

def demandSpan (m : Machine) (a : Action) : Except Trap (Except Fault Unit) :=
  match a.span with
  | some length => do demand m m.index.toNat (← size length)
  | none => .ok (.ok ())

def fetch (m : Machine) : Except Trap (Except Fault UInt16) := do
  match ← demand m m.pc.toNat 2 with
  | .error f => return .error f
  | .ok _ =>
      let hi ← cell m.memory m.pc.toNat
      let lo ← cell m.memory (← size (m.pc.toNat + 1))
      return .ok (word hi lo)

/-! ## Decoding -/

/-- The parts of a word that an instruction is told by. -/
structure Operands where
  operation : UInt8
  x : Digit
  y : Digit
  n : Digit
  nn : UInt8
  nnn : UInt16

/-- The bits of a word under a mask, moved to the right end. -/
def nibble (w mask places : UInt16) : Except Trap UInt8 := toByte ((w &&& mask) >>> places).toNat

def operands (w : UInt16) : Except Trap Operands := do
  let operation ← nibble w 0xF000 12
  let x ← toDigit (← nibble w 0x0F00 8)
  let y ← toDigit (← nibble w 0x00F0 4)
  let n ← toDigit (← nibble w 0x000F 0)
  let nn ← toByte (w &&& 0x00FF).toNat
  return { operation, x, y, n, nn, nnn := w &&& 0x0FFF }

/-- The instruction of a word with the given operands, told by its four digits. -/
def Operands.instruction (o : Operands) (w : UInt16) : Instruction :=
  match o.operation.toNat, o.x.val, o.y.val, o.n.val with
  | 0x0, 0x0, 0xE, 0x0 => .act .clearScreen
  | 0x0, 0x0, 0xE, 0xE => .flow .ret
  | 0x1, _, _, _ => .flow (.jump o.nnn)
  | 0x2, _, _, _ => .flow (.call o.nnn)
  | 0x3, _, _, _ => .flow (.skip (.byteEqual o.x o.nn))
  | 0x4, _, _, _ => .flow (.skip (.byteDiffers o.x o.nn))
  | 0x5, _, _, 0x0 => .flow (.skip (.registersEqual o.x o.y))
  | 0x6, _, _, _ => .act (.setRegister o.x o.nn)
  | 0x7, _, _, _ => .act (.addToRegister o.x o.nn)
  | 0x8, _, _, _ =>
      match Arithmetic.ofDigit? o.n with
      | some op => .act (.arithmetic op o.x o.y)
      | none => .unknown w
  | 0x9, _, _, 0x0 => .flow (.skip (.registersDiffer o.x o.y))
  | 0xA, _, _, _ => .act (.setIndex o.nnn)
  | 0xB, _, _, _ => .flow (.jumpOffset o.nnn)
  | 0xC, _, _, _ => .act (.random o.x o.nn)
  | 0xD, _, _, _ => .act (.draw o.x o.y o.n)
  | 0xE, _, 0x9, 0xE => .flow (.skip (.pressed o.x))
  | 0xE, _, 0xA, 0x1 => .flow (.skip (.released o.x))
  | 0xF, _, 0x0, 0xA => .act (.awaitKey o.x)
  | 0xF, _, 0x0, 0x7 => .act (.readDelay o.x)
  | 0xF, _, 0x1, 0x5 => .act (.setDelay o.x)
  | 0xF, _, 0x1, 0x8 => .act (.setSound o.x)
  | 0xF, _, 0x1, 0xE => .act (.addToIndex o.x)
  | 0xF, _, 0x2, 0x9 => .act (.glyph o.x)
  | 0xF, _, 0x3, 0x3 => .act (.decimal o.x)
  | 0xF, _, 0x5, 0x5 => .act (.store o.x)
  | 0xF, _, 0x6, 0x5 => .act (.load o.x)
  | _, _, _, _ => .unknown w

/-- All operands are found first, whatever the instruction. -/
def decode (w : UInt16) : Except Trap Instruction := do
  return (← operands w).instruction w

/-! ## Sprites -/

/-- One pixel of a sprite row: flip the pixel at row `y` if the bit is set, and note if the
pixel was on. -/
def paintBit (b : UInt8) (x y : Nat) (done : Screen × Bool) (column : Nat) :
    Except Trap (Screen × Bool) := do
  let bit ← bitFromLeft column
  if b &&& bit ≠ 0 then
    let x := (← size (x + column)) % screenWidth
    let p ← size ((← size (y * screenWidth)) + x)
    let on ← cell done.1 p
    return (← setCell done.1 p (!on), done.2 || on)
  else return done

def paintRow (m : Machine) (x y : Nat) (done : Screen × Bool) (row : Nat) :
    Except Trap (Screen × Bool) := do
  let b ← cell m.memory (← size (m.index.toNat + row))
  let y := (← size (y + row)) % screenHeight
  (List.range 8).foldlM (paintBit b x y) done

def draw (m : Machine) (x y n : Digit) : Except Trap Machine := do
  let x := (← cell m.registers x.val).toNat % screenWidth
  let y := (← cell m.registers y.val).toNat % screenHeight
  let (screen, hit) ← (List.range n.val).foldlM (paintRow m x y) (m.screen, false)
  let registers ← setCell m.registers 0xF (flagByte hit)
  return { m with screen, registers, redraw := true }

/-! ## Actions -/

def compute (m : Machine) (op : Arithmetic) (x y : Digit) : Except Trap Machine := do
  let a ← cell m.registers x.val
  let b ← cell m.registers y.val
  let registers ← setCell m.registers x.val (op.apply a b).1
  match (op.apply a b).2 with
  | some f => return { m with registers := ← setCell registers 0xF f }
  | none => return { m with registers }

def changedKey? (m : Machine) (before : Keypad) : Except Trap (Option Digit) :=
  Digit.all.findM? fun k => do return (← cell m.keypad k.val) != (← cell before k.val)

def awaitKey (m : Machine) (x : Digit) : Except Trap (Outcome × Machine) := do
  match m.keyWait with
  | none => return (.awaitingKey, { m with keyWait := some m.keypad })
  | some before =>
      match ← changedKey? m before with
      | none => return (.awaitingKey, m)
      | some k =>
          let registers ← setCell m.registers x.val k.toByte
          return (.proceed, { m with registers, keyWait := none })

/-- What an action does behind its demands. -/
def perform (m : Machine) : Action → Except Trap (Outcome × Machine)
  | .setRegister x nn => do
      return (.proceed, { m with registers := ← setCell m.registers x.val nn })
  | .addToRegister x nn => do
      let b ← cell m.registers x.val
      return (.proceed, { m with registers := ← setCell m.registers x.val (b + nn) })
  | .arithmetic op x y => do return (.proceed, ← compute m op x y)
  | .random x nn => do
      let (b, noise) := m.noise.take
      return (.proceed, { m with registers := ← setCell m.registers x.val (b &&& nn), noise })
  | .addToIndex x => do
      let b ← cell m.registers x.val
      return (.proceed,
        { m with index := UInt16.ofNat ((m.index.toNat + b.toNat) % memorySize) })
  | .draw x y n => do return (.frameDone, ← draw m x y n)
  | .awaitKey x => awaitKey m x
  | .readDelay x => do
      return (.proceed, { m with registers := ← setCell m.registers x.val m.delay })
  | .setDelay x => do return (.proceed, { m with delay := ← cell m.registers x.val })
  | .setSound x => do return (.proceed, { m with sound := ← cell m.registers x.val })
  | .glyph x => do
      let b ← cell m.registers x.val
      let address ← size (glyphBase + (← size (b.toNat * glyphHeight)))
      return (.proceed, { m with index := ← toWord address })
  | .decimal x => do
      let v ← cell m.registers x.val
      let start := m.index.toNat
      let memory ← setCell m.memory start (v / 100)
      let memory ← setCell memory (← size (start + 1)) (v / 10 % 10)
      let memory ← setCell memory (← size (start + 2)) (v % 10)
      return (.proceed, { m with memory })
  | .store x => do
      let start := m.index.toNat
      let count ← size (x.val + 1)
      let stop ← size (start + count)
      let bytes ← slice m.registers 0 count
      return (.proceed, { m with memory := ← copy m.memory start stop bytes })
  | .load x => do
      let start := m.index.toNat
      let count ← size (x.val + 1)
      let stop ← size (start + count)
      let bytes ← slice m.memory start stop
      return (.proceed, { m with registers := ← copy m.registers 0 count bytes })
  | .clearScreen => .ok (m.perform .clearScreen)
  | .setIndex nnn => .ok (m.perform (.setIndex nnn))

/-! ## Cycles -/

def holds (m : Machine) : Condition → Except Trap Bool
  | .byteEqual x nn => do return (← cell m.registers x.val) == nn
  | .byteDiffers x nn => do return (← cell m.registers x.val) != nn
  | .registersEqual x y => do return (← cell m.registers x.val) == (← cell m.registers y.val)
  | .registersDiffer x y => do return (← cell m.registers x.val) != (← cell m.registers y.val)
  | .pressed x => do cell m.keypad (Digit.ofLowBits (← cell m.registers x.val)).val
  | .released x => do
      return !(← cell m.keypad (Digit.ofLowBits (← cell m.registers x.val)).val)

def follow : Flow → Guarded Fault UInt16
  | .jumpOffset nnn => do
      let offset ← attempt fun m => cell m.registers 0
      (Procedure.check fun m => m.reach (nnn + offset.toUInt16)).guarded
  | .skip c => do
      let skips ← attempt fun m => holds m c
      return (← get).pc + if skips then 4 else 2
  | .jump nnn => (Procedure.follow (.jump nnn)).guarded
  | .call nnn => (Procedure.follow (.call nnn)).guarded
  | .ret => (Procedure.follow .ret).guarded

def act (a : Action) : Guarded Fault Outcome := do
  let here := (← get).pc
  Guarded.check fun m => demandSpan m a
  let (outcome, after) ← attempt fun m => perform m a
  set after
  (Procedure.goTo (if outcome = .awaitingKey then here else here + 2)).guarded
  return outcome

def execute (i : Instruction) : Guarded Fault Outcome := do
  (Procedure.check fun m => m.demandNext i).guarded
  match i with
  | .flow f => do
      (Procedure.goTo (← follow f)).guarded
      return .proceed
  | .act a => act a
  | .unknown w => do throw (.fault (.unsupported w (← get).pc))

/-- The count stays where it is when it cannot be counted further. -/
def countTone (m : Machine) : Except Trap Machine := do
  if m.sound = 0 then return m
  else return { m with tones := ← size (min (m.tones + 1) toneLimit) }

def cycle : Guarded Fault Outcome := do
  let w ← Guarded.check fetch
  let i ← attempt fun _ => decode w
  let outcome ← execute i
  Guarded.change countTone
  return outcome

/-! ## Timers, keys and pixels -/

def tickTimers (m : Machine) : Except Trap Machine := do
  return { m with
    delay := ← toByte (m.delay.toNat - 1)
    sound := ← toByte (m.sound.toNat - 1) }

def setKey (m : Machine) (k : Digit) (down : Bool) : Except Trap Machine := do
  return { m with keypad := ← setCell m.keypad k.val down }

/-- The pixel at a row and a column of the host's choice. -/
def pixelAt (m : Machine) (row column : Nat) : Except Trap Bool := do
  cell m.screen (← size ((← size (row * screenWidth)) + column))

/-! ## Saved states -/

/-- True if the word at the program counter waits for a key.  A word that does not lie in
the saved memory with both its bytes is none. -/
def waitsAtPc (s : SavedState) : Except Trap Bool := do
  let stop ← size (s.pc.toNat + 2)
  if stop ≤ s.memory.length then
    match (s.memory.drop s.pc.toNat).take 2 with
    | [hi, lo] => return (← decode (word hi lo)).isAwaitKey
    | _ => return false
  else return false

def corruption? (s : SavedState) : Except Trap (Option Corruption) := do
  if s.version ≠ savedStateVersion then return some (.unsupportedVersion s.version)
  else if s.memory.length ≠ memorySize then return some (.memoryLength s.memory.length)
  else if s.display.length ≠ screenSize then return some (.displayLength s.display.length)
  else
    match s.display.findIdx? (1 < ·) with
    | some position => return some (.pixelValue position (← item s.display position))
    | none =>
        if maxAddress < s.pc.toNat then return some (.pcOutOfRange s.pc)
        else if maxAddress < s.index.toNat then return some (.indexOutOfRange s.index)
        else if stackDepth < s.stack.length then return some (.stackTooDeep s.stack.length)
        else
          match s.badEntry? with
          | some entry => return some (.stackEntryOutOfRange entry)
          | none =>
              if s.awaitingKey.isSome then
                return if ← waitsAtPc s then none else some (.strayKeyWait s.pc)
              else return none

/-- Put the machine in a saved state.  Only the memory is copied as a whole. -/
def restoreState (s : SavedState) (m : Machine) : Except Trap Machine := do
  let m ← reset m
  let memory ← copy m.memory 0 memorySize s.memory
  return { s.restore m with memory }

def restore (text : String) : Guarded Corruption Unit := do
  match SavedState.parse? text with
  | none => throw (.fault .malformed)
  | some s =>
      match ← attempt fun _ => corruption? s with
      | some c => throw (.fault c)
      | none => Guarded.change (restoreState s)

/-- A new machine in the state a text holds. -/
def ofText (noise : Keystream) (text : String) : Except Trap (Except Corruption Machine) := do
  let (answer, m) ← (restore text).outcome (← boot noise)
  return answer.map fun _ => m

/-! ## Calls -/

def serve (m : Machine) : Call → Except Trap (Reply × Machine)
  | .cycle => do
      let (result, after) ← cycle.outcome m
      return (.cycled result, after)
  | .tickTimers => do return (.done, ← tickTimers m)
  | .setKey k down => do return (.done, ← setKey m k down)
  | .reset => do return (.done, ← reset m)
  | .load program => do
      let (result, after) ← (load program).outcome m
      return (.loaded result, after)
  | .restore text => do
      let (result, after) ← (restore text).outcome m
      return (.restored result, after)
  | .setKeys keys => .ok (m.serve (.setKeys keys))
  | .clearRedraw => .ok (m.serve .clearRedraw)
  | .takeTones => .ok (m.serve .takeTones)

/-! ## Pacers -/

def burst : Nat → Machine → Except Trap (Except Fault Outcome × Machine)
  | 0, m => .ok (.ok .proceed, m)
  | n + 1, m => do
      let (result, after) ← cycle.outcome m
      match result with
      | .ok .proceed => burst n after
      | result => return (result, after)

def tick (p : Pacer) : Except Trap (Except Fault Outcome × Pacer) := do
  let (result, machine) ← burst p.rate p.machine
  return (result, { p with machine := ← tickTimers machine })

/-- Run the ticks of the backlog, as long as `left` allows, and count them. -/
def catchUp (left ticks : Nat) (last : Outcome) (p : Pacer) :
    Except Trap (Except Fault Outcome × Pacer) :=
  if timeStep ≤ p.backlog then
    match left with
    | 0 => .ok (.ok last, { p with backlog := 0.0 })
    | left + 1 => do
        match ← tick { p with backlog := p.backlog - timeStep } with
        | (.ok outcome, after) => catchUp left (← size (ticks + 1)) outcome after
        | (.error fault, after) => return (.error fault, after)
  else .ok (.ok last, p)

def update (p : Pacer) (seconds : Float32) : Except Trap (Except Fault Outcome × Pacer) :=
  catchUp maxTicksPerUpdate 0 .proceed { p with backlog := p.backlog + seconds }

def runLoad (p : Pacer) (program : List UInt8) : Except Trap (Except Oversize Unit × Pacer) := do
  match ← (load program).outcome p.machine with
  | (.ok _, machine) => return (.ok (), { p with machine, backlog := 0.0 })
  | (.error o, machine) => return (.error o, { p with machine })

/-- The rate nearest to a number, which has to be counted to in every tick. -/
def nearestRate (n : Int) : Except Trap Nat := size (Pacer.nearestRate n)

def start (m : Machine) (rate : Nat) : Except Trap Pacer := do
  return ⟨m, ← nearestRate rate, 0.0⟩

def servePacer (p : Pacer) : PacerCall → Except Trap Pacer
  | .machine c => do return { p with machine := (← serve p.machine c).2 }
  | .start rate => start p.machine rate
  | .tick => do return (← tick p).2
  | .update seconds => do return (← update p seconds).2
  | .load program => do return (← runLoad p program).2
  | .setRate rate => do return { p with rate := ← nearestRate rate }
  | .adjustRate delta => do return { p with rate := ← nearestRate (p.rate + delta) }

/-- A new pacer behind a list of calls. -/
def run (key : StreamKey) (rate : Nat) (calls : List PacerCall) : Except Trap Pacer := do
  calls.foldlM servePacer (← start (← boot (Keystream.ofKey key)) rate)

/-! ## Tests -/

/-- Without its demands, an action at the end of memory traps. -/
example : (perform { Machine.ofSeed 1 with index := 0xFFE } (.decimal 0)).toOption = none := by
  decide +kernel

/-- Without its checks, a saved state of another length traps. -/
example : restoreState { SavedState.capture (Machine.ofSeed 1) with memory := [] }
    (Machine.ofSeed 1) = .error (.lengths 0 memorySize) := by decide +kernel

end Strict

end ChipEight
