import ChipEight.Machine.Cycle

/-!
# Keeping pace

A pacer runs a machine at sixty ticks a second, whatever the rate of its
instructions.  A tick is a burst of cycles followed by one step of the timers
(`Pacer.tick`).  A burst ends at the first cycle that does not simply proceed,
and at the latest when it has run as many cycles as the rate says.

Time that passes is added to a backlog in seconds, in single precision, and
`Pacer.update` runs a tick for each sixtieth of a second in it.  One update runs
at most `maxTicksPerUpdate` ticks and then drops what is left of the backlog, so
it always ends, also when the backlog is infinite.
-/

namespace ChipEight

def ticksPerSecond : Float32 := 60.0

def timeStep : Float32 := 1.0 / ticksPerSecond

/-- Cycles in a tick, unless a host asks for another rate. -/
def defaultRate : Nat := 12

def maxRate : Nat := 0xFFFFFFFF

/-- Ticks that one update runs at most. -/
def maxTicksPerUpdate : Nat := 4

/-- A machine, its rate and the time that is still to be run. -/
structure Pacer where
  machine : Machine
  rate : Nat
  /-- Seconds that passed and were not yet run. -/
  backlog : Float32
deriving DecidableEq

/-! ## Bursts -/

namespace Machine

/-- Run at most `n` cycles, until one does not simply proceed.  The machine is
the one the last cycle left. -/
def burst : Nat → Machine → Except Fault Outcome × Machine
  | 0, m => (.ok .proceed, m)
  | n + 1, m =>
      match Procedure.cycle.run m with
      | .ok .proceed after => burst n after
      | .ok outcome after => (.ok outcome, after)
      | .error fault after => (.error fault, after)

end Machine

namespace Pacer

/-! ## Rates -/

def nearestRate (n : Int) : Nat := (max 1 (min n maxRate)).toNat

def start (m : Machine) (rate : Nat) : Pacer := ⟨m, nearestRate rate, 0.0⟩

def setRate (p : Pacer) (rate : Nat) : Pacer := { p with rate := nearestRate rate }

def adjustRate (p : Pacer) (delta : Int) : Pacer := { p with rate := nearestRate (p.rate + delta) }

/-! ## Ticks -/

/-- A burst, and one step of the timers even if the burst failed. -/
def tick (p : Pacer) : Except Fault Outcome × Pacer :=
  let (result, machine) := p.machine.burst p.rate
  (result, { p with machine := machine.tickTimers })

/-- Run the ticks of the backlog, as long as `left` allows.  A tick that fails
ends the update. -/
def catchUp (left : Nat) (last : Outcome) (p : Pacer) : Except Fault Outcome × Pacer :=
  if timeStep ≤ p.backlog then
    match left with
    | 0 => (.ok last, { p with backlog := 0.0 })
    | left + 1 =>
        match { p with backlog := p.backlog - timeStep }.tick with
        | (.ok outcome, after) => catchUp left outcome after
        | (.error fault, after) => (.error fault, after)
  else (.ok last, p)

/-- Let time pass.  The result is that of the last cycle. -/
def update (p : Pacer) (seconds : Float32) : Except Fault Outcome × Pacer :=
  catchUp maxTicksPerUpdate .proceed { p with backlog := p.backlog + seconds }

/-! ## Programs and keys -/

/-- Load a program; the backlog is forgotten. -/
def runLoad (p : Pacer) (program : List UInt8) : Except Oversize Unit × Pacer :=
  match (Procedure.load program).run p.machine with
  | .ok _ machine => (.ok (), { p with machine, backlog := 0.0 })
  | .error o machine => (.error o, { p with machine })

def setKey (p : Pacer) (k : Digit) (down : Bool) : Pacer :=
  { p with machine := p.machine.setKey k down }

/-! ## Tests -/

example : timeStep.toBits = 1015580809 := by decide +kernel
example : nearestRate 0 = 1 ∧ nearestRate (-5) = 1 ∧ nearestRate 0x100000000 = 0xFFFFFFFF := by decide

end Pacer

end ChipEight
