import ChipEight.Binary32
import ChipEight.Instruction.Listing
import ChipEight.Pacer
import ChipEight.SavedState.Schema

/-!
# Notices

What a machine and its pacer report while they work.  A notice has a level and a
text; `Notice.line` joins them.

The second part says which notices an operation gives.  They depend on the state
before it alone, so each is a function beside the operation: `cycleNotices`
beside `cycle`, `updateNotices` beside `update`.  The notices of a loop are a loop as
well, and `ChipEight.Proofs.Notices` shows that both go on for as long.
-/

namespace ChipEight

/-- How important a notice is. -/
inductive Level where
  | trace
  | debug
  | info
  | warn
  | error
deriving DecidableEq, Repr

def Level.text : Level → String
  | .trace => "TRACE"
  | .debug => "DEBUG"
  | .info => "INFO"
  | .warn => "WARN"
  | .error => "ERROR"

/-- What happened in a machine or its pacer. -/
inductive Notice where
  | machineReset
  | programLoaded (bytes : Nat)
  | stateSaved (pc : UInt16) (bytes : Nat)
  | stateLoaded (pc : UInt16)
  /-- A word was fetched and is about to be executed. -/
  | fetched (pc word : UInt16)
  /-- A cycle of a burst failed. -/
  | cycleFailed (fault : Fault)
  /-- An update gave up on the rest of the backlog. -/
  | backlogDropped (seconds : Float32)
  | rateSet (rate : Nat)
deriving DecidableEq

namespace Notice

def level : Notice → Level
  | .fetched .. => .trace
  | .cycleFailed _ => .warn
  | _ => .debug

def text : Notice → String
  | .machineReset => "machine reset"
  | .programLoaded n =>
      "loaded " ++ toString n ++ " byte program at " ++ addressText 3 programStart
  | .stateSaved pc n =>
      "saved state at PC " ++ addressText 3 pc.toNat ++ " (" ++ toString n ++ " bytes)"
  | .stateLoaded pc => "loaded state at PC " ++ addressText 3 pc.toNat
  | .fetched pc w =>
      hexText 3 pc.toNat ++ ": " ++ hexText 4 w.toNat ++ " " ++ (Instruction.decode w).listing
  | .cycleFailed fault => "cpu cycle failed: " ++ fault.message
  | .backlogDropped seconds =>
      "dropping " ++ Binary32.fixedText 3 seconds ++ "s of emulation backlog"
  | .rateSet rate => "clock rate set to " ++ toString rate ++ " cycles per tick"

def line (n : Notice) : String := n.level.text ++ " " ++ n.text

end Notice

/-! ## The notices of a machine -/

namespace Machine

def resetNotices : List Notice := [.machineReset]

def loadNotices (m : Machine) (program : List UInt8) : List Notice :=
  match m.load program with
  | .ok _ => resetNotices ++ [.programLoaded program.length]
  | .error _ => []

def saveNotices (m : Machine) : List Notice := [.stateSaved m.pc m.save.utf8ByteSize]

def restoreNotices (m : Machine) (text : String) : List Notice :=
  match m.restore text with
  | .ok after => resetNotices ++ [.stateLoaded after.pc]
  | .error _ => []

/-- The notices of a cycle: the word, if one can be fetched. -/
def cycleNotices (m : Machine) : List Notice :=
  match m.fetch with
  | .ok w => [.fetched m.pc w]
  | .error _ => []

def burstNotices : Nat → Machine → List Notice
  | 0, _ => []
  | n + 1, m =>
      m.cycleNotices ++
        match Procedure.cycle.run m with
        | .ok .proceed after => burstNotices n after
        | .ok _ _ => []
        | .error fault _ => [.cycleFailed fault]

end Machine

/-! ## The notices of a pacer -/

namespace Pacer

def tickNotices (p : Pacer) : List Notice := p.machine.burstNotices p.rate

def catchUpNotices (left : Nat) (p : Pacer) : List Notice :=
  if timeStep ≤ p.backlog then
    match left with
    | 0 => [.backlogDropped p.backlog]
    | left + 1 =>
        p.tickNotices ++
          match { p with backlog := p.backlog - timeStep }.tick with
          | (.ok _, after) => catchUpNotices left after
          | (.error _, _) => []
  else []

def updateNotices (p : Pacer) (seconds : Float32) : List Notice :=
  catchUpNotices maxTicksPerUpdate { p with backlog := p.backlog + seconds }

def adjustNotices (p : Pacer) (delta : Int) : List Notice := [.rateSet (p.adjustRate delta).rate]

end Pacer

/-! ## Tests -/

example : (Notice.fetched 0x204 0x6A2B).line
    = "TRACE 204: 6A2B SetRegImm \x7b x: u4(10), nn: 43 \x7d" := by decide +kernel
example : (Notice.programLoaded 8).line = "DEBUG loaded 8 byte program at 0x200" := by
  decide +kernel

end ChipEight
