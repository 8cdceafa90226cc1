import ChipEight.Pacer
import ChipEight.SavedState.Schema

/-!
# Calls

What a host can ask of a machine is a `Call`, and what it learns is a `Reply`.
`Machine.serve` answers one call and `Machine.serveAll` a list of them, from the
first to the last.  A call that fails is answered like any other and leaves the
machine its procedure left.

A pacer passes calls on to its machine and has calls of its own (`PacerCall`).  A
machine is `Reachable` when some pacer has it after some list of calls.  The pacer
was started with a machine that had no program yet, at any rate and with any key
for its random bytes.
-/

namespace ChipEight

/-! ## Calls to a machine -/

/-- What a host can ask of a machine. -/
inductive Call where
  | cycle
  | tickTimers
  | setKey (k : Digit) (down : Bool)
  | setKeys (keys : Keypad)
  | clearRedraw
  | takeTones
  | reset
  | load (program : List UInt8)
  | restore (text : String)
deriving DecidableEq, Repr

/-- True for the calls that replace the whole machine. -/
def Call.loads : Call → Bool
  | .reset | .load _ | .restore _ => true
  | _ => false

instance exceptDecEq {ε α : Type} [DecidableEq ε] [DecidableEq α] : DecidableEq (Except ε α)
  | .error e, .error f => decidable_of_iff (e = f) ⟨congrArg _, Except.error.inj⟩
  | .ok a, .ok b => decidable_of_iff (a = b) ⟨congrArg _, Except.ok.inj⟩
  | .error _, .ok _ => isFalse fun h => nomatch h
  | .ok _, .error _ => isFalse fun h => nomatch h

/-- What a host learns from a call. -/
inductive Reply where
  | done
  | cycled (result : Except Fault Outcome)
  | tones (count : Nat)
  | loaded (result : Except Oversize Unit)
  | restored (result : Except Corruption Unit)
deriving DecidableEq, Repr

namespace Machine

/-- The reply to a call and the machine behind it. -/
def serve (m : Machine) : Call → Reply × Machine
  | .cycle => (.cycled (Procedure.cycle.answer m), Procedure.cycle.after m)
  | .tickTimers => (.done, m.tickTimers)
  | .setKey k down => (.done, m.setKey k down)
  | .setKeys keys => (.done, m.setKeys keys)
  | .clearRedraw => (.done, m.clearRedraw)
  | .takeTones => (.tones m.takeTones.1, m.takeTones.2)
  | .reset => (.done, m.reset)
  | .load program =>
      (.loaded ((Procedure.load program).answer m), (Procedure.load program).after m)
  | .restore text =>
      (.restored ((Procedure.restore text).answer m), (Procedure.restore text).after m)

/-- The replies to a list of calls and the machine behind the last. -/
def serveAll : Machine → List Call → List Reply × Machine
  | m, [] => ([], m)
  | m, c :: cs =>
      let (replies, after) := (m.serve c).2.serveAll cs
      ((m.serve c).1 :: replies, after)

end Machine

/-! ## Calls to a pacer -/

/-- What a host can ask of a pacer. -/
inductive PacerCall where
  /-- A call to the machine itself. -/
  | machine (c : Call)
  /-- The machine is given to a new pacer. -/
  | start (rate : Nat)
  | tick
  | update (seconds : Float32)
  | load (program : List UInt8)
  | setRate (rate : Nat)
  | adjustRate (delta : Int)

namespace Pacer

/-- The pacer behind a call. -/
def serve (p : Pacer) : PacerCall → Pacer
  | .machine c => { p with machine := (p.machine.serve c).2 }
  | .start rate => start p.machine rate
  | .tick => p.tick.2
  | .update seconds => (p.update seconds).2
  | .load program => (p.runLoad program).2
  | .setRate rate => p.setRate rate
  | .adjustRate delta => p.adjustRate delta

/-- The pacer behind a list of calls. -/
def serveAll (p : Pacer) (calls : List PacerCall) : Pacer := calls.foldl serve p

/-- A pacer as a host first has it. -/
def fresh (key : StreamKey) (rate : Nat) : Pacer :=
  start (Machine.boot (Keystream.ofKey key)) rate

end Pacer

/-- A machine a host can come to have. -/
def Machine.Reachable (m : Machine) : Prop :=
  ∃ key rate calls, ((Pacer.fresh key rate).serveAll calls).machine = m

end ChipEight
