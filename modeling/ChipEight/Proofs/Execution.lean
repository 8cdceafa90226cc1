import ChipEight.Proofs.Faults
import ChipEight.Proofs.Reachable

/-!
# What a run executes

`Machine.completed?` is the instruction the next cycle completes, if it does not
fail, and `Machine.executed` lists the instructions a list of calls completes.

A pacer does nothing to its machine but call it.  `Pacer.machineCalls` lists the
calls it makes: a tick is as many cycles as its burst runs and then one step of the
timers, however the burst ended, and an update is the ticks it runs.  The machine
behind a run of a pacer is the machine behind these calls (`machine_serveAll`), so
what holds of all lists of calls to a machine holds of pacers as well.
-/

namespace ChipEight

/-- The result of a cycle, if the reply is to one. -/
def Reply.result? : Reply → Option (Except Fault Outcome)
  | .cycled result => some result
  | _ => none

namespace Machine

variable {m : Machine}

/-! ## Instructions -/

/-- The instruction the next cycle completes. -/
def completed? (m : Machine) : Option Instruction :=
  match m.fetch, Procedure.cycle.answer m with
  | .ok w, .ok _ => some (Instruction.decode w)
  | _, _ => none

/-- The instructions the cycles of the calls complete, from the first to the last. -/
def executed : Machine → List Call → List Instruction
  | _, [] => []
  | m, c :: cs => (if c = .cycle then m.completed?.toList else []) ++ (m.serve c).2.executed cs

/-- The results of the cycles of the calls, from the first to the last. -/
def cycleResults (m : Machine) (calls : List Call) : List (Except Fault Outcome) :=
  (m.serveAll calls).1.filterMap Reply.result?

theorem completed?_of_fault {f : Fault} (h : m.aim = .error f) : m.completed? = none := by
  rw [completed?, Procedure.answer_of_run_error (Procedure.run_cycle_of_fault h)]
  cases m.fetch <;> rfl

theorem completed?_of_aim {i : Instruction} {next : UInt16} (h : m.aim = .ok (i, next)) :
    m.completed? = some i := by
  obtain ⟨w, hf, rfl, -⟩ := aim_eq_ok h
  rw [completed?, Procedure.answer_of_run_ok (Procedure.run_cycle_of_aim h), hf]

/-- An instruction that is completed had all its checks hold. -/
theorem aim_of_completed? {i : Instruction} (h : m.completed? = some i) :
    ∃ next, m.aim = .ok (i, next) := by
  cases ha : m.aim with
  | error f =>
      rw [completed?_of_fault ha] at h
      cases h
  | ok p =>
      rw [completed?_of_aim ha] at h
      cases h
      exact ⟨p.2, rfl⟩

/-- A cycle changes nothing, or completes one instruction whose checks hold. -/
theorem completed?_cases (m : Machine) :
    (m.completed? = none ∧ Procedure.cycle.after m = m) ∨
      ∃ i next, m.completed? = some i ∧ m.aim = .ok (i, next) ∧
        Procedure.cycle.after m = (m.complete i next).2 := by
  rcases Procedure.cycle_cases m with ⟨f, ha, hr⟩ | ⟨i, next, ha, hr⟩
  · exact Or.inl ⟨completed?_of_fault ha, Procedure.after_of_run_error hr⟩
  · exact Or.inr ⟨i, next, completed?_of_aim ha, ha, Procedure.after_of_run_ok hr⟩

/-! ## Lists of calls, one behind the other -/

theorem serveAll_append (m : Machine) (cs ds : List Call) :
    m.serveAll (cs ++ ds) =
      ((m.serveAll cs).1 ++ ((m.serveAll cs).2.serveAll ds).1,
        ((m.serveAll cs).2.serveAll ds).2) := by
  induction cs generalizing m with
  | nil => rfl
  | cons c cs ih => rw [List.cons_append, serveAll, ih]; rfl

theorem cycleResults_append (m : Machine) (cs ds : List Call) :
    m.cycleResults (cs ++ ds) = m.cycleResults cs ++ (m.serveAll cs).2.cycleResults ds := by
  rw [cycleResults, serveAll_append, List.filterMap_append]
  rfl

/-- A call that is no cycle executes nothing. -/
theorem executed_singleton (m : Machine) (c : Call) :
    m.executed [c] = if c = .cycle then m.completed?.toList else [] := List.append_nil _

theorem executed_cons (m : Machine) (c : Call) (cs : List Call) :
    m.executed (c :: cs) = m.executed [c] ++ (m.serve c).2.executed cs := by
  rw [executed_singleton, executed]

theorem executed_append (m : Machine) (cs ds : List Call) :
    m.executed (cs ++ ds) = m.executed cs ++ (m.serveAll cs).2.executed ds := by
  induction cs generalizing m with
  | nil => rfl
  | cons c cs ih => rw [List.cons_append, executed, executed, ih, List.append_assoc]; rfl

/-- The instructions that are executed are those that some cycle completes. -/
theorem mem_executed_iff {i : Instruction} {calls : List Call} :
    i ∈ m.executed calls ↔
      ∃ early late, calls = early ++ .cycle :: late ∧
        (m.serveAll early).2.completed? = some i := by
  constructor
  · intro h
    induction calls generalizing m with
    | nil => cases h
    | cons c cs ih =>
        rw [executed_cons, executed_singleton] at h
        rcases List.mem_append.mp h with h | h
        · by_cases hc : c = .cycle
          · rw [if_pos hc, Option.mem_toList] at h
            exact ⟨[], cs, congrArg (· :: cs) hc, h⟩
          · rw [if_neg hc] at h
            cases h
        · obtain ⟨early, late, rfl, hi⟩ := ih h
          exact ⟨c :: early, late, rfl, hi⟩
  · rintro ⟨early, late, rfl, hi⟩
    rw [executed_append, executed_cons, executed_singleton, if_pos rfl, hi]
    exact List.mem_append_right _ (List.mem_append_left _ (List.mem_singleton_self i))

/-- What holds of all instructions that are executed holds of the first and of the
further ones. -/
theorem forall_executed_cons {P : Instruction → Prop} {c : Call} {cs : List Call} :
    (∀ i ∈ m.executed (c :: cs), P i) ↔
      (c = .cycle → ∀ i, m.completed? = some i → P i) ∧
        ∀ i ∈ (m.serve c).2.executed cs, P i := by
  rw [executed, List.forall_mem_append]
  by_cases hc : c = .cycle
  · simp [hc]
  · simp [hc]

/-! ## Bursts -/

/-- How many cycles a burst of at most `n` runs. -/
def burstLength : Nat → Machine → Nat
  | 0, _ => 0
  | n + 1, m =>
      match Procedure.cycle.run m with
      | .ok .proceed after => burstLength n after + 1
      | _ => 1

theorem cycleResults_cons_cycle (m : Machine) (calls : List Call) :
    m.cycleResults (.cycle :: calls) =
      Procedure.cycle.answer m :: (Procedure.cycle.after m).cycleResults calls := rfl

/-- A burst is a number of cycles, and its result is that of the last one. -/
theorem burst_eq (n : Nat) (m : Machine) :
    let calls := List.replicate (m.burstLength n) Call.cycle
    m.burst n = ((m.cycleResults calls).getLast?.getD (.ok .proceed), (m.serveAll calls).2) := by
  induction n generalizing m with
  | zero => rfl
  | succ n ih =>
      rw [burst, burstLength]
      cases hr : Procedure.cycle.run m with
      | error f after =>
          simp only [List.replicate_one, cycleResults_cons_cycle, serveAll, serve,
            Procedure.answer_of_run_error hr, Procedure.after_of_run_error hr]
          rfl
      | ok outcome after =>
          have hanswer := Procedure.answer_of_run_ok hr
          have hafter := Procedure.after_of_run_ok hr
          cases outcome with
          | proceed =>
              simp only [List.replicate_succ, cycleResults_cons_cycle, serveAll, serve, hanswer,
                hafter, ih, List.getLast?_cons, Option.getD_some]
          | frameDone | awaitingKey =>
              simp only [List.replicate_one, cycleResults_cons_cycle, serveAll, serve, hanswer,
                hafter]
              rfl

end Machine

/-! ## Calls of a pacer -/

namespace Pacer

/-- The calls to the machine that a tick makes. -/
def tickCalls (p : Pacer) : List Call :=
  List.replicate (p.machine.burstLength p.rate) .cycle ++ [.tickTimers]

theorem passive_of_mem_tickCalls {p : Pacer} {c : Call} (hc : c ∈ p.tickCalls) : c.Passive := by
  rcases List.mem_append.mp hc with hc | hc
  · exact Or.inl (List.eq_of_mem_replicate hc)
  · exact Or.inr (List.mem_singleton.mp hc)

/-- However its burst ended, a tick is one step of the timers. -/
theorem count_tickCalls (p : Pacer) : p.tickCalls.count .tickTimers = 1 := by
  rw [tickCalls, List.count_append, List.count_replicate]
  rfl

/-- The calls to the machine that the ticks of a backlog make. -/
def catchUpCalls : Nat → Pacer → List Call
  | 0, _ => []
  | left + 1, p =>
      if timeStep ≤ p.backlog then
        p.tickCalls ++
          match { p with backlog := p.backlog - timeStep }.tick with
          | (.ok _, after) => catchUpCalls left after
          | (.error _, _) => []
      else []

/-- The calls to the machine that a call makes. -/
def machineCalls (p : Pacer) : PacerCall → List Call
  | .machine c => [c]
  | .tick => p.tickCalls
  | .update seconds => catchUpCalls maxTicksPerUpdate { p with backlog := p.backlog + seconds }
  | .load program => [.load program]
  | .start _ | .setRate _ | .adjustRate _ => []

/-- The calls to the machine that a list of calls makes. -/
def allMachineCalls : Pacer → List PacerCall → List Call
  | _, [] => []
  | p, c :: cs => p.machineCalls c ++ (p.serve c).allMachineCalls cs

theorem passive_of_mem_catchUpCalls {left : Nat} {p : Pacer} {c : Call}
    (hc : c ∈ catchUpCalls left p) : c.Passive := by
  induction left generalizing p with
  | zero => cases hc
  | succ left ih =>
      rw [catchUpCalls] at hc
      split at hc
      · rcases List.mem_append.mp hc with hc | hc
        · exact passive_of_mem_tickCalls hc
        · split at hc
          · exact ih hc
          · cases hc
      · cases hc

/-- A pacer passes calls on to its machine.  All it calls for by itself is to run the machine and
to let its timers count down. -/
theorem mem_machineCalls_cases {p : Pacer} {c : PacerCall} {d : Call} (hd : d ∈ p.machineCalls c) :
    d.Passive ∨ c = .machine d ∨ ∃ program, c = .load program ∧ d = .load program := by
  cases c with
  | machine c => exact Or.inr (Or.inl (congrArg PacerCall.machine (List.mem_singleton.mp hd).symm))
  | load program => exact Or.inr (Or.inr ⟨program, rfl, List.mem_singleton.mp hd⟩)
  | tick => exact Or.inl (passive_of_mem_tickCalls hd)
  | update seconds => exact Or.inl (passive_of_mem_catchUpCalls hd)
  | start _ | setRate _ | adjustRate _ => cases hd

/-- What holds of the calls that each call makes holds of the calls that all make. -/
theorem forall_mem_allMachineCalls {P : Call → Prop} {Q : PacerCall → Prop}
    (h : ∀ (p : Pacer) c, Q c → ∀ d ∈ p.machineCalls c, P d) {p : Pacer} {cs : List PacerCall}
    (hcs : ∀ c ∈ cs, Q c) : ∀ d ∈ p.allMachineCalls cs, P d := by
  induction cs generalizing p with
  | nil => exact nofun
  | cons c cs ih =>
      obtain ⟨hc, hcs⟩ := List.forall_mem_cons.mp hcs
      exact List.forall_mem_append.mpr ⟨h p c hc, ih hcs⟩

theorem machine_tick (p : Pacer) : p.tick.2.machine = (p.machine.serveAll p.tickCalls).2 := by
  rw [tick, Machine.burst_eq, tickCalls, Machine.serveAll_append]
  rfl

theorem machine_catchUp (left : Nat) (last : Outcome) (p : Pacer) :
    (p.catchUp left last).2.machine = (p.machine.serveAll (catchUpCalls left p)).2 := by
  induction left generalizing last p with
  | zero =>
      rw [catchUp]
      split <;> rfl
  | succ left ih =>
      by_cases hb : timeStep ≤ p.backlog
      · have ht := machine_tick { p with backlog := p.backlog - timeStep }
        simp only [catchUp, catchUpCalls, if_pos hb, Machine.serveAll_append]
        cases he : { p with backlog := p.backlog - timeStep }.tick with
        | mk result after =>
            rw [he] at ht
            cases result with
            | ok outcome =>
                dsimp only
                rw [ih, ht]
                rfl
            | error f => exact ht
      · rw [catchUp, catchUpCalls, if_neg hb, if_neg hb]
        rfl

theorem machine_serve (p : Pacer) (c : PacerCall) :
    (p.serve c).machine = (p.machine.serveAll (p.machineCalls c)).2 := by
  cases c with
  | tick => exact machine_tick p
  | update seconds => exact machine_catchUp _ _ { p with backlog := p.backlog + seconds }
  | load program =>
      rw [serve, machine_runLoad]
      rfl
  | _ => rfl

/-- A run of a pacer is, for its machine, a list of calls. -/
theorem machine_serveAll (p : Pacer) (cs : List PacerCall) :
    (p.serveAll cs).machine = (p.machine.serveAll (p.allMachineCalls cs)).2 := by
  induction cs generalizing p with
  | nil => rfl
  | cons c cs ih =>
      rw [allMachineCalls, Machine.serveAll_append, ← machine_serve, ← ih]
      rfl

end Pacer

end ChipEight
