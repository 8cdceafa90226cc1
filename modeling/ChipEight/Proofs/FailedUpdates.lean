import ChipEight.Proofs.Execution

/-!
# Updates that fail

A cycle that fails ends its burst, and the tick and the update the burst is part of.  So
it is the last cycle of the update, and it changes nothing.  All that comes behind it is
the step of the timers that ends every tick.

`Machine.Ends` says this of a list of calls to a machine.  It holds of the calls of a
burst, and calls without a failure may be put in front (`Ends.append`), so it holds of those
of an update as well (`Pacer.update_ends`).
-/

namespace ChipEight

namespace Machine

variable {m : Machine} {f : Fault}

/-- None of the cycles of the calls fails. -/
def Succeeds (m : Machine) (calls : List Call) : Prop := ∀ f, .error f ∉ m.cycleResults calls

theorem Succeeds.append {cs ds : List Call} (hc : m.Succeeds cs)
    (hd : (m.serveAll cs).2.Succeeds ds) : m.Succeeds (cs ++ ds) := by
  intro f hf
  rw [cycleResults_append] at hf
  rcases List.mem_append.mp hf with hf | hf
  · exact hc f hf
  · exact hd f hf

/-- How a burst that is followed by a step of the timers ends, or several of these: none of
its cycles fails, or the last one does, and the step of the timers is all that follows. -/
inductive Ends (m : Machine) : List Call → Except Fault Outcome → Prop where
  | succeeds {calls : List Call} (o : Outcome) (h : m.Succeeds calls) : m.Ends calls (.ok o)
  | fails (early : List Call) {f : Fault} (h : m.Succeeds early)
      (hf : (m.serveAll early).2.aim = .error f) :
      m.Ends (early ++ [.cycle, .tickTimers]) (.error f)

namespace Ends

variable {calls : List Call} {result : Except Fault Outcome}

/-- Calls without a failure may be put in front. -/
theorem append (early : List Call) (h : (m.serveAll early).2.Ends calls result)
    (he : m.Succeeds early) : m.Ends (early ++ calls) result := by
  cases h with
  | succeeds o h => exact .succeeds o (he.append h)
  | fails late h hf =>
      rw [← List.append_assoc]
      refine .fails (early ++ late) (he.append h) ?_
      rw [serveAll_append]
      exact hf

/-- The failure is that of a cycle. -/
theorem mem_iff (h : m.Ends calls result) :
    .error f ∈ m.cycleResults calls ↔ result = .error f := by
  cases h with
  | succeeds o h => exact ⟨fun hf => absurd hf (h f), nofun⟩
  | @fails early g h hf =>
      have hcycle : (m.serveAll early).2.cycleResults [.cycle, .tickTimers] = [.error g] := by
        rw [cycleResults, serveAll, serve_cycle_of_fault hf]
        rfl
      rw [cycleResults_append, hcycle, List.mem_append, List.mem_singleton]
      constructor
      · rintro (hf | hf)
        · exact absurd hf (h f)
        · exact hf.symm
      · intro hf
        exact Or.inr hf.symm

/-- The machine behind a failure is the one the failing cycle found, after one step of its
timers. -/
theorem of_error (h : m.Ends calls (.error f)) :
    ∃ early before, calls = early ++ [.cycle, .tickTimers] ∧ m.Succeeds early ∧
      before = (m.serveAll early).2 ∧ Procedure.cycle.run before = .error f before ∧
      (m.serveAll calls).2 = before.tickTimers := by
  cases h with
  | fails early h hf =>
      have hr := Procedure.run_cycle_of_fault hf
      refine ⟨early, _, rfl, h, rfl, hr, ?_⟩
      simp only [serveAll_append, serveAll, serve, Procedure.after_of_run_error hr]

theorem of_ok {o : Outcome} (h : m.Ends calls (.ok o)) : m.Succeeds calls := by
  cases h with
  | succeeds _ h => exact h

end Ends

theorem burst_ends (n : Nat) (m : Machine) :
    m.Ends (List.replicate (m.burstLength n) .cycle ++ [.tickTimers]) (m.burst n).1 := by
  induction n generalizing m with
  | zero => exact .succeeds _ fun _ => List.not_mem_nil
  | succ n ih =>
      rcases Procedure.cycle_cases m with ⟨f, ha, hr⟩ | ⟨i, next, ha, hr⟩
      · rw [burst, burstLength, hr]
        exact .fails [] (fun _ => List.not_mem_nil) ha
      · have hone : m.Succeeds [.cycle] := by
          have hresult : m.cycleResults [.cycle] = [.ok (m.complete i next).1] :=
            congrArg (fun result => [result]) (Procedure.answer_of_run_ok hr)
          intro f
          rw [hresult, List.mem_singleton]
          intro hf
          cases hf
        have hafter : (m.serveAll [.cycle]).2 = (m.complete i next).2 :=
          Procedure.after_of_run_ok hr
        rw [burst, burstLength, hr]
        cases (m.complete i next).1 with
        | proceed => exact Ends.append [.cycle] (hafter ▸ ih _) hone
        | frameDone | awaitingKey =>
            exact .succeeds _ (hone.append fun _ => List.not_mem_nil)

end Machine

namespace Pacer

theorem tick_ends (p : Pacer) : p.machine.Ends p.tickCalls p.tick.1 := p.machine.burst_ends p.rate

theorem catchUp_ends (left : Nat) (last : Outcome) (p : Pacer) :
    p.machine.Ends (catchUpCalls left p) (p.catchUp left last).1 := by
  induction left generalizing last p with
  | zero =>
      rw [catchUp]
      split <;> exact .succeeds _ fun _ => List.not_mem_nil
  | succ left ih =>
      rw [catchUp, catchUpCalls]
      by_cases hb : timeStep ≤ p.backlog
      · rw [if_pos hb, if_pos hb]
        have hends := tick_ends { p with backlog := p.backlog - timeStep }
        have hmachine := machine_tick { p with backlog := p.backlog - timeStep }
        cases ht : { p with backlog := p.backlog - timeStep }.tick with
        | mk result after =>
            rw [ht] at hends hmachine
            cases result with
            | error f =>
                rw [List.append_nil]
                exact hends
            | ok outcome =>
                exact Machine.Ends.append p.tickCalls (hmachine ▸ ih outcome after) hends.of_ok
      · rw [if_neg hb, if_neg hb]
        exact .succeeds _ fun _ => List.not_mem_nil

/-- How an update ends: none of its cycles failed, or the last one did. -/
theorem update_ends (p : Pacer) (seconds : Float32) :
    p.machine.Ends (p.machineCalls (.update seconds)) (p.update seconds).1 :=
  catchUp_ends maxTicksPerUpdate .proceed { p with backlog := p.backlog + seconds }

end Pacer

end ChipEight
