import ChipEight.Proofs.Calls
import ChipEight.Proofs.Checks

/-!
# Faults

A cycle that fails changes nothing.  What is more, it fails again in the same way
for as long as nothing is done to the machine but to run it and to let its timers
count down, since no check of a cycle looks at the timers (`aim_tickTimers`).

`Machine.decayed` is a machine some ticks of its timers later.
-/

namespace ChipEight

namespace Machine

/-! ## Timers that run down -/

/-- The machine after a number of ticks of its timers and nothing else. -/
def decayed (m : Machine) (ticks : Nat) : Machine :=
  { m with
    delay := UInt8.ofNat (m.delay.toNat - ticks)
    sound := UInt8.ofNat (m.sound.toNat - ticks) }

theorem decayed_zero (m : Machine) : m.decayed 0 = m := by
  rw [decayed, Nat.sub_zero, Nat.sub_zero, UInt8.ofNat_toNat, UInt8.ofNat_toNat]

theorem countDown_countDown (b : UInt8) (ticks : Nat) :
    UInt8.ofNat ((UInt8.ofNat (b.toNat - 1)).toNat - ticks) =
      UInt8.ofNat (b.toNat - (ticks + 1)) := by
  have hb := b.toNat_lt
  have hmod : (b.toNat - 1) % 256 = b.toNat - 1 := Nat.mod_eq_of_lt (by omega)
  have hsub : b.toNat - 1 - ticks = b.toNat - (ticks + 1) := by omega
  rw [UInt8.toNat_ofNat', hmod, hsub]

theorem decayed_tickTimers (m : Machine) (ticks : Nat) :
    m.tickTimers.decayed ticks = m.decayed (ticks + 1) := by
  rw [decayed, decayed, tickTimers, countDown_countDown, countDown_countDown]

theorem aim_tickTimers (m : Machine) : m.tickTimers.aim = m.aim := rfl

end Machine

/-! ## Stalled machines -/

/-- A call that runs a machine or lets its timers count down. -/
def Call.Passive (c : Call) : Prop := c = .cycle ∨ c = .tickTimers

instance (c : Call) : Decidable c.Passive := inferInstanceAs (Decidable (_ ∨ _))

/-- The reply to a call that can only fail or count down. -/
def Reply.stalled (f : Fault) : Call → Reply
  | .cycle => .cycled (.error f)
  | _ => .done

namespace Machine

variable {m : Machine} {f : Fault}

theorem serve_cycle_of_fault (h : m.aim = .error f) : m.serve .cycle = (.cycled (.error f), m) := by
  have hr := Procedure.run_cycle_of_fault h
  rw [serve, Procedure.answer_of_run_error hr, Procedure.after_of_run_error hr]

theorem serve_cycle_of_aim {i : Instruction} {next : UInt16} (h : m.aim = .ok (i, next)) :
    m.serve .cycle = (.cycled (.ok (m.complete i next).1), (m.complete i next).2) := by
  have hr := Procedure.run_cycle_of_aim h
  rw [serve, Procedure.answer_of_run_ok hr, Procedure.after_of_run_ok hr]

/-- A machine whose next cycle fails goes on failing, and only its timers run. -/
theorem serveAll_of_fault (h : m.aim = .error f) {calls : List Call}
    (hc : ∀ c ∈ calls, c.Passive) :
    m.serveAll calls = (calls.map (Reply.stalled f), m.decayed (calls.count .tickTimers)) := by
  induction calls generalizing m with
  | nil => rw [serveAll, List.count_nil, decayed_zero, List.map_nil]
  | cons c cs ih =>
      have hcs : ∀ c ∈ cs, c.Passive := fun c hm => hc c (List.mem_cons_of_mem _ hm)
      rcases hc c List.mem_cons_self with rfl | rfl
      · have hcount : (Call.cycle :: cs).count .tickTimers = cs.count .tickTimers :=
          List.count_cons_of_ne (by decide)
        simp only [serveAll, serve_cycle_of_fault h, ih h hcs, hcount, List.map_cons, Reply.stalled]
      · have ht : m.tickTimers.aim = .error f := by rw [aim_tickTimers, h]
        simp only [serveAll, serve, ih ht hcs, decayed_tickTimers, List.count_cons_self,
          List.map_cons, Reply.stalled]

end Machine

/-- A cycle that fails leaves every part of the machine as it was.  Run again, and
with its timers counting down, the machine fails in the same way at every cycle,
and nothing but its timers changes. -/
theorem failed_cycle_stalls {m m' : Machine} {f : Fault}
    (h : Procedure.cycle.run m = .error f m') :
    m' = m ∧ ∀ calls : List Call, (∀ c ∈ calls, c.Passive) →
      m'.serveAll calls =
        (calls.map (Reply.stalled f), m.decayed (calls.count .tickTimers)) := by
  rcases Procedure.cycle_cases m with ⟨g, ha, hr⟩ | ⟨i, next, _, hr⟩
  · rw [hr] at h
    cases h
    exact ⟨rfl, fun calls hc => Machine.serveAll_of_fault ha hc⟩
  · rw [hr] at h
    cases h

/-- A return without a call, tried again after the timers counted down. -/
theorem failed_return_stalls :
    let m := { (Procedure.load [0x00, 0xEE]).after (Machine.ofSeed 3) with delay := 2, sound := 1 }
    Procedure.cycle.run m = .error (.stackUnderflow 0x200) m ∧
      m.serveAll [.cycle, .tickTimers, .tickTimers, .cycle] =
        ([.cycled (.error (.stackUnderflow 0x200)), .done, .done,
          .cycled (.error (.stackUnderflow 0x200))], m.decayed 2) := by
  intro m
  have ha : m.aim = .error (.stackUnderflow 0x200) := by decide +kernel
  have hr := Procedure.run_cycle_of_fault ha
  exact ⟨hr, (failed_cycle_stalls hr).2 _ (by decide)⟩

end ChipEight
