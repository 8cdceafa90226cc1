import ChipEight.Proofs.Execution

/-!
# Timers that count down

A program puts a value in a timer by one instruction (`Timer.source?`), and every
tick takes one off until there is nothing left.  Nothing else touches a timer as
long as nothing is loaded: no other instruction, no cycle that fails, and no end of
a burst.

So the value of a timer behind a run depends on the last value that was put in it
and on the number of ticks since then.  `Timer.Since` tells the two for a list of
calls to a machine, and every tick of a pacer is one step of the timers in the list
of calls it makes (`count_allMachineCalls`).
-/

namespace ChipEight

/-- One of the two timers of a machine. -/
inductive Timer where
  | delay
  | sound
deriving DecidableEq, Repr

/-- The register an instruction puts in the timer, if it does. -/
def Timer.source? : Timer → Instruction → Option Digit
  | .delay, .act (.setDelay x) => some x
  | .sound, .act (.setSound x) => some x
  | _, _ => none

/-- True for the calls to a pacer that play a program: its ticks, changes of its
rate, and calls to the machine that load nothing. -/
def PacerCall.plays : PacerCall → Bool
  | .machine c => !c.loads
  | .tick | .setRate _ | .adjustRate _ => true
  | _ => false

/-- True for a tick, of a pacer or of the timers alone. -/
def PacerCall.ticks : PacerCall → Bool
  | .tick | .machine .tickTimers => true
  | _ => false

namespace Machine

variable {m : Machine} {t : Timer}

def timer (m : Machine) : Timer → UInt8
  | .delay => m.delay
  | .sound => m.sound

/-! ## One call -/

/-- An instruction sets a timer to a register, or leaves it alone. -/
theorem effect_timer (m : Machine) (t : Timer) (i : Instruction) :
    (m.effect i).2.timer t = ((t.source? i).map m.register).getD (m.timer t) := by
  cases i with
  | flow f => cases t <;> cases f <;> rfl
  | unknown w => cases t <;> rfl
  | act a =>
      cases a with
      | arithmetic op x y =>
          rw [effect, perform, compute_eq]
          cases t <;> rfl
      | awaitKey x =>
          rw [effect, perform, awaitKey_eq]
          cases t <;> rfl
      | _ => cases t <;> rfl

theorem complete_timer (m : Machine) (t : Timer) (i : Instruction) (next : UInt16) :
    (m.complete i next).2.timer t = ((t.source? i).map m.register).getD (m.timer t) := by
  rw [← effect_timer, complete_eq]
  cases t <;> rfl

theorem cycle_timer (m : Machine) (t : Timer) :
    (Procedure.cycle.after m).timer t =
      (((m.completed?.bind t.source?).map m.register).getD (m.timer t)) := by
  rcases completed?_cases m with ⟨hc, ha⟩ | ⟨i, next, hc, -, ha⟩
  · rw [hc, ha]
    rfl
  · rw [hc, ha, complete_timer]
    rfl

theorem tickTimers_timer (m : Machine) (t : Timer) :
    (m.tickTimers.timer t).toNat = (m.timer t).toNat - 1 := by
  have hlt (b : UInt8) : (b.toNat - 1) % 256 = b.toNat - 1 :=
    Nat.mod_eq_of_lt (Nat.lt_of_le_of_lt (Nat.sub_le _ _) b.toNat_lt)
  cases t with
  | delay => exact (UInt8.toNat_ofNat' ..).trans (hlt m.delay)
  | sound => exact (UInt8.toNat_ofNat' ..).trans (hlt m.sound)

/-- A call that neither loads nor completes an instruction for the timer takes one
off if it is a tick, and nothing otherwise. -/
theorem serve_timer {c : Call} (hl : c.loads = false)
    (hc : c = .cycle → ∀ i, m.completed? = some i → t.source? i = none) :
    ((m.serve c).2.timer t).toNat = (m.timer t).toNat - [c].count .tickTimers := by
  cases c with
  | cycle =>
      have hnone : m.completed?.bind t.source? = none := Option.bind_eq_none_iff.mpr (hc rfl)
      rw [serve, cycle_timer, hnone]
      rfl
  | tickTimers => exact tickTimers_timer m t
  | reset | load _ | restore _ => cases hl
  | _ => cases t <;> rfl

/-! ## Lists of calls -/

/-- No instruction of the calls sets the timer. -/
def Unset (t : Timer) (m : Machine) (calls : List Call) : Prop :=
  ∀ i ∈ m.executed calls, t.source? i = none

instance (t : Timer) (m : Machine) (calls : List Call) : Decidable (m.Unset t calls) :=
  inferInstanceAs (Decidable (∀ i ∈ m.executed calls, t.source? i = none))

theorem serveAll_timer {calls : List Call} (hl : ∀ c ∈ calls, c.loads = false)
    (hu : m.Unset t calls) :
    ((m.serveAll calls).2.timer t).toNat = (m.timer t).toNat - calls.count .tickTimers := by
  induction calls generalizing m with
  | nil => rfl
  | cons c cs ih =>
      obtain ⟨hlc, hlcs⟩ := List.forall_mem_cons.mp hl
      obtain ⟨hfirst, hrest⟩ := forall_executed_cons.mp hu
      have hcount : (c :: cs).count .tickTimers = [c].count .tickTimers + cs.count .tickTimers := by
        rw [← List.count_append, List.singleton_append]
      rw [hcount, ← Nat.sub_sub, ← serve_timer hlc hfirst, ← ih hlcs hrest]
      rfl

end Machine

/-- Behind the last instruction of the calls that sets the timer the value of the
timer is `w`, and `late` are the calls that follow.  If there is no such
instruction, `w` is the value before the calls, and all of them follow. -/
inductive Timer.Since (t : Timer) (m : Machine) : List Call → UInt8 → List Call → Prop where
  | start {calls : List Call} (hu : m.Unset t calls) : t.Since m calls (m.timer t) calls
  | set (early : List Call) {late : List Call} {i : Instruction} {x : Digit}
      (hi : (m.serveAll early).2.completed? = some i) (hx : t.source? i = some x)
      (hu : (m.serveAll (early ++ [.cycle])).2.Unset t late) :
      t.Since m (early ++ .cycle :: late) ((m.serveAll early).2.register x) late

namespace Timer

variable {m : Machine} {t : Timer} {calls late : List Call} {w : UInt8}

theorem exists_since (t : Timer) (m : Machine) (calls : List Call) :
    ∃ w late, t.Since m calls w late := by
  induction calls generalizing m with
  | nil => exact ⟨_, _, .start nofun⟩
  | cons c cs ih =>
      obtain ⟨w, late, h⟩ := ih (m.serve c).2
      cases h with
      | set early hi hx hu => exact ⟨_, _, .set (c :: early) hi hx hu⟩
      | start hu =>
          by_cases hset : c = .cycle ∧ ∃ i x, m.completed? = some i ∧ t.source? i = some x
          · obtain ⟨rfl, i, x, hi, hx⟩ := hset
            exact ⟨_, _, .set [] hi hx hu⟩
          · refine ⟨_, _, .start (Machine.forall_executed_cons.mpr ⟨?_, hu⟩)⟩
            intro hc i hi
            rw [Option.eq_none_iff_forall_ne_some]
            intro x hx
            exact hset ⟨hc, i, x, hi, hx⟩

/-- After the last value put in it, a timer only counts down. -/
theorem Since.timer_eq (h : t.Since m calls w late) (hl : ∀ c ∈ late, c.loads = false) :
    ((m.serveAll calls).2.timer t).toNat = w.toNat - late.count .tickTimers := by
  cases h with
  | start hu => exact Machine.serveAll_timer hl hu
  | @set early _ i x hi hx hu =>
      have hvalue : (m.serveAll (early ++ [.cycle])).2.timer t = (m.serveAll early).2.register x := by
        rw [Machine.serveAll_append]
        refine (Machine.cycle_timer _ t).trans ?_
        rw [hi, Option.bind_some, hx]
        rfl
      rw [List.append_cons, Machine.serveAll_append, ← hvalue]
      exact Machine.serveAll_timer hl hu

/-- The calls behind the last value are some of the calls. -/
theorem Since.mem_of_mem_late (h : t.Since m calls w late) {c : Call} (hc : c ∈ late) :
    c ∈ calls := by
  cases h with
  | start hu => exact hc
  | set early hi hx hu => exact List.mem_append_right early (List.mem_cons_of_mem _ hc)

end Timer

/-! ## Pacers -/

namespace Pacer

variable {p : Pacer} {c : PacerCall} {cs : List PacerCall}

theorem count_machineCalls (hc : c.plays = true) :
    (p.machineCalls c).count .tickTimers = if c.ticks then 1 else 0 := by
  cases c with
  | machine c => cases c <;> rfl
  | tick => exact count_tickCalls p
  | setRate rate => rfl
  | adjustRate delta => rfl
  | _ => cases hc

theorem loads_of_mem_machineCalls (hc : c.plays = true) {d : Call} (hd : d ∈ p.machineCalls c) :
    d.loads = false := by
  rcases mem_machineCalls_cases hd with (rfl | rfl) | rfl | ⟨program, rfl, -⟩
  · rfl
  · rfl
  · exact Bool.not_eq_true' _ ▸ hc
  · cases hc

theorem count_allMachineCalls (hcs : ∀ c ∈ cs, c.plays = true) :
    (p.allMachineCalls cs).count .tickTimers = cs.countP PacerCall.ticks := by
  induction cs generalizing p with
  | nil => rfl
  | cons c cs ih =>
      obtain ⟨hc, hcs⟩ := List.forall_mem_cons.mp hcs
      rw [allMachineCalls, List.count_append, count_machineCalls hc, ih hcs, List.countP_cons,
        Nat.add_comm]

theorem loads_of_mem_allMachineCalls (hcs : ∀ c ∈ cs, c.plays = true) :
    ∀ d ∈ p.allMachineCalls cs, d.loads = false :=
  forall_mem_allMachineCalls (fun _ _ hc _ => loads_of_mem_machineCalls hc) hcs

end Pacer

/-- In a run that loads nothing, every tick of a pacer is one step of the timers, at
any rate and however its burst ended.  There is a last value put in a timer, and the
timer has that value less a step for each tick since then, or nothing. -/
theorem timers_count_down (t : Timer) (p : Pacer) {cs : List PacerCall}
    (hcs : ∀ c ∈ cs, c.plays = true) :
    let calls := p.allMachineCalls cs
    calls.count .tickTimers = cs.countP PacerCall.ticks ∧
      (∃ w late, t.Since p.machine calls w late) ∧
        ∀ w late, t.Since p.machine calls w late →
          ((p.serveAll cs).machine.timer t).toNat = w.toNat - late.count .tickTimers := by
  intro calls
  refine ⟨Pacer.count_allMachineCalls hcs, t.exists_since p.machine calls, ?_⟩
  intro w late h
  rw [Pacer.machine_serveAll]
  refine h.timer_eq ?_
  intro c hc
  exact Pacer.loads_of_mem_allMachineCalls hcs c (h.mem_of_mem_late hc)

/-- The delay timer is set to 5 in a burst that ends with a sprite.  The bursts after
that end with a return that has no call, and every tick counts all the same. -/
theorem timer_outlasts_failed_bursts :
    let p := (Pacer.fresh (Keystream.seedKey 1) 10).serveAll
      [.load [0x60, 0x05, 0xF0, 0x15, 0xD0, 0x01, 0x00, 0xEE]]
    let cs := [.tick, .setRate 1, .tick, .machine .tickTimers, .machine (.setKey 3 true), .tick]
    (∀ c ∈ cs, c.plays = true) ∧
      ∃ late, Timer.delay.Since p.machine (p.allMachineCalls cs) 5 late ∧
        late.count .tickTimers = 4 ∧
          ((p.serveAll cs).machine.timer .delay).toNat = 5 - 4 := by
  intro p cs
  have hcs : ∀ c ∈ cs, c.plays = true := by
    simp only [cs, List.forall_mem_cons]
    exact ⟨rfl, rfl, rfl, rfl, rfl, rfl, nofun⟩
  let late : List Call :=
    [.cycle, .tickTimers, .cycle, .tickTimers, .tickTimers, .setKey 3 true, .cycle, .tickTimers]
  have hrun : p.allMachineCalls cs = [.cycle] ++ .cycle :: late ∧
      (p.machine.serveAll [.cycle]).2.completed? = some (.act (.setDelay 0)) ∧
      (p.machine.serveAll [.cycle]).2.register 0 = 5 ∧
      (p.machine.serveAll ([.cycle] ++ [.cycle])).2.Unset .delay late := by decide +kernel
  obtain ⟨hcalls, hi, hw, hu⟩ := hrun
  have hsince := Timer.Since.set [.cycle] hi rfl hu
  rw [← hcalls, hw] at hsince
  obtain ⟨-, -, hvalue⟩ := timers_count_down .delay p hcs
  exact ⟨hcs, late, hsince, rfl, hvalue 5 late hsince⟩

end ChipEight
