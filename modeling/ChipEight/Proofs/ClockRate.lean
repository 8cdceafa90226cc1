import ChipEight.Proofs.Noninterference

/-!
# The rate does not matter to a program that reads no timer

The rate of a pacer, the ends of its bursts and the time that passes only tell which
cycles stand between two ticks of the timers.  A program that never reads the delay
timer has no way to tell: a tick moves nothing but the timers (`SameButTimers.tick`),
and a cycle does the same whatever they are (`SameButTimers.cycle`).

Two runs of as many cycles are laid beside each other cycle by cycle, with the ticks
in between passed over on either side (`SameButTimers.serveAll`).
-/

namespace ChipEight

/-- True for the calls to a pacer that let its machine run: time that passes, and
changes of the rate. -/
def PacerCall.paces : PacerCall → Bool
  | .tick | .update _ | .setRate _ | .adjustRate _ => true
  | _ => false

namespace Machine

/-- The same machine, but for its timers and the tones asked for. -/
def SameButTimers (a b : Machine) : Prop :=
  b = { a with delay := b.delay, sound := b.sound, tones := b.tones }

/-- True if no cycle of the calls reads the delay timer. -/
def Blind (m : Machine) (calls : List Call) : Prop :=
  ∀ i ∈ m.executed calls, i.readsDelay = false

instance (m : Machine) (calls : List Call) : Decidable (m.Blind calls) :=
  inferInstanceAs (Decidable (∀ i ∈ m.executed calls, i.readsDelay = false))

namespace SameButTimers

variable {a b : Machine}

theorem noise_eq (h : a.SameButTimers b) : b.noise = a.noise := by rw [h]

theorem kin (h : a.SameButTimers b) : a.Kin b := by
  rw [Kin, h.noise_eq]
  exact h

theorem of_kin (h : a.Kin b) (hn : b.noise = a.noise) : a.SameButTimers b := by
  rw [Kin, hn] at h
  exact h

/-! ## One call -/

theorem cycle (h : a.SameButTimers b)
    (hd : ∀ i, a.completed? = some i → i.readsDelay = false) :
    Procedure.cycle.answer b = Procedure.cycle.answer a ∧
      (Procedure.cycle.after a).SameButTimers (Procedure.cycle.after b) := by
  have hdelay : ∀ i, a.completed? = some i → i.readsDelay = true → b.delay = a.delay := by
    intro i hi hread
    rw [hd i hi] at hread
    cases hread
  obtain ⟨hanswer, hafter⟩ := h.kin.cycle (fun _ _ _ => h.noise_eq) hdelay
  exact ⟨hanswer, of_kin hafter (h.kin.cycle_noise_eq h.noise_eq)⟩

theorem tick (h : a.SameButTimers b) : a.tickTimers.SameButTimers b := by
  rw [h]
  rfl

theorem tick_right (h : a.SameButTimers b) : a.SameButTimers b.tickTimers := by
  rw [h]
  rfl

/-! ## Lists of calls -/

/-- Without a cycle nothing is answered and nothing but the timers moves. -/
theorem ticks_right (h : a.SameButTimers b) {calls : List Call} (hc : ∀ c ∈ calls, c.Passive)
    (hcycle : .cycle ∉ calls) :
    a.SameButTimers (b.serveAll calls).2 ∧ b.cycleResults calls = [] := by
  induction calls generalizing b with
  | nil => exact ⟨h, rfl⟩
  | cons c cs ih =>
      obtain ⟨hfirst, hrest⟩ := List.forall_mem_cons.mp hc
      rcases hfirst with rfl | rfl
      · exact absurd List.mem_cons_self hcycle
      · exact ih h.tick_right hrest (fun hm => hcycle (List.mem_cons_of_mem _ hm))

/-- Two runs of as many cycles, with the timers ticking at other times, if at all. -/
theorem serveAll (h : a.SameButTimers b) {cs ds : List Call} (hcs : ∀ c ∈ cs, c.Passive)
    (hds : ∀ d ∈ ds, d.Passive) (hcount : cs.count .cycle = ds.count .cycle)
    (hblind : a.Blind cs) :
    (a.serveAll cs).2.SameButTimers (b.serveAll ds).2 ∧ b.cycleResults ds = a.cycleResults cs := by
  -- Along the first run; the second moves on to its next cycle when the first has one.
  induction cs generalizing a b ds with
  | nil => exact h.ticks_right hds (List.count_eq_zero.mp hcount.symm)
  | cons c cs ih =>
      obtain ⟨hc, hcs'⟩ := List.forall_mem_cons.mp hcs
      obtain ⟨hfirst, hrest⟩ := forall_executed_cons.mp hblind
      rcases hc with rfl | rfl
      · have hmem : Call.cycle ∈ ds := by
          rw [← List.count_pos_iff, ← hcount, List.count_cons_self]
          exact Nat.succ_pos _
        obtain ⟨ticks, ds', rfl, hticks⟩ := List.eq_append_cons_of_mem hmem
        obtain ⟨hpticks, hbehind⟩ := List.forall_mem_append.mp hds
        obtain ⟨-, hds'⟩ := List.forall_mem_cons.mp hbehind
        obtain ⟨hb, hnothing⟩ := h.ticks_right hpticks hticks
        obtain ⟨hanswer, hafter⟩ := hb.cycle (hfirst rfl)
        have hcount' : cs.count .cycle = ds'.count .cycle := by
          rw [List.count_cons_self, List.count_append, List.count_eq_zero.mpr hticks,
            List.count_cons_self, Nat.zero_add] at hcount
          exact Nat.succ.inj hcount
        obtain ⟨hend, hresults⟩ := ih hafter hcs' hds' hcount' hrest
        rw [serveAll_append]
        refine ⟨hend, ?_⟩
        rw [cycleResults_append, hnothing, List.nil_append, cycleResults_cons_cycle,
          cycleResults_cons_cycle, hanswer, hresults]
      · have hcount' : cs.count .cycle = ds.count .cycle := hcount
        exact ih h.tick hcs' hds hcount' hrest

end SameButTimers

end Machine

/-! ## Pacers -/

namespace Pacer

variable {p q : Pacer}

theorem passive_of_mem_machineCalls {c : PacerCall} (hc : c.paces = true) {d : Call}
    (hd : d ∈ p.machineCalls c) : d.Passive := by
  rcases mem_machineCalls_cases hd with hpassive | rfl | ⟨program, rfl, -⟩
  · exact hpassive
  · cases hc
  · cases hc

theorem passive_of_mem_allMachineCalls {cs : List PacerCall} (hcs : ∀ c ∈ cs, c.paces = true) :
    ∀ d ∈ p.allMachineCalls cs, d.Passive :=
  forall_mem_allMachineCalls (fun _ _ hc _ => passive_of_mem_machineCalls hc) hcs

end Pacer

/-- Two pacers whose machines differ in their timers at most run as many cycles, each
at its own rates, and no cycle of the first reads the delay timer.  Then the cycles of
both have the same results, one by one, and the machines still differ in their timers
at most. -/
theorem clock_rate_is_not_seen {p q : Pacer} (h : p.machine.SameButTimers q.machine)
    {cs ds : List PacerCall} (hcs : ∀ c ∈ cs, c.paces = true) (hds : ∀ d ∈ ds, d.paces = true)
    (hcount : (p.allMachineCalls cs).count .cycle = (q.allMachineCalls ds).count .cycle)
    (hblind : p.machine.Blind (p.allMachineCalls cs)) :
    (p.serveAll cs).machine.SameButTimers (q.serveAll ds).machine ∧
      q.machine.cycleResults (q.allMachineCalls ds) =
        p.machine.cycleResults (p.allMachineCalls cs) := by
  rw [Pacer.machine_serveAll, Pacer.machine_serveAll]
  exact h.serveAll (Pacer.passive_of_mem_allMachineCalls hcs)
    (Pacer.passive_of_mem_allMachineCalls hds) hcount hblind

/-- A program sets the delay timer, takes a random byte, draws a sprite and returns
without a call.  At one cycle a tick the timer runs out; at ten and then three it does
not.  The six cycles have the same results all the same. -/
theorem slow_and_fast_runs_agree :
    let program := [0x60, 0x05, 0xF0, 0x15, 0xC1, 0xFF, 0xD0, 0x01, 0x00, 0xEE]
    let m := ((Machine.ofSeed 1).serve (.load program)).2
    let cs := [.tick, .tick, .tick, .tick, .tick, .tick]
    let ds := [.tick, .setRate 3, .tick, .tick]
    let slow := (Pacer.start m 1).serveAll cs
    let fast := (Pacer.start m 10).serveAll ds
    slow.machine.SameButTimers fast.machine ∧
      m.cycleResults ((Pacer.start m 10).allMachineCalls ds) =
        [.ok .proceed, .ok .proceed, .ok .proceed, .ok .frameDone, .error (.stackUnderflow 0x208),
          .error (.stackUnderflow 0x208)] ∧
      slow.machine.delay = 0 ∧ fast.machine.delay = 2 := by
  intro program m cs ds slow fast
  have hrun : ((Pacer.start m 1).allMachineCalls cs).count .cycle =
        ((Pacer.start m 10).allMachineCalls ds).count .cycle ∧
      m.Blind ((Pacer.start m 1).allMachineCalls cs) ∧
      m.cycleResults ((Pacer.start m 1).allMachineCalls cs) =
        [.ok .proceed, .ok .proceed, .ok .proceed, .ok .frameDone, .error (.stackUnderflow 0x208),
          .error (.stackUnderflow 0x208)] ∧
      slow.machine.delay = 0 ∧ fast.machine.delay = 2 := by decide +kernel
  obtain ⟨hcount, hblind, hresults, hdelays⟩ := hrun
  have h : (Pacer.start m 1).machine.SameButTimers (Pacer.start m 10).machine := rfl
  have hcs : ∀ c ∈ cs, c.paces = true := by
    simp only [cs, List.forall_mem_cons]
    exact ⟨rfl, rfl, rfl, rfl, rfl, rfl, nofun⟩
  have hds : ∀ d ∈ ds, d.paces = true := by
    simp only [ds, List.forall_mem_cons]
    exact ⟨rfl, rfl, rfl, rfl, nofun⟩
  obtain ⟨hsame, hequal⟩ := clock_rate_is_not_seen h hcs hds hcount hblind
  exact ⟨hsame, hequal.trans hresults, hdelays⟩

end ChipEight
