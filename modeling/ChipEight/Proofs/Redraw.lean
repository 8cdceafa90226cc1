import ChipEight.Proofs.ClockRate

/-!
# The redraw flag

The instructions that draw are those that clear the screen and those that draw a sprite
on it (`Instruction.draws`).  Such an instruction sets the redraw flag, and no other
instruction touches the flag or the screen.

So a run that neither loads nor clears the flag (`Call.leavesFlag`) ends with the flag
set exactly if it was set before or an instruction drew (`serveAll_redraw`), and if none
drew the screen is still the same (`serveAll_screen`).  Time that passes for a pacer is
such a run (`Pacer.screen_update`).

A host that clears the flag when it has painted the screen need not paint it again before the
flag is set (`redraw_flag_covers_drawing`).
-/

namespace ChipEight

/-- True for the instructions that write the screen. -/
def Instruction.draws : Instruction → Bool
  | .act .clearScreen | .act (.draw _ _ _) => true
  | _ => false

/-- True for the calls at which only the program can touch the screen and its flag. -/
def Call.leavesFlag : Call → Bool
  | .clearRedraw => false
  | c => !c.loads

/-- The same for the calls to a pacer. -/
def PacerCall.leavesFlag : PacerCall → Bool
  | .machine c => c.leavesFlag
  | .load _ => false
  | _ => true

theorem Instruction.draws_iff {i : Instruction} :
    i.draws = true ↔ i = .act .clearScreen ∨ ∃ x y n, i = .act (.draw x y n) := by
  constructor
  · intro h
    cases i with
    | act a =>
        cases a with
        | clearScreen => exact Or.inl rfl
        | draw x y n => exact Or.inr ⟨x, y, n, rfl⟩
        | _ => cases h
    | _ => cases h
  · rintro (rfl | ⟨x, y, n, rfl⟩) <;> rfl

theorem Call.Passive.leavesFlag {c : Call} (h : c.Passive) : c.leavesFlag = true := by
  rcases h with rfl | rfl
  · rfl
  · rfl

namespace Machine

variable {m : Machine}

/-! ## One instruction -/

theorem effect_redraw (m : Machine) (i : Instruction) :
    (m.effect i).2.redraw = (m.redraw || i.draws) := by
  cases i with
  | flow f => cases f <;> exact (Bool.or_false _).symm
  | unknown w => exact (Bool.or_false _).symm
  | act a =>
      cases a with
      | clearScreen => exact (Bool.or_true _).symm
      | draw x y n => exact (Bool.or_true _).symm
      | arithmetic op x y =>
          rw [effect, perform, compute_eq]
          exact (Bool.or_false _).symm
      | awaitKey x =>
          rw [effect, perform, awaitKey_eq]
          exact (Bool.or_false _).symm
      | _ => exact (Bool.or_false _).symm

theorem effect_screen {i : Instruction} (hi : i.draws = false) :
    (m.effect i).2.screen = m.screen := by
  cases i with
  | flow f => cases f <;> rfl
  | unknown w => rfl
  | act a =>
      cases a with
      | clearScreen => cases hi
      | draw x y n => cases hi
      | arithmetic op x y => rw [effect, perform, compute_eq]
      | awaitKey x => rw [effect, perform, awaitKey_eq]
      | _ => rfl

/-! ## One call -/

theorem serve_redraw {c : Call} (hc : c.leavesFlag = true) :
    (m.serve c).2.redraw = (m.redraw || (m.executed [c]).any Instruction.draws) := by
  rw [executed_singleton]
  cases c with
  | cycle =>
      rcases completed?_cases m with ⟨hi, ha⟩ | ⟨i, next, hi, -, ha⟩
      · rw [serve, hi, ha]
        exact (Bool.or_false _).symm
      · rw [serve, hi, ha, complete_eq]
        simpa using effect_redraw m i
  | clearRedraw | reset | load _ | restore _ => cases hc
  | _ => exact (Bool.or_false _).symm

theorem serve_screen {c : Call} (hc : c.leavesFlag = true)
    (h : (m.executed [c]).any Instruction.draws = false) :
    (m.serve c).2.screen = m.screen := by
  rw [executed_singleton] at h
  cases c with
  | cycle =>
      rcases completed?_cases m with ⟨-, ha⟩ | ⟨i, next, hi, -, ha⟩
      · rw [serve, ha]
      · rw [hi] at h
        rw [serve, ha, complete_eq]
        exact effect_screen (by simpa using h)
  | clearRedraw | reset | load _ | restore _ => cases hc
  | _ => rfl

/-! ## Lists of calls -/

/-- The flag is set behind a run if it was before or an instruction drew. -/
theorem serveAll_redraw {calls : List Call} (hc : ∀ c ∈ calls, c.leavesFlag = true) :
    (m.serveAll calls).2.redraw = (m.redraw || (m.executed calls).any Instruction.draws) := by
  induction calls generalizing m with
  | nil => exact (Bool.or_false _).symm
  | cons c cs ih =>
      obtain ⟨hc, hcs⟩ := List.forall_mem_cons.mp hc
      rw [executed_cons, List.any_append, ← Bool.or_assoc, ← serve_redraw hc]
      exact ih hcs

/-- The screen is the same behind a run in which no instruction drew. -/
theorem serveAll_screen {calls : List Call} (hc : ∀ c ∈ calls, c.leavesFlag = true)
    (h : (m.executed calls).any Instruction.draws = false) :
    (m.serveAll calls).2.screen = m.screen := by
  induction calls generalizing m with
  | nil => rfl
  | cons c cs ih =>
      obtain ⟨hc, hcs⟩ := List.forall_mem_cons.mp hc
      rw [executed_cons, List.any_append, Bool.or_eq_false_iff] at h
      exact (ih hcs h.2).trans (serve_screen hc h.1)

end Machine

/-! ## Time that passes -/

namespace Pacer

/-- Time that passes either sets the flag, or leaves both flag and screen. -/
theorem screen_update (p : Pacer) (seconds : Float32)
    (h : (p.update seconds).2.machine.redraw = false) :
    p.machine.redraw = false ∧ (p.update seconds).2.machine.screen = p.machine.screen := by
  have hcalls : ∀ c ∈ p.machineCalls (.update seconds), c.leavesFlag = true :=
    fun c hc => (passive_of_mem_machineCalls rfl hc).leavesFlag
  have hmachine : (p.update seconds).2.machine =
      (p.machine.serveAll (p.machineCalls (.update seconds))).2 := machine_serve p (.update seconds)
  rw [hmachine] at h ⊢
  rw [Machine.serveAll_redraw hcalls, Bool.or_eq_false_iff] at h
  exact ⟨h.1, Machine.serveAll_screen hcalls h.2⟩

/-! ## Runs of a pacer -/

theorem leavesFlag_of_mem_machineCalls {p : Pacer} {c : PacerCall} (hc : c.leavesFlag = true)
    {d : Call} (hd : d ∈ p.machineCalls c) : d.leavesFlag = true := by
  rcases mem_machineCalls_cases hd with hpassive | rfl | ⟨program, rfl, -⟩
  · exact hpassive.leavesFlag
  · exact hc
  · cases hc

theorem leavesFlag_of_mem_allMachineCalls {p : Pacer} {cs : List PacerCall}
    (hcs : ∀ c ∈ cs, c.leavesFlag = true) : ∀ d ∈ p.allMachineCalls cs, d.leavesFlag = true :=
  forall_mem_allMachineCalls (fun _ _ hc _ => leavesFlag_of_mem_machineCalls hc) hcs

end Pacer

/-- In every run that begins when the host has cleared the redraw flag, and in which nothing is
loaded, the flag is set at the end exactly if a cycle of the run completed an instruction that
clears the screen or draws a sprite.  A cycle that fails sets nothing, and a sprite without a
pixel sets the flag all the same.  As long as the flag is not set, every pixel is as it was when
the flag was cleared. -/
theorem redraw_flag_covers_drawing (p : Pacer) {cs : List PacerCall}
    (hcs : ∀ c ∈ cs, c.leavesFlag = true) :
    let start := p.serve (.machine .clearRedraw)
    let calls := start.allMachineCalls cs
    let after := (start.serveAll cs).machine
    (after.redraw = true ↔
        ∃ early late i, calls = early ++ .cycle :: late ∧
          (start.machine.serveAll early).2.completed? = some i ∧
          (i = .act .clearScreen ∨ ∃ x y n, i = .act (.draw x y n))) ∧
      (after.redraw = false → ∀ row column,
        after.screen.get (pixel row column) = p.machine.screen.get (pixel row column)) := by
  intro start calls after
  have hcalls : ∀ d ∈ calls, d.leavesFlag = true := Pacer.leavesFlag_of_mem_allMachineCalls hcs
  have hafter : after = (start.machine.serveAll calls).2 := Pacer.machine_serveAll start cs
  have hflag : after.redraw = (start.machine.executed calls).any Instruction.draws := by
    rw [hafter, Machine.serveAll_redraw hcalls]
    exact Bool.false_or _
  constructor
  · simp only [hflag, List.any_eq_true, Machine.mem_executed_iff, Instruction.draws_iff]
    constructor
    · rintro ⟨i, ⟨early, late, hsplit, hi⟩, hdraws⟩
      exact ⟨early, late, i, hsplit, hi, hdraws⟩
    · rintro ⟨early, late, i, hsplit, hi, hdraws⟩
      exact ⟨i, ⟨early, late, hsplit, hi⟩, hdraws⟩
  · intro hclear row column
    rw [hflag] at hclear
    rw [hafter, Machine.serveAll_screen hcalls hclear]
    rfl

/-- A sprite without rows sets the flag.  Behind it a sprite that does not lie in memory fails
in every tick and sets nothing. -/
theorem empty_sprite_sets_flag_and_failing_one_does_not :
    let p := (Pacer.fresh (Keystream.seedKey 1) 12).serveAll
      [.load [0x00, 0xE0, 0xD0, 0x10, 0xAF, 0xFF, 0xD0, 0x12], .machine .cycle]
    let q := (p.serve (.machine .clearRedraw)).serveAll [.machine .cycle]
    let cs := [.tick, .machine (.setKey 3 true), .machine .takeTones, .update 0.02]
    let after := ((q.serve (.machine .clearRedraw)).serveAll cs).machine
    q.machine.redraw = true ∧ (∀ c ∈ cs, c.leavesFlag = true) ∧ after.redraw = false ∧
      ∀ row column,
        after.screen.get (pixel row column) = q.machine.screen.get (pixel row column) := by
  intro p q cs after
  have hone : ∀ c ∈ [PacerCall.machine .cycle], c.leavesFlag = true :=
    List.forall_mem_singleton.mpr rfl
  have hcs : ∀ c ∈ cs, c.leavesFlag = true := by
    simp only [cs, List.forall_mem_cons]
    exact ⟨rfl, rfl, rfl, rfl, List.forall_mem_nil _⟩
  have hrun : (p.serve (.machine .clearRedraw)).machine.completed? = some (.act (.draw 0 1 0)) ∧
      after.redraw = false := by decide +kernel
  obtain ⟨hdraws, hclear⟩ := hrun
  have hset := (redraw_flag_covers_drawing p hone).1.mpr
    ⟨[], [], _, rfl, hdraws, Or.inr ⟨0, 1, 0, rfl⟩⟩
  exact ⟨hset, hcs, hclear, (redraw_flag_covers_drawing q hcs).2 hclear⟩

end ChipEight
