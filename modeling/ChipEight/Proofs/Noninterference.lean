import ChipEight.Proofs.RandomBytes
import ChipEight.Proofs.Timers

/-!
# What a cycle looks at

Two machines are `Kin` when they differ in nothing but their timers, the tones asked
for and the place of their random bytes.  No check of a cycle looks at these
(`Kin.aim_eq`), so kin fail in the same way or complete the same instruction.

One instruction looks at the delay timer and one at the random bytes.  Any other does
the same to kin and leaves them kin, and so do these two when the machines agree in
what they look at (`Kin.cycle`).
-/

namespace ChipEight

/-- True for the instruction that looks at the delay timer. -/
def Instruction.readsDelay : Instruction → Bool
  | .act (.readDelay _) => true
  | _ => false

namespace Machine

/-- The same machine, but for its timers, the tones asked for and its random bytes. -/
def Kin (a b : Machine) : Prop :=
  b = { a with delay := b.delay, sound := b.sound, tones := b.tones, noise := b.noise }

namespace Kin

variable {a b : Machine}

theorem pc_eq (h : a.Kin b) : b.pc = a.pc := by rw [h]

theorem register_eq (h : a.Kin b) (x : Digit) : b.register x = a.register x := by
  rw [h]
  rfl

/-! ## One instruction -/

/-- No check looks at the timers, the tones or the random bytes. -/
theorem aim_eq (h : a.Kin b) : b.aim = a.aim := by
  rw [h]
  rfl

theorem changedKey?_eq (h : a.Kin b) (before : Keypad) :
    b.changedKey? before = a.changedKey? before := by
  rw [h]
  rfl

theorem awaitKey (h : a.Kin b) (x : Digit) :
    (b.awaitKey x).1 = (a.awaitKey x).1 ∧ (a.awaitKey x).2.Kin (b.awaitKey x).2 := by
  have hwait : b.keyWait = a.keyWait := by rw [h]
  cases hw : a.keyWait with
  | none =>
      rw [awaitKey_of_none hw, awaitKey_of_none (hwait.trans hw), h]
      exact ⟨rfl, rfl⟩
  | some before =>
      cases hk : a.changedKey? before with
      | none =>
          rw [awaitKey_of_same hw hk,
            awaitKey_of_same (hwait.trans hw) ((h.changedKey?_eq before).trans hk)]
          exact ⟨rfl, h⟩
      | some k =>
          rw [awaitKey_of_changed hw hk,
            awaitKey_of_changed (hwait.trans hw) ((h.changedKey?_eq before).trans hk), h]
          exact ⟨rfl, rfl⟩

/-- The instructions that look at a random byte or at the delay timer do the same to
kin that agree in it; any other does in any case. -/
theorem effect (h : a.Kin b) {i : Instruction} (hr : i.isRandom = true → b.noise = a.noise)
    (hd : i.readsDelay = true → b.delay = a.delay) :
    (b.effect i).1 = (a.effect i).1 ∧ (a.effect i).2.Kin (b.effect i).2 := by
  cases i with
  | flow f =>
      rw [h]
      cases f <;> exact ⟨rfl, rfl⟩
  | unknown w => exact ⟨rfl, h⟩
  | act act =>
      cases act with
      | awaitKey x => exact h.awaitKey x
      | arithmetic op x y =>
          rw [h]
          cases op <;> exact ⟨rfl, rfl⟩
      | random x nn =>
          rw [h, hr rfl]
          exact ⟨rfl, rfl⟩
      | readDelay x =>
          rw [h, hd rfl]
          exact ⟨rfl, rfl⟩
      | _ =>
          rw [h]
          exact ⟨rfl, rfl⟩

theorem complete (h : a.Kin b) {i : Instruction} (hr : i.isRandom = true → b.noise = a.noise)
    (hd : i.readsDelay = true → b.delay = a.delay) (next : UInt16) :
    (b.complete i next).1 = (a.complete i next).1 ∧
      (a.complete i next).2.Kin (b.complete i next).2 := by
  obtain ⟨hout, hafter⟩ := h.effect hr hd
  refine ⟨hout, ?_⟩
  rw [complete_eq b, complete_eq a, hout, h.pc_eq, hafter]
  rfl

/-! ## One cycle -/

theorem completed?_eq (h : a.Kin b) : b.completed? = a.completed? := by
  cases ha : a.aim with
  | error f => rw [completed?_of_fault ha, completed?_of_fault (h.aim_eq.trans ha)]
  | ok p => rw [completed?_of_aim ha, completed?_of_aim (h.aim_eq.trans ha)]

theorem takesByte_eq (h : a.Kin b) : b.takesByte = a.takesByte := by
  rw [takesByte_eq_any, takesByte_eq_any, h.completed?_eq]

/-- Kin that agree in what the instruction looks at answer a cycle alike and stay kin. -/
theorem cycle (h : a.Kin b)
    (hr : ∀ i, a.completed? = some i → i.isRandom = true → b.noise = a.noise)
    (hd : ∀ i, a.completed? = some i → i.readsDelay = true → b.delay = a.delay) :
    Procedure.cycle.answer b = Procedure.cycle.answer a ∧
      (Procedure.cycle.after a).Kin (Procedure.cycle.after b) := by
  rcases Procedure.cycle_cases a with ⟨f, ha, hrun⟩ | ⟨i, next, ha, hrun⟩
  · have hrun' := Procedure.run_cycle_of_fault (h.aim_eq.trans ha)
    rw [Procedure.answer_of_run_error hrun, Procedure.answer_of_run_error hrun',
      Procedure.after_of_run_error hrun, Procedure.after_of_run_error hrun']
    exact ⟨rfl, h⟩
  · have hrun' := Procedure.run_cycle_of_aim (h.aim_eq.trans ha)
    have hi := completed?_of_aim ha
    obtain ⟨hout, hafter⟩ := h.complete (hr i hi) (hd i hi) next
    rw [Procedure.answer_of_run_ok hrun, Procedure.answer_of_run_ok hrun',
      Procedure.after_of_run_ok hrun, Procedure.after_of_run_ok hrun', hout]
    exact ⟨rfl, hafter⟩

theorem cycle_timer_eq (h : a.Kin b) {t : Timer} (ht : b.timer t = a.timer t) :
    (Procedure.cycle.after b).timer t = (Procedure.cycle.after a).timer t := by
  rw [cycle_timer, cycle_timer, h.completed?_eq, ht]
  congr 2
  exact funext h.register_eq

theorem cycle_noise_eq (h : a.Kin b) (hn : b.noise = a.noise) :
    (Procedure.cycle.after b).noise = (Procedure.cycle.after a).noise := by
  rw [cycle_noise, cycle_noise, h.takesByte_eq, hn]

end Kin

end Machine

end ChipEight
