import ChipEight.Proofs.Execution
import ChipEight.Proofs.Obstacles

/-!
# Completed instructions

The instruction a cycle completes is the one in the word at the program counter.  An action is
completed exactly if there is a word behind it and the bytes it touches at the index lie in
memory (`Machine.completed?_act_iff`).  Its cycle then performs it, goes on at the word behind it
and counts the tone (`Machine.run_completed_act`).

No machine is asked to be coherent here.  An instruction is only fetched from an address of
memory, so the sum that leads behind it does not wrap around in any machine.
-/

namespace ChipEight

namespace Machine

variable {m : Machine}

/-- An instruction that is completed was in memory with both its bytes. -/
theorem faces_of_completed? {i : Instruction} (h : m.completed? = some i) : m.Faces i := by
  obtain ⟨next, ha⟩ := aim_of_completed? h
  obtain ⟨w, hf, rfl, -⟩ := aim_eq_ok ha
  obtain ⟨hle, rfl⟩ := fetch_eq_ok_iff.mp hf
  refine ⟨?_, rfl⟩
  simp only [memorySize, maxAddress] at *
  omega

/-- The address behind an action that is completed is one of memory, and its checks hold. -/
theorem aim_of_completed_act {a : Action} (h : m.completed? = some (.act a)) :
    m.aim = .ok (.act a, m.pc + 2) ∧ m.pc.toNat + 1 < maxAddress ∧ m.demandSpan a = .ok () := by
  obtain ⟨next, ha⟩ := aim_of_completed? h
  obtain ⟨w, hf, -, ht⟩ := aim_eq_ok ha
  obtain ⟨rfl, hle, hspan⟩ := actTarget_eq_ok ht
  rw [toNat_add_two (pc_le_of_fetch hf)] at hle
  exact ⟨ha, by omega, hspan⟩

theorem demandSpan_of_le {a : Action}
    (h : ∀ length, a.span = some length → m.index.toNat + length ≤ memorySize) :
    m.demandSpan a = .ok () := by
  unfold demandSpan
  cases hs : a.span with
  | none => rfl
  | some length => exact if_pos (h length hs)

/-- An action is completed if there is a word behind it and memory where it needs some. -/
theorem completed?_act_iff {a : Action} :
    m.completed? = some (.act a) ↔
      m.Faces (.act a) ∧ m.pc.toNat + 1 < maxAddress ∧
        ∀ length, a.span = some length → m.index.toNat + length ≤ memorySize := by
  constructor
  · intro h
    obtain ⟨-, hpc, hspan⟩ := aim_of_completed_act h
    exact ⟨faces_of_completed? h, hpc, fun length hs => le_of_demandSpan hs hspan⟩
  · rintro ⟨hi, hpc, hspan⟩
    have ht : m.target (.act a) = .ok (m.pc + 2) := by
      simp only [target, actTarget, reach_next hpc, demandSpan_of_le hspan]
    exact completed?_of_aim (hi.aim_eq_ok ht)

/-- Behind a completed action that neither waits nor sets the sound timer the machine is as the
action left it, at the next word, with the tone of the cycle counted. -/
theorem run_completed_act {a : Action} (h : m.completed? = some (.act a))
    (hgoes : (m.perform a).1 ≠ .awaitingKey) (hsound : (m.perform a).2.sound = m.sound) :
    Procedure.cycle.run m =
      .ok (m.perform a).1
        { (m.perform a).2 with pc := m.pc + 2, tones := m.countTone.tones } := by
  obtain ⟨ha, -, -⟩ := aim_of_completed_act h
  have htones : (m.perform a).2.tones = m.tones := by rw [perform_leaves]
  rw [Procedure.run_cycle_of_aim ha, complete, effect, if_neg hgoes]
  exact congrArg (EStateM.Result.ok _) (countTone_congr hsound htones)

end Machine

end ChipEight
