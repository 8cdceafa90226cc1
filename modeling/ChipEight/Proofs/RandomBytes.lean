import ChipEight.Proofs.Execution
import ChipEight.Proofs.Obstacles

/-!
# Who takes random bytes

A machine takes a random byte only when it executes the instruction for it, and
then one.  Nothing else a host can call for moves its place in the stream, neither
forward nor back (`serve_noise`).

`Machine.takesByte` tells if the next cycle takes a byte: the word at the program
counter is that instruction and the cycle does not fail.  A list of calls is quiet
(`Machine.quiet`) when none of its cycles takes one.

So the place in the stream is the number of random instructions executed so far
(`serveAll_noise`), and each of them uses the word of its own number.
-/

namespace ChipEight

/-- True for the instruction that takes a random byte. -/
def Instruction.isRandom : Instruction → Bool
  | .act (.random _ _) => true
  | _ => false

theorem Instruction.eq_of_isRandom {i : Instruction} (h : i.isRandom = true) :
    ∃ x nn, i = .act (.random x nn) := by
  cases i with
  | act a =>
      cases a with
      | random x nn => exact ⟨x, nn, rfl⟩
      | _ => cases h
  | _ => cases h

namespace Machine

variable {m : Machine}

/-- True if the next cycle takes a random byte. -/
def takesByte (m : Machine) : Bool :=
  match m.fetch, Procedure.cycle.answer m with
  | .ok w, .ok _ => (Instruction.decode w).isRandom
  | _, _ => false

/-- True if no cycle of the calls takes a random byte. -/
def quiet : Machine → List Call → Bool
  | _, [] => true
  | m, c :: cs => !(c == .cycle && m.takesByte) && (m.serve c).2.quiet cs

/-! ## One instruction -/

theorem effect_noise (m : Machine) (i : Instruction) :
    (m.effect i).2.noise = if i.isRandom then m.noise.next else m.noise := by
  cases i with
  | flow f => cases f <;> rfl
  | unknown w => rfl
  | act a =>
      cases a with
      | arithmetic op x y =>
          rw [effect, perform, compute_eq]
          rfl
      | awaitKey x =>
          rw [effect, perform, awaitKey_eq]
          rfl
      | _ => rfl

theorem complete_noise (m : Machine) (i : Instruction) (next : UInt16) :
    (m.complete i next).2.noise = if i.isRandom then m.noise.next else m.noise := by
  rw [complete_eq]
  exact effect_noise m i

/-! ## One call -/

theorem takesByte_of_fault {f : Fault} (h : m.aim = .error f) : m.takesByte = false := by
  rw [takesByte, Procedure.answer_of_run_error (Procedure.run_cycle_of_fault h)]
  cases m.fetch <;> rfl

theorem takesByte_of_aim {i : Instruction} {next : UInt16} (h : m.aim = .ok (i, next)) :
    m.takesByte = i.isRandom := by
  obtain ⟨w, hf, rfl, -⟩ := aim_eq_ok h
  rw [takesByte, Procedure.answer_of_run_ok (Procedure.run_cycle_of_aim h), hf]

theorem cycle_noise (m : Machine) :
    (Procedure.cycle.after m).noise = if m.takesByte then m.noise.next else m.noise := by
  rcases Procedure.cycle_cases m with ⟨f, ha, hr⟩ | ⟨i, next, ha, hr⟩
  · rw [Procedure.after_of_run_error hr, takesByte_of_fault ha]
    rfl
  · rw [Procedure.after_of_run_ok hr, takesByte_of_aim ha, complete_noise]

theorem load_noise (m : Machine) (program : List UInt8) :
    ((Procedure.load program).after m).noise = m.noise := by
  rcases Procedure.load_cases program m with ⟨o, hr⟩ | hr
  · rw [Procedure.after_of_run_error hr]
  · rw [Procedure.after_of_run_ok hr]
    simp only [store, reset_noise]

theorem restore_noise (m : Machine) (text : String) :
    ((Procedure.restore text).after m).noise = m.noise := by
  rcases Procedure.restore_cases text m with ⟨c, hr⟩ | ⟨s, -, hr⟩
  · rw [Procedure.after_of_run_error hr]
  · rw [Procedure.after_of_run_ok hr]
    simp only [SavedState.restore, reset_noise]

/-- Only a cycle that takes a byte moves the place in the stream, and by one. -/
theorem serve_noise (m : Machine) (c : Call) :
    (m.serve c).2.noise = if c = .cycle ∧ m.takesByte = true then m.noise.next else m.noise := by
  cases c with
  | cycle => simp only [serve, cycle_noise, true_and]
  | load program => simp only [serve, load_noise, reduceCtorEq, false_and, if_false]
  | restore text => simp only [serve, restore_noise, reduceCtorEq, false_and, if_false]
  | reset => simp only [serve, reset_noise, reduceCtorEq, false_and, if_false]
  | _ => rfl

/-- With a word behind it, the instruction takes the next byte of the stream. -/
theorem serve_random {x : Digit} {nn : UInt8} (hi : m.Faces (.act (.random x nn)))
    (hpc : m.pc.toNat + 1 < maxAddress) :
    m.serve .cycle =
      (.cycled (.ok .proceed),
        { m with
          registers := m.registers.put x (m.noise.byte &&& nn)
          pc := m.pc + 2
          tones := m.countTone.tones
          noise := m.noise.next }) := by
  rw [serve_cycle_of_aim (hi.aim_of_span_none rfl hpc), complete, effect, perform]
  exact congrArg (Prod.mk _) (countTone_congr rfl rfl)

/-! ## Lists of calls -/

theorem takesByte_eq_any (m : Machine) :
    m.takesByte = m.completed?.any Instruction.isRandom := by
  rw [takesByte, completed?]
  cases m.fetch with
  | error f => rfl
  | ok w => cases Procedure.cycle.answer m <;> rfl

theorem countP_first (m : Machine) (c : Call) :
    (if c = .cycle then m.completed?.toList else []).countP Instruction.isRandom =
      if c = .cycle ∧ m.takesByte = true then 1 else 0 := by
  rw [takesByte_eq_any]
  by_cases hc : c = .cycle
  · cases hi : m.completed? with
    | none => simp [hc]
    | some i => simp [hc, List.countP_singleton]
  · simp [hc]

/-- The place in the stream counts the random bytes taken. -/
theorem serveAll_noise (m : Machine) (calls : List Call) :
    (m.serveAll calls).2.noise =
      ⟨m.noise.key, m.noise.position + (m.executed calls).countP Instruction.isRandom⟩ := by
  induction calls generalizing m with
  | nil => rfl
  | cons c cs ih =>
      rw [serveAll, ih, serve_noise, executed, List.countP_append, countP_first, ← Nat.add_assoc]
      split <;> rfl

end Machine

/-- The random instructions a machine executes take the words of its seed's stream one
after the other, from word 0 on, whatever else is called for in between. -/
theorem random_bytes_in_order (seed : UInt64) (calls : List Call) :
    let key := Keystream.seedKey seed
    let m := ((Machine.ofSeed seed).serveAll calls).2
    let k := ((Machine.ofSeed seed).executed calls).countP Instruction.isRandom
    m.noise = ⟨key, k⟩ ∧
      (∀ x nn, m.Faces (.act (.random x nn)) →
        (m.pc.toNat + 1 < maxAddress →
          m.serve .cycle =
            (.cycled (.ok .proceed),
              { m with
                registers := m.registers.put x ((Keystream.word key k).toUInt8 &&& nn)
                pc := m.pc + 2
                tones := m.countTone.tones
                noise := ⟨key, k + 1⟩ })) ∧
        (m.pc.toNat + 1 = maxAddress →
          m.serve .cycle = (.cycled (.error (.outOfBounds memorySize m.pc)), m))) ∧
      (∀ c, ¬ (c = .cycle ∧ ∃ x nn, m.completed? = some (.act (.random x nn))) →
        (m.serve c).2.noise = m.noise) ∧
      Keystream.word key k = (Keystream.block key (k / 16)).at (k % 16) := by
  intro key m k
  have hnoise : m.noise = ⟨key, k⟩ := by
    rw [Machine.serveAll_noise, Machine.ofSeed, Machine.boot_noise, Keystream.ofSeed,
      Keystream.ofKey, Nat.zero_add]
    rfl
  refine ⟨hnoise, ?_, ?_, rfl⟩
  · intro x nn hi
    constructor
    · intro hpc
      rw [Machine.serve_random hi hpc, hnoise]
      rfl
    · intro hpc
      apply Machine.serve_cycle_of_fault
      apply hi.aim_eq_error
      rw [Machine.target, Machine.actTarget_of_last hpc]
  · intro c hc
    rw [Machine.serve_noise, if_neg]
    rintro ⟨hcycle, ht⟩
    rw [Machine.takesByte_eq_any, Option.any_eq_true] at ht
    obtain ⟨i, hi, hrandom⟩ := ht
    obtain ⟨x, nn, rfl⟩ := Instruction.eq_of_isRandom hrandom
    exact hc ⟨hcycle, x, nn, hi⟩

/-- The third random instruction takes word 2.  In between nothing is taken by a
return without a call, a reset, a text that holds no state, and a second program that
writes a random instruction into the last word of memory and goes there. -/
theorem third_random_byte_is_word_two :
    let key := Keystream.seedKey 7
    let calls := [.load [0xC0, 0xFF, 0xC1, 0x0F, 0x00, 0xEE], .cycle, .cycle, .cycle, .reset,
      .restore "", .load [0xAF, 0xFE, 0x60, 0xC2, 0x61, 0xFF, 0xF1, 0x55, 0x1F, 0xFE], .cycle,
      .cycle, .cycle, .cycle, .cycle, .cycle, .load [0xC5, 0xF0], .tickTimers]
    let m := ((Machine.ofSeed 7).serveAll calls).2
    m.Faces (.act (.random 5 0xF0)) ∧ m.noise.position = 2 ∧
      (m.serve .cycle).2.registers =
        m.registers.put 5 ((Keystream.word key 2).toUInt8 &&& 0xF0) := by
  intro key calls m
  have hrun : m.Faces (.act (.random 5 0xF0)) ∧ m.pc.toNat + 1 < maxAddress ∧
      ((Machine.ofSeed 7).executed calls).countP Instruction.isRandom = 2 := by decide +kernel
  obtain ⟨hi, hpc, hk⟩ := hrun
  obtain ⟨hnoise, htakes, -, -⟩ := random_bytes_in_order 7 calls
  rw [hk] at hnoise htakes
  refine ⟨hi, congrArg Keystream.position hnoise, ?_⟩
  rw [(htakes 5 0xF0 hi).1 hpc]

end ChipEight
