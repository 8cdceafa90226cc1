import ChipEight.Proofs.Coherence
import ChipEight.Proofs.SavedText

/-!
# Saving and restoring

A saved state is `Valid` when it passes every check.  A valid state makes any
machine coherent, and what a coherent machine saves is valid: the checks accept
the states of coherent machines and no others.

`run_restore_save` is the round trip.  A machine that is given the text of a
coherent machine becomes that machine, its own random bytes apart, and asks for no
tone.
-/

namespace ChipEight

namespace SavedState

/-! ## Valid states -/

/-- A state that passes every check. -/
structure Valid (s : SavedState) : Prop where
  version_eq : s.version = savedStateVersion
  memory_length : s.memory.length = memorySize
  display_length : s.display.length = screenSize
  pixel_le : ∀ v ∈ s.display, v ≤ 1
  pc_le : s.pc.toNat ≤ maxAddress
  index_le : s.index.toNat ≤ maxAddress
  stack_length_le : s.stack.length ≤ stackDepth
  stack_le : ∀ a ∈ s.stack, a.toNat ≤ maxAddress
  waitsAtPc : s.awaitingKey.isSome = true → s.waitsAtPc = true

theorem badPixel?_eq_none_iff {s : SavedState} : s.badPixel? = none ↔ ∀ v ∈ s.display, v ≤ 1 := by
  rw [badPixel?, List.find?_eq_none]
  constructor
  · intro h v hv
    obtain ⟨k, hk⟩ := List.mem_iff_getElem?.mp hv
    have := h (v, k) (List.mem_zipIdx_iff_getElem?.mpr hk)
    simpa using this
  · rintro h ⟨v, k⟩ hvk
    have := h v (List.mem_of_getElem? (List.mem_zipIdx_iff_getElem?.mp hvk))
    simpa using this

theorem badEntry?_eq_none_iff {s : SavedState} :
    s.badEntry? = none ↔ ∀ a ∈ s.stack, a.toNat ≤ maxAddress := by
  rw [ badEntry?, List.find?_eq_none]
  simp only [decide_eq_true_eq, Nat.not_lt]

theorem ite_some_eq_none_iff {α : Type} {c : Prop} [Decidable c] {a : α} {rest : Option α} :
    (if c then some a else rest) = none ↔ ¬ c ∧ rest = none := by
  by_cases h : c
  · simp [h]
  · simp [h]

/-- The checks accept the valid states and no others. -/
theorem corruption?_eq_none_iff {s : SavedState} : s.corruption? = none ↔ s.Valid := by
  rw [corruption?, ite_some_eq_none_iff, ite_some_eq_none_iff, ite_some_eq_none_iff]
  cases hp : s.badPixel? with
  | some p =>
      constructor
      · rintro ⟨_, _, _, h⟩
        cases h
      · intro h
        rw [badPixel?_eq_none_iff.mpr h.pixel_le] at hp
        cases hp
  | none =>
      dsimp only
      rw [ite_some_eq_none_iff, ite_some_eq_none_iff, ite_some_eq_none_iff]
      cases he : s.badEntry? with
      | some a =>
          constructor
          · rintro ⟨_, _, _, _, _, _, h⟩
            cases h
          · intro h
            rw [badEntry?_eq_none_iff.mpr h.stack_le] at he
            cases he
      | none =>
          dsimp only
          rw [ite_some_eq_none_iff]
          have hpixel := badPixel?_eq_none_iff.mp hp
          have hstack := badEntry?_eq_none_iff.mp he
          constructor
          · rintro ⟨h1, h2, h3, h4, h5, h6, h7, _⟩
            refine ⟨Decidable.not_not.mp h1, Decidable.not_not.mp h2, Decidable.not_not.mp h3,
              hpixel, Nat.not_lt.mp h4, Nat.not_lt.mp h5, Nat.not_lt.mp h6, hstack, ?_⟩
            intro hw
            cases hat : s.waitsAtPc with
            | true => rfl
            | false => exact absurd ⟨hw, hat⟩ h7
          · intro h
            refine ⟨not_not_intro h.version_eq, not_not_intro h.memory_length,
              not_not_intro h.display_length, Nat.not_lt.mpr h.pc_le, Nat.not_lt.mpr h.index_le,
              Nat.not_lt.mpr h.stack_length_le, ?_, rfl⟩
            rintro ⟨hw, hat⟩
            rw [h.waitsAtPc hw] at hat
            cases hat

/-! ## What is saved -/

theorem waitsAtPc_iff {s : SavedState} {m : Machine} (hpc : s.pc = m.pc)
    (hmemory : s.memory = m.memory.toList) : s.waitsAtPc = true ↔ m.AtWait := by
  simp only [waitsAtPc, hpc, hmemory, Machine.AtWait, Machine.fetch_eq_ok_iff, Machine.byteAt,
    Vector.getElem?_toList]
  by_cases hle : m.pc.toNat + 2 ≤ memorySize
  · have hhi : m.pc.toNat < memorySize := by omega
    have hlo : m.pc.toNat + 1 < memorySize := by omega
    simp only [Vector.getElem?_eq_getElem hhi, Vector.getElem?_eq_getElem hlo, Option.getD_some]
    constructor
    · intro h
      exact ⟨_, ⟨hle, rfl⟩, h⟩
    · rintro ⟨w, ⟨_, rfl⟩, h⟩
      exact h
  · have hlo : m.memory[m.pc.toNat + 1]? = none := Vector.getElem?_eq_none (by omega)
    rw [hlo]
    constructor
    · intro h
      split at h
      next he => cases he
      next => cases h
    · rintro ⟨w, ⟨h, _⟩, _⟩
      exact absurd h hle

/-- A pixel is on if its byte is 1. -/
theorem display_read (screen : Screen) :
    ((screen.toList.map fun on => if on then (1 : UInt8) else 0).map (· == 1)) = screen.toList := by
  rw [List.map_map]
  apply List.map_id''
  intro on
  cases on <;> rfl

theorem ofList_toList {α : Type} {n : Nat} (fill : α) (b : Bank α n) :
    Bank.ofList n fill b.toList = b := by
  apply Vector.toList_inj.mp
  exact Bank.toList_ofList b.length_toList

/-- A machine given what another saved is that machine, but for its own random
bytes, and asks for no tone. -/
theorem restore_capture (m m' : Machine) :
    (capture m).restore m' = { m with noise := m'.noise, tones := 0 } := by
  simp only [restore, capture, display_read, ofList_toList, List.reverse_reverse,
    Machine.reset_tones, Machine.reset_noise]

end SavedState

namespace Machine

/-- What a coherent machine saves passes every check. -/
theorem Coherent.capture {m : Machine} (h : m.Coherent) : (SavedState.capture m).Valid where
  version_eq := rfl
  memory_length := m.memory.length_toList
  display_length := by
    simp only [SavedState.capture, List.length_map, Vector.length_toList]
  pixel_le := by
    intro v hv
    obtain ⟨on, _, rfl⟩ := List.mem_map.mp hv
    cases on <;> decide
  pc_le := h.pc_le
  index_le := h.index_le
  stack_length_le := by
    rw [SavedState.capture, List.length_reverse]
    exact h.stack_length_le
  stack_le := fun a ha => h.stack_le a (List.mem_reverse.mp ha)
  waitsAtPc := fun hw => (SavedState.waitsAtPc_iff rfl rfl).mpr (h.atWait hw)

end Machine

namespace SavedState

/-- A state that passes every check makes a coherent machine. -/
theorem Valid.restore {s : SavedState} (h : s.Valid) (m : Machine) : (s.restore m).Coherent where
  pc_le := h.pc_le
  index_le := h.index_le
  stack_length_le := by
    rw [SavedState.restore, List.length_reverse]
    exact h.stack_length_le
  stack_le := fun a ha => h.stack_le a (List.mem_reverse.mp ha)
  atWait := by
    intro hw
    refine (waitsAtPc_iff rfl ?_).mp (h.waitsAtPc hw)
    exact (Bank.toList_ofList h.memory_length).symm

end SavedState

/-! ## The round trip -/

namespace Procedure

/-- A text is refused, and the machine is then as it was, or it holds a valid
state. -/
theorem run_restore (text : String) (m : Machine) :
    (restore text).run m =
      match SavedState.parse? text with
      | none => .error .malformed m
      | some s =>
          match s.corruption? with
          | some c => .error c m
          | none => .ok () (s.restore m) := by
  rw [restore]
  cases SavedState.parse? text with
  | none => rfl
  | some s =>
      dsimp only
      cases s.corruption? <;> rfl

theorem run_restore_malformed {text : String} (h : SavedState.parse? text = none) (m : Machine) :
    (restore text).run m = .error .malformed m := by
  rw [run_restore, h]

/-- A text is taken exactly if it holds a state that passes every check, and then this
state is put in the machine. -/
theorem run_restore_eq_ok_iff {text : String} {m after : Machine} :
    (restore text).run m = .ok () after ↔
      ∃ s, SavedState.parse? text = some s ∧ s.Valid ∧ after = s.restore m := by
  rw [run_restore]
  cases SavedState.parse? text with
  | none =>
      constructor
      · intro h
        cases h
      · rintro ⟨s, he, -⟩
        cases he
  | some s =>
      dsimp only
      cases hc : s.corruption? with
      | some c =>
          constructor
          · intro h
            cases h
          · rintro ⟨s', he, hs, -⟩
            cases he
            rw [SavedState.corruption?_eq_none_iff.mpr hs] at hc
            cases hc
      | none =>
          have hs := SavedState.corruption?_eq_none_iff.mp hc
          constructor
          · intro h
            cases h
            exact ⟨s, rfl, hs, rfl⟩
          · rintro ⟨s', he, -, rfl⟩
            cases he
            rfl

/-- Restoring is refused, or puts a valid state in the machine. -/
theorem restore_cases (text : String) (m : Machine) :
    (∃ c, (restore text).run m = .error c m) ∨
      ∃ s : SavedState, s.Valid ∧ (restore text).run m = .ok () (s.restore m) := by
  rw [run_restore]
  cases SavedState.parse? text with
  | none => exact Or.inl ⟨.malformed, rfl⟩
  | some s =>
      dsimp only
      cases hc : s.corruption? with
      | some c => exact Or.inl ⟨c, rfl⟩
      | none => exact Or.inr ⟨s, SavedState.corruption?_eq_none_iff.mp hc, rfl⟩

/-- A text that is refused leaves the machine as it is. -/
theorem run_restore_of_refused {text : String} {m : Machine} {cause : Corruption}
    (h : (restore text).answer m = .error cause) : (restore text).run m = .error cause m := by
  rcases restore_cases text m with ⟨c, hr⟩ | ⟨s, -, hr⟩
  · rw [answer_of_run_error hr] at h
    cases h
    exact hr
  · rw [answer_of_run_ok hr] at h
    cases h

theorem run_restore_save {m : Machine} (h : m.Coherent) (m' : Machine) :
    (restore m.save).run m' = .ok () { m with noise := m'.noise, tones := 0 } := by
  rw [run_restore, Machine.save, SavedState.parse?_text]
  dsimp only
  rw [SavedState.corruption?_eq_none_iff.mpr h.capture, SavedState.restore_capture]

end Procedure

/-- What is saved does not depend on the random bytes nor on the tones. -/
theorem Machine.save_congr (m : Machine) (noise : Keystream) (tones : Nat) :
    Machine.save { m with noise, tones } = m.save := rfl

end ChipEight
