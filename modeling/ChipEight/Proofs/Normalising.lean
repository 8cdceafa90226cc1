import ChipEight.Proofs.Reachable
import ChipEight.Proofs.Schema

/-!
# One text for each state

Many texts hold the same state: the members of an object may come in any order, an
array does as well, and there may be blanks anywhere.  A machine does not remember
which of them it was given.  What it saves afterwards is the printed text of the
state, and two machines save the same text exactly if they were given the same state.

Restoring puts a state in a machine, and capturing takes it out again.  For a state
that passes the checks nothing is lost on the way (`Valid.capture_restore`): memory and
screen have their full length, every pixel is 0 or 1, and the version is the only one
there is.  That no two states have the same text follows from reading
(`text_injective`).
-/

namespace ChipEight

open Json (Value)

namespace SavedState

variable {s : SavedState}

/-! ## States and their texts -/

theorem text_injective : Function.Injective text := by
  intro s s' h
  have hread := parse?_text s
  rw [h, parse?_text] at hread
  exact (Option.some.inj hread).symm

/-- The array of the values of a state is another text that holds it. -/
def arrayText (s : SavedState) : String := (Value.array (s.members.map Prod.snd)).render

theorem parse?_arrayText (s : SavedState) : parse? s.arrayText = some s := by
  have hnum : (Value.array (s.members.map Prod.snd)).Numeric := by
    rw [Value.numeric_array, List.forall_mem_map]
    exact s.numeric_members
  have hlen : (s.members.map Prod.snd).length ≤ fieldNames.length := Nat.le_refl _
  have hzip : fieldNames.zip (s.members.map Prod.snd) = s.members := rfl
  rw [arrayText, parse?_of_writtenAs (Value.writtenAs_render hnum), ofValue?, if_pos hlen, hzip,
    ofMembers?_members]

theorem arrayText_ne_text (s : SavedState) : s.arrayText ≠ s.text := by
  intro h
  have htokens := congrArg String.toList h
  simp only [arrayText, text, Value.render, String.toList_ofList] at htokens
  cases htokens

/-! ## Putting a state in and taking it out -/

theorem pixel_written {v : UInt8} (h : v ≤ 1) : (if v == 1 then (1 : UInt8) else 0) = v := by
  by_cases h1 : v = 1
  · rw [h1]
    rfl
  · have h0 : v = 0 := UInt8.lt_one_iff.mp (UInt8.lt_of_le_of_ne h h1)
    rw [h0]
    rfl

/-- Pixels that are 0 or 1 are written as they were read. -/
theorem display_written {bytes : List UInt8} (h : ∀ v ∈ bytes, v ≤ 1) :
    ((bytes.map (· == 1)).map fun on => if on then (1 : UInt8) else 0) = bytes := by
  rw [List.map_map]
  calc bytes.map _ = bytes.map id := List.map_congr_left fun v hv => pixel_written (h v hv)
    _ = bytes := List.map_id bytes

/-- A state that passes every check is the state of any machine it is put in. -/
theorem Valid.capture_restore (h : s.Valid) (m : Machine) : capture (s.restore m) = s := by
  have hmemory : (Bank.ofList memorySize 0 s.memory).toList = s.memory :=
    Bank.toList_ofList h.memory_length
  have hscreen : (Bank.ofList screenSize false (s.display.map (· == 1))).toList =
      s.display.map (· == 1) :=
    Bank.toList_ofList (by rw [List.length_map, h.display_length])
  simp only [capture, SavedState.restore, hmemory, hscreen, display_written h.pixel_le,
    List.reverse_reverse, ← h.version_eq]

theorem Valid.save_restore (h : s.Valid) (m : Machine) : (s.restore m).save = s.text := by
  rw [Machine.save, h.capture_restore]

end SavedState

namespace Procedure

variable {m after : Machine}

/-- The printed text of a state that passes every check is taken by every machine. -/
theorem run_restore_text {s : SavedState} (h : s.Valid) (m : Machine) :
    (restore s.text).run m = .ok () (s.restore m) :=
  run_restore_eq_ok_iff.mpr ⟨s, s.parse?_text, h, rfl⟩

/-- Whatever text a machine took, its state is the one the text holds, and it saves the
printed text of that state.  Every machine takes the printed text, is then in the same
state and saves the same text again.  Two texts that were taken lead to the same saved
text exactly if they hold the same state. -/
theorem restore_normalises {text : String} (h : (restore text).run m = .ok () after) :
    ∃ s, SavedState.parse? text = some s ∧ SavedState.capture after = s ∧ after.save = s.text ∧
      (∀ m', ∃ after', (restore s.text).run m' = .ok () after' ∧
        SavedState.capture after' = s ∧ after'.save = s.text) ∧
      ∀ text' m' after', (restore text').run m' = .ok () after' →
        (after'.save = after.save ↔ SavedState.parse? text' = SavedState.parse? text) := by
  obtain ⟨s, hparse, hs, rfl⟩ := run_restore_eq_ok_iff.mp h
  refine ⟨s, hparse, hs.capture_restore m, hs.save_restore m, ?_, ?_⟩
  · intro m'
    exact ⟨s.restore m', run_restore_text hs m', hs.capture_restore m', hs.save_restore m'⟩
  · intro text' m' after' h'
    obtain ⟨s', hparse', hs', rfl⟩ := run_restore_eq_ok_iff.mp h'
    rw [hs'.save_restore, hs.save_restore, hparse', hparse, SavedState.text_injective.eq_iff,
      Option.some_inj]

end Procedure

/-- An array of the values is another text, and the machine that takes it saves what was
saved before. -/
theorem array_of_values_normalises :
    let m := ((Pacer.fresh (Keystream.seedKey 1) 12).serveAll
      [.load [0xA0, 0x50, 0xD0, 0x05, 0xF0, 0x0A], .tick, .tick]).machine
    let s := SavedState.capture m
    s.arrayText ≠ m.save ∧ ∃ after,
      (Procedure.restore s.arrayText).run (Machine.ofSeed 2) = .ok () after ∧
        after.save = m.save := by
  intro m s
  have hm : m.Coherent := Pacer.coherent_serveAll (Pacer.coherent_fresh _ _) _
  have hrun : (Procedure.restore s.arrayText).run (Machine.ofSeed 2) =
      .ok () (s.restore (Machine.ofSeed 2)) :=
    Procedure.run_restore_eq_ok_iff.mpr ⟨s, s.parse?_arrayText, hm.capture, rfl⟩
  obtain ⟨s', hparse, -, hsave, -⟩ := Procedure.restore_normalises hrun
  rw [s.parse?_arrayText] at hparse
  cases hparse
  exact ⟨s.arrayText_ne_text, _, hrun, hsave⟩

end ChipEight
