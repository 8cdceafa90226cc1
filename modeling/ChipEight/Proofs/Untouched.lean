import ChipEight.Proofs.Footprint

/-!
# What a run leaves alone

The footprint of an instruction says which parts of a machine it may change.  A call of the host
has a footprint of its own (`Call.touches`); that of a cycle is the footprint of the instruction
it completes.  `Machine.touched` puts the two together along a list of calls, where the bytes an
instruction may change stand at the index of its own moment.

A part that no call touches is the same at the end (`Machine.same_serveAll`).  No instruction
touches the keys, so for them only the calls have to be looked at (`Machine.keypad_serveAll`).
-/

namespace ChipEight

/-- True for the parts that a call may change by itself.  What a cycle changes is up to the
instruction it completes. -/
def Call.touches (p : Part) : Call → Bool
  | .cycle | .takeTones => false
  | .tickTimers => p == .timer .delay || p == .timer .sound
  | .setKey _ _ | .setKeys _ => p == .keypad
  | .clearRedraw => p == .redraw
  | .reset | .load _ | .restore _ => true

namespace Machine

variable {m : Machine} {p : Part}

/-- True for the parts that the calls, or the instructions they execute, may change. -/
def touched (p : Part) : Machine → List Call → Bool
  | _, [] => false
  | m, c :: cs =>
      c.touches p || (m.executed [c]).any (·.touches m.index.toNat p) ||
        (m.serve c).2.touched p cs

theorem Same.refl (m : Machine) (p : Part) : m.Same m p := by
  cases p <;> rfl

theorem Same.trans {a b c : Machine} (hab : a.Same b p) (hbc : b.Same c p) : a.Same c p := by
  cases p <;> exact Eq.trans hbc hab

/-! ## One call -/

theorem same_cycle (h : (m.executed [.cycle]).any (·.touches m.index.toNat p) = false) :
    m.Same (Procedure.cycle.after m) p := by
  rcases completed?_cases m with ⟨-, ha⟩ | ⟨i, next, hi, -, ha⟩
  · rw [ha]
    exact Same.refl m p
  · rw [executed_singleton, if_pos rfl, hi] at h
    rw [ha]
    exact same_complete next (by simpa using h)

theorem same_serve {c : Call} (hc : c.touches p = false)
    (hi : (m.executed [c]).any (·.touches m.index.toNat p) = false) :
    m.Same (m.serve c).2 p := by
  cases c with
  | cycle => exact same_cycle hi
  | reset | load _ | restore _ => cases hc
  | tickTimers =>
      cases p with
      | timer t => cases t <;> cases hc
      | _ => rfl
  | setKey _ _ | setKeys _ =>
      cases p with
      | keypad => cases hc
      | _ => rfl
  | clearRedraw =>
      cases p with
      | redraw => cases hc
      | _ => rfl
  | takeTones => cases p <;> rfl

/-! ## Lists of calls -/

/-- A part that is not touched is the same behind a run. -/
theorem same_serveAll {calls : List Call} (h : m.touched p calls = false) :
    m.Same (m.serveAll calls).2 p := by
  induction calls generalizing m with
  | nil => exact Same.refl m p
  | cons c cs ih =>
      obtain ⟨hfirst, hrest⟩ := Bool.or_eq_false_iff.mp h
      obtain ⟨hc, hi⟩ := Bool.or_eq_false_iff.mp hfirst
      exact (same_serve hc hi).trans (ih hrest)

/-- No instruction touches the keys. -/
theorem touched_keypad {calls : List Call} (h : ∀ c ∈ calls, c.touches .keypad = false) :
    m.touched .keypad calls = false := by
  induction calls generalizing m with
  | nil => rfl
  | cons c cs ih =>
      obtain ⟨hc, hcs⟩ := List.forall_mem_cons.mp h
      have hi : (m.executed [c]).any (·.touches m.index.toNat .keypad) = false := by
        rw [List.any_eq_false]
        intro i _
        cases i <;> exact nofun
      rw [touched, hc, hi, ih hcs]
      rfl

theorem keypad_serveAll {calls : List Call} (h : ∀ c ∈ calls, c.touches .keypad = false) :
    (m.serveAll calls).2.keypad = m.keypad :=
  same_serveAll (p := .keypad) (touched_keypad h)

end Machine

end ChipEight
