import ChipEight.Proofs.Calls
import ChipEight.Proofs.Saving

/-!
# Reachable machines

Every call keeps a machine coherent, and so does every list of calls to a pacer.
So every machine a host can come to have is coherent (`Machine.Reachable.coherent`).

A cycle is the hard case and was done with the invariant itself.  Loading and
resetting start from a coherent machine, restoring puts in a state that was
checked, and the other calls touch nothing the invariant speaks of.
-/

namespace ChipEight

namespace Machine

variable {m : Machine}

/-! ## Calls to a machine -/

namespace Coherent

theorem reset (m : Machine) : m.reset.Coherent := Coherent.boot m.noise

/-- A program is put in the memory of a machine that has no pending wait. -/
theorem load (h : m.Coherent) (program : List UInt8) :
    ((Procedure.load program).after m).Coherent := by
  rcases Procedure.load_cases program m with ⟨o, hr⟩ | hr
  · rw [Procedure.after_of_run_error hr]
    exact h
  · rw [Procedure.after_of_run_ok hr]
    have hreset := reset m
    refine ⟨hreset.pc_le, hreset.index_le, hreset.stack_length_le, hreset.stack_le, ?_⟩
    intro hw
    cases hw

theorem restore (h : m.Coherent) (text : String) :
    ((Procedure.restore text).after m).Coherent := by
  rcases Procedure.restore_cases text m with ⟨c, hr⟩ | ⟨s, hs, hr⟩
  · rw [Procedure.after_of_run_error hr]
    exact h
  · rw [Procedure.after_of_run_ok hr]
    exact hs.restore m

/-- Every call keeps the invariant. -/
theorem serve (h : m.Coherent) (c : Call) : (m.serve c).2.Coherent := by
  cases c with
  | cycle => exact h.cycle
  | tickTimers => exact h.tickTimers
  | reset => exact reset m
  | load program => exact h.load program
  | restore text => exact h.restore text
  | _ => exact h.of_eq rfl rfl rfl rfl rfl

theorem serveAll (h : m.Coherent) (calls : List Call) : (m.serveAll calls).2.Coherent := by
  induction calls generalizing m with
  | nil => exact h
  | cons c cs ih => exact ih (h.serve c)

end Coherent

end Machine

/-! ## Calls to a pacer -/

namespace Pacer

variable {p : Pacer}

theorem machine_runLoad (p : Pacer) (program : List UInt8) :
    (p.runLoad program).2.machine = (Procedure.load program).after p.machine := by
  rw [runLoad, Procedure.after]
  cases (Procedure.load program).run p.machine <;> rfl

theorem coherent_serve (h : p.machine.Coherent) (c : PacerCall) :
    (p.serve c).machine.Coherent := by
  cases c with
  | machine c => exact h.serve c
  | start rate => exact h
  | tick => exact coherent_tick h
  | update seconds => exact coherent_update h seconds
  | load program =>
      rw [serve, machine_runLoad]
      exact h.load program
  | setRate rate => exact h
  | adjustRate delta => exact h

theorem coherent_serveAll (h : p.machine.Coherent) (calls : List PacerCall) :
    (p.serveAll calls).machine.Coherent := by
  induction calls generalizing p with
  | nil => exact h
  | cons c cs ih => exact ih (coherent_serve h c)

end Pacer

theorem Pacer.coherent_fresh (key : StreamKey) (rate : Nat) :
    (Pacer.fresh key rate).machine.Coherent := by
  rw [Pacer.fresh, Pacer.start]
  exact Machine.Coherent.boot _

theorem Machine.Reachable.coherent {m : Machine} (h : m.Reachable) : m.Coherent := by
  obtain ⟨key, rate, calls, rfl⟩ := h
  exact Pacer.coherent_serveAll (Pacer.coherent_fresh key rate) calls

/-! ## What a reachable machine saves -/

/-- Whatever a host calls for, the state of its machine passes every check, and
every machine takes what it saves. -/
theorem run_state_accepted (key : StreamKey) (rate : Nat) (calls : List PacerCall) :
    let m := ((Pacer.fresh key rate).serveAll calls).machine
    (SavedState.capture m).corruption? = none ∧
      m.pc.toNat ≤ maxAddress ∧ m.index.toNat ≤ maxAddress ∧
      m.stack.length ≤ stackDepth ∧ (∀ a ∈ m.stack, a.toNat ≤ maxAddress) ∧
      (m.isAwaitingKey = true →
        ∃ w, m.fetch = .ok w ∧ (Instruction.decode w).isAwaitKey = true) ∧
      ∀ m', (Procedure.restore m.save).answer m' = .ok () := by
  intro m
  have h : m.Coherent := Pacer.coherent_serveAll (Pacer.coherent_fresh key rate) calls
  refine ⟨SavedState.corruption?_eq_none_iff.mpr h.capture, h.pc_le, h.index_le,
    h.stack_length_le, h.stack_le, h.atWait, ?_⟩
  intro m'
  exact Procedure.answer_of_run_ok (Procedure.run_restore_save h m')

/-- What a reachable machine saved makes any machine the same again, but for its
random bytes and with no tone asked for.  That machine saves the same text. -/
theorem reachable_restore_save {m : Machine} (h : m.Reachable) (m' : Machine) :
    (Procedure.restore m.save).run m' = .ok () { m with noise := m'.noise, tones := 0 } ∧
      Machine.save { m with noise := m'.noise, tones := 0 } = m.save :=
  ⟨Procedure.run_restore_save h.coherent m', Machine.save_congr m m'.noise 0⟩

/-- A machine that waits for a key, saved and put in another. -/
theorem reachable_restore_save_waiting :
    let m := ((Pacer.fresh (Keystream.seedKey 1) 12).serveAll
      [.load [0xF0, 0x0A], .machine (.setKey 3 true), .tick]).machine
    m.Reachable ∧ m.isAwaitingKey = true ∧
      (Procedure.restore m.save).run (Machine.ofSeed 2) =
        .ok () { m with noise := (Machine.ofSeed 2).noise, tones := 0 } := by
  intro m
  have h : m.Reachable := ⟨_, _, _, rfl⟩
  exact ⟨h, by decide +kernel, (reachable_restore_save h (Machine.ofSeed 2)).1⟩

end ChipEight
