import ChipEight.Proofs.Reachable

/-!
# Loading forgets

A reset, a program and a saved state each replace the whole machine.  What is there
afterwards depends on what was loaded and on the place of the random bytes, and on
nothing else the machine held before: two machines with the same random bytes to
come are the same machine after it.

A load is refused for what is loaded alone, so both machines refuse it and name the
same reason.  All checks come before the first change, so a machine that refuses is
as it was.

Each loading procedure is first said to leave `boot` with something put into it, or
to refuse; `loading_forgets` compares two machines and two pacers by that.
-/

namespace ChipEight

/-- Restoring forgets everything but the place of the random bytes. -/
theorem SavedState.restore_congr {a b : Machine} (h : a.noise = b.noise) (s : SavedState) :
    s.restore a = s.restore b := by
  rw [restore, restore, Machine.reset, Machine.reset, h]

namespace Procedure

variable {ε : Type}

/-! ## Two machines that load the same -/

/-- Both machines become `m`, which has the random bytes they had and no tone asked
for. -/
def Renews (p : Procedure ε Unit) (a b m : Machine) : Prop :=
  p.run a = .ok () m ∧ p.run b = .ok () m ∧ m.noise = a.noise ∧ m.tones = 0

/-- Both machines refuse for the same reason and stay as they are. -/
def Refuses (p : Procedure ε Unit) (a b : Machine) (e : ε) : Prop :=
  p.run a = .error e a ∧ p.run b = .error e b

variable {a b : Machine}

theorem load_renews (h : a.noise = b.noise) {program : List UInt8}
    (hl : program.length ≤ maxProgramSize) :
    (load program).Renews a b ((Machine.boot a.noise).store programStart program) := by
  have hfits : ¬ maxProgramSize < program.length := Nat.not_lt.mpr hl
  refine ⟨?_, ?_, ?_⟩
  · rw [run_load, if_neg hfits, Machine.reset]
  · rw [run_load, if_neg hfits, Machine.reset, h]
  · rw [Machine.store_noise, Machine.store_tones]
    exact ⟨Machine.boot_noise _, Machine.boot_tones _⟩

theorem load_refuses {program : List UInt8} (hl : maxProgramSize < program.length) :
    (load program).Refuses a b ⟨program.length⟩ := by
  constructor
  · rw [run_load, if_pos hl]
  · rw [run_load, if_pos hl]

variable {text : String}

theorem restore_refuses_malformed (hp : SavedState.parse? text = none) :
    (restore text).Refuses a b .malformed :=
  ⟨run_restore_malformed hp a, run_restore_malformed hp b⟩

variable {s : SavedState}

theorem restore_refuses {c : Corruption} (hp : SavedState.parse? text = some s)
    (hc : s.corruption? = some c) : (restore text).Refuses a b c := by
  constructor
  · simp only [run_restore, hp, hc]
  · simp only [run_restore, hp, hc]

theorem restore_renews (h : a.noise = b.noise) (hp : SavedState.parse? text = some s)
    (hc : s.corruption? = none) :
    (restore text).Renews a b (s.restore (Machine.boot a.noise)) := by
  have ha : s.restore a = s.restore (Machine.boot a.noise) :=
    s.restore_congr (Machine.boot_noise a.noise).symm
  refine ⟨?_, ?_, ?_⟩
  · simp only [run_restore, hp, hc, ha]
  · simp only [run_restore, hp, hc, ← s.restore_congr h, ha]
  · simp only [SavedState.restore, Machine.reset_noise, Machine.reset_tones, Machine.boot_noise,
      and_self]

end Procedure

/-! ## Pacers -/

namespace Pacer

variable {p : Pacer} {program : List UInt8}

theorem runLoad_of_le (hl : program.length ≤ maxProgramSize) :
    p.runLoad program =
      (.ok (),
        { p with
          machine := (Machine.boot p.machine.noise).store programStart program
          backlog := 0.0 }) := by
  rw [runLoad, Procedure.run_load, if_neg (Nat.not_lt.mpr hl), Machine.reset]

theorem runLoad_of_lt (hl : maxProgramSize < program.length) :
    p.runLoad program = (.error ⟨program.length⟩, p) := by
  rw [runLoad, Procedure.run_load, if_pos hl]

end Pacer

/-- Machines with the same random bytes to come are the same after a reset, after
the same program and after the same saved state.  A program that does not fit, a
text that holds no state and a state that fails a check are refused by both in the
same way, and both stay as they were.  Pacers of the same rate load alike as well,
whatever backlog they have. -/
theorem loading_forgets {a b : Machine} (h : a.noise = b.noise) :
    (a.reset = Machine.boot a.noise ∧ b.reset = Machine.boot a.noise) ∧
    (∀ program : List UInt8,
      (program.length ≤ maxProgramSize →
        (Procedure.load program).Renews a b
          ((Machine.boot a.noise).store programStart program)) ∧
      (maxProgramSize < program.length →
        (Procedure.load program).Refuses a b ⟨program.length⟩)) ∧
    (∀ text : String,
      (SavedState.parse? text = none → (Procedure.restore text).Refuses a b .malformed) ∧
      ∀ s, SavedState.parse? text = some s →
        (∀ c, s.corruption? = some c → (Procedure.restore text).Refuses a b c) ∧
        (s.corruption? = none →
          (Procedure.restore text).Renews a b (s.restore (Machine.boot a.noise)))) ∧
    ∀ (rate : Nat) (u v : Float32) (program : List UInt8),
      (program.length ≤ maxProgramSize →
        ∃ m, (Procedure.load program).Renews a b m ∧
          Pacer.runLoad ⟨a, rate, u⟩ program = (.ok (), ⟨m, rate, 0.0⟩) ∧
          Pacer.runLoad ⟨b, rate, v⟩ program = (.ok (), ⟨m, rate, 0.0⟩)) ∧
      (maxProgramSize < program.length →
        Pacer.runLoad ⟨a, rate, u⟩ program = (.error ⟨program.length⟩, ⟨a, rate, u⟩) ∧
        Pacer.runLoad ⟨b, rate, v⟩ program = (.error ⟨program.length⟩, ⟨b, rate, v⟩)) := by
  refine ⟨⟨rfl, ?_⟩, ?_, ?_, ?_⟩
  · rw [Machine.reset, h]
  · intro program
    exact ⟨Procedure.load_renews h, Procedure.load_refuses⟩
  · intro text
    refine ⟨Procedure.restore_refuses_malformed, ?_⟩
    intro s hp
    exact ⟨fun c hc => Procedure.restore_refuses hp hc, Procedure.restore_renews h hp⟩
  · intro rate u v program
    constructor
    · intro hl
      refine ⟨_, Procedure.load_renews h hl, Pacer.runLoad_of_le hl, ?_⟩
      rw [Pacer.runLoad_of_le hl, h]
    · intro hl
      exact ⟨Pacer.runLoad_of_lt hl, Pacer.runLoad_of_lt hl⟩

/-- A machine that waits for a key with keys down and its screen drawn on, and one
that is new, load the same program; a program too long for memory changes neither. -/
theorem used_machine_loads_as_new :
    let a := ((Pacer.fresh (Keystream.seedKey 1) 12).serveAll
      [.load [0xA0, 0x50, 0xD0, 0x05, 0xF0, 0x0A], .machine (.setKey 3 true), .tick, .tick]).machine
    let b := Machine.ofSeed 1
    let program := [0x60, 0x05]
    a.noise = b.noise ∧ a.isAwaitingKey = true ∧ a.redraw = true ∧
      (∃ m, (Procedure.load program).Renews a b m) ∧
      (Procedure.load (List.replicate 3585 0)).Refuses a b ⟨3585⟩ := by
  intro a b program
  have hused : a.noise = b.noise ∧ a.isAwaitingKey = true ∧ a.redraw = true := by decide +kernel
  obtain ⟨-, hload, -⟩ := loading_forgets hused.1
  have hlong : (List.replicate 3585 (0 : UInt8)).length = 3585 := List.length_replicate
  have hrefuses := (hload (List.replicate 3585 0)).2 (by rw [hlong]; decide)
  rw [hlong] at hrefuses
  exact ⟨hused.1, hused.2.1, hused.2.2, ⟨_, (hload program).1 (by decide)⟩, hrefuses⟩

end ChipEight
