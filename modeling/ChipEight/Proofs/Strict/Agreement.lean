import ChipEight.Proofs.Saving
import ChipEight.Proofs.Strict.Cycles

/-!
# Nothing traps

What a host calls for is answered by the strict definitions as by the plain ones.  Loading
a program copies no more bytes than there is room for, since its length is checked first.
Restoring a text copies as many bytes as a machine has, since the checks accept no other
length (`restoreState_eq`), and the checks themselves trap at no state, whatever it holds
(`corruption?_eq`).  All counters fit the numbers they are kept in.

The one call that can trap is the look at a single pixel, at a place outside the screen
(`pixelAt_eq_ok_iff`).
-/

namespace ChipEight

variable {α : Type}

namespace Strict

variable {m : Machine}

/-! ## Programs -/

theorem reset_eq (m : Machine) : reset m = .ok m.reset := by
  have hcopy : copy (Vector.replicate memorySize 0) glyphBase glyphEnd glyphRows =
      .ok Machine.bareMemory := copy_of_length rfl (by decide)
  rw [reset, hcopy, ok_bind, Machine.reset, Machine.boot]
  rfl

theorem boot_eq (noise : Keystream) : boot noise = .ok (Machine.boot noise) := by
  rw [boot, reset_eq, Machine.reset, Machine.boot_noise]

theorem load_eq (program : List UInt8) : load program = (Procedure.load program).guarded := by
  funext m
  change (load program).run m = (Procedure.load program).guarded.run m
  rw [Procedure.run_guarded, Procedure.run_load, load]
  by_cases h : maxProgramSize < program.length
  · rw [if_pos h, if_pos h]
    rfl
  · have hstop : programStart + program.length ≤ memorySize := by
      rw [maxProgramSize] at h
      simp only [programStart, memorySize] at h ⊢
      omega
    have hsize : size (programStart + program.length) = .ok (programStart + program.length) :=
      size_of_lt (Nat.lt_of_le_of_lt hstop (by decide))
    rw [if_neg h, if_neg h, EStateM.run_bind, Guarded.run_change (reset_eq m)]
    refine Guarded.run_change ?_
    rw [hsize, ok_bind, copy_of_length rfl hstop, ok_bind]
    rfl

/-! ## Saved states -/

theorem find?_zipIdx (xs : List α) (P : α → Bool) (k : Nat) :
    ((xs.zipIdx k).find? fun p => P p.1) =
      (xs.findIdx? P).bind fun i => xs[i]?.map fun x => (x, k + i) := by
  induction xs generalizing k with
  | nil => rfl
  | cons x xs ih =>
      rw [List.zipIdx_cons, List.find?_cons, List.findIdx?_cons]
      cases hx : P x with
      | true => rfl
      | false =>
          simp only [ih, Bool.false_eq_true, if_false]
          cases xs.findIdx? P with
          | none => rfl
          | some i =>
              simp only [Option.map_some, Option.bind_some, List.getElem?_cons_succ]
              rw [Nat.add_right_comm, Nat.add_assoc]

theorem waitsAtPc_eq (s : SavedState) : waitsAtPc s = .ok s.waitsAtPc := by
  have hpc := s.pc.toNat_lt
  rw [waitsAtPc, size_of_lt (by omega), ok_bind, SavedState.waitsAtPc]
  by_cases h : s.pc.toNat + 2 ≤ s.memory.length
  · have hhi : s.pc.toNat < s.memory.length := by omega
    have hlo : s.pc.toNat + 1 < s.memory.length := by omega
    rw [if_pos h, List.getElem?_eq_getElem hhi, List.getElem?_eq_getElem hlo,
      List.drop_eq_getElem_cons hhi, List.take_succ_cons, List.drop_eq_getElem_cons hlo,
      List.take_succ_cons, List.take_zero]
    dsimp only
    rw [decode_eq, ok_bind]
    rfl
  · have hlo : s.memory[s.pc.toNat + 1]? = none := List.getElem?_eq_none (by omega)
    rw [if_neg h, hlo]
    cases s.memory[s.pc.toNat]? <;> rfl

theorem ite_ok {c : Prop} [Decidable c] {a b : α} {x : Except Trap α} (h : x = .ok b) :
    (if c then .ok a else x) = Except.ok (if c then a else b) := by
  rw [h]
  split <;> rfl

/-- Checking a state does not trap, whatever is in it. -/
theorem corruption?_eq (s : SavedState) : corruption? s = .ok s.corruption? := by
  refine ite_ok (ite_ok (ite_ok ?_))
  have hpixel : s.badPixel? = (s.display.findIdx? (1 < ·)).bind fun i =>
      s.display[i]?.map fun value => (value, 0 + i) := find?_zipIdx s.display (1 < ·) 0
  rw [hpixel]
  cases hfind : s.display.findIdx? (1 < ·) with
  | some i =>
      have hi : i < s.display.length := (List.findIdx?_eq_some_iff_getElem.mp hfind).1
      dsimp only
      rw [item_of_lt hi, ok_bind, Option.bind_some, List.getElem?_eq_getElem hi, Nat.zero_add]
      rfl
  | none =>
      refine ite_ok (ite_ok (ite_ok ?_))
      cases s.badEntry? with
      | some entry => rfl
      | none =>
          dsimp only
          rw [waitsAtPc_eq]
          cases s.awaitingKey.isSome <;> cases s.waitsAtPc <;> rfl

/-- Behind the checks a saved memory is as long as that of a machine. -/
theorem restoreState_eq {s : SavedState} (h : s.memory.length = memorySize) (m : Machine) :
    restoreState s m = .ok (s.restore m) := by
  have hreset : m.reset.reset = m.reset := by
    rw [Machine.reset, Machine.reset_noise, ← Machine.reset]
  have hrestore : s.restore m.reset = s.restore m := by
    rw [SavedState.restore, SavedState.restore, hreset]
  rw [restoreState, reset_eq, ok_bind, copy_whole 0 h, ok_bind, hrestore, SavedState.restore]
  dsimp only
  rfl

/-- No text makes a machine trap. -/
theorem restore_eq (text : String) : restore text = (Procedure.restore text).guarded := by
  funext m
  change (restore text).run m = (Procedure.restore text).guarded.run m
  rw [restore, Procedure.run_guarded, Procedure.restore]
  cases SavedState.parse? text with
  | none => rfl
  | some s =>
      dsimp only
      rw [EStateM.run_bind, Guarded.run_attempt (corruption?_eq s)]
      cases hc : s.corruption? with
      | some c => rfl
      | none =>
          have hs := SavedState.corruption?_eq_none_iff.mp hc
          exact Guarded.run_change (restoreState_eq hs.memory_length m)

theorem ofText_eq (noise : Keystream) (text : String) :
    ofText noise text = .ok ((Machine.boot noise).restore text) := by
  rw [ofText, boot_eq, ok_bind, restore_eq, Procedure.outcome_guarded, ok_bind, Machine.restore,
    Procedure.result, Procedure.answer, Procedure.after]
  cases (Procedure.restore text).run (Machine.boot noise) <;> rfl

/-! ## Timers, keys and pixels -/

theorem tickTimers_eq (m : Machine) : tickTimers m = .ok m.tickTimers := by
  have hdelay := m.delay.toNat_lt
  have hsound := m.sound.toNat_lt
  rw [tickTimers, toByte_of_lt (by omega), ok_bind, toByte_of_lt (by omega), ok_bind]
  rfl

theorem setKey_eq (m : Machine) (k : Digit) (down : Bool) :
    setKey m k down = .ok (m.setKey k down) := by
  rw [setKey, setCell_digit, ok_bind]
  rfl

theorem pixelAt_ne_ok {row column : Nat} (h : ¬ row * screenWidth + column < screenSize)
    (on : Bool) : pixelAt m row column ≠ .ok on := by
  rw [pixelAt]
  by_cases hrow : row * screenWidth < 0x100000000
  · rw [size_of_lt hrow, ok_bind]
    by_cases hsum : row * screenWidth + column < 0x100000000
    · rw [size_of_lt hsum, ok_bind, cell, dif_neg h]
      exact nofun
    · rw [size, sizeLimit, if_neg hsum]
      exact nofun
  · rw [size, sizeLimit, if_neg hrow]
    exact nofun

/-- A pixel can be looked at exactly if its place in the row-by-row order is on the
screen. -/
theorem pixelAt_eq_ok_iff {row column : Nat} {on : Bool} :
    pixelAt m row column = .ok on ↔ m.screen.at? row column = some on := by
  rw [Screen.at?]
  by_cases h : row * screenWidth + column < screenSize
  · have hsize : row * screenWidth + column < 0x100000000 := Nat.lt_trans h (by decide)
    rw [pixelAt, size_of_lt (by omega), ok_bind, size_of_lt hsize, ok_bind, cell_of_lt h,
      Vector.getElem?_eq_getElem h, Except.ok.injEq, Option.some.injEq]
  · rw [Vector.getElem?_eq_none (Nat.not_lt.mp h)]
    exact iff_of_false (pixelAt_ne_ok h on) (Option.some_ne_none on).symm

/-! ## Calls -/

/-- No call to a machine traps. -/
theorem serve_eq (m : Machine) (c : Call) : serve m c = .ok (m.serve c) := by
  cases c with
  | cycle =>
      rw [serve, cycle_eq, Procedure.outcome_guarded, ok_bind]
      rfl
  | tickTimers =>
      rw [serve, tickTimers_eq, ok_bind]
      rfl
  | setKey k down =>
      rw [serve, setKey_eq, ok_bind]
      rfl
  | reset =>
      rw [serve, reset_eq, ok_bind]
      rfl
  | load program =>
      rw [serve, load_eq, Procedure.outcome_guarded, ok_bind]
      rfl
  | restore text =>
      rw [serve, restore_eq, Procedure.outcome_guarded, ok_bind]
      rfl
  | setKeys _ | clearRedraw | takeTones => rfl

/-! ## Pacers -/

theorem burst_eq (n : Nat) (m : Machine) : burst n m = .ok (m.burst n) := by
  induction n generalizing m with
  | zero => rfl
  | succ n ih =>
      rw [burst, Machine.burst, cycle_eq, Procedure.outcome_guarded, ok_bind]
      cases hr : Procedure.cycle.run m with
      | error f after =>
          rw [Procedure.answer_of_run_error hr, Procedure.after_of_run_error hr]
          rfl
      | ok outcome after =>
          rw [Procedure.answer_of_run_ok hr, Procedure.after_of_run_ok hr]
          cases outcome with
          | proceed => exact ih after
          | frameDone | awaitingKey => rfl

theorem tick_eq (p : Pacer) : tick p = .ok p.tick := by
  rw [tick, burst_eq, ok_bind]
  dsimp only
  rw [tickTimers_eq, ok_bind]
  rfl

/-- The ticks of an update are counted, and there are not too many for that. -/
theorem catchUp_eq {left ticks : Nat} (last : Outcome) (p : Pacer)
    (h : ticks + left ≤ maxTicksPerUpdate) :
    catchUp left ticks last p = .ok (p.catchUp left last) := by
  induction left generalizing ticks last p with
  | zero =>
      rw [catchUp, Pacer.catchUp]
      split <;> rfl
  | succ left ih =>
      have hticks : ticks + 1 < 0x100000000 := by
        rw [maxTicksPerUpdate] at h
        omega
      rw [catchUp, Pacer.catchUp]
      by_cases hb : timeStep ≤ p.backlog
      · rw [if_pos hb, if_pos hb, tick_eq, ok_bind]
        cases { p with backlog := p.backlog - timeStep }.tick with
        | mk result after =>
            cases result with
            | error f => rfl
            | ok outcome =>
                dsimp only
                rw [size_of_lt hticks, ok_bind]
                exact ih outcome after (by omega)
      · rw [if_neg hb, if_neg hb]

theorem update_eq (p : Pacer) (seconds : Float32) : update p seconds = .ok (p.update seconds) :=
  catchUp_eq _ _ (Nat.le_of_eq (Nat.zero_add _))

theorem runLoad_eq (p : Pacer) (program : List UInt8) :
    runLoad p program = .ok (p.runLoad program) := by
  rw [runLoad, load_eq, Procedure.outcome_guarded, ok_bind, Pacer.runLoad, Procedure.answer,
    Procedure.after]
  cases (Procedure.load program).run p.machine <;> rfl

/-- Every rate can be counted to. -/
theorem nearestRate_eq (n : Int) : nearestRate n = .ok (Pacer.nearestRate n) := by
  refine size_of_lt ?_
  rw [Pacer.nearestRate, maxRate]
  omega

theorem start_eq (m : Machine) (rate : Nat) : start m rate = .ok (Pacer.start m rate) := by
  rw [start, nearestRate_eq, ok_bind]
  rfl

/-- No call to a pacer traps. -/
theorem servePacer_eq (p : Pacer) (c : PacerCall) : servePacer p c = .ok (p.serve c) := by
  cases c with
  | machine c =>
      rw [servePacer, serve_eq, ok_bind]
      rfl
  | tick =>
      rw [servePacer, tick_eq, ok_bind]
      rfl
  | update seconds =>
      rw [servePacer, update_eq, ok_bind]
      rfl
  | load program =>
      rw [servePacer, runLoad_eq, ok_bind]
      rfl
  | start rate => exact start_eq p.machine rate
  | setRate rate =>
      rw [servePacer, nearestRate_eq, ok_bind]
      rfl
  | adjustRate delta =>
      rw [servePacer, nearestRate_eq, ok_bind]
      rfl

theorem run_eq (key : StreamKey) (rate : Nat) (calls : List PacerCall) :
    run key rate calls = .ok ((Pacer.fresh key rate).serveAll calls) := by
  rw [run, boot_eq, ok_bind, start_eq, ok_bind, Pacer.fresh]
  generalize Pacer.start (Machine.boot (Keystream.ofKey key)) rate = p
  induction calls generalizing p with
  | nil => rfl
  | cons c cs ih =>
      rw [List.foldlM_cons, servePacer_eq, ok_bind]
      exact ih (p.serve c)

end Strict

/-- Whatever a host calls for, nothing traps: neither on the way to a machine nor at any
further call, with any argument.  Only a pixel must be asked for by a place on the screen. -/
theorem nothing_traps (key : StreamKey) (rate : Nat) (calls : List PacerCall) :
    let p := (Pacer.fresh key rate).serveAll calls
    Strict.run key rate calls = .ok p ∧
      (∀ c, Strict.serve p.machine c = .ok (p.machine.serve c)) ∧
      (∀ c, Strict.servePacer p c = .ok (p.serve c)) ∧
      Strict.tick p = .ok p.tick ∧
      (∀ seconds, Strict.update p seconds = .ok (p.update seconds)) ∧
      (∀ program, Strict.runLoad p program = .ok (p.runLoad program)) ∧
      (∀ noise text, Strict.ofText noise text = .ok ((Machine.boot noise).restore text)) ∧
      ∀ row column, (∃ on, Strict.pixelAt p.machine row column = .ok on) ↔
        row * 64 + column ≤ 2047 := by
  intro p
  refine ⟨Strict.run_eq key rate calls, Strict.serve_eq p.machine, Strict.servePacer_eq p,
    Strict.tick_eq p, Strict.update_eq p, Strict.runLoad_eq p, Strict.ofText_eq, ?_⟩
  intro row column
  simp only [Strict.pixelAt_eq_ok_iff, ← Option.isSome_iff_exists]
  rw [← Option.ne_none_iff_isSome, ne_eq, Screen.at?_eq_none_iff, Nat.not_le]
  exact Nat.lt_succ_iff

end ChipEight
