import ChipEight.Proofs.Execution

/-!
# Tones that are asked for

A machine counts the tones it asks for until the host collects them.  A call asks for one
if it is a cycle that does not fail and leaves the sound timer running
(`Machine.asksForTone`), and a call drops the count if it collects it, resets the machine,
or loads a program or a state into it (`Machine.dropsTones`).  Both are told from the reply
to the call and from the machine behind it.

So the count behind a run depends on the calls behind the last one that dropped it.
`Machine.TonesSince` tells how many of these asked for a tone, and the count is that
number, as long as it can be counted (`TonesSince.tones_eq`).  Whatever else is called for
neither adds a tone nor loses one: a cycle that fails, a step of the timers, a key, a
program that does not fit, a text that holds no state.
-/

namespace ChipEight

/-- True for the reply to a cycle that did not fail. -/
def Reply.completes : Reply → Bool
  | .cycled (.ok _) => true
  | _ => false

/-- True for the reply to a program or a state that was loaded. -/
def Reply.replaces : Reply → Bool
  | .loaded (.ok _) | .restored (.ok _) => true
  | _ => false

namespace Machine

variable {m : Machine}

/-- True if the call is a cycle that does not fail and leaves the sound timer running. -/
def asksForTone (m : Machine) (c : Call) : Bool :=
  (m.serve c).1.completes && (m.serve c).2.sound != 0

/-- True if the call collects the tones, resets the machine, or loads something. -/
def dropsTones (m : Machine) (c : Call) : Bool :=
  c == .takeTones || c == .reset || (m.serve c).1.replaces

/-! ## One instruction -/

theorem effect_tones (m : Machine) (i : Instruction) : (m.effect i).2.tones = m.tones := by
  cases i with
  | flow f => cases f <;> rfl
  | unknown w => rfl
  | act a => rw [effect, perform_leaves]

theorem countTone_tones (m : Machine) :
    m.countTone.tones = if m.sound = 0 then m.tones else min (m.tones + 1) toneLimit := by
  unfold countTone
  split <;> rfl

/-- An instruction that leaves the sound timer running asks for a tone. -/
theorem complete_tones (m : Machine) (i : Instruction) (next : UInt16) :
    (m.complete i next).2.tones =
      if (m.complete i next).2.sound = 0 then m.tones else min (m.tones + 1) toneLimit := by
  have hsound : (m.complete i next).2.sound = (m.effect i).2.sound := by rw [complete_eq]
  rw [hsound, ← effect_tones m i, complete]
  exact countTone_tones _

/-! ## One call -/

theorem load_tones (m : Machine) (program : List UInt8) :
    ((Procedure.load program).after m).tones =
      if m.dropsTones (.load program) then 0 else m.tones := by
  rw [dropsTones, serve]
  rcases Procedure.load_cases program m with ⟨o, hr⟩ | hr
  · rw [Procedure.answer_of_run_error hr, Procedure.after_of_run_error hr]
    rfl
  · rw [Procedure.answer_of_run_ok hr, Procedure.after_of_run_ok hr, store_tones, reset_tones]
    rfl

theorem restore_tones (m : Machine) (text : String) :
    ((Procedure.restore text).after m).tones =
      if m.dropsTones (.restore text) then 0 else m.tones := by
  rw [dropsTones, serve]
  rcases Procedure.restore_cases text m with ⟨c, hr⟩ | ⟨s, -, hr⟩
  · rw [Procedure.answer_of_run_error hr, Procedure.after_of_run_error hr]
    rfl
  · rw [Procedure.answer_of_run_ok hr, Procedure.after_of_run_ok hr, SavedState.restore]
    exact reset_tones m

theorem cycle_tones (m : Machine) :
    (Procedure.cycle.after m).tones =
      if m.asksForTone .cycle then min (m.tones + 1) toneLimit else m.tones := by
  rw [asksForTone, serve]
  rcases Procedure.cycle_cases m with ⟨f, -, hr⟩ | ⟨i, next, -, hr⟩
  · rw [Procedure.answer_of_run_error hr, Procedure.after_of_run_error hr]
    rfl
  · rw [Procedure.answer_of_run_ok hr, Procedure.after_of_run_ok hr, complete_tones]
    by_cases hs : (m.complete i next).2.sound = 0
    · simp [Reply.completes, hs]
    · simp [Reply.completes, hs]

/-- A call drops the count, adds one to it, or leaves it alone. -/
theorem serve_tones (m : Machine) (c : Call) :
    (m.serve c).2.tones =
      if m.dropsTones c then 0
      else if m.asksForTone c then min (m.tones + 1) toneLimit
      else m.tones := by
  cases c with
  | cycle => exact m.cycle_tones
  | load program => exact m.load_tones program
  | restore text => exact m.restore_tones text
  | reset => exact m.reset_tones
  | _ => rfl

/-! ## Lists of calls -/

/-- How many of the calls ask for a tone. -/
def requests : Machine → List Call → Nat
  | _, [] => 0
  | m, c :: cs => (if m.asksForTone c then 1 else 0) + (m.serve c).2.requests cs

/-- True if none of the calls drops the count. -/
def keepsTones : Machine → List Call → Bool
  | _, [] => true
  | m, c :: cs => !m.dropsTones c && (m.serve c).2.keepsTones cs

/-- The tones asked for since the last call that dropped the count are `n`.  If there is no
such call, these are all that were asked for. -/
inductive TonesSince (m : Machine) : List Call → Nat → Prop where
  | start {calls : List Call} (hk : m.keepsTones calls = true) :
      m.TonesSince calls (m.requests calls)
  | dropped (early : List Call) {c : Call} {late : List Call}
      (hc : (m.serveAll early).2.dropsTones c = true)
      (hk : (m.serveAll (early ++ [c])).2.keepsTones late = true) :
      m.TonesSince (early ++ c :: late) ((m.serveAll (early ++ [c])).2.requests late)

theorem exists_tonesSince (m : Machine) (calls : List Call) : ∃ n, m.TonesSince calls n := by
  induction calls generalizing m with
  | nil => exact ⟨_, .start rfl⟩
  | cons c cs ih =>
      obtain ⟨n, h⟩ := ih (m.serve c).2
      cases h with
      | dropped early hc hk => exact ⟨_, .dropped (c :: early) hc hk⟩
      | start hk =>
          cases hc : m.dropsTones c with
          | true => exact ⟨_, .dropped [] hc hk⟩
          | false =>
              refine ⟨_, .start ?_⟩
              rw [keepsTones, hc, hk]
              rfl

/-- As long as none of the calls drops it, the count grows by the tones they ask for. -/
theorem serveAll_tones {calls : List Call} (hm : m.tones ≤ toneLimit)
    (hk : m.keepsTones calls = true) :
    (m.serveAll calls).2.tones = min (m.tones + m.requests calls) toneLimit := by
  induction calls generalizing m with
  | nil => exact (Nat.min_eq_left hm).symm
  | cons c cs ih =>
      rw [keepsTones, Bool.and_eq_true, Bool.not_eq_true'] at hk
      obtain ⟨hc, hcs⟩ := hk
      have hone : (m.serve c).2.tones =
          min (m.tones + if m.asksForTone c then 1 else 0) toneLimit := by
        rw [serve_tones, hc]
        cases m.asksForTone c with
        | true => rfl
        | false => exact (Nat.min_eq_left hm).symm
      have hle : (m.serve c).2.tones ≤ toneLimit := by
        rw [hone]
        exact Nat.min_le_right _ _
      calc (m.serveAll (c :: cs)).2.tones
        _ = ((m.serve c).2.serveAll cs).2.tones := rfl
        _ = min ((m.serve c).2.tones + (m.serve c).2.requests cs) toneLimit := ih hle hcs
        _ = min (m.tones + m.requests (c :: cs)) toneLimit := by
            rw [hone, requests]
            omega

/-- The count is the number of tones asked for since it was dropped, if that can be
counted. -/
theorem TonesSince.tones_eq {calls : List Call} {n : Nat} (h : m.TonesSince calls n)
    (hm : m.tones = 0) : (m.serveAll calls).2.tones = min n toneLimit := by
  cases h with
  | start hk =>
      rw [serveAll_tones (hm ▸ Nat.zero_le _) hk, hm, Nat.zero_add]
  | @dropped early c late hc hk =>
      have hzero : (m.serveAll (early ++ [c])).2.tones = 0 := by
        rw [serveAll_append]
        refine (serve_tones _ c).trans ?_
        rw [if_pos hc]
      rw [List.append_cons, serveAll_append]
      refine (serveAll_tones (hzero ▸ Nat.zero_le _) hk).trans ?_
      rw [hzero, Nat.zero_add]

end Machine

/-- Whatever a host calls for, the tones it collects are those that were asked for since
the count was last dropped, or since the machine was made, up to the greatest count. -/
theorem tones_are_counted (key : StreamKey) (rate : Nat) (cs : List PacerCall) :
    let p := Pacer.fresh key rate
    let calls := p.allMachineCalls cs
    (∃ n, p.machine.TonesSince calls n) ∧
      ∀ n, p.machine.TonesSince calls n →
        ((p.serveAll cs).machine.serve .takeTones).1 = .tones (min n toneLimit) := by
  intro p calls
  refine ⟨Machine.exists_tonesSince _ _, ?_⟩
  intro n h
  have hm : p.machine.tones = 0 := Machine.boot_tones _
  have htones : (p.serveAll cs).machine.tones = min n toneLimit := by
    rw [Pacer.machine_serveAll]
    exact h.tones_eq hm
  exact congrArg Reply.tones htones

/-- A program sets the sound timer to 3 and waits for a key.  The tone of the cycle that set
the timer is collected.  Then the machine waits in two ticks, and a text without a state and a
cycle in between change nothing.  When the timer has run out the machine asks for no tone. -/
theorem tones_of_waiting_machine :
    let p := Pacer.fresh (Keystream.seedKey 1) 12
    let cs : List PacerCall := [.load [0x60, 0x03, 0xF0, 0x18, 0xF1, 0x0A], .machine .cycle,
      .machine .cycle, .machine .takeTones, .tick, .machine (.restore ""), .machine .cycle, .tick,
      .machine .tickTimers, .tick]
    p.machine.TonesSince (p.allMachineCalls cs) 3 ∧
      ((p.serveAll cs).machine.serve .takeTones).1 = .tones 3 := by
  intro p cs
  let early : List Call := [.load [0x60, 0x03, 0xF0, 0x18, 0xF1, 0x0A], .cycle, .cycle]
  let late : List Call := [.cycle, .tickTimers, .restore "", .cycle, .cycle, .tickTimers,
    .tickTimers, .cycle, .tickTimers]
  have hrun : p.allMachineCalls cs = early ++ .takeTones :: late ∧
      (p.machine.serveAll (early ++ [.takeTones])).2.keepsTones late = true ∧
      (p.machine.serveAll (early ++ [.takeTones])).2.requests late = 3 := by decide +kernel
  obtain ⟨hcalls, hk, hn⟩ := hrun
  have hsince := Machine.TonesSince.dropped (m := p.machine) early (c := .takeTones) rfl hk
  rw [← hcalls, hn] at hsince
  exact ⟨hsince, (tones_are_counted (Keystream.seedKey 1) 12 cs).2 3 hsince⟩

end ChipEight
