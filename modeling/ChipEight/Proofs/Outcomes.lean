import ChipEight.Proofs.Bursts
import ChipEight.Proofs.CatchingUp

/-!
# What an outcome tells

A host learns from the outcome of a cycle whether its machine waits for a key, and need not ask
the machine (`Outcome.Tells`).  One direction is that of the instruction: a cycle that ends
with waiting has a wait pending.  The other needs the invariant of the machine.  While a wait
is pending only the instruction that waits is executed, so no other cycle can come to an end
with it.

The steps of the timers behind a burst do not touch the wait, so what the last cycle of a tick
tells holds behind the tick, and what the last tick of an update tells holds behind the update.
-/

namespace ChipEight

/-- The outcome is to wait for a key exactly if the machine has a wait pending. -/
def Outcome.Tells (o : Outcome) (m : Machine) : Prop :=
  o = .awaitingKey ↔ m.isAwaitingKey = true

namespace Machine

variable {m : Machine} {o : Outcome}

theorem awaitKey_tells (m : Machine) (x : Digit) : (m.awaitKey x).1.Tells (m.awaitKey x).2 := by
  rcases awaitKey_cases m x with ⟨keys, he⟩ | ⟨registers, he⟩
  · rw [he]
    exact iff_of_true rfl rfl
  · rw [he]
    exact iff_of_false nofun nofun

/-- An instruction that does not wait is executed only if no wait is pending. -/
theorem Coherent.keyWait_eq_none (h : m.Coherent) {i : Instruction} {next : UInt16}
    (ha : m.aim = .ok (i, next)) (hi : i.isAwaitKey = false) : m.keyWait = none := by
  obtain ⟨w, hf, rfl, -⟩ := aim_eq_ok ha
  rw [← Option.not_isSome_iff_eq_none]
  intro hw
  rw [h.isAwaitKey_of_fetch hf hw] at hi
  cases hi

theorem Coherent.effect_tells (h : m.Coherent) {i : Instruction} {next : UInt16}
    (ha : m.aim = .ok (i, next)) : (m.effect i).1.Tells (m.effect i).2 := by
  cases hi : i.isAwaitKey with
  | false =>
      -- the outcome is another one, so there must be no wait, neither before nor behind it
      obtain ⟨hwait, hout⟩ := effect_keyWait (m := m) hi
      refine iff_of_false hout ?_
      rw [isAwaitingKey, hwait, h.keyWait_eq_none ha hi]
      exact nofun
  | true =>
      cases i with
      | act a =>
          cases a with
          | awaitKey x => exact awaitKey_tells m x
          | _ => cases hi
      | _ => cases hi

/-- The outcome of a cycle tells whether a wait is pending behind it. -/
theorem Coherent.cycle_tells (h : m.Coherent) (ha : Procedure.cycle.answer m = .ok o) :
    o.Tells (Procedure.cycle.after m) := by
  rcases Procedure.cycle_cases m with ⟨f, -, hr⟩ | ⟨i, next, haim, hr⟩
  · rw [Procedure.answer_of_run_error hr] at ha
    cases ha
  · rw [Procedure.answer_of_run_ok hr] at ha
    cases ha
    rw [Procedure.after_of_run_ok hr, complete_eq]
    exact h.effect_tells haim

theorem Coherent.cycled (h : m.Coherent) (k : Nat) : (m.cycled k).Coherent := h.serveAll _

theorem Coherent.resultOf_tells (h : m.Coherent) {k : Nat} (hk : 1 ≤ k)
    (ho : m.resultOf k = .ok o) : o.Tells (m.cycled k) := by
  obtain ⟨n, rfl⟩ := Nat.exists_eq_add_of_le' hk
  rw [cycled_succ]
  exact (h.cycled n).cycle_tells ho

end Machine

namespace Pacer

variable {p : Pacer} {o : Outcome} {seconds : Float32}

/-- The outcome of a tick tells whether a wait is pending behind it. -/
theorem tick_tells (h : p.machine.Coherent) (hr : 1 ≤ p.rate) (ho : p.tick.1 = .ok o) :
    o.Tells p.tick.2.machine := by
  have hburst := Machine.endsBurst_burstLength (m := p.machine) hr
  rw [tick_eq hburst] at ho ⊢
  exact h.resultOf_tells hburst.pos ho

theorem lastTick_tells (h : p.machine.Coherent) (hr : 1 ≤ p.rate) {k : Nat} (hk : 1 ≤ k)
    (ho : p.lastTick k = .ok o) : o.Tells (p.ticked k).machine := by
  obtain ⟨n, rfl⟩ := Nat.exists_eq_add_of_le' hk
  exact tick_tells (coherent_ticked h n) ((p.rate_ticked n).symm ▸ hr) ho

/-- An update for which a tick is due does not stop before it ran one. -/
theorem Stops.pos {backlog : Float32} {k : Nat} {result : Except Fault Outcome × Pacer}
    (h : Stops p backlog k result) (hdue : timeStep ≤ backlog) : 1 ≤ k := by
  cases k with
  | succ k => exact Nat.succ_pos k
  | zero =>
      cases h with
      | failed hf => cases hf
      | rested ho hb => exact absurd hdue hb
      | dropped ho hb hk => cases hk

/-- So does the outcome of an update, if it ran a tick. -/
theorem update_tells (h : p.machine.Coherent) (hr : 1 ≤ p.rate)
    (hdue : timeStep ≤ p.backlog + seconds) (ho : (p.update seconds).1 = .ok o) :
    o.Tells (p.update seconds).2.machine := by
  obtain ⟨k, -, -, hstops, -⟩ := p.update_stops seconds
  have hk := hstops.pos hdue
  rcases hu : p.update seconds with ⟨result, after⟩
  rw [hu] at hstops ho
  cases hstops with
  | failed hf => cases ho
  | rested hlast hb =>
      cases ho
      exact lastTick_tells h hr hk hlast
  | dropped hlast hb hfour =>
      cases ho
      exact lastTick_tells h hr hk hlast

end Pacer

/-- The outcome of a cycle that did not fail is to wait for a key exactly if the machine has a
wait pending behind it.  The same holds of every tick that did not fail, at any rate, and of
every update that did not fail and for which a tick was due.  An update for which none was due
runs nothing. -/
theorem outcome_tells_wait {p : Pacer} (hm : p.machine.Reachable) (hr : 1 ≤ p.rate) :
    (∀ o after, Procedure.cycle.run p.machine = .ok o after →
        (o = .awaitingKey ↔ after.isAwaitingKey = true)) ∧
      (∀ o, p.tick.1 = .ok o → (o = .awaitingKey ↔ p.tick.2.machine.isAwaitingKey = true)) ∧
      ∀ seconds o, (p.update seconds).1 = .ok o →
        (timeStep ≤ p.backlog + seconds →
          (o = .awaitingKey ↔ (p.update seconds).2.machine.isAwaitingKey = true)) ∧
        (¬ timeStep ≤ p.backlog + seconds →
          o = .proceed ∧ (p.update seconds).2.machine = p.machine) := by
  have h := hm.coherent
  refine ⟨?_, fun o ho => Pacer.tick_tells h hr ho, ?_⟩
  · intro o after hrun
    have htells := h.cycle_tells (Procedure.answer_of_run_ok hrun)
    rwa [Procedure.after_of_run_ok hrun] at htells
  · intro seconds o ho
    refine ⟨fun hdue => Pacer.update_tells h hr hdue ho, ?_⟩
    intro hnone
    rw [Pacer.update_of_not_le hnone] at ho ⊢
    cases ho
    exact ⟨rfl, rfl⟩

/-- A program clears the screen, waits for a key and goes on for ever.  An update of four ticks
ends with waiting.  When a key went down the next tick does not, and no wait is pending. -/
theorem waiting_update_is_told :
    let program := [0x00, 0xE0, 0xF2, 0x0A, 0x12, 0x04]
    let p := (Pacer.fresh (Keystream.seedKey 1) 2).serveAll [.load program]
    let q := (Pacer.fresh (Keystream.seedKey 1) 2).serveAll
      [.load program, .update 1.0, .machine (.setKey 3 true)]
    p.machine.Reachable ∧ 1 ≤ p.rate ∧ timeStep ≤ p.backlog + 1.0 ∧
      (p.update 1.0).1 = .ok .awaitingKey ∧ (p.update 1.0).2.machine.isAwaitingKey = true ∧
      q.machine.Reachable ∧ 1 ≤ q.rate ∧ q.tick.1 = .ok .proceed ∧
      q.tick.2.machine.isAwaitingKey = false := by
  intro program p q
  have hp : p.machine.Reachable := ⟨_, _, _, rfl⟩
  have hq : q.machine.Reachable := ⟨_, _, _, rfl⟩
  have hrun : 1 ≤ p.rate ∧ timeStep ≤ p.backlog + 1.0 ∧ (p.update 1.0).1 = .ok .awaitingKey ∧
      1 ≤ q.rate ∧ q.tick.1 = .ok .proceed := by decide +kernel
  obtain ⟨hpr, hdue, hupdate, hqr, htick⟩ := hrun
  have hwaits := ((outcome_tells_wait hp hpr).2.2 1.0 _ hupdate).1 hdue
  have hends := (outcome_tells_wait hq hqr).2.1 _ htick
  exact ⟨hp, hpr, hdue, hupdate, hwaits.mp rfl, hq, hqr, htick,
    Bool.eq_false_iff.mpr fun h => Outcome.noConfusion (hends.mpr h)⟩

end ChipEight
