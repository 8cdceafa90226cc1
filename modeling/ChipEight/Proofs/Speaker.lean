import ChipEight.Proofs.Bursts
import ChipEight.Proofs.CatchingUp
import ChipEight.Proofs.ClockRate
import ChipEight.Proofs.Failures
import ChipEight.Proofs.Redraw
import ChipEight.Proofs.Tones

/-!
# When the speaker sounds

A frame lets the speaker sound if tones were asked for since the frame before.  Every cycle
asks for one while the sound timer runs, and an update that runs a tick runs a cycle, so
behind such a frame the speaker sounds as long as the timer has not run out
(`Machine.Heard`).

A frame that comes before the next tick is due runs no cycle and asks for nothing.  It
stops the speaker, whatever the timer says, unless tones are left from a frame that failed.
So the speaker follows the timer exactly at the frames that run a tick
(`Console.speaker_follows_ticks`).
-/

namespace ChipEight

/-! ## Machines that are heard -/

namespace Machine

variable {m : Machine}

/-- If the sound timer runs, a tone was asked for. -/
def Heard (m : Machine) : Prop := m.sound ≠ 0 → 0 < m.tones

/-- A cycle that does not fail is heard. -/
theorem heard_complete (m : Machine) (i : Instruction) (next : UInt16) :
    (m.complete i next).2.Heard := by
  intro hs
  rw [complete_tones, if_neg hs, Nat.lt_min]
  exact ⟨Nat.succ_pos _, by decide⟩

theorem Heard.tickTimers (h : m.Heard) : m.tickTimers.Heard := by
  intro hs
  refine h ?_
  intro hzero
  refine hs ?_
  rw [Machine.tickTimers, hzero]
  rfl

/-- Behind a run without a failure the machine is heard, if it was before or if there was a
cycle. -/
theorem heard_serveAll {calls : List Call} (hc : ∀ c ∈ calls, c.Passive)
    (hs : m.Succeeds calls) (h : m.Heard ∨ .cycle ∈ calls) : (m.serveAll calls).2.Heard := by
  induction calls generalizing m with
  | nil => exact h.resolve_right List.not_mem_nil
  | cons c cs ih =>
      obtain ⟨hc, hcs⟩ := List.forall_mem_cons.mp hc
      rcases hc with rfl | rfl
      · have hresults := m.cycleResults_cons_cycle cs
        refine ih hcs ?_ (Or.inl ?_)
        · intro f hf
          refine hs f ?_
          rw [hresults]
          exact List.mem_cons_of_mem _ hf
        · rcases Procedure.cycle_cases m with ⟨f, -, hr⟩ | ⟨i, next, -, hr⟩
          · refine absurd ?_ (hs f)
            rw [hresults, Procedure.answer_of_run_error hr]
            exact List.mem_cons_self
          · rw [serve, Procedure.after_of_run_ok hr]
            exact m.heard_complete i next
      · refine ih hcs hs ?_
        rcases h with h | h
        · exact Or.inl h.tickTimers
        · exact Or.inr ((List.mem_cons.mp h).resolve_left (by decide))

/-- Without a cycle, no tone comes to be asked for. -/
theorem serveAll_tones_of_no_cycle {calls : List Call} (hm : m.tones = 0)
    (hc : .cycle ∉ calls) : (m.serveAll calls).2.tones = 0 := by
  induction calls generalizing m with
  | nil => exact hm
  | cons c cs ih =>
      obtain ⟨hfirst, hrest⟩ := not_or.mp (List.mem_cons.not.mp hc)
      refine ih ?_ hrest
      have hasks : m.asksForTone c = false := by
        cases c with
        | cycle => exact absurd rfl hfirst
        | _ => rfl
      rw [serve_tones, hasks, hm]
      exact ite_self 0

end Machine

/-! ## Updates that are heard -/

namespace Pacer

/-- An update for which a tick is due runs a cycle. -/
theorem cycle_mem_updateCalls {p : Pacer} {seconds : Float32} (h : 0 < p.rate)
    (hdue : timeStep ≤ p.backlog + seconds) : .cycle ∈ p.machineCalls (.update seconds) := by
  rw [machineCalls, maxTicksPerUpdate, catchUpCalls, if_pos hdue]
  exact List.mem_append_left _ (cycle_mem_tickCalls (p := { p with backlog := _ }) h)

/-- An update that ran a tick without a failure leaves a machine that is heard. -/
theorem heard_update {p : Pacer} {seconds : Float32} (h : 0 < p.rate)
    (hdue : timeStep ≤ p.backlog + seconds) {outcome : Outcome}
    (hok : (p.update seconds).1 = .ok outcome) : (p.update seconds).2.machine.Heard := by
  have hends := p.update_ends seconds
  rw [hok] at hends
  have hmachine : (p.update seconds).2.machine =
      (p.machine.serveAll (p.machineCalls (.update seconds))).2 := machine_serve p (.update seconds)
  rw [hmachine]
  exact Machine.heard_serveAll (fun _ hc => passive_of_mem_machineCalls rfl hc) hends.of_ok
    (Or.inr (cycle_mem_updateCalls h hdue))

end Pacer

/-! ## The speaker of a console -/

namespace Console

variable {D : Type} [FileSystem D] {c : Console D} {e : Event} {seconds : Float32}

/-- A frame without a failure sets the speaker by the tones of its update, and collects
them. -/
theorem playing_frame (hok : (c.turn (.frame seconds)).failure = none) :
    ∃ outcome, (c.pacer.update seconds).1 = .ok outcome ∧
      (c.react (.frame seconds)).playing =
        decide (0 < (c.pacer.update seconds).2.machine.tones) ∧
      (c.react (.frame seconds)).machine.sound = (c.pacer.update seconds).2.machine.sound ∧
      (c.react (.frame seconds)).machine.tones = 0 := by
  rw [failure_turn] at hok
  have hreact : c.react (.frame seconds) = (c.frame seconds).console :=
    congrArg Turn.console (turn_of_handled hok)
  rcases c.frame_cases seconds with ⟨f, pacer, -, h⟩ | ⟨outcome, pacer, _, _, hu, h, -⟩
  · rw [handle, h] at hok
    cases hok
  · rw [hreact, h, hu]
    refine ⟨outcome, rfl, ?_⟩
    rcases (c.updated pacer).paint_cases seconds with ⟨-, hp⟩ | ⟨s, -, -, hp⟩
    · rw [hp]
      exact ⟨rfl, rfl, rfl⟩
    · rw [hp]
      exact ⟨rfl, rfl, rfl⟩

/-- Only frames run cycles. -/
theorem cycle_not_mem_calls (p : Pacer) (he : ∀ seconds, e ≠ .frame seconds) :
    .cycle ∉ p.allMachineCalls (c.calls e) := by
  cases e with
  | frame seconds => exact absurd rfl (he seconds)
  | key e =>
      rw [calls]
      rcases c.handle_key_cases e with ⟨k, hp, -, -⟩ | ⟨h, hp, hk, -⟩ | ⟨hp, hk, -⟩
      · rw [hp]
        simp [Pacer.allMachineCalls, Pacer.machineCalls]
      · rw [hp, hk]
        cases h with
        | restore =>
            simp only [hotkeyCalls]
            cases FileSystem.read c.disk c.statePath <;>
              simp [Pacer.allMachineCalls, Pacer.machineCalls]
        | _ => simp [hotkeyCalls, Pacer.allMachineCalls, Pacer.machineCalls]
      · rw [hp, hk]
        exact List.not_mem_nil
      all_goals
        intro _ he
        cases he
  | _ => exact List.not_mem_nil

/-- As long as nothing failed, no tones are left behind an event. -/
theorem tones_undergo {h : Happening D} (hc : c.failure = none → c.machine.tones = 0)
    (hnone : (c.undergo h).failure = none) : (c.undergo h).machine.tones = 0 := by
  cases h with
  | devices broken => exact hc hnone
  | disk change => exact hc hnone
  | event e =>
      obtain ⟨hturn, hbefore⟩ := Option.or_eq_none_iff.mp ((c.note_react e).1.symm.trans hnone)
      by_cases he : ∃ seconds, e = .frame seconds
      · obtain ⟨seconds, rfl⟩ := he
        obtain ⟨-, -, -, -, htones⟩ := playing_frame hturn
        exact htones
      · have hcalls := cycle_not_mem_calls (c := c) c.pacer (not_exists.mp he)
        rw [undergo, machine, pacer_react, Pacer.machine_serveAll]
        exact Machine.serveAll_tones_of_no_cycle (hc hbefore) hcalls

theorem tones_undergoAll {hs : List (Happening D)} (hc : c.failure = none → c.machine.tones = 0)
    (hnone : (c.undergoAll hs).failure = none) : (c.undergoAll hs).machine.tones = 0 := by
  induction hs generalizing c with
  | nil => exact hc hnone
  | cons h hs ih => exact ih (tones_undergo hc) hnone

theorem Reachable.rate_pos (h : c.Reachable) : 0 < c.pacer.rate := by
  obtain ⟨key, rate, calls, hp⟩ := h.pacer
  rw [hp]
  exact (Pacer.isRate_serveAll (Pacer.isRate_nearestRate _) calls).1

theorem Reachable.tones_eq_zero (h : c.Reachable) (hnone : c.failure = none) :
    c.machine.tones = 0 := by
  obtain ⟨o, program, around, start, hs, hstart, rfl⟩ := h
  refine tones_undergoAll (fun _ => ?_) hnone
  rw [(start_eq_ok_iff.mp hstart).2.2, Console.machine, started, Pacer.machine_serve]
  exact Machine.serveAll_tones_of_no_cycle (Machine.boot_tones _) (by simp [Pacer.machineCalls])

/-- Behind a frame without a failure, and with the sound timer running, the speaker sounds
exactly if the frame ran a tick or tones were left over.  Tones are left over only from a
frame that failed. -/
theorem speaker_follows_ticks (hc : c.Reachable) (hok : (c.turn (.frame seconds)).failure = none)
    (hs : (c.react (.frame seconds)).machine.sound ≠ 0) :
    ((c.react (.frame seconds)).playing = true ↔
        timeStep ≤ c.pacer.backlog + seconds ∨ 0 < c.machine.tones) ∧
      (c.failure = none → c.machine.tones = 0) := by
  refine ⟨?_, hc.tones_eq_zero⟩
  obtain ⟨outcome, hu, hplaying, hsound, -⟩ := playing_frame hok
  rw [hplaying, decide_eq_true_iff]
  by_cases hdue : timeStep ≤ c.pacer.backlog + seconds
  · rw [hsound] at hs
    exact iff_of_true (Pacer.heard_update hc.rate_pos hdue hu hs) (Or.inl hdue)
  · rw [Pacer.update_of_not_le hdue]
    exact (or_iff_right hdue).symm

/-- A program sets the sound timer to 60, clears the screen and waits for a key.  A frame
runs the four ticks it may, and the next runs one more. -/
theorem speaker_sounds_behind_tick :
    let options : Options := ⟨"x.ch8", 12, none, none⟩
    let program := [0x60, 0x3C, 0xF0, 0x18, 0x00, 0xE0, 0xF1, 0x0A]
    let around : Surroundings Shelf := ⟨[], Keystream.seedKey 1, Shelf.empty⟩
    let c := (started options program around).undergoAll [.event .resumed, .event (.frame 1.0)]
    c.Reachable ∧ (c.turn (.frame 0.02)).failure = none ∧
      (c.react (.frame 0.02)).machine.sound = 55 ∧ (c.react (.frame 0.02)).playing = true := by
  intro options program around c
  have hstart : Console.start options program around = .ok (started options program around) :=
    start_eq_ok_iff.mpr ⟨List.not_mem_nil, by decide, rfl⟩
  have hc : c.Reachable := ⟨options, program, around, _, _, hstart, rfl⟩
  have hrun : (c.pacer.update 0.02).1 = .ok .awaitingKey ∧ c.isBroken .render = false ∧
      (c.pacer.update 0.02).2.machine.sound = 55 ∧ timeStep ≤ c.pacer.backlog + 0.02 := by
    decide +kernel
  obtain ⟨hu, hrender, hvalue, hdue⟩ := hrun
  have hok := failure_frame_eq_none hu hrender
  obtain ⟨-, -, -, hsound, -⟩ := playing_frame hok
  rw [hvalue] at hsound
  have hs : (c.react (.frame 0.02)).machine.sound ≠ 0 := by
    rw [hsound]
    decide
  exact ⟨hc, hok, hsound, (speaker_follows_ticks hc hok hs).1.mpr (Or.inl hdue)⟩

/-- The same program, and a frame that comes before the next tick is due.  It does not fail
and the sound timer stands at 56, and yet the speaker stops. -/
theorem speaker_stops_between_ticks :
    let options : Options := ⟨"x.ch8", 12, none, none⟩
    let program := [0x60, 0x3C, 0xF0, 0x18, 0x00, 0xE0, 0xF1, 0x0A]
    let around : Surroundings Shelf := ⟨[], Keystream.seedKey 1, Shelf.empty⟩
    let start := started options program around
    let c := start.undergoAll [.event .resumed, .event (.frame 1.0)]
    Console.start options program around = .ok start ∧ c.playing = true ∧
      (c.turn (.frame 0.0)).failure = none ∧ (c.react (.frame 0.0)).machine.sound = 56 ∧
      (c.react (.frame 0.0)).playing = false := by
  intro options program around start c
  have hrun : c.playing = true ∧ (c.pacer.update 0.0).1 = .ok .proceed ∧
      c.isBroken .render = false ∧ (c.pacer.update 0.0).2.machine.sound = 56 ∧
      (c.pacer.update 0.0).2.machine.tones = 0 := by decide +kernel
  obtain ⟨hplays, hu, hrender, hvalue, hnone⟩ := hrun
  have hok := failure_frame_eq_none hu hrender
  obtain ⟨-, -, hplaying, hsound, -⟩ := playing_frame hok
  rw [hnone] at hplaying
  exact ⟨start_eq_ok_iff.mpr ⟨List.not_mem_nil, by decide, rfl⟩, hplays, hok,
    hsound.trans hvalue, hplaying⟩

end Console

end ChipEight
