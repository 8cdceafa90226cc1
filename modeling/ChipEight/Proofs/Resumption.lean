import ChipEight.Proofs.Noninterference
import ChipEight.Proofs.Reachable

/-!
# Resumption

Two machines are `Alike` when they differ in nothing but the place of their random
bytes and the tones asked for.  A machine given what another saved is alike to it.

Alike machines stay alike, and answer every call in the same way, as long as no
random byte is taken and no tones are collected (`Alike.serve`).  They are kin whose
timers are equal, so what a cycle looks at is the same in both but for the random
bytes (`Alike.cycle`).  Machines that are alike and have the same place in the same
stream stay so whatever is executed.
-/

namespace ChipEight

namespace Machine

/-- The same machine, but for its random bytes and the tones asked for. -/
def Alike (a b : Machine) : Prop := b = { a with noise := b.noise, tones := b.tones }

namespace Alike

variable {a b : Machine}

theorem kin (h : a.Alike b) : a.Kin b := by
  rw [h]
  rfl

theorem timer_eq (h : a.Alike b) (t : Timer) : b.timer t = a.timer t := by
  rw [h]
  cases t <;> rfl

theorem of_kin (h : a.Kin b) (ht : ∀ t, b.timer t = a.timer t) : a.Alike b := by
  have hdelay : b.delay = a.delay := ht .delay
  have hsound : b.sound = a.sound := ht .sound
  rw [Kin, hdelay, hsound] at h
  exact h

/-! ## One call -/

theorem cycle (h : a.Alike b) (hq : a.takesByte = true → b.noise = a.noise) :
    Procedure.cycle.answer b = Procedure.cycle.answer a ∧
      (Procedure.cycle.after a).Alike (Procedure.cycle.after b) := by
  have hrandom : ∀ i, a.completed? = some i → i.isRandom = true → b.noise = a.noise := by
    intro i hi hr
    exact hq (by rw [takesByte_eq_any, hi, Option.any_some, hr])
  obtain ⟨hanswer, hafter⟩ := h.kin.cycle hrandom (fun _ _ _ => h.timer_eq .delay)
  exact ⟨hanswer, of_kin hafter (fun t => h.kin.cycle_timer_eq (h.timer_eq t))⟩

theorem reset (a b : Machine) : a.reset.Alike b.reset := by
  simp only [Alike, Machine.reset, boot]

theorem load (h : a.Alike b) (program : List UInt8) :
    (Procedure.load program).answer b = (Procedure.load program).answer a ∧
      ((Procedure.load program).after a).Alike ((Procedure.load program).after b) := by
  simp only [Procedure.answer, Procedure.after, Procedure.run_load]
  by_cases hl : maxProgramSize < program.length
  · rw [if_pos hl, if_pos hl]
    exact ⟨rfl, h⟩
  · rw [if_neg hl, if_neg hl]
    refine ⟨rfl, ?_⟩
    simp only [store, Alike, Machine.reset, boot]

theorem restore (h : a.Alike b) (text : String) :
    (Procedure.restore text).answer b = (Procedure.restore text).answer a ∧
      ((Procedure.restore text).after a).Alike ((Procedure.restore text).after b) := by
  simp only [Procedure.answer, Procedure.after, Procedure.run_restore]
  cases SavedState.parse? text with
  | none => exact ⟨rfl, h⟩
  | some s =>
      dsimp only
      cases s.corruption? with
      | some c => exact ⟨rfl, h⟩
      | none =>
          refine ⟨rfl, ?_⟩
          simp only [SavedState.restore, Alike, Machine.reset, boot]

/-- Alike machines give the same reply to a call and stay alike. -/
theorem serve (h : a.Alike b) {c : Call} (hc : c ≠ .takeTones)
    (hq : c = .cycle → a.takesByte = true → b.noise = a.noise) :
    (b.serve c).1 = (a.serve c).1 ∧ (a.serve c).2.Alike (b.serve c).2 := by
  cases c with
  | cycle =>
      obtain ⟨hanswer, hafter⟩ := h.cycle (hq rfl)
      exact ⟨congrArg Reply.cycled hanswer, hafter⟩
  | takeTones => exact absurd rfl hc
  | reset => exact ⟨rfl, reset a b⟩
  | load program =>
      obtain ⟨hanswer, hafter⟩ := h.load program
      exact ⟨congrArg Reply.loaded hanswer, hafter⟩
  | restore text =>
      obtain ⟨hanswer, hafter⟩ := h.restore text
      exact ⟨congrArg Reply.restored hanswer, hafter⟩
  | _ =>
      rw [h]
      exact ⟨rfl, rfl⟩

theorem serve_noise_eq (h : a.Alike b) (hn : b.noise = a.noise) (c : Call) :
    (b.serve c).2.noise = (a.serve c).2.noise := by
  rw [serve_noise, serve_noise, h.kin.takesByte_eq, hn]

/-! ## Lists of calls -/

theorem serveAll_of_quiet (h : a.Alike b) {calls : List Call} (hc : .takeTones ∉ calls)
    (hq : a.quiet calls = true) :
    (b.serveAll calls).1 = (a.serveAll calls).1 ∧
      (a.serveAll calls).2.Alike (b.serveAll calls).2 := by
  induction calls generalizing a b with
  | nil => exact ⟨rfl, h⟩
  | cons c cs ih =>
      rw [quiet, Bool.and_eq_true] at hq
      obtain ⟨hfirst, hrest⟩ := hq
      have htake : c ≠ .takeTones := fun he => hc (he ▸ List.mem_cons_self)
      have hbyte : c = .cycle → a.takesByte = true → b.noise = a.noise := by
        intro he ht
        rw [he, ht] at hfirst
        cases hfirst
      obtain ⟨hreply, hafter⟩ := h.serve htake hbyte
      obtain ⟨hreplies, hend⟩ := ih hafter (fun hm => hc (List.mem_cons_of_mem _ hm)) hrest
      refine ⟨?_, hend⟩
      simp only [serveAll, hreply, hreplies]

theorem serveAll_of_noise (h : a.Alike b) (hn : b.noise = a.noise) {calls : List Call}
    (hc : .takeTones ∉ calls) :
    (b.serveAll calls).1 = (a.serveAll calls).1 ∧
      (a.serveAll calls).2.Alike (b.serveAll calls).2 ∧
        (b.serveAll calls).2.noise = (a.serveAll calls).2.noise := by
  induction calls generalizing a b with
  | nil => exact ⟨rfl, h, hn⟩
  | cons c cs ih =>
      have htake : c ≠ .takeTones := fun he => hc (he ▸ List.mem_cons_self)
      obtain ⟨hreply, hafter⟩ := h.serve htake (fun _ _ => hn)
      obtain ⟨hreplies, hend⟩ :=
        ih hafter (h.serve_noise_eq hn c) (fun hm => hc (List.mem_cons_of_mem _ hm))
      refine ⟨?_, hend⟩
      simp only [serveAll, hreply, hreplies]

end Alike

end Machine

/-! ## The restored machine -/

/-- A machine that is given what a reachable machine saved goes on as that one
would.  Until a random byte is taken, both answer in the same way and stay alike.
If they have the same place in the same stream, they do so in any case. -/
theorem restored_machine_resumes {m : Machine} (h : m.Reachable) (m₀ : Machine) :
    ∃ m', (Procedure.restore m.save).run m₀ = .ok () m' ∧
      ∀ calls : List Call, .takeTones ∉ calls →
        (m.quiet calls = true →
          (m'.serveAll calls).1 = (m.serveAll calls).1 ∧
            (m.serveAll calls).2.Alike (m'.serveAll calls).2) ∧
        (m'.noise = m.noise →
          (m'.serveAll calls).1 = (m.serveAll calls).1 ∧
            (m.serveAll calls).2.Alike (m'.serveAll calls).2 ∧
              (m'.serveAll calls).2.noise = (m.serveAll calls).2.noise) := by
  refine ⟨_, Procedure.run_restore_save h.coherent m₀, ?_⟩
  intro calls hc
  have ha : m.Alike { m with noise := m₀.noise, tones := 0 } := rfl
  exact ⟨ha.serveAll_of_quiet hc, fun hn => ha.serveAll_of_noise hn hc⟩

/-- A machine that waits for a key and is put in another: the wait goes on there
and ends as it would have ended. -/
theorem restored_wait_resumes :
    let m := ((Pacer.fresh (Keystream.seedKey 1) 12).serveAll
      [.load [0xF0, 0x0A], .machine (.setKey 3 true), .tick]).machine
    let calls := [.cycle, .tickTimers, .setKey 3 false, .cycle]
    m.Reachable ∧ ∃ m', (Procedure.restore m.save).run (Machine.ofSeed 2) = .ok () m' ∧
      (m'.serveAll calls).1 =
        [.cycled (.ok .awaitingKey), .done, .done, .cycled (.ok .proceed)] := by
  intro m calls
  have h : m.Reachable := ⟨_, _, _, rfl⟩
  have hrun : m.quiet calls = true ∧ (m.serveAll calls).1 =
      [.cycled (.ok .awaitingKey), .done, .done, .cycled (.ok .proceed)] := by decide +kernel
  obtain ⟨m', hr, hall⟩ := restored_machine_resumes h (Machine.ofSeed 2)
  obtain ⟨hagree, -⟩ := (hall calls (by decide)).1 hrun.1
  exact ⟨h, m', hr, hagree.trans hrun.2⟩

end ChipEight
