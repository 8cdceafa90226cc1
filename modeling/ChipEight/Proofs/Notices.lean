import ChipEight.Console.Turn
import ChipEight.Notice
import ChipEight.Proofs.Bursts
import ChipEight.Proofs.CatchingUp

/-!
# Notices of ticks and updates

What a tick and an update report is found by loops beside the ones that run them.  These
loops stop at the same places.  A burst reports the word of each cycle it runs, and behind
them the fault it fails with (`burstNotices_eq`).  An update reports its ticks, one after
the other, and at last the backlog that it drops, if it does (`updateNotices_eq`).

In front of each round of an update, what was reported by then and what is still to be
reported are together what the update reports (`AtRound.notices`).

So an update warns once if it fails, of its fault, and never if it does not
(`warnings_updateNotices`).  These warnings are what a console reports of a frame
(`Console.reports_frame`).
-/

namespace ChipEight

/-- What is reported of a result. -/
def Notice.ofResult : Except Fault Outcome → List Notice
  | .ok _ => []
  | .error f => [.cycleFailed f]

/-- The warnings among some notices. -/
def Notice.warnings (ns : List Notice) : List Notice := ns.filter fun n => n.level = .warn

theorem Notice.warnings_append (ns ms : List Notice) :
    warnings (ns ++ ms) = warnings ns ++ warnings ms := List.filter_append ns ms

theorem Notice.warnings_ofResult (result : Except Fault Outcome) :
    warnings (ofResult result) = ofResult result := by
  cases result <;> rfl

/-! ## Bursts and ticks -/

theorem Machine.warnings_cycleNotices (m : Machine) : Notice.warnings m.cycleNotices = [] := by
  rw [cycleNotices]
  cases m.fetch <;> rfl

/-- A burst reports the cycles it runs, and the fault of the last one. -/
theorem Machine.burstNotices_eq (n : Nat) (m : Machine) :
    m.burstNotices n =
      (List.range (m.burstLength n)).flatMap (fun j => (m.cycled j).cycleNotices) ++
        Notice.ofResult (m.burst n).1 := by
  induction n generalizing m with
  | zero => rfl
  | succ n ih =>
      rw [burstNotices, burst, burstLength]
      cases hr : Procedure.cycle.run m with
      | error f after =>
          dsimp only
          rw [List.range_one, List.flatMap_singleton]
          rfl
      | ok outcome after =>
          have hcycled : ∀ j, m.cycled (j + 1) = after.cycled j := by
            rw [← Procedure.after_of_run_ok hr]
            exact fun j => rfl
          cases outcome with
          | proceed =>
              dsimp only
              rw [ih, List.range_succ_eq_map, List.flatMap_cons, List.flatMap_map]
              simp only [hcycled, List.append_assoc]
              rfl
          | frameDone | awaitingKey =>
              dsimp only
              rw [List.range_one, List.flatMap_singleton]
              rfl

namespace Pacer

variable {p q after : Pacer} {last : Outcome} {n k left : Nat} {backlog : Float32}
  {result : Except Fault Outcome × Pacer}

theorem tickNotices_eq (p : Pacer) :
    p.tickNotices =
      (List.range (p.machine.burstLength p.rate)).flatMap
          (fun j => (p.machine.cycled j).cycleNotices) ++
        Notice.ofResult p.tick.1 := Machine.burstNotices_eq p.rate p.machine

theorem warnings_tickNotices (p : Pacer) :
    Notice.warnings p.tickNotices = Notice.ofResult p.tick.1 := by
  have hcycles : Notice.warnings ((List.range (p.machine.burstLength p.rate)).flatMap
      fun j => (p.machine.cycled j).cycleNotices) = [] := by
    rw [Notice.warnings, List.filter_flatMap, List.flatMap_eq_nil_iff]
    exact fun j _ => Machine.warnings_cycleNotices _
  rw [tickNotices_eq, Notice.warnings_append, hcycles, Notice.warnings_ofResult, List.nil_append]

/-! ## Updates -/

/-- What is reported of `k` ticks. -/
def tickedNotices (p : Pacer) (k : Nat) : List Notice :=
  (List.range k).flatMap fun j => (p.ticked j).tickNotices

theorem tickedNotices_succ (p : Pacer) (k : Nat) :
    p.tickedNotices (k + 1) = p.tickedNotices k ++ (p.ticked k).tickNotices := by
  rw [tickedNotices, List.range_succ, List.flatMap_append, List.flatMap_singleton]
  rfl

/-- What is reported when an update stops behind `k` ticks.  Unless the last of them failed,
the backlog is dropped if another one is due. -/
def stopNotices (p : Pacer) (backlog : Float32) (k : Nat) : List Notice :=
  match p.lastTick k with
  | .ok _ => if timeStep ≤ owed backlog k then [.backlogDropped (owed backlog k)] else []
  | .error _ => []

theorem warnings_stopNotices (p : Pacer) (backlog : Float32) (k : Nat) :
    Notice.warnings (p.stopNotices backlog k) = [] := by
  rw [stopNotices]
  cases p.lastTick k with
  | error f => rfl
  | ok o => dsimp only; split <;> rfl

theorem AtRound.tickNotices_eq (h : AtRound q backlog n last p) :
    p.tickNotices = (q.ticked n).tickNotices := by
  rw [h.eq_ticked]
  rfl

/-- The notices until a round and those from there on are the ones of all ticks of the update
and of its end. -/
theorem AtRound.notices (h : AtRound q backlog n last p) (hleft : n + left = maxTicksPerUpdate)
    (hloop : CatchesUp n last p k result) :
    q.tickedNotices n ++ p.catchUpNotices left = q.tickedNotices k ++ q.stopNotices backlog k := by
  induction hloop generalizing left with
  | rest hb =>
      rw [catchUpNotices.eq_def, if_neg hb, stopNotices, h.last_eq]
      rw [h.eq_ticked] at hb
      exact congrArg _ (if_neg hb).symm
  | drop hb hn =>
      obtain rfl : left = 0 := by omega
      rw [catchUpNotices.eq_def, if_pos hb, stopNotices, h.last_eq]
      have hbacklog := congrArg Pacer.backlog h.eq_ticked
      rw [hbacklog] at hb ⊢
      exact congrArg _ (if_pos hb).symm
  | fail hb hn ht =>
      obtain ⟨left, rfl⟩ : ∃ l, left = l + 1 := ⟨left - 1, by omega⟩
      have hlast := h.tick_eq
      rw [ht] at hlast
      rw [catchUpNotices.eq_def, if_pos hb, ht, stopNotices, ← (Prod.mk.inj hlast).1,
        tickedNotices_succ, h.tickNotices_eq]
      simp only [List.append_nil]
  | @next n k last o p after result hb hn ht hloop ih =>
      obtain ⟨left, rfl⟩ : ∃ l, left = l + 1 := ⟨left - 1, by omega⟩
      have hleft' : n + 1 + left = maxTicksPerUpdate := by omega
      rw [← ih (h.next hb ht) hleft', catchUpNotices.eq_def, if_pos hb, ht, tickedNotices_succ,
        h.tickNotices_eq, List.append_assoc]

/-- An update reports the ticks it runs, and then the backlog it drops. -/
theorem updateNotices_eq {seconds : Float32}
    (hloop : CatchesUp 0 .proceed { p with backlog := p.backlog + seconds } k (p.update seconds)) :
    p.updateNotices seconds = p.tickedNotices k ++ p.stopNotices (p.backlog + seconds) k :=
  (AtRound.start p (p.backlog + seconds)).notices (Nat.zero_add _) hloop

/-- Of ticks that do not fail, the last apart, the last one alone may give a warning. -/
theorem warnings_tickedNotices (h : ∀ j < k, ∃ o, p.lastTick j = .ok o) :
    Notice.warnings (p.tickedNotices k) = Notice.ofResult (p.lastTick k) := by
  induction k with
  | zero => rfl
  | succ k ih =>
      obtain ⟨o, ho⟩ := h k (Nat.lt_succ_self k)
      rw [tickedNotices_succ, Notice.warnings_append, ih fun j hj => h j (Nat.lt_succ_of_lt hj), ho,
        warnings_tickNotices]
      rfl

theorem Stops.result_eq (h : Stops q backlog k result) : result.1 = q.lastTick k := by
  cases h with
  | failed h | rested h _ | dropped h _ _ => exact h.symm

/-- An update warns of the fault it fails with, and of nothing else. -/
theorem warnings_updateNotices (p : Pacer) (seconds : Float32) :
    Notice.warnings (p.updateNotices seconds) = Notice.ofResult (p.update seconds).1 := by
  obtain ⟨k, -, hloop, hstops, -, hsucceeds⟩ := p.update_stops seconds
  rw [updateNotices_eq hloop, Notice.warnings_append, warnings_tickedNotices hsucceeds,
    warnings_stopNotices, List.append_nil, hstops.result_eq]

end Pacer

/-- A console reports of a frame what its pacer warns of. -/
theorem Console.reports_frame {D : Type} (c : Console D) (seconds : Float32) :
    (c.frame seconds).reports =
      (Notice.warnings (c.pacer.updateNotices seconds)).map Report.pacer := by
  rw [Pacer.warnings_updateNotices, frame]
  rcases c.pacer.update seconds with ⟨result, pacer⟩
  cases result with
  | error f => rfl
  | ok outcome =>
      dsimp only
      -- a frame that is not painted, is not shown, or is shown
      split
      · rfl
      · split <;> rfl

end ChipEight
