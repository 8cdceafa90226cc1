import ChipEight.Proofs.Execution
import ChipEight.Proofs.Rates

/-!
# Bursts

`Machine.EndsBurst` says with which of its cycles a burst ends: all cycles before it simply
proceed, and it is the last one that the rate allows or does not simply proceed.  There is
exactly one such cycle (`EndsBurst.unique`, `endsBurst_burstLength`), and a burst is the cycles
up to this one, with its result (`burst_eq_cycled`).

An instruction that draws a sprite does not simply proceed.  So it ends its burst, and a burst
draws one sprite at most.
-/

namespace ChipEight

/-- True for the instruction that draws a sprite. -/
def Instruction.drawsSprite : Instruction → Bool
  | .act (.draw _ _ _) => true
  | _ => false

namespace Machine

variable {m : Machine} {limit k : Nat}

/-! ## A number of cycles -/

/-- The machine behind `k` cycles. -/
def cycled (m : Machine) (k : Nat) : Machine := (m.serveAll (List.replicate k .cycle)).2

/-- The result of cycle number `k`, where the first cycle has the number 1. -/
def resultOf (m : Machine) (k : Nat) : Except Fault Outcome := Procedure.cycle.answer (m.cycled (k - 1))

theorem cycled_succ (m : Machine) (k : Nat) :
    m.cycled (k + 1) = Procedure.cycle.after (m.cycled k) := by
  rw [cycled, List.replicate_succ', serveAll_append]
  rfl

theorem cycleResults_replicate_succ (m : Machine) (k : Nat) :
    m.cycleResults (List.replicate (k + 1) .cycle) =
      m.cycleResults (List.replicate k .cycle) ++ [m.resultOf (k + 1)] := by
  rw [List.replicate_succ', cycleResults_append]
  rfl

theorem executed_replicate_succ (m : Machine) (k : Nat) :
    m.executed (List.replicate (k + 1) .cycle) =
      m.executed (List.replicate k .cycle) ++ (m.cycled k).executed [.cycle] := by
  rw [List.replicate_succ', executed_append]
  rfl

/-- A cycle that fails might as well not have been run. -/
theorem cycled_of_fails {f : Fault} (hk : 1 ≤ k) (h : m.resultOf k = .error f) :
    m.cycled k = m.cycled (k - 1) := by
  obtain ⟨n, rfl⟩ := Nat.exists_eq_add_of_le' hk
  rw [cycled_succ, Nat.add_sub_cancel]
  rw [resultOf, Nat.add_sub_cancel] at h
  rcases Procedure.cycle_cases (m.cycled n) with ⟨g, -, hr⟩ | ⟨i, next, -, hr⟩
  · exact Procedure.after_of_run_error hr
  · rw [Procedure.answer_of_run_ok hr] at h
    cases h

/-! ## The end of a burst -/

/-- A burst of at most `limit` cycles ends with cycle number `k`: those before it proceed, and it
is the last one allowed or does not proceed. -/
structure EndsBurst (m : Machine) (limit k : Nat) : Prop where
  pos : 1 ≤ k
  le : k ≤ limit
  proceeds : ∀ j, 1 ≤ j → j < k → m.resultOf j = .ok .proceed
  ends : k = limit ∨ m.resultOf k ≠ .ok .proceed

theorem EndsBurst.not_lt {j : Nat} (h : m.EndsBurst limit k) (hj : m.EndsBurst limit j) :
    ¬ k < j := by
  intro hlt
  rcases h.ends with rfl | hends
  · exact Nat.not_lt_of_le hj.le hlt
  · exact hends (hj.proceeds k h.pos hlt)

/-- No burst ends twice. -/
theorem EndsBurst.unique {j : Nat} (h : m.EndsBurst limit k) (hj : m.EndsBurst limit j) :
    j = k := Nat.le_antisymm (Nat.le_of_not_lt (h.not_lt hj)) (Nat.le_of_not_lt (hj.not_lt h))

/-- One more cycle in front of a burst, if it proceeds. -/
theorem EndsBurst.cons (h : (Procedure.cycle.after m).EndsBurst limit k)
    (hm : Procedure.cycle.answer m = .ok .proceed) : m.EndsBurst (limit + 1) (k + 1) := by
  obtain ⟨n, rfl⟩ := Nat.exists_eq_add_of_le' h.pos
  refine ⟨Nat.succ_pos _, Nat.succ_le_succ h.le, ?_, ?_⟩
  · intro j hj hlt
    obtain ⟨i, rfl⟩ := Nat.exists_eq_add_of_le' hj
    cases i with
    | zero => exact hm
    | succ i => exact h.proceeds (i + 1) (Nat.succ_pos i) (Nat.lt_of_succ_lt_succ hlt)
  · exact h.ends.imp_left (congrArg Nat.succ)

/-- A burst that ends with its first cycle. -/
theorem EndsBurst.first {n : Nat} (h : n = 0 ∨ Procedure.cycle.answer m ≠ .ok .proceed) :
    m.EndsBurst (n + 1) 1 := by
  refine ⟨Nat.le_refl 1, Nat.succ_pos n, ?_, ?_⟩
  · intro j hj hlt
    exact absurd hj (Nat.not_le_of_lt hlt)
  · exact h.imp_left fun hn => congrArg Nat.succ hn.symm

theorem burstLength_succ (n : Nat) (m : Machine) :
    m.burstLength (n + 1) =
      if Procedure.cycle.answer m = .ok .proceed then (Procedure.cycle.after m).burstLength n + 1
      else 1 := by
  rw [burstLength]
  cases hr : Procedure.cycle.run m with
  | error f after =>
      rw [Procedure.answer_of_run_error hr]
      rfl
  | ok outcome after =>
      rw [Procedure.answer_of_run_ok hr, Procedure.after_of_run_ok hr]
      cases outcome <;> rfl

/-- A burst of at least one cycle ends with the last cycle it runs. -/
theorem endsBurst_burstLength (hlimit : 1 ≤ limit) : m.EndsBurst limit (m.burstLength limit) := by
  induction limit generalizing m with
  | zero => exact absurd hlimit (by decide)
  | succ n ih =>
      rw [burstLength_succ]
      by_cases h : Procedure.cycle.answer m = .ok .proceed
      · rw [if_pos h]
        rcases Nat.eq_zero_or_pos n with rfl | hn
        · exact .first (Or.inl rfl)
        · exact .cons (ih hn) h
      · rw [if_neg h]
        exact .first (Or.inr h)

/-- A burst is the cycles up to the one that ends it, with the result of that one. -/
theorem burst_eq_cycled (h : m.EndsBurst limit k) : m.burst limit = (m.resultOf k, m.cycled k) := by
  have hlength : m.burstLength limit = k :=
    h.unique (endsBurst_burstLength (Nat.le_trans h.pos h.le))
  obtain ⟨n, rfl⟩ := Nat.exists_eq_add_of_le' h.pos
  rw [burst_eq, hlength, cycleResults_replicate_succ, List.getLast?_append]
  rfl

/-! ## Sprites in a burst -/

/-- A cycle that simply proceeds draws no sprite. -/
theorem drawsSprite_of_proceeds (h : Procedure.cycle.answer m = .ok .proceed) {i : Instruction}
    (hi : i ∈ m.executed [.cycle]) : i.drawsSprite = false := by
  rw [executed_singleton, if_pos rfl, Option.mem_toList] at hi
  obtain ⟨next, ha⟩ := aim_of_completed? hi
  rw [Procedure.answer_of_run_ok (Procedure.run_cycle_of_aim ha)] at h
  have hproceeds : (m.effect i).1 = .proceed := Except.ok.inj h
  cases i with
  | act a =>
      cases a with
      | draw x y n => cases hproceeds
      | _ => rfl
  | _ => rfl

theorem drawsSprite_of_proceed_replicate
    (h : ∀ j, 1 ≤ j → j < k + 1 → m.resultOf j = .ok .proceed) :
    ∀ i ∈ m.executed (List.replicate k .cycle), i.drawsSprite = false := by
  induction k with
  | zero => exact List.forall_mem_nil _
  | succ k ih =>
      rw [executed_replicate_succ]
      intro i hi
      rcases List.mem_append.mp hi with hi | hi
      · exact ih (fun j hj hlt => h j hj (Nat.lt_succ_of_lt hlt)) i hi
      · exact drawsSprite_of_proceeds (h (k + 1) (Nat.succ_pos k) (Nat.lt_succ_self _)) hi

/-- Only the last cycle of a burst can draw a sprite. -/
theorem countP_drawsSprite_le (h : m.EndsBurst limit k) :
    (m.executed (List.replicate k .cycle)).countP Instruction.drawsSprite ≤ 1 := by
  -- the cycles before the last proceed, so they draw nothing, and the last completes one
  -- instruction at most
  obtain ⟨n, rfl⟩ := Nat.exists_eq_add_of_le' h.pos
  have hbefore : (m.executed (List.replicate n .cycle)).countP Instruction.drawsSprite = 0 := by
    rw [List.countP_eq_zero]
    intro i hi
    exact Bool.eq_false_iff.mp (drawsSprite_of_proceed_replicate h.proceeds i hi)
  have hlast : ((m.cycled n).executed [.cycle]).length ≤ 1 := by
    rw [executed_singleton, if_pos rfl]
    exact Option.length_toList_le
  rw [executed_replicate_succ, List.countP_append, hbefore, Nat.zero_add]
  exact Nat.le_trans List.countP_le_length hlast

end Machine

/-! ## Ticks -/

namespace Pacer

variable {p : Pacer} {k : Nat}

theorem tickCalls_eq (h : p.machine.EndsBurst p.rate k) :
    p.tickCalls = List.replicate k .cycle ++ [.tickTimers] := by
  have hlength := h.unique (Machine.endsBurst_burstLength (Nat.le_trans h.pos h.le))
  rw [tickCalls, hlength]

/-- A tick is the cycles of a burst and one step of the timers behind them. -/
theorem tick_eq (h : p.machine.EndsBurst p.rate k) :
    p.tick = (p.machine.resultOf k, { p with machine := (p.machine.cycled k).tickTimers }) := by
  rw [tick, Machine.burst_eq_cycled h]

/-- A tick runs a cycle at any rate a pacer can have. -/
theorem cycle_mem_tickCalls (h : 0 < p.rate) : .cycle ∈ p.tickCalls := by
  have hburst := Machine.endsBurst_burstLength (m := p.machine) h
  rw [tickCalls_eq hburst]
  exact List.mem_append_left _ (List.mem_replicate.mpr ⟨Nat.ne_of_gt hburst.pos, rfl⟩)

theorem executed_tickCalls (h : p.machine.EndsBurst p.rate k) :
    p.machine.executed p.tickCalls = p.machine.executed (List.replicate k .cycle) := by
  rw [tickCalls_eq h, Machine.executed_append]
  exact List.append_nil _

end Pacer

/-- Whatever was done to a pacer, its rate lies between one and the greatest word, and changing
it by a signed word adds that number as far as the range goes.  A tick runs the cycles of a
burst and then one step of the timers, and touches neither rate nor backlog.  The burst ends
with the first cycle that does not simply proceed, or with as many as the rate says.  Its
result is that of its last cycle, and a cycle that failed left no trace.  So a tick runs at
least one cycle and draws at most one sprite. -/
theorem tick_is_longest_burst (m : Machine) (rate : Nat) (calls : List PacerCall) :
    let p := (Pacer.start m rate).serveAll calls
    (1 ≤ p.rate ∧ p.rate ≤ maxRate) ∧
      (∀ delta : Int32,
        ((p.adjustRate delta.toInt).rate : Int) = max 1 (min (p.rate + delta.toInt) maxRate) ∧
          p.adjustInWords delta =
            (UInt32.ofNat (p.adjustRate delta.toInt).rate, p.adjustRate delta.toInt)) ∧
      ∃ k, p.machine.EndsBurst p.rate k ∧ (∀ j, p.machine.EndsBurst p.rate j → j = k) ∧
        p.tickCalls = List.replicate k .cycle ++ [.tickTimers] ∧
        p.tick =
          (p.machine.resultOf k, { p with machine := (p.machine.cycled k).tickTimers }) ∧
        (∀ f, p.machine.resultOf k = .error f → p.machine.cycled k = p.machine.cycled (k - 1)) ∧
        (p.machine.executed p.tickCalls).countP Instruction.drawsSprite ≤ 1 := by
  intro p
  have hrate : Pacer.IsRate p.rate := Pacer.isRate_serveAll (Pacer.isRate_nearestRate rate) calls
  have hburst : p.machine.EndsBurst p.rate (p.machine.burstLength p.rate) :=
    Machine.endsBurst_burstLength hrate.1
  refine ⟨hrate, ?_, _, hburst, fun j hj => hburst.unique hj, Pacer.tickCalls_eq hburst,
    Pacer.tick_eq hburst, fun f hf => Machine.cycled_of_fails hburst.pos hf, ?_⟩
  · intro delta
    exact ⟨Pacer.toInt_nearestRate _, Pacer.adjustInWords_eq hrate delta⟩
  · rw [Pacer.executed_tickCalls hburst]
    exact Machine.countP_drawsSprite_le hburst

end ChipEight
