import ChipEight.Proofs.Checks
import ChipEight.Pacer

/-!
# Coherent machines

`Machine.Coherent` is the invariant of the machines a host can have: addresses
are addresses of memory, the stack is no deeper than it may be, and a pending wait
for a key stands on an instruction that waits for one.

The last part ties the wait to the program counter and to memory, both of which a
program changes at will.  It is kept because a pending wait keeps everything else
out: the instruction at the program counter is then the one that waits
(`Coherent.isAwaitKey_of_fetch`), and that one changes neither memory nor, as long
as it waits, the program counter.

Every cycle keeps the invariant (`Coherent.cycle`), and so do bursts, ticks and
updates.
-/

namespace ChipEight

namespace Machine

/-- The word at the program counter waits for a key. -/
def AtWait (m : Machine) : Prop :=
  ∃ w, m.fetch = .ok w ∧ (Instruction.decode w).isAwaitKey = true

/-- What holds of every machine a host can have. -/
structure Coherent (m : Machine) : Prop where
  pc_le : m.pc.toNat ≤ maxAddress
  index_le : m.index.toNat ≤ maxAddress
  stack_length_le : m.stack.length ≤ stackDepth
  stack_le : ∀ a ∈ m.stack, a.toNat ≤ maxAddress
  atWait : m.keyWait.isSome = true → m.AtWait

variable {m : Machine}

theorem fetch_congr {m' : Machine} (hmemory : m'.memory = m.memory) (hpc : m'.pc = m.pc) :
    m'.fetch = m.fetch := by
  simp only [fetch, demand, byteAt, hmemory, hpc]

theorem AtWait.of_eq {m' : Machine} (h : m.AtWait) (hmemory : m'.memory = m.memory)
    (hpc : m'.pc = m.pc) : m'.AtWait := by
  rw [AtWait, fetch_congr hmemory hpc]
  exact h

/-! ## What an instruction leaves alone -/

theorem compute_eq (m : Machine) (op : Arithmetic) (x y : Digit) :
    m.compute op x y = { m with registers := (m.compute op x y).registers } := by
  cases op <;> rfl

theorem awaitKey_of_none (h : m.keyWait = none) (x : Digit) :
    m.awaitKey x = (.awaitingKey, { m with keyWait := some m.keypad }) := by
  rw [awaitKey, h]

theorem awaitKey_of_same {before : Keypad} (h : m.keyWait = some before)
    (hk : m.changedKey? before = none) (x : Digit) : m.awaitKey x = (.awaitingKey, m) := by
  simp only [awaitKey, h, hk]

theorem awaitKey_of_changed {before : Keypad} {k : Digit} (h : m.keyWait = some before)
    (hk : m.changedKey? before = some k) (x : Digit) :
    m.awaitKey x = (.proceed, { m.setRegister x k.toByte with keyWait := none }) := by
  simp only [awaitKey, h, hk]

/-- A wait for a key begins, goes on or ends. -/
theorem awaitKey_cases (m : Machine) (x : Digit) :
    (∃ keys, m.awaitKey x = (.awaitingKey, { m with keyWait := some keys })) ∨
      ∃ registers, m.awaitKey x = (.proceed, { m with registers, keyWait := none }) := by
  cases hw : m.keyWait with
  | none => exact Or.inl ⟨m.keypad, awaitKey_of_none hw x⟩
  | some before =>
      cases hk : m.changedKey? before with
      | none =>
          refine Or.inl ⟨before, ?_⟩
          rw [awaitKey_of_same hw hk, ← hw]
      | some k => exact Or.inr ⟨m.registers.put x k.toByte, awaitKey_of_changed hw hk x⟩

/-- A wait touches the pending wait and the registers, and nothing else. -/
theorem awaitKey_eq (m : Machine) (x : Digit) :
    (m.awaitKey x).2 =
      { m with registers := (m.awaitKey x).2.registers, keyWait := (m.awaitKey x).2.keyWait } := by
  rcases awaitKey_cases m x with ⟨keys, he⟩ | ⟨registers, he⟩
  · rw [he]
  · rw [he]

/-- No action touches the program counter, the stack, the keys or the tones. -/
theorem perform_leaves (m : Machine) (a : Action) :
    (m.perform a).2 =
      { (m.perform a).2 with pc := m.pc, stack := m.stack, keypad := m.keypad, tones := m.tones } := by
  cases a with
  | arithmetic op x y => rw [perform, compute_eq]
  | awaitKey x => rw [perform, awaitKey_eq]
  | _ => rfl

/-- Only an instruction that waits for a key begins or ends a wait. -/
theorem effect_keyWait {i : Instruction} (hi : i.isAwaitKey = false) :
    (m.effect i).2.keyWait = m.keyWait ∧ (m.effect i).1 ≠ .awaitingKey := by
  cases i with
  | flow f => cases f <;> exact ⟨rfl, by simp [effect]⟩
  | unknown w => exact ⟨rfl, by simp [effect]⟩
  | act a =>
      cases a with
      | awaitKey x => cases hi
      | arithmetic op x y => exact ⟨by rw [effect, perform, compute_eq], by simp [effect, perform]⟩
      | _ => exact ⟨rfl, by simp [effect, perform]⟩

/-- No instruction sets the index outside memory. -/
theorem effect_index_le {i : Instruction} (hi : i.InRange) (h : m.index.toNat ≤ maxAddress) :
    (m.effect i).2.index.toNat ≤ maxAddress := by
  cases i with
  | flow f => cases f <;> exact h
  | unknown w => exact h
  | act a =>
      cases a with
      | setIndex nnn => exact hi
      | addToIndex x =>
          have hlt : (m.index.toNat + (m.register x).toNat) % memorySize < memorySize :=
            Nat.mod_lt _ (by decide)
          simp only [effect, perform, UInt16.toNat_ofNat', memorySize, maxAddress] at *
          omega
      | glyph x =>
          have hlt := (m.register x).toNat_lt
          simp only [effect, perform, glyphAddress_toNat, glyphBase, glyphHeight, maxAddress]
          omega
      | arithmetic op x y =>
          rw [effect, perform, compute_eq]
          exact h
      | awaitKey x =>
          rw [effect, perform, awaitKey_eq]
          exact h
      | _ => exact h

/-- Only calls and returns change the stack. -/
theorem effect_act_stack (a : Action) : (m.effect (.act a)).2.stack = m.stack := by
  rw [effect, perform_leaves]

namespace Coherent

/-! ## What the invariant depends on -/

/-- The invariant speaks of five fields only. -/
theorem of_eq {m' : Machine} (h : m.Coherent) (hmemory : m'.memory = m.memory)
    (hpc : m'.pc = m.pc) (hindex : m'.index = m.index) (hstack : m'.stack = m.stack)
    (hwait : m'.keyWait = m.keyWait) : m'.Coherent := by
  refine ⟨hpc ▸ h.pc_le, hindex ▸ h.index_le, hstack ▸ h.stack_length_le,
    hstack ▸ h.stack_le, ?_⟩
  intro hsome
  rw [hwait] at hsome
  exact (h.atWait hsome).of_eq hmemory hpc

/-- While a wait is pending, nothing else is executed. -/
theorem isAwaitKey_of_fetch (h : m.Coherent) {w : UInt16} (hf : m.fetch = .ok w)
    (hw : m.keyWait.isSome = true) : (Instruction.decode w).isAwaitKey = true := by
  obtain ⟨w', hf', hi⟩ := h.atWait hw
  rw [hf] at hf'
  cases hf'
  exact hi

theorem boot (noise : Keystream) : (Machine.boot noise).Coherent := by
  have hpc : (UInt16.ofNat programStart).toNat ≤ maxAddress := by decide
  have hindex : (0 : UInt16).toNat ≤ maxAddress := by decide
  refine ⟨hpc, hindex, Nat.zero_le _, ?_, ?_⟩
  · intro a ha
    cases ha
  · intro hw
    cases hw

/-! ## A cycle keeps it -/

/-- The stack stays as deep as it may be, with addresses in it. -/
theorem effect_stack (h : m.Coherent) {i : Instruction} {next : UInt16}
    (ht : m.target i = .ok next) :
    (m.effect i).2.stack.length ≤ stackDepth ∧
      ∀ a ∈ (m.effect i).2.stack, a.toNat ≤ maxAddress := by
  cases i with
  | unknown w => cases ht
  | act a =>
      rw [effect_act_stack]
      exact ⟨h.stack_length_le, h.stack_le⟩
  | flow f =>
      cases f with
      | call nnn =>
          simp only [target, flowTarget] at ht
          split at ht
          · cases ht
          next hd =>
            refine ⟨by simp only [effect, List.length_cons]; omega, ?_⟩
            intro a ha
            rcases List.mem_cons.mp ha with rfl | ha
            · exact h.pc_le
            · exact h.stack_le a ha
      | ret =>
          refine ⟨?_, fun a ha => h.stack_le a (List.mem_of_mem_tail ha)⟩
          have := h.stack_length_le
          simp only [effect, List.length_tail]
          omega
      | _ => exact ⟨h.stack_length_le, h.stack_le⟩

/-- A wait that is pending behind an instruction was begun or kept by it, and then
nothing moved. -/
theorem complete_atWait (h : m.Coherent) {w : UInt16} (hf : m.fetch = .ok w) (next : UInt16)
    (hw : (m.complete (Instruction.decode w) next).2.keyWait.isSome = true) :
    (m.complete (Instruction.decode w) next).2.AtWait := by
  have hi : (Instruction.decode w).isAwaitKey = true := by
    cases hi : (Instruction.decode w).isAwaitKey with
    | true => rfl
    | false =>
        rw [complete_eq] at hw
        rw [(effect_keyWait hi).1] at hw
        rw [← hi]
        exact h.isAwaitKey_of_fetch hf hw
  cases hd : Instruction.decode w with
  | flow f => rw [hd] at hi; cases hi
  | unknown w => rw [hd] at hi; cases hi
  | act a =>
      cases a with
      | awaitKey x =>
          have hat : m.AtWait := ⟨w, hf, hi⟩
          rw [hd, complete_eq, effect, perform] at hw
          rcases awaitKey_cases m x with ⟨keys, he⟩ | ⟨registers, he⟩
          · rw [complete_eq, effect, perform, he]
            exact hat.of_eq rfl rfl
          · rw [he] at hw
            cases hw
      | _ => rw [hd] at hi; cases hi

theorem complete (h : m.Coherent) {i : Instruction} {next : UInt16}
    (ha : m.aim = .ok (i, next)) : (m.complete i next).2.Coherent := by
  obtain ⟨w, hf, rfl, ht⟩ := aim_eq_ok ha
  have hstack := h.effect_stack ht
  have hindex := effect_index_le (decode_inRange w) h.index_le
  refine ⟨?_, ?_, ?_, ?_, h.complete_atWait hf next⟩
  · rw [complete_eq]
    dsimp only
    split
    · exact h.pc_le
    · exact target_le ht
  · rw [complete_eq]
    exact hindex
  · rw [complete_eq]
    exact hstack.1
  · rw [complete_eq]
    exact hstack.2

/-- A cycle keeps the invariant, also one that fails. -/
theorem cycle (h : m.Coherent) : (Procedure.cycle.after m).Coherent := by
  rcases Procedure.cycle_cases m with ⟨f, _, hr⟩ | ⟨i, next, ha, hr⟩
  · rw [Procedure.after_of_run_error hr]
    exact h
  · rw [Procedure.after_of_run_ok hr]
    exact h.complete ha

/-! ## Bursts, ticks and updates -/

theorem tickTimers (h : m.Coherent) : m.tickTimers.Coherent := h.of_eq rfl rfl rfl rfl rfl

theorem burst (h : m.Coherent) (n : Nat) : (m.burst n).2.Coherent := by
  induction n generalizing m with
  | zero => exact h
  | succ n ih =>
      have hc := h.cycle
      unfold Machine.burst
      split
      next hr => exact ih (Procedure.after_of_run_ok hr ▸ hc)
      next hr => exact Procedure.after_of_run_ok hr ▸ hc
      next hr => exact Procedure.after_of_run_error hr ▸ hc

end Coherent

end Machine

namespace Pacer

variable {p : Pacer}

theorem coherent_tick (h : p.machine.Coherent) : p.tick.2.machine.Coherent :=
  (h.burst p.rate).tickTimers

/-- What every tick keeps, and what does not depend on the backlog, is kept by an update. -/
theorem catchUp_keeps {P : Pacer → Prop} (hbacklog : ∀ p b, P p → P { p with backlog := b })
    (htick : ∀ p, P p → P p.tick.2) (left : Nat) (last : Outcome) (h : P p) :
    P (p.catchUp left last).2 := by
  induction left generalizing p last with
  | zero =>
      rw [catchUp]
      split
      · exact hbacklog p _ h
      · exact h
  | succ left ih =>
      rw [catchUp]
      by_cases hb : timeStep ≤ p.backlog
      · rw [if_pos hb]
        have hp := htick _ (hbacklog p (p.backlog - timeStep) h)
        cases ht : { p with backlog := p.backlog - timeStep }.tick with
        | mk result after =>
            rw [ht] at hp
            cases result with
            | error f => exact hp
            | ok outcome => exact ih outcome hp
      · rw [if_neg hb]
        exact h

theorem coherent_catchUp (h : p.machine.Coherent) (left : Nat) (last : Outcome) :
    (p.catchUp left last).2.machine.Coherent :=
  catchUp_keeps (P := fun p => p.machine.Coherent) (fun _ _ hp => hp) (fun _ hp => coherent_tick hp)
    left last h

theorem coherent_update (h : p.machine.Coherent) (seconds : Float32) :
    (p.update seconds).2.machine.Coherent :=
  coherent_catchUp (p := { p with backlog := p.backlog + seconds }) h _ _

end Pacer

end ChipEight
