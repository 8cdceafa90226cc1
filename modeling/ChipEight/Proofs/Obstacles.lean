import ChipEight.Proofs.Reachable

/-!
# What stops a cycle

`Machine.StoppedBy` lists all that can stop the next cycle of a machine, each case
with the fault it is reported as.  The cases are said of the word at the program
counter, the registers, the stack and the index, in sums of natural numbers.  They
do not mention the checks of a cycle, nor the order these come in.

A cycle of a coherent machine fails exactly if one of the cases holds, and it fails
with the fault of that case (`Coherent.aim_eq_error_iff`).  So no two cases hold at
once with different faults.  What the invariant is for is that no sum of the checks
wraps around, and that a sprite without rows is drawn wherever the index is.
-/

namespace ChipEight

/-- An unknown instruction is the word it was decoded from. -/
theorem word_of_decode_unknown {w v : UInt16} (h : Instruction.decode w = .unknown v) : v = w := by
  unfold Instruction.decode at h
  dsimp only at h
  split at h
  -- the operations 0, 5, 8, 9, E and F have words that are no instruction
  case h_1 | h_6 | h_9 | h_10 | h_15 | h_16 =>
    split at h
    all_goals cases h
    all_goals rfl
  all_goals cases h

namespace Machine

/-! ## The cases -/

/-- The word at the program counter, its high byte first. -/
def wordAtPc (m : Machine) : UInt16 := word (m.byteAt m.pc.toNat) (m.byteAt (m.pc.toNat + 1))

/-- Both bytes at the program counter are in memory, and they are the instruction. -/
def Faces (m : Machine) (i : Instruction) : Prop :=
  m.pc.toNat < maxAddress ∧ Instruction.decode m.wordAtPc = i

instance (m : Machine) (i : Instruction) : Decidable (m.Faces i) :=
  inferInstanceAs (Decidable (_ ∧ _))

/-- What stops the next cycle, and the fault it is reported as. -/
inductive StoppedBy (m : Machine) : Fault → Prop where
  /-- The program counter is at the last byte. -/
  | cutOff (hpc : m.pc.toNat = maxAddress) : StoppedBy m (.outOfBounds memorySize m.pc)
  | unknown {w : UInt16} (hi : m.Faces (.unknown w)) : StoppedBy m (.unsupported m.wordAtPc m.pc)
  /-- There is no word behind the instruction, and it goes on there. -/
  | lastWord {i : Instruction} (hi : m.Faces i) (hf : i.fallsThrough = true)
      (hpc : m.pc.toNat + 1 = maxAddress) : StoppedBy m (.outOfBounds memorySize m.pc)
  | skip {c : Condition} (hi : m.Faces (.flow (.skip c)))
      (ht : maxAddress < m.pc.toNat + if m.holds c then 4 else 2) :
      StoppedBy m (.outOfBounds (m.pc.toNat + if m.holds c then 4 else 2) m.pc)
  | jumpOffset {nnn : UInt16} (hi : m.Faces (.flow (.jumpOffset nnn)))
      (ht : maxAddress < nnn.toNat + (m.register (Digit.ofNat 0)).toNat) :
      StoppedBy m (.outOfBounds (nnn.toNat + (m.register (Digit.ofNat 0)).toNat) m.pc)
  | call {nnn : UInt16} (hi : m.Faces (.flow (.call nnn))) (hs : m.stack.length = stackDepth) :
      StoppedBy m (.stackOverflow m.pc)
  | emptyStack (hi : m.Faces (.flow .ret)) (hs : m.stack = []) : StoppedBy m (.stackUnderflow m.pc)
  | ret {caller : UInt16} {rest : List UInt16} (hi : m.Faces (.flow .ret))
      (hs : m.stack = caller :: rest) (ht : maxAddress < caller.toNat + 2) :
      StoppedBy m (.outOfBounds (caller.toNat + 2) m.pc)
  | draw {x y n : Digit} (hi : m.Faces (.act (.draw x y n))) (hpc : m.pc.toNat + 1 < maxAddress)
      (hn : 1 ≤ n.val) (ht : maxAddress < m.index.toNat + n.val - 1) :
      StoppedBy m (.outOfBounds (m.index.toNat + n.val - 1) m.pc)
  | decimal {x : Digit} (hi : m.Faces (.act (.decimal x))) (hpc : m.pc.toNat + 1 < maxAddress)
      (ht : maxAddress < m.index.toNat + 2) : StoppedBy m (.outOfBounds (m.index.toNat + 2) m.pc)
  | store {x : Digit} (hi : m.Faces (.act (.store x))) (hpc : m.pc.toNat + 1 < maxAddress)
      (ht : maxAddress < m.index.toNat + x.val) :
      StoppedBy m (.outOfBounds (m.index.toNat + x.val) m.pc)
  | load {x : Digit} (hi : m.Faces (.act (.load x))) (hpc : m.pc.toNat + 1 < maxAddress)
      (ht : maxAddress < m.index.toNat + x.val) :
      StoppedBy m (.outOfBounds (m.index.toNat + x.val) m.pc)

variable {m : Machine} {f : Fault}

/-! ## Single checks -/

theorem reach_eq_error_iff {t : UInt16} :
    m.reach t = .error f ↔ maxAddress < t.toNat ∧ f = .outOfBounds t.toNat m.pc := by
  unfold reach
  by_cases h : t.toNat ≤ maxAddress
  · simp [h]
  · simp [h, eq_comm, Nat.lt_of_not_le h]

theorem demand_eq_error_iff {start length : Nat} :
    m.demand start length = .error f ↔
      memorySize < start + length ∧ f = .outOfBounds (start + length - 1) m.pc := by
  unfold demand
  by_cases h : start + length ≤ memorySize
  · simp [h]
  · simp [h, eq_comm, Nat.lt_of_not_le h]

theorem fetch_of_lt (h : m.pc.toNat < maxAddress) : m.fetch = .ok m.wordAtPc := by
  refine fetch_eq_ok_iff.mpr ⟨?_, rfl⟩
  simp only [maxAddress, memorySize] at *
  omega

theorem fetch_eq_error_iff (hpc : m.pc.toNat ≤ maxAddress) :
    m.fetch = .error f ↔ m.pc.toNat = maxAddress ∧ f = .outOfBounds memorySize m.pc := by
  have hdemand : m.fetch = .error f ↔ m.demand m.pc.toNat 2 = .error f := by
    unfold fetch
    cases m.demand m.pc.toNat 2 with
    | error e =>
        constructor
        · intro h
          cases h
          rfl
        · intro h
          cases h
          rfl
    | ok u => exact ⟨nofun, nofun⟩
  rw [hdemand, demand_eq_error_iff]
  simp only [memorySize, maxAddress] at *
  constructor
  · rintro ⟨hlt, rfl⟩
    have heq : m.pc.toNat = 0xFFF := by omega
    exact ⟨heq, by rw [heq]⟩
  · rintro ⟨heq, rfl⟩
    rw [heq]
    exact ⟨by omega, rfl⟩

theorem Faces.inRange {i : Instruction} (hi : m.Faces i) : i.InRange := by
  obtain ⟨-, rfl⟩ := hi
  exact decode_inRange m.wordAtPc

theorem Faces.aim_eq_error {i : Instruction} (hi : m.Faces i) (ht : m.target i = .error f) :
    m.aim = .error f := by
  obtain ⟨hpc, rfl⟩ := hi
  simp only [aim, fetch_of_lt hpc, ht]

theorem Faces.aim_eq_ok {i : Instruction} {next : UInt16} (hi : m.Faces i)
    (ht : m.target i = .ok next) : m.aim = .ok (i, next) := by
  obtain ⟨hpc, rfl⟩ := hi
  simp only [aim, fetch_of_lt hpc, ht]

/-! ## Sums of words -/

theorem toNat_add_of_lt {a b : UInt16} (h : a.toNat + b.toNat < 0x10000) :
    (a + b).toNat = a.toNat + b.toNat := by
  rw [UInt16.toNat_add, Nat.mod_eq_of_lt h]

theorem toNat_add_two {a : UInt16} (h : a.toNat ≤ maxAddress) : (a + 2).toNat = a.toNat + 2 := by
  rw [maxAddress] at h
  have hlt : a.toNat + 2 < 0x10000 := by omega
  exact toNat_add_of_lt hlt

theorem toNat_pc_add (hpc : m.pc.toNat ≤ maxAddress) (c : Condition) :
    (m.pc + if m.holds c then 4 else 2).toNat = m.pc.toNat + if m.holds c then 4 else 2 := by
  cases m.holds c with
  | false => exact toNat_add_two hpc
  | true =>
      rw [maxAddress] at hpc
      have hlt : m.pc.toNat + 4 < 0x10000 := by omega
      exact toNat_add_of_lt hlt

theorem toNat_add_byte {a : UInt16} (h : a.toNat ≤ maxAddress) (b : UInt8) :
    (a + b.toUInt16).toNat = a.toNat + b.toNat := by
  have hb := b.toNat_lt
  rw [maxAddress] at h
  have hlt : a.toNat + b.toUInt16.toNat < 0x10000 := by
    rw [UInt8.toNat_toUInt16]
    omega
  rw [toNat_add_of_lt hlt, UInt8.toNat_toUInt16]

/-! ## The checks of an action -/

/-- There is a word behind the program counter. -/
theorem reach_next (hpc : m.pc.toNat + 1 < maxAddress) : m.reach (m.pc + 2) = .ok (m.pc + 2) := by
  apply reach_of_le
  rw [toNat_add_two (by omega)]
  omega

/-- With a word behind it, an action that touches no memory goes on there. -/
theorem Faces.aim_of_span_none {a : Action} (hi : m.Faces (.act a)) (hs : a.span = none)
    (hpc : m.pc.toNat + 1 < maxAddress) : m.aim = .ok (.act a, m.pc + 2) := by
  apply hi.aim_eq_ok
  simp only [target, actTarget, reach_next hpc, demandSpan, hs]

theorem actTarget_of_last {a : Action} (hpc : m.pc.toNat + 1 = maxAddress) :
    m.actTarget a = .error (.outOfBounds memorySize m.pc) := by
  have hnext : (m.pc + 2).toNat = memorySize := by
    rw [toNat_add_two (by omega)]
    simp only [memorySize, maxAddress] at *
    omega
  have hr : m.reach (m.pc + 2) = .error (.outOfBounds memorySize m.pc) := by
    rw [reach_eq_error_iff, hnext]
    exact ⟨by decide, rfl⟩
  simp only [actTarget, hr]

/-- Only an action with bytes to touch can ask for too much of memory. -/
theorem demandSpan_eq_error_iff (h : m.Coherent) {a : Action} :
    m.demandSpan a = .error f ↔
      ∃ length, a.span = some (length + 1) ∧ maxAddress < m.index.toNat + length ∧
        f = .outOfBounds (m.index.toNat + length) m.pc := by
  have hindex := h.index_le
  unfold demandSpan
  cases hs : a.span with
  | none => simp
  | some length =>
      rw [maxAddress] at *
      simp only [demand_eq_error_iff, memorySize, Option.some.injEq]
      constructor
      · rintro ⟨hlt, rfl⟩
        -- the index is in memory, so no bytes at all would not have been too many
        obtain ⟨last, rfl⟩ : ∃ last, length = last + 1 := ⟨length - 1, by omega⟩
        exact ⟨last, rfl, by omega, rfl⟩
      · rintro ⟨last, rfl, hlt, rfl⟩
        exact ⟨by omega, rfl⟩

/-- With a word behind it, an action is stopped by the bytes it touches or not at
all. -/
theorem actTarget_eq_error_iff (h : m.Coherent) {a : Action} (hpc : m.pc.toNat + 1 < maxAddress) :
    m.actTarget a = .error f ↔
      ∃ length, a.span = some (length + 1) ∧ maxAddress < m.index.toNat + length ∧
        f = .outOfBounds (m.index.toNat + length) m.pc := by
  rw [← demandSpan_eq_error_iff h]
  simp only [actTarget, reach_next hpc]
  cases m.demandSpan a with
  | error e => simp
  | ok u => simp

/-! ## A check that fails is one of the cases -/

/-- Jumps and calls name addresses of memory, so their own address is never the
obstacle. -/
theorem flowTarget_stops (h : m.Coherent) {g : Flow} (hi : m.Faces (.flow g))
    (he : m.flowTarget g = .error f) : m.StoppedBy f := by
  have hrange := hi.inRange
  cases g with
  | jump nnn =>
      rw [flowTarget, reach_of_le hrange] at he
      cases he
  | jumpOffset nnn =>
      obtain ⟨ht, rfl⟩ := reach_eq_error_iff.mp he
      rw [toNat_add_byte hrange] at ht ⊢
      exact .jumpOffset hi ht
  | call nnn =>
      simp only [flowTarget, reach_of_le hrange] at he
      split at he
      next hd =>
        cases he
        exact .call hi (Nat.le_antisymm h.stack_length_le hd)
      next => cases he
  | ret =>
      simp only [flowTarget] at he
      split at he
      next hs =>
        cases he
        exact .emptyStack hi hs
      next caller rest hs =>
        obtain ⟨ht, rfl⟩ := reach_eq_error_iff.mp he
        have hcaller := h.stack_le caller (hs ▸ List.mem_cons_self)
        rw [toNat_add_two hcaller] at ht ⊢
        exact .ret hi hs ht
  | skip c =>
      obtain ⟨ht, rfl⟩ := reach_eq_error_iff.mp he
      rw [toNat_pc_add h.pc_le] at ht ⊢
      exact .skip hi ht

theorem actTarget_stops (h : m.Coherent) {a : Action} (hi : m.Faces (.act a))
    (he : m.actTarget a = .error f) : m.StoppedBy f := by
  have hlt : m.pc.toNat < maxAddress := hi.1
  rcases Nat.lt_or_eq_of_le (Nat.succ_le_of_lt hlt) with hpc | hlast
  · obtain ⟨length, hspan, ht, rfl⟩ := (actTarget_eq_error_iff h hpc).mp he
    cases a with
    | draw x y n =>
        have hn : n.val = length + 1 := Option.some.inj hspan
        have hsum : m.index.toNat + length = m.index.toNat + n.val - 1 := by omega
        rw [hsum] at ht ⊢
        exact .draw hi hpc (by omega) ht
    | decimal x =>
        cases hspan
        exact .decimal hi hpc ht
    | store x =>
        cases hspan
        exact .store hi hpc ht
    | load x =>
        cases hspan
        exact .load hi hpc ht
    | _ => cases hspan
  · rw [actTarget_of_last hlast] at he
    cases he
    exact .lastWord hi rfl hlast

/-- Only the last byte cannot be fetched from, and there is no word then to look at;
everywhere else the word decides. -/
theorem aim_stops (h : m.Coherent) (he : m.aim = .error f) : m.StoppedBy f := by
  rcases Nat.lt_or_eq_of_le h.pc_le with hlt | heq
  · have hi : m.Faces (Instruction.decode m.wordAtPc) := ⟨hlt, rfl⟩
    cases ht : m.target (Instruction.decode m.wordAtPc) with
    | ok next =>
        rw [hi.aim_eq_ok ht] at he
        cases he
    | error e =>
        rw [hi.aim_eq_error ht] at he
        cases he
        cases hd : Instruction.decode m.wordAtPc with
        | flow g =>
            rw [hd] at hi ht
            exact flowTarget_stops h hi ht
        | act a =>
            rw [hd] at hi ht
            exact actTarget_stops h hi ht
        | unknown w =>
            rw [hd] at hi ht
            cases ht
            rw [word_of_decode_unknown hd]
            exact .unknown hi
  · have hf := (fetch_eq_error_iff h.pc_le).mpr ⟨heq, rfl⟩
    simp only [aim, hf] at he
    cases he
    exact .cutOff heq

/-! ## Each case fails a check -/

theorem StoppedBy.aim_eq (h : m.Coherent) (hs : m.StoppedBy f) : m.aim = .error f := by
  cases hs with
  | cutOff hpc =>
      have hf := (fetch_eq_error_iff h.pc_le).mpr ⟨hpc, rfl⟩
      simp only [aim, hf]
  | unknown hi =>
      refine hi.aim_eq_error ?_
      rw [target, word_of_decode_unknown hi.2]
  | @lastWord i hi hf hpc =>
      cases i with
      | act a => exact hi.aim_eq_error (actTarget_of_last hpc)
      | _ => cases hf
  | skip hi ht =>
      refine hi.aim_eq_error (reach_eq_error_iff.mpr ?_)
      rw [toNat_pc_add h.pc_le]
      exact ⟨ht, rfl⟩
  | jumpOffset hi ht =>
      refine hi.aim_eq_error (reach_eq_error_iff.mpr ?_)
      rw [toNat_add_byte hi.inRange]
      exact ⟨ht, rfl⟩
  | call hi hs =>
      refine hi.aim_eq_error ?_
      exact if_pos (Nat.le_of_eq hs.symm)
  | emptyStack hi hs =>
      refine hi.aim_eq_error ?_
      simp only [target, flowTarget, hs]
  | ret hi hs ht =>
      refine hi.aim_eq_error ?_
      simp only [target, flowTarget, hs]
      have hcaller := h.stack_le _ (hs ▸ List.mem_cons_self)
      rw [reach_eq_error_iff, toNat_add_two hcaller]
      exact ⟨ht, rfl⟩
  | @draw x y n hi hpc hn ht =>
      have hsum : m.index.toNat + n.val - 1 = m.index.toNat + (n.val - 1) := by omega
      have hspan : (Action.draw x y n).span = some (n.val - 1 + 1) := by
        rw [Action.span, Nat.sub_add_cancel hn]
      rw [hsum] at ht ⊢
      exact hi.aim_eq_error ((actTarget_eq_error_iff h hpc).mpr ⟨_, hspan, ht, rfl⟩)
  | decimal hi hpc ht =>
      exact hi.aim_eq_error ((actTarget_eq_error_iff h hpc).mpr ⟨_, rfl, ht, rfl⟩)
  | store hi hpc ht =>
      exact hi.aim_eq_error ((actTarget_eq_error_iff h hpc).mpr ⟨_, rfl, ht, rfl⟩)
  | load hi hpc ht =>
      exact hi.aim_eq_error ((actTarget_eq_error_iff h hpc).mpr ⟨_, rfl, ht, rfl⟩)

/-- The checks of a cycle fail in the listed cases and in no others. -/
theorem Coherent.aim_eq_error_iff (h : m.Coherent) : m.aim = .error f ↔ m.StoppedBy f :=
  ⟨aim_stops h, fun hs => hs.aim_eq h⟩

end Machine

theorem Procedure.answer_cycle_eq_error_iff {m : Machine} {f : Fault} :
    cycle.answer m = .error f ↔ m.aim = .error f := by
  rcases cycle_cases m with ⟨g, ha, hr⟩ | ⟨i, next, ha, hr⟩
  · rw [answer_of_run_error hr, ha]
    simp
  · rw [answer_of_run_ok hr, ha]
    simp

/-- The next cycle of a reachable machine fails exactly in the listed cases, each
with its fault, and in every other state it succeeds. -/
theorem cycle_fails_iff_stopped {m : Machine} (h : m.Reachable) :
    (∀ f, Procedure.cycle.answer m = .error f ↔ m.StoppedBy f) ∧
      ((∃ outcome, Procedure.cycle.answer m = .ok outcome) ↔ ∀ f, ¬ m.StoppedBy f) := by
  have hfails : ∀ f, Procedure.cycle.answer m = .error f ↔ m.StoppedBy f := by
    intro f
    rw [Procedure.answer_cycle_eq_error_iff, h.coherent.aim_eq_error_iff]
  refine ⟨hfails, ?_⟩
  simp only [← hfails]
  cases Procedure.cycle.answer m with
  | error f => simp
  | ok outcome => simp

/-- A program that stores a load of all registers in the last word of memory and
jumps there, with the index too high for it as well.  The word that is missing
behind it is the obstacle. -/
theorem load_at_last_word_fails :
    let m := ((Pacer.fresh (Keystream.seedKey 1) 12).serveAll
      (.load [0x60, 0xFF, 0x61, 0x65, 0xAF, 0xFE, 0xF1, 0x55, 0x1F, 0xFE] ::
        List.replicate 5 (.machine .cycle))).machine
    m.Reachable ∧ m.Faces (.act (.load (Digit.ofNat 15))) ∧
      Procedure.cycle.answer m = .error (.outOfBounds memorySize 0xFFE) := by
  intro m
  have h : m.Reachable := ⟨_, _, _, rfl⟩
  have hm : m.pc = 0xFFE ∧ m.Faces (.act (.load (Digit.ofNat 15))) := by decide +kernel
  obtain ⟨hpc, hi⟩ := hm
  have hlast : m.pc.toNat + 1 = maxAddress := by rw [hpc]; decide
  refine ⟨h, hi, ?_⟩
  rw [← hpc]
  exact ((cycle_fails_iff_stopped h).1 _).mpr (.lastWord hi rfl hlast)

end ChipEight
