import ChipEight.Proofs.Strict.Drawing

/-!
# Cycles do not trap

Every strict procedure is the plain one, guarded.  This is shown of each part of a cycle in
turn, and each has a reason of its own why it does not trap: a word that is fetched was
demanded first, a digit is what is left under a mask of four bits, the highest glyph has an
address of sixteen bits, and an action touches no bytes but those it demanded
(`le_of_demandSpan`).  None of this needs to know how the machine came about.
-/

namespace ChipEight

variable {ε α β : Type}

/-! ## Guarded procedures -/

theorem Procedure.run_guarded (p : Procedure ε α) (m : Machine) :
    p.guarded.run m =
      match p.run m with
      | .ok a after => .ok a after
      | .error e after => .error (.fault e) after := rfl

namespace Guarded

variable {m : Machine}

theorem run_attempt {question : Machine → Except Trap α} {a : α} (h : question m = .ok a) :
    (attempt question : Guarded ε α).run m = .ok a m := by
  rw [attempt, Procedure.run_check, h]

/-- A question that never traps is a plain one. -/
theorem check_eq {question : Machine → Except Trap (Except ε α)}
    {answer : Machine → Except ε α} (h : ∀ m, question m = .ok (answer m)) :
    check question = (Procedure.check answer).guarded := by
  funext m
  change (check question).run m = (Procedure.check answer).guarded.run m
  rw [Procedure.run_guarded, Procedure.run_check, check, EStateM.run_bind, run_attempt (h m)]
  cases answer m <;> rfl

theorem run_change {work : Machine → Except Trap Machine} {after : Machine}
    (h : work m = .ok after) : (change work : Guarded ε Unit).run m = .ok () after := by
  rw [change, EStateM.run_bind, run_attempt h]
  rfl

end Guarded

namespace Procedure

theorem outcome_guarded (p : Procedure ε α) (m : Machine) :
    p.guarded.outcome m = .ok (p.answer m, p.after m) := by
  rw [Guarded.outcome, run_guarded, answer, after]
  cases p.run m <;> rfl

theorem guarded_bind (p : Procedure ε α) (f : α → Procedure ε β) :
    (p >>= f).guarded = p.guarded >>= fun a => (f a).guarded := by
  funext m
  change (p >>= f).guarded.run m = (p.guarded >>= fun a => (f a).guarded).run m
  rw [run_guarded, EStateM.run_bind, EStateM.run_bind, run_guarded]
  cases p.run m <;> rfl

end Procedure

namespace Strict

open Guarded (attempt)

variable {m : Machine}

/-! ## Demands -/

theorem demand_eq (m : Machine) {start length : Nat} (h : start + length < 0x100000000) :
    demand m start length = .ok (m.demand start length) := by
  rw [demand, size_of_lt h, ok_bind, Machine.demand]
  cases start + length with
  | zero => rfl
  | succ last =>
      by_cases hlast : memorySize ≤ last
      · rw [if_neg (by omega)]
        simp only [if_pos hlast]
        rfl
      · rw [if_pos (by omega)]
        simp only [if_neg hlast]
        rfl

theorem span_le {a : Action} {length : Nat} (h : a.span = some length) : length ≤ 16 := by
  cases a <;> cases h <;> omega

theorem demandSpan_eq (m : Machine) (a : Action) : demandSpan m a = .ok (m.demandSpan a) := by
  rw [demandSpan, Machine.demandSpan]
  cases h : a.span with
  | none => rfl
  | some length =>
      have hlength := span_le h
      have hindex := m.index.toNat_lt
      dsimp only
      rw [size_of_lt (by omega), ok_bind, demand_eq m (by omega)]

theorem fetch_eq (m : Machine) : fetch m = .ok m.fetch := by
  have hpc := m.pc.toNat_lt
  rw [fetch, demand_eq m (by omega), ok_bind, Machine.fetch]
  by_cases hle : m.pc.toNat + 2 ≤ memorySize
  · have hhi : m.pc.toNat < memorySize := by omega
    have hlo : m.pc.toNat + 1 < memorySize := by omega
    rw [Machine.demand, if_pos hle]
    dsimp only
    rw [cell_of_lt hhi, ok_bind, size_of_lt (by omega), ok_bind, cell_of_lt hlo, ok_bind,
      ← byteAt_of_lt hhi, ← byteAt_of_lt hlo]
    rfl
  · rw [Machine.demand, if_neg hle]
    rfl

/-! ## Decoding -/

/-- A mask of four bits and a shift by as many places leave a digit. -/
theorem nibble_eq (w : UInt16) (unit : Nat) {mask places : UInt16}
    (hmask : mask.toNat >>> (places.toNat % 16) = 15)
    (hunit : 1 <<< (places.toNat % 16) = unit) :
    nibble w mask places = .ok (wordDigit w unit).toByte := by
  have hdigit : ((w &&& mask) >>> places).toNat = w.toNat / unit % 16 := by
    rw [UInt16.toNat_shiftRight, UInt16.toNat_and, Nat.shiftRight_and_distrib, hmask,
      Nat.shiftRight_eq_div_pow, ← Nat.one_shiftLeft, hunit]
    exact Nat.and_two_pow_sub_one_eq_mod _ 4
  rw [nibble, hdigit, toByte_of_lt (Nat.lt_trans (Nat.mod_lt _ (by decide)) (by decide))]
  rfl

theorem toDigit_toByte (d : Digit) : toDigit d.toByte = .ok d := toDigit_of_lt d.isLt

/-- The operands of a word, found by division. -/
def Operands.ofWord (w : UInt16) : Operands where
  operation := (wordDigit w 4096).toByte
  x := wordDigit w 256
  y := wordDigit w 16
  n := wordDigit w 1
  nn := wordByte w
  nnn := wordAddress w

/-- The operands of a word are found, and they are the ones that an instruction is decoded
from. -/
theorem operands_eq (w : UInt16) : operands w = .ok (Operands.ofWord w) := by
  have hnn : (w &&& 0x00FF).toNat = w.toNat % 256 := by
    rw [UInt16.toNat_and]
    exact Nat.and_two_pow_sub_one_eq_mod _ 8
  have hnnn : w &&& 0x0FFF = wordAddress w := by
    have hand : w.toNat &&& 0x0FFF = w.toNat % 4096 := Nat.and_two_pow_sub_one_eq_mod _ 12
    refine UInt16.toNat_inj.mp ?_
    rw [UInt16.toNat_and, wordAddress, UInt16.toNat_ofNat']
    refine hand.trans ?_
    omega
  have hbyte : UInt8.ofNat (w.toNat % 256) = wordByte w := by
    refine UInt8.toNat_inj.mp ?_
    rw [wordByte, UInt8.toNat_ofNat', UInt8.toNat_ofNat', Nat.mod_mod]
  have hlow : w.toNat % 256 < 0x100 := Nat.mod_lt _ (by decide)
  rw [operands, nibble_eq w 4096 (by decide) (by decide), ok_bind,
    nibble_eq w 256 (by decide) (by decide), ok_bind, nibble_eq w 16 (by decide) (by decide),
    nibble_eq w 1 (by decide) (by decide)]
  simp only [toDigit_toByte, ok_bind]
  rw [hnn, toByte_of_lt hlow, ok_bind, hnnn, hbyte]
  rfl

theorem toNat_operation (w : UInt16) :
    (Operands.ofWord w).operation.toNat = (wordDigit w 4096).val :=
  UInt8.toNat_ofNat_of_lt' (Nat.lt_trans (wordDigit w 4096).isLt (by decide))

theorem toNat_wordByte (w : UInt16) :
    (wordByte w).toNat = (wordDigit w 16).val * 16 + (wordDigit w 1).val := by
  simp only [wordByte, wordDigit, Digit.ofNat, UInt8.toNat_ofNat']
  omega

theorem toNat_eq_digits (w : UInt16) :
    w.toNat = (wordDigit w 4096).val * 4096 + (wordDigit w 256).val * 256 +
      (wordDigit w 16).val * 16 + (wordDigit w 1).val := by
  have hw := w.toNat_lt
  simp only [wordDigit, Digit.ofNat]
  omega

/-- A word and its low byte are told by their digits.  So it is the same to ask for the
digits one by one. -/
theorem instruction_ofWord (w : UInt16) :
    (Operands.ofWord w).instruction w = Instruction.decode w := by
  unfold Operands.instruction Instruction.decode
  rw [toNat_operation]
  dsimp only [Operands.ofWord]
  rw [toNat_wordByte, toNat_eq_digits]
  split
  -- no row of digits fits, and no other row does then
  case h_27 =>
    unfold Action.ofCode?
    repeat' split
    all_goals first | rfl | grind
  -- the digits that a row names lead to the same row
  all_goals simp only [*, Action.ofCode?]
  all_goals rfl

theorem decode_eq (w : UInt16) : decode w = .ok (Instruction.decode w) := by
  rw [decode, operands_eq, ok_bind, instruction_ofWord]
  rfl

/-! ## Actions -/

theorem compute_eq (m : Machine) (op : Arithmetic) (x y : Digit) :
    compute m op x y = .ok (m.compute op x y) := by
  rw [compute, cell_digit, ok_bind, cell_digit, ok_bind, setCell_digit, ok_bind, Machine.compute,
    Machine.register, Machine.register]
  obtain ⟨result, flag⟩ := op.apply (m.registers.get x) (m.registers.get y)
  cases flag with
  | none => rfl
  | some f =>
      dsimp only
      rw [setCell_flag, ok_bind]
      rfl

theorem changedKey?_eq (m : Machine) (before : Keypad) :
    changedKey? m before = .ok (m.changedKey? before) := by
  rw [changedKey?, Machine.changedKey?]
  induction Digit.all with
  | nil => rfl
  | cons k ks ih =>
      rw [List.findM?, cell_digit, ok_bind, cell_digit, ok_bind, List.find?_cons]
      rw [pure_bind, Machine.isDown]
      cases m.keypad.get k != before.get k with
      | true => rfl
      | false => exact ih

theorem awaitKey_eq (m : Machine) (x : Digit) : awaitKey m x = .ok (m.awaitKey x) := by
  rw [awaitKey, Machine.awaitKey]
  cases m.keyWait with
  | none => rfl
  | some before =>
      dsimp only
      rw [changedKey?_eq, ok_bind]
      cases m.changedKey? before with
      | none => rfl
      | some k =>
          dsimp only
          rw [setCell_digit, ok_bind]
          rfl

theorem slice_memory {start length : Nat} (h : start + length ≤ memorySize) :
    slice m.memory start (start + length) = .ok (m.bytesFrom start length) := by
  rw [slice_of_le (Nat.le_add_right _ _) h, Nat.add_sub_cancel_left]
  refine congrArg Except.ok (List.ext_getElem ?_ ?_)
  · rw [List.length_take, List.length_drop, Vector.length_toList, Machine.length_bytesFrom]
    omega
  · intro i hi hi'
    have hlt : start + i < memorySize := by
      rw [Machine.length_bytesFrom] at hi'
      omega
    rw [List.getElem_take, List.getElem_drop, Vector.getElem_toList]
    simp only [Machine.bytesFrom, List.getElem_map, List.getElem_range]
    exact (byteAt_of_lt hlt).symm

/-- An action whose bytes lie in memory does not trap. -/
theorem perform_eq {a : Action} (h : m.demandSpan a = .ok ()) :
    perform m a = .ok (m.perform a) := by
  cases a with
  | clearScreen => rfl
  | setIndex nnn => rfl
  | setRegister x nn =>
      rw [perform, setCell_digit, ok_bind]
      rfl
  | addToRegister x nn =>
      rw [perform, cell_digit, ok_bind, setCell_digit, ok_bind]
      rfl
  | arithmetic op x y =>
      rw [perform, compute_eq, ok_bind]
      rfl
  | random x nn =>
      rw [perform, Machine.perform]
      rcases m.noise.take with ⟨b, noise⟩
      dsimp only
      rw [setCell_digit, ok_bind]
      rfl
  | addToIndex x =>
      rw [perform, cell_digit, ok_bind]
      rfl
  | draw x y n =>
      rw [perform, draw_eq (Machine.le_of_demandSpan rfl h), ok_bind]
      rfl
  | awaitKey x => exact awaitKey_eq m x
  | readDelay x =>
      rw [perform, setCell_digit, ok_bind]
      rfl
  | setDelay x =>
      rw [perform, cell_digit, ok_bind]
      rfl
  | setSound x =>
      rw [perform, cell_digit, ok_bind]
      rfl
  | glyph x =>
      have haddress : glyphBase + (m.registers.get x).toNat * glyphHeight < 0x10000 := by
        have hb := (m.registers.get x).toNat_lt
        rw [glyphBase, glyphHeight]
        omega
      rw [perform, cell_digit, ok_bind, size_of_lt (by omega), ok_bind, size_of_lt (by omega),
        ok_bind, toWord_of_lt haddress, ok_bind]
      rfl
  | decimal x =>
      have hspan := Machine.le_of_demandSpan rfl h
      have hfirst : m.index.toNat < memorySize := by omega
      have hsecond : m.index.toNat + 1 < memorySize := by omega
      have hthird : m.index.toNat + 2 < memorySize := by omega
      have hindex := m.index.toNat_lt
      rw [perform, cell_digit, ok_bind]
      dsimp only
      rw [setCell_of_lt hfirst, ok_bind, size_of_lt (by omega), ok_bind, setCell_of_lt hsecond,
        ok_bind, size_of_lt (by omega), ok_bind, setCell_of_lt hthird, ok_bind, Machine.perform,
        Machine.store, write_cons hfirst, write_cons hsecond, write_cons hthird]
      rfl
  | store x =>
      have hspan := Machine.le_of_demandSpan rfl h
      have hindex := m.index.toNat_lt
      have hx := x.isLt
      have hlength : m.index.toNat + (m.registers.toList.take (x.val + 1 - 0)).length =
          m.index.toNat + (x.val + 1) := by
        rw [List.length_take, Vector.length_toList]
        omega
      rw [perform, size_of_lt (by omega), ok_bind, size_of_lt (by omega), ok_bind,
        slice_of_le (Nat.zero_le _) hx, ok_bind, List.drop_zero, copy_of_length hlength hspan,
        ok_bind]
      rfl
  | load x =>
      have hspan := Machine.le_of_demandSpan rfl h
      have hindex := m.index.toNat_lt
      have hx := x.isLt
      rw [perform, size_of_lt (by omega), ok_bind, size_of_lt (by omega), ok_bind,
        slice_memory hspan, ok_bind, copy_of_length (by simp) hx, ok_bind]
      rfl

/-! ## Cycles -/

theorem holds_eq (m : Machine) (c : Condition) : holds m c = .ok (m.holds c) := by
  cases c with
  | byteEqual x nn | byteDiffers x nn =>
      rw [holds, cell_digit, ok_bind]
      rfl
  | registersEqual x y | registersDiffer x y =>
      rw [holds, cell_digit, ok_bind, cell_digit, ok_bind]
      rfl
  | pressed x =>
      rw [holds, cell_digit, ok_bind, cell_digit]
      rfl
  | released x =>
      rw [holds, cell_digit, ok_bind, cell_digit, ok_bind]
      rfl

theorem follow_eq (f : Flow) : follow f = (Procedure.follow f).guarded := by
  cases f with
  | jumpOffset nnn =>
      funext m
      change (follow (.jumpOffset nnn)).run m = (Procedure.follow (.jumpOffset nnn)).guarded.run m
      have hcell : cell m.registers 0 = .ok (m.register (Digit.ofNat 0)) :=
        cell_digit m.registers (Digit.ofNat 0)
      rw [follow, EStateM.run_bind, Guarded.run_attempt hcell]
      rfl
  | skip c =>
      funext m
      change (follow (.skip c)).run m = (Procedure.follow (.skip c)).guarded.run m
      rw [follow, EStateM.run_bind, Guarded.run_attempt (holds_eq m c)]
      rfl
  | jump nnn => rfl
  | call nnn => rfl
  | ret => rfl

/-- The demands of an action are checked before it touches memory, so it does not trap. -/
theorem act_eq (a : Action) : act a = (Procedure.act a).guarded := by
  funext m
  change (act a).run m = (Procedure.act a).guarded.run m
  rw [act, Guarded.check_eq fun m => demandSpan_eq m a]
  simp only [Procedure.act, Procedure.run_guarded, EStateM.run_bind, EStateM.run_get,
    Procedure.run_check]
  cases h : m.demandSpan a with
  | error f => rfl
  | ok _ =>
      dsimp only
      rw [Guarded.run_attempt (perform_eq h)]
      simp only [EStateM.run_modifyGet, EStateM.run_set]
      generalize (if (m.perform a).1 = .awaitingKey then m.pc else m.pc + 2) = target
      cases (Procedure.goTo target).run (m.perform a).2 <;> rfl

theorem execute_eq (i : Instruction) : execute i = (Procedure.execute i).guarded := by
  unfold execute Procedure.execute
  rw [Procedure.guarded_bind]
  refine congrArg _ (funext fun _ => ?_)
  cases i with
  | flow f =>
      dsimp only
      rw [follow_eq, Procedure.guarded_bind]
      refine congrArg _ (funext fun target => ?_)
      rw [Procedure.guarded_bind]
      rfl
  | act a => exact act_eq a
  | unknown w => rfl

theorem countTone_eq (m : Machine) : countTone m = .ok m.countTone := by
  have htones : min (m.tones + 1) toneLimit < 0x100000000 :=
    Nat.lt_of_le_of_lt (Nat.min_le_right _ _) (by decide)
  rw [countTone, Machine.countTone, size_of_lt htones, ok_bind]
  split <;> rfl

/-- A cycle does not trap. -/
theorem cycle_eq : cycle = Procedure.cycle.guarded := by
  funext m
  change cycle.run m = Procedure.cycle.guarded.run m
  rw [cycle, Guarded.check_eq fetch_eq]
  simp only [Procedure.cycle, Procedure.run_guarded, EStateM.run_bind, Procedure.run_check]
  cases m.fetch with
  | error f => rfl
  | ok w =>
      dsimp only
      rw [Guarded.run_attempt (decode_eq w)]
      dsimp only
      rw [execute_eq, Procedure.run_guarded]
      cases (Procedure.execute (Instruction.decode w)).run m with
      | error f after => rfl
      | ok outcome after =>
          dsimp only
          rw [Guarded.run_change (countTone_eq after)]
          rfl

end Strict

end ChipEight
