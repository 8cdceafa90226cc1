import ChipEight.Proofs.Completed
import ChipEight.Proofs.Footprint

/-!
# Register arithmetic

An operation reads both its operands, writes its result and then its flag.  So the operands are
what the registers held before, also if one of them is the register of the flag, and a flag wins
over a result in that register.

The result and the flag are described in numbers, without wrap-around and without bits
(`Arithmetic.flag?`, `Arithmetic.Yields`).  For a sum and for the two shifts they are the digits
of one number: nothing is lost as long as the flag has a register of its own.  What the machine
computes on bytes is shown to be that (`flag?_apply`, `yields_apply`), and where it puts it is
the rest (`compute_flag`, `compute_result`, `compute_register`).
-/

namespace ChipEight

theorem toNat_flagByte (p : Prop) [Decidable p] :
    (flagByte (decide p)).toNat = if p then 1 else 0 := by
  by_cases h : p
  · rw [if_pos h, decide_eq_true h]
    rfl
  · rw [if_neg h, decide_eq_false h]
    rfl

namespace Arithmetic

/-! ## In numbers -/

/-- The flag of an operation on the bytes `a` and `b`, if it has one: the carry of a sum, whether
the minuend of a difference is the greater, or the bit that is shifted out. -/
def flag? (a b : Nat) : Arithmetic → Option Nat
  | .set | .or | .and | .xor => none
  | .add => some (if 255 < a + b then 1 else 0)
  | .sub => some (if b < a then 1 else 0)
  | .shiftRight => some (a % 2)
  | .subFrom => some (if a < b then 1 else 0)
  | .shiftLeft => some (a / 128)

/-- What an operation on the bytes `a` and `b` results in, beside its flag. -/
def Yields (a b result flag : Nat) : Arithmetic → Prop
  | .set => result = b
  | .or => result = a ||| b
  | .and => result = a &&& b
  | .xor => result = a ^^^ b
  | .add => result + 256 * flag = a + b
  | .sub => (result : Int) = ((a : Int) - b) % 256
  | .shiftRight => 2 * result + flag = a
  | .subFrom => (result : Int) = ((b : Int) - a) % 256
  | .shiftLeft => result + 256 * flag = 2 * a

theorem flag?_apply (op : Arithmetic) (a b : UInt8) :
    (op.apply a b).2.map UInt8.toNat = op.flag? a.toNat b.toNat := by
  cases op with
  | set | or | and | xor => rfl
  | add => exact congrArg some (toNat_flagByte _)
  | sub | subFrom => exact congrArg some (toNat_flagByte _)
  | shiftRight =>
      have hbit : (a &&& 1).toNat = a.toNat % 2 := by
        rw [UInt8.toNat_and]
        exact Nat.and_one_is_mod _
      exact congrArg some hbit
  | shiftLeft =>
      have hbit : (a >>> 7).toNat = a.toNat / 128 := by
        rw [UInt8.toNat_shiftRight]
        exact Nat.shiftRight_eq_div_pow _ 7
      exact congrArg some hbit

theorem yields_apply (op : Arithmetic) (a b : UInt8) {flag : Nat}
    (hflag : ∀ f, op.flag? a.toNat b.toNat = some f → flag = f) :
    op.Yields a.toNat b.toNat (op.apply a b).1.toNat flag := by
  have ha := a.toNat_lt
  have hb := b.toNat_lt
  cases op with
  | set => rfl
  | or => exact UInt8.toNat_or a b
  | and => exact UInt8.toNat_and a b
  | xor => exact UInt8.toNat_xor a b
  | add =>
      have hsum : (a + b).toNat = (a.toNat + b.toNat) % 256 := UInt8.toNat_add a b
      rw [hflag _ rfl, Yields, apply, hsum]
      split <;> omega
  | sub =>
      have hdiff : (a - b).toNat = (256 - b.toNat + a.toNat) % 256 := UInt8.toNat_sub a b
      rw [Yields, apply, hdiff]
      omega
  | subFrom =>
      have hdiff : (b - a).toNat = (256 - a.toNat + b.toNat) % 256 := UInt8.toNat_sub b a
      rw [Yields, apply, hdiff]
      omega
  | shiftRight =>
      have hhalf : (a >>> 1).toNat = a.toNat / 2 := by
        rw [UInt8.toNat_shiftRight]
        exact Nat.shiftRight_eq_div_pow _ 1
      rw [hflag _ rfl, Yields, apply, hhalf]
      omega
  | shiftLeft =>
      have hdouble : (a <<< 1).toNat = a.toNat * 2 % 256 := by
        rw [UInt8.toNat_shiftLeft]
        exact congrArg (· % 256) (Nat.shiftLeft_eq _ 1)
      rw [hflag _ rfl, Yields, apply, hdouble]
      omega

/-! ## Words -/

/-- The last digit of the word of an operation. -/
def lowDigit : Arithmetic → Nat
  | .set => 0x0
  | .or => 0x1
  | .and => 0x2
  | .xor => 0x3
  | .add => 0x4
  | .sub => 0x5
  | .shiftRight => 0x6
  | .subFrom => 0x7
  | .shiftLeft => 0xE

/-- The word of an operation on two registers. -/
def wordOf (x y : Digit) (op : Arithmetic) : UInt16 :=
  UInt16.ofNat (0x8000 + x.val * 0x100 + y.val * 0x10 + op.lowDigit)

theorem decode_wordOf (op : Arithmetic) (x y : Digit) :
    Instruction.decode (op.wordOf x y) = .act (.arithmetic op x y) := by
  have hlow : op.lowDigit < 16 := by cases op <;> decide
  have htoNat : (op.wordOf x y).toNat = 0x8000 + x.val * 0x100 + y.val * 0x10 + op.lowDigit := by
    rw [wordOf, UInt16.toNat_ofNat']
    omega
  have hdigit (unit : Nat) : (wordDigit (op.wordOf x y) unit).val =
      (0x8000 + x.val * 0x100 + y.val * 0x10 + op.lowDigit) / unit % 16 :=
    congrArg (· / unit % 16) htoNat
  have hkind : (wordDigit (op.wordOf x y) 4096).val = 0x8 := by rw [hdigit]; omega
  have hx : wordDigit (op.wordOf x y) 256 = x := Fin.ext (by rw [hdigit]; omega)
  have hy : wordDigit (op.wordOf x y) 16 = y := Fin.ext (by rw [hdigit]; omega)
  have hn : (wordDigit (op.wordOf x y) 1).val = op.lowDigit := by rw [hdigit]; omega
  have hop : ofDigit? (wordDigit (op.wordOf x y) 1) = some op := by
    rw [ofDigit?, hn]
    cases op <;> rfl
  simp only [Instruction.decode, hkind, hop, hx, hy]

end Arithmetic

namespace Machine

variable {m : Machine} {op : Arithmetic} {x y : Digit}

/-! ## Where result and flag go -/

/-- The flag is in its register, whatever the operands and the result were. -/
theorem compute_flag {f : Nat}
    (hf : op.flag? (m.register x).toNat (m.register y).toNat = some f) :
    ((m.compute op x y).register flagRegister).toNat = f := by
  rw [← Arithmetic.flag?_apply] at hf
  obtain ⟨b, hb, rfl⟩ := Option.map_eq_some_iff.mp hf
  simp only [compute, hb]
  rw [register_setRegister_self]

theorem compute_result (hx : op.setsFlag = true → x ≠ flagRegister) :
    (m.compute op x y).register x = (op.apply (m.register x) (m.register y)).1 := by
  cases op with
  | set | or | and | xor => exact register_setRegister_self m x _
  | add | sub | shiftRight | subFrom | shiftLeft =>
      -- the flag is written behind the result, into another register
      exact (register_setRegister_of_ne (hx rfl) _).trans (register_setRegister_self m x _)

theorem compute_yields (hx : op.setsFlag = true → x ≠ flagRegister) :
    op.Yields (m.register x).toNat (m.register y).toNat ((m.compute op x y).register x).toNat
      ((m.compute op x y).register flagRegister).toNat := by
  rw [compute_result hx]
  exact op.yields_apply _ _ fun f hf => compute_flag hf

theorem run_arithmetic (h : m.completed? = some (.act (.arithmetic op x y))) :
    Procedure.cycle.run m =
      .ok .proceed { m.compute op x y with pc := m.pc + 2, tones := m.countTone.tones } := by
  have hgoes : (m.perform (.arithmetic op x y)).1 ≠ .awaitingKey := by simp [perform]
  have hsound : (m.perform (.arithmetic op x y)).2.sound = m.sound := by rw [perform, compute_eq]
  exact run_completed_act h hgoes hsound

end Machine

/-- An operation on two registers, which may be the same one or the register of the flag, is
executed wherever its word stands and a word follows.  The flag is in its register in any case.
The result is in the first register unless the flag is there.  Every other register is as it was,
and of the rest of the machine only the program counter and the tones are not. -/
theorem flag_is_written_behind_result {m : Machine} {op : Arithmetic} {x y : Digit}
    (hword : m.wordAtPc = op.wordOf x y) (hpc : m.pc.toNat + 1 < maxAddress) :
    let a := (m.register x).toNat
    let b := (m.register y).toNat
    ∃ after, Procedure.cycle.run m = .ok .proceed after ∧
      (∀ f, op.flag? a b = some f → (after.register flagRegister).toNat = f) ∧
      ((op.setsFlag = true → x ≠ flagRegister) →
        op.Yields a b (after.register x).toNat (after.register flagRegister).toNat) ∧
      (∀ z, z ≠ x → (op.setsFlag = true → z ≠ flagRegister) →
        after.register z = m.register z) ∧
      after =
        { m with registers := after.registers, pc := m.pc + 2, tones := m.countTone.tones } := by
  intro a b
  have hfaces : m.Faces (.act (.arithmetic op x y)) :=
    ⟨by omega, hword ▸ op.decode_wordOf x y⟩
  have hrun := Machine.run_arithmetic (Machine.completed?_act_iff.mpr ⟨hfaces, hpc, nofun⟩)
  refine ⟨_, hrun, fun f hf => Machine.compute_flag hf, fun hx => Machine.compute_yields hx,
    fun z hz hflag => Machine.compute_register hz hflag, ?_⟩
  rw [Machine.compute_eq]

/-- The register of the flag is doubled, and the sum is lost to its carry.  That carry is then
taken from another register, and the flag is that of the difference. -/
theorem carry_replaces_sum_in_flag_register :
    let m := ((Pacer.fresh (Keystream.seedKey 1) 12).serveAll
      [.load [0x6F, 0xFF, 0x8F, 0xF4, 0x82, 0xF5], .machine .cycle]).machine
    let m' := Procedure.cycle.after m
    m.wordAtPc = Arithmetic.add.wordOf 15 15 ∧ (m.register 15).toNat = 255 ∧
      (∃ after, Procedure.cycle.run m = .ok .proceed after ∧
        (after.register 15).toNat = 1) ∧
      m'.wordAtPc = Arithmetic.sub.wordOf 2 15 ∧
      ∃ after, Procedure.cycle.run m' = .ok .proceed after ∧
        ((after.register 2).toNat : Int) = (0 - 1) % 256 ∧ (after.register 15).toNat = 0 := by
  intro m m'
  have hrun : m.wordAtPc = Arithmetic.add.wordOf 15 15 ∧ m.pc.toNat + 1 < maxAddress ∧
      (m.register 15).toNat = 255 ∧ m'.wordAtPc = Arithmetic.sub.wordOf 2 15 ∧
      m'.pc.toNat + 1 < maxAddress ∧ (m'.register 2).toNat = 0 ∧
      (m'.register 15).toNat = 1 := by decide +kernel
  obtain ⟨hadd, hpc, hdoubled, hsub, hpc', hzero, hcarry⟩ := hrun
  obtain ⟨sum, hsum, hsumFlag, -⟩ := flag_is_written_behind_result hadd hpc
  obtain ⟨diff, hdiff, hdiffFlag, hyields, -⟩ := flag_is_written_behind_result hsub hpc'
  refine ⟨hadd, hdoubled, ⟨sum, hsum, ?_⟩, hsub, diff, hdiff, ?_, ?_⟩
  · exact hsumFlag 1 (by rw [hdoubled]; rfl)
  · have hdifference := hyields fun _ => by decide
    rwa [hzero, hcarry] at hdifference
  · exact hdiffFlag 0 (by rw [hzero, hcarry]; rfl)

end ChipEight
