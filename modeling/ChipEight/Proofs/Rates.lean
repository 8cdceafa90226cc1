import ChipEight.Proofs.Calls
import ChipEight.Proofs.Coherence

/-!
# Rates

A pacer has a rate between one and the greatest number of thirty-two bits, whatever a host
asks for and whatever is run (`Pacer.isRate_serveAll`).

A host that keeps its rates in words of thirty-two bits cannot leave that range either.  It
adds a signed word to the rate, and a sum that does not fit is replaced by the end of the
range that it left (`Pacer.saturatingAdd`).  So a change of the rate in words is the change of
the rate itself (`Pacer.adjustInWords_eq`).
-/

namespace ChipEight

namespace Pacer

/-! ## The range of rates -/

/-- The rates a pacer may have. -/
def IsRate (n : Nat) : Prop := 1 ≤ n ∧ n ≤ maxRate

theorem toInt_nearestRate (n : Int) : (nearestRate n : Int) = max 1 (min n maxRate) :=
  Int.toNat_of_nonneg (Int.le_trans (by decide) (Int.le_max_left 1 _))

theorem isRate_nearestRate (n : Int) : IsRate (nearestRate n) := by
  have h := toInt_nearestRate n
  simp only [IsRate, maxRate] at *
  omega

theorem rate_catchUp (left : Nat) (last : Outcome) (p : Pacer) :
    (p.catchUp left last).2.rate = p.rate :=
  catchUp_keeps (P := fun q => q.rate = p.rate) (fun _ _ h => h) (fun _ h => h) left last rfl

theorem rate_runLoad (p : Pacer) (program : List UInt8) : (p.runLoad program).2.rate = p.rate := by
  rw [runLoad]
  cases (Procedure.load program).run p.machine <;> rfl

theorem isRate_serve {p : Pacer} (h : IsRate p.rate) (c : PacerCall) : IsRate (p.serve c).rate := by
  cases c with
  | start rate => exact isRate_nearestRate _
  | setRate rate => exact isRate_nearestRate _
  | adjustRate delta => exact isRate_nearestRate _
  | update seconds => exact (rate_catchUp ..).symm ▸ h
  | load program => exact (p.rate_runLoad program).symm ▸ h
  | machine c => exact h
  | tick => exact h

theorem isRate_serveAll {p : Pacer} (h : IsRate p.rate) (calls : List PacerCall) :
    IsRate (p.serveAll calls).rate := by
  induction calls generalizing p with
  | nil => exact h
  | cons c cs ih => exact ih (isRate_serve h c)

/-! ## Rates in words -/

/-- The sum of a word and a signed word.  One that does not fit is replaced by the end of the
range that it left. -/
def saturatingAdd (c : UInt32) (d : Int32) : UInt32 :=
  let sum := c + d.toUInt32
  let carry := decide (sum < c)
  if carry = decide (d < 0) then sum else if carry then 0xFFFFFFFF else 0

/-- The rate in words behind a change, where no rate is zero. -/
def adjusted (c : UInt32) (d : Int32) : UInt32 :=
  let sum := saturatingAdd c d
  if sum = 0 then 1 else sum

/-- Change the rate in words.  The answer is the new rate. -/
def adjustInWords (p : Pacer) (delta : Int32) : UInt32 × Pacer :=
  let rate := adjusted (UInt32.ofNat p.rate) delta
  (rate, { p with rate := rate.toNat })

theorem int32_neg_iff (d : Int32) : d < 0 ↔ d.toInt < 0 := Int32.lt_iff_toInt_lt

/-- A signed word taken as a word: negative numbers stand at the upper end. -/
theorem toNat_toUInt32 (d : Int32) :
    (d.toUInt32.toNat : Int) = if d.toInt < 0 then d.toInt + 0x100000000 else d.toInt := by
  have hcond : d.toInt = if 2 * d.toUInt32.toNat < 0x100000000 then (d.toUInt32.toNat : Int)
      else d.toUInt32.toNat - 0x100000000 := BitVec.toInt_eq_toNat_cond d.toBitVec
  have hlt := d.toUInt32.toNat_lt
  split at hcond <;> split <;> omega

theorem toNat_saturatingAdd (c : UInt32) (d : Int32) :
    ((saturatingAdd c d).toNat : Int) = max 0 (min (c.toNat + d.toInt) maxRate) := by
  have hc := c.toNat_lt
  have hlow := d.le_toInt
  have hhigh := d.toInt_lt
  have hword := toNat_toUInt32 d
  have hsum : (c + d.toUInt32).toNat = (c.toNat + d.toUInt32.toNat) % 0x100000000 :=
    UInt32.toNat_add c d.toUInt32
  -- the sum wraps around exactly if it is less than the first of the two
  have hcarry : c + d.toUInt32 < c ↔ 0x100000000 ≤ c.toNat + d.toUInt32.toNat := by
    rw [UInt32.lt_iff_toNat_lt, hsum]
    omega
  simp only [saturatingAdd, decide_eq_decide, decide_eq_true_eq, int32_neg_iff, hcarry, maxRate]
  by_cases hneg : d.toInt < 0
  · rw [if_pos hneg] at hword
    by_cases hwrap : 0x100000000 ≤ c.toNat + d.toUInt32.toNat
    · rw [if_pos (iff_of_true hwrap hneg), hsum]
      omega
    · rw [if_neg fun h => hwrap (h.mpr hneg), if_neg hwrap]
      have hzero : (0 : UInt32).toNat = 0 := rfl
      omega
  · rw [if_neg hneg] at hword
    by_cases hwrap : 0x100000000 ≤ c.toNat + d.toUInt32.toNat
    · rw [if_neg fun h => hneg (h.mp hwrap), if_pos hwrap]
      have hmax : (0xFFFFFFFF : UInt32).toNat = 0xFFFFFFFF := rfl
      omega
    · rw [if_pos (iff_of_false hwrap hneg), hsum]
      omega

example : saturatingAdd 5 (-100) = 0 ∧ saturatingAdd 0xFFFFFFF0 100 = 0xFFFFFFFF := by decide

theorem toNat_adjusted (c : UInt32) (d : Int32) :
    (adjusted c d).toNat = nearestRate (c.toNat + d.toInt) := by
  have hsum := toNat_saturatingAdd c d
  have hrate := toInt_nearestRate (c.toNat + d.toInt)
  have hzero : saturatingAdd c d = 0 ↔ (saturatingAdd c d).toNat = 0 := UInt32.toNat_inj.symm
  simp only [adjusted, hzero, maxRate] at *
  split
  · have hone : (1 : UInt32).toNat = 1 := rfl
    omega
  · omega

/-- Rates may be kept and changed in words. -/
theorem adjustInWords_eq {p : Pacer} (h : IsRate p.rate) (delta : Int32) :
    p.adjustInWords delta =
      (UInt32.ofNat (p.adjustRate delta.toInt).rate, p.adjustRate delta.toInt) := by
  have hrate : (UInt32.ofNat p.rate).toNat = p.rate :=
    UInt32.toNat_ofNat_of_lt' (Nat.lt_succ_of_le h.2)
  have hsum := toNat_adjusted (UInt32.ofNat p.rate) delta
  rw [hrate] at hsum
  rw [adjustInWords, adjustRate, ← hsum, UInt32.ofNat_toNat]

end Pacer

end ChipEight
