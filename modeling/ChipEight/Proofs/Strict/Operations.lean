import ChipEight.Bank
import ChipEight.Digit

/-!
# Operations that trap

The definitions of a machine are total: a cell that is not there reads as zero, a value
past the last cell is dropped, and numbers are cut to their size.  A host need not be so
lenient.  Here are the same operations as they are when nothing is forgiven.  Each of them
either gives what the lenient one gives or is a `Trap`, and a lemma beside it says when it
is none.

A number that is counted in is checked by `size`, wherever a sum or a product is made.
-/

namespace ChipEight

/-- Why an operation has no result. -/
inductive Trap where
  /-- The cell or the item is not there. -/
  | index (i length : Nat)
  /-- The cells from `start` up to `stop` are not all there. -/
  | range (start stop length : Nat)
  /-- What is copied and what is copied over differ in length. -/
  | lengths (source target : Nat)
  /-- The byte is no digit. -/
  | noDigit (b : UInt8)
  /-- The number would be cut where it is put. -/
  | cut (n : Nat)
  /-- The number cannot be counted to. -/
  | overflow (n : Nat)
  /-- The byte has fewer bits than it is shifted by. -/
  | shift (amount : Nat)
deriving DecidableEq, Repr

namespace Strict

variable {α β : Type} {n : Nat}

theorem ok_bind {ε : Type} (a : α) (f : α → Except ε β) : (Except.ok a >>= f) = f a := rfl

/-! ## Numbers -/

/-- Every host can count up to here, and some cannot count further. -/
def sizeLimit : Nat := 0x100000000

def size (n : Nat) : Except Trap Nat := if n < sizeLimit then .ok n else .error (.overflow n)

def toByte (n : Nat) : Except Trap UInt8 :=
  if n < 0x100 then .ok (UInt8.ofNat n) else .error (.cut n)

def toWord (n : Nat) : Except Trap UInt16 :=
  if n < 0x10000 then .ok (UInt16.ofNat n) else .error (.cut n)

/-- The byte must be a digit. -/
def toDigit (b : UInt8) : Except Trap Digit :=
  match Digit.ofByte? b with
  | some d => .ok d
  | none => .error (.noDigit b)

/-- The bit of a byte that is `amount` places from the left. -/
def bitFromLeft (amount : Nat) : Except Trap UInt8 :=
  if amount < 8 then .ok (0x80 >>> UInt8.ofNat amount) else .error (.shift amount)

theorem size_of_lt {k : Nat} (h : k < 0x100000000) : size k = .ok k := if_pos h

theorem toByte_of_lt {k : Nat} (h : k < 0x100) : toByte k = .ok (UInt8.ofNat k) := if_pos h

theorem toWord_of_lt {k : Nat} (h : k < 0x10000) : toWord k = .ok (UInt16.ofNat k) := if_pos h

theorem toDigit_of_lt {k : Nat} (h : k < 16) : toDigit (UInt8.ofNat k) = .ok ⟨k, h⟩ := by
  have hd : Digit.ofByte? (UInt8.ofNat k) = some ⟨k, h⟩ := Digit.ofByte?_toByte ⟨k, h⟩
  rw [toDigit, hd]

theorem bitFromLeft_of_lt {k : Nat} (h : k < 8) :
    bitFromLeft k = .ok (0x80 >>> UInt8.ofNat k) := if_pos h

/-! ## Lists -/

def item (xs : List α) (i : Nat) : Except Trap α :=
  match xs[i]? with
  | some x => .ok x
  | none => .error (.index i xs.length)

theorem item_of_lt {xs : List α} {i : Nat} (h : i < xs.length) : item xs i = .ok xs[i] := by
  rw [item, List.getElem?_eq_getElem h]

/-! ## Banks -/

def cell (b : Bank α n) (i : Nat) : Except Trap α :=
  if h : i < n then .ok b[i] else .error (.index i n)

def setCell (b : Bank α n) (i : Nat) (x : α) : Except Trap (Bank α n) :=
  if h : i < n then .ok (b.set i x h) else .error (.index i n)

/-- The cells from `start` up to `stop`. -/
def slice (b : Bank α n) (start stop : Nat) : Except Trap (List α) :=
  if start ≤ stop ∧ stop ≤ n then .ok ((b.toList.drop start).take (stop - start))
  else .error (.range start stop n)

/-- Copy a list over the cells from `start` up to `stop`. -/
def copy (b : Bank α n) (start stop : Nat) (xs : List α) : Except Trap (Bank α n) :=
  if start ≤ stop ∧ stop ≤ n then
    if xs.length = stop - start then .ok (Bank.write b start xs)
    else .error (.lengths xs.length (stop - start))
  else .error (.range start stop n)

theorem cell_of_lt {b : Bank α n} {i : Nat} (h : i < n) : cell b i = .ok b[i] := dif_pos h

theorem cell_digit (b : Bank α 16) (d : Digit) : cell b d.val = .ok (b.get d) := dif_pos d.isLt

theorem setCell_of_lt {b : Bank α n} {i : Nat} (h : i < n) (x : α) :
    setCell b i x = .ok (b.set i x h) := dif_pos h

theorem setCell_digit (b : Bank α 16) (d : Digit) (x : α) :
    setCell b d.val x = .ok (b.put d x) := dif_pos d.isLt

theorem slice_of_le {b : Bank α n} {start stop : Nat} (hs : start ≤ stop) (h : stop ≤ n) :
    slice b start stop = .ok ((b.toList.drop start).take (stop - start)) := if_pos ⟨hs, h⟩

theorem copy_of_length {b : Bank α n} {start stop : Nat} {xs : List α}
    (hxs : start + xs.length = stop) (h : stop ≤ n) :
    copy b start stop xs = .ok (Bank.write b start xs) := by
  subst hxs
  rw [copy, if_pos ⟨Nat.le_add_right _ _, h⟩, if_pos (Nat.add_sub_cancel_left ..).symm]

/-- A copy over a whole bank leaves nothing of what it held. -/
theorem copy_whole {b : Bank α n} {xs : List α} (fill : α) (h : xs.length = n) :
    copy b 0 n xs = .ok (Bank.ofList n fill xs) := by
  have hwrite : Bank.write b 0 xs = Bank.ofList n fill xs := by
    apply Vector.ext
    intro i hi
    have hxs : 0 ≤ i ∧ i - 0 < xs.length := ⟨Nat.zero_le i, by omega⟩
    rw [Bank.ofList, Bank.getElem_write, Bank.getElem_write, dif_pos hxs, dif_pos hxs]
  rw [copy, if_pos ⟨Nat.zero_le n, Nat.le_refl n⟩, Nat.sub_zero, if_pos h, hwrite]

/-- A list can be written cell by cell. -/
theorem write_cons {b : Bank α n} {start : Nat} {x : α} {xs : List α} (h : start < n) :
    Bank.write b start (x :: xs) = Bank.write (b.set start x h) (start + 1) xs := by
  have hset : b.setIfInBounds start x = b.set start x h := by
    apply Vector.ext
    intro i hi
    rw [Vector.getElem_setIfInBounds, Vector.getElem_set]
  rw [Bank.write, hset]

/-! ## Tests -/

example : toDigit 0x10 = .error (.noDigit 0x10) ∧ toDigit 0x0F = .ok 15 := ⟨rfl, rfl⟩
example : copy #v[1, 2, 3] 1 3 [7] = .error (.lengths 1 2) := rfl
example : slice #v[1, 2, 3] 2 4 = .error (.range 2 4 3) := rfl

end Strict

end ChipEight
