/-!
# Banks of cells

A bank is a fixed number of cells: the memory, the registers, the keys.
`Bank.get` and `Bank.put` read and change one cell.  `Bank.write` puts a list of
values into successive cells and leaves the others alone, and `Bank.ofList` fills
a whole bank from a list.  `get_put` and `getElem_write` say which cell holds what
afterwards.
-/

namespace ChipEight

abbrev Bank (α : Type) (n : Nat) := Vector α n

namespace Bank

variable {α : Type} {n : Nat}

def get (b : Bank α n) (i : Fin n) : α := getElem b i.val i.isLt

def put (b : Bank α n) (i : Fin n) (x : α) : Bank α n := b.set i.val x i.isLt

/-- Put the values of a list into the cells from `start` on.  Values past the
last cell are dropped. -/
def write (b : Bank α n) (start : Nat) : List α → Bank α n
  | [] => b
  | x :: xs => write (b.setIfInBounds start x) (start + 1) xs

/-- A bank filled from its first cell on, with `fill` in the cells the list does
not reach. -/
def ofList (n : Nat) (fill : α) (xs : List α) : Bank α n :=
  write (Vector.replicate n fill) 0 xs

/-! ## Lemmas -/

theorem get_eq_getElem (b : Bank α n) (i : Fin n) : b.get i = getElem b i.val i.isLt := rfl

/-- Banks with the same cells are the same. -/
theorem ext_get {a b : Bank α n} (h : ∀ i, a.get i = b.get i) : a = b := by
  apply Vector.ext
  intro i hi
  exact h ⟨i, hi⟩

/-- The cell that was put into holds the value, and any other cell what it held
before. -/
theorem get_put (b : Bank α n) (i j : Fin n) (x : α) :
    (b.put i x).get j = if i = j then x else b.get j := by
  simp [put, get, Vector.getElem_set, Fin.ext_iff]

@[simp] theorem write_nil (b : Bank α n) (start : Nat) : write b start [] = b := rfl

/-- A cell in the written range holds the value of the list, and any other cell
what it held before. -/
theorem getElem_write (xs : List α) : ∀ (b : Bank α n) (start i : Nat) (hi : i < n),
    (write b start xs)[i] =
      if h : start ≤ i ∧ i - start < xs.length then xs.get ⟨i - start, h.2⟩ else b[i] := by
  induction xs with
  | nil => intro b start i hi; simp
  | cons x xs ih =>
      intro b start i hi
      rw [write, ih]
      by_cases hs : i = start
      · subst hs
        rw [dif_neg (by omega), dif_pos ⟨Nat.le_refl _, by simp⟩]
        simp
      · by_cases hlt : start ≤ i
        · have he : i - start = (i - (start + 1)) + 1 := by omega
          by_cases hx : i - (start + 1) < xs.length
          · rw [dif_pos ⟨by omega, hx⟩, dif_pos ⟨hlt, by simp only [List.length_cons]; omega⟩]
            simp [he]
          · rw [dif_neg (by omega), dif_neg (by simp only [List.length_cons]; omega),
              Vector.getElem_setIfInBounds_ne (h := by omega)]
        · rw [dif_neg (by omega), dif_neg (by omega),
            Vector.getElem_setIfInBounds_ne (h := by omega)]

/-- A list as long as the bank is its whole content. -/
theorem toList_ofList {fill : α} {xs : List α} (h : xs.length = n) :
    (ofList n fill xs).toList = xs := by
  apply List.ext_getElem
  · simp [h]
  · intro i h1 h2
    have hi : i < n := by omega
    have he := getElem_write xs (Vector.replicate n fill) 0 i hi
    rw [dif_pos ⟨by omega, by simpa using h2⟩] at he
    simpa [ofList] using he

end Bank

end ChipEight
