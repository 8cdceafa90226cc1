import ChipEight.Machine.Cycle

/-!
# Sprites on the screen

Rows and columns are taken around the edges of the screen, so a pixel has a place in a sprite
wherever the sprite stands: it is so many rows below the corner and so many columns to the
right of it (`around`).  `Sprite.bitAt` is the bit of the sprite at that place.

A sprite no higher than the screen has no pixel twice (`Sprite.pixelsFrom_nodup`).  Drawing it
flips the pixels under its set bits and no others (`Screen.get_draw`).

Flipping a pixel twice changes nothing, and of two pixels it does not matter which is flipped
first.  What has these two properties can be done in any order, and done once more in any
order it is undone (`foldl_foldl_perm`).  Sprites have them because pixels do.
-/

namespace ChipEight

/-- How far `k` is behind `start` on a circle of `size` places. -/
def around (size start k : Nat) : Nat := (k + size - start % size) % size

/-- The bit of the sprite that falls on the pixel at a row and a column. -/
def Sprite.bitAt (s : Sprite) (row column : Nat) : Bool :=
  let j := around screenHeight s.row row
  let k := around screenWidth s.column column
  decide (j < s.rows.length ∧ k < 8) && (s.rows.getD j 0).toNat.testBit (7 - k)

/-! ## Pixels of a sprite -/

theorem pixel_eq_iff {row column row' column' : Nat} :
    pixel row column = pixel row' column' ↔
      row % screenHeight = row' % screenHeight ∧ column % screenWidth = column' % screenWidth := by
  simp only [pixel, Fin.mk.injEq, screenHeight, screenWidth]
  omega

theorem pixel_eq_pixel_add_iff {row column top left j k : Nat} (hj : j < screenHeight)
    (hk : k < screenWidth) :
    pixel row column = pixel (top + j) (left + k) ↔
      around screenHeight top row = j ∧ around screenWidth left column = k := by
  rw [pixel_eq_iff]
  simp only [around, screenHeight, screenWidth] at *
  omega

theorem mem_litColumns_iff {b : UInt8} {c : Nat} :
    c ∈ litColumns b ↔ c < 8 ∧ b.toNat.testBit (7 - c) = true := by
  rw [litColumns, List.mem_filter, List.mem_range]

namespace Sprite

theorem mem_pixelsFrom_iff {column y : Nat} {bs : List UInt8} {p : Fin screenSize} :
    p ∈ pixelsFrom column y bs ↔
      ∃ j b k, bs[j]? = some b ∧ k ∈ litColumns b ∧ p = pixel (y + j) (column + k) := by
  induction bs generalizing y with
  | nil => exact ⟨nofun, nofun⟩
  | cons b bs ih =>
      rw [pixelsFrom, List.mem_append, List.mem_map, ih]
      constructor
      · rintro (⟨k, hk, rfl⟩ | ⟨j, b', k, hb, hk, rfl⟩)
        · exact ⟨0, b, k, rfl, hk, rfl⟩
        · refine ⟨j + 1, b', k, hb, hk, ?_⟩
          rw [Nat.add_assoc, Nat.add_comm 1 j]
      · rintro ⟨j, b', k, hb, hk, rfl⟩
        cases j with
        | zero =>
            cases hb
            exact Or.inl ⟨k, hk, rfl⟩
        | succ j =>
            refine Or.inr ⟨j, b', k, hb, hk, ?_⟩
            rw [Nat.add_assoc, Nat.add_comm 1 j]

/-- A sprite no higher than the screen has no pixel twice. -/
theorem pixelsFrom_nodup (column y : Nat) {bs : List UInt8} (h : bs.length ≤ screenHeight) :
    (pixelsFrom column y bs).Nodup := by
  induction bs generalizing y with
  | nil => exact List.nodup_nil
  | cons b bs ih =>
      rw [List.length_cons] at h
      refine List.nodup_append.mpr ⟨?_, ih (y + 1) (by omega), ?_⟩
      · refine List.pairwise_map.mpr ((List.nodup_range.filter _).imp_of_mem ?_)
        intro c c' hc hc' hne heq
        have hlt := (mem_litColumns_iff.mp hc).1
        have hlt' := (mem_litColumns_iff.mp hc').1
        have hcolumn := (pixel_eq_iff.mp heq).2
        simp only [screenWidth] at hcolumn
        omega
      · intro p hp q hq heq
        obtain ⟨c, hc, rfl⟩ := List.mem_map.mp hp
        obtain ⟨j, b', c', hb, -, rfl⟩ := mem_pixelsFrom_iff.mp hq
        have hj := (List.getElem?_eq_some_iff.mp hb).1
        have hrow := (pixel_eq_iff.mp heq).1
        simp only [screenHeight] at hrow h
        omega

theorem pixels_nodup {s : Sprite} (h : s.rows.length ≤ screenHeight) : s.pixels.Nodup :=
  pixelsFrom_nodup s.column s.row h

/-- A pixel is under a set bit of the sprite if the bit that falls on it is set. -/
theorem mem_pixels_iff {s : Sprite} (h : s.rows.length ≤ screenHeight) {row column : Nat} :
    pixel row column ∈ s.pixels ↔ s.bitAt row column = true := by
  simp only [pixels, mem_pixelsFrom_iff, bitAt, Bool.and_eq_true, decide_eq_true_eq]
  constructor
  · rintro ⟨j, b, k, hb, hk, he⟩
    obtain ⟨hlit, hbit⟩ := mem_litColumns_iff.mp hk
    have hj := (List.getElem?_eq_some_iff.mp hb).1
    obtain ⟨rfl, rfl⟩ :=
      (pixel_eq_pixel_add_iff (Nat.lt_of_lt_of_le hj h) (Nat.lt_trans hlit (by decide))).mp he
    rw [List.getD_eq_getElem?_getD, hb]
    exact ⟨⟨hj, hlit⟩, hbit⟩
  · rintro ⟨⟨hj, hk⟩, hbit⟩
    rw [List.getD_eq_getElem?_getD, List.getElem?_eq_getElem hj] at hbit
    refine ⟨_, _, _, List.getElem?_eq_getElem hj, mem_litColumns_iff.mpr ⟨hk, hbit⟩, ?_⟩
    exact (pixel_eq_pixel_add_iff (Nat.lt_of_lt_of_le hj h) (Nat.lt_trans hk (by decide))).mpr
      ⟨rfl, rfl⟩

end Sprite

namespace Machine

/-! ## Sprites in memory -/

/-- The bit that an instruction draws at a row and a column: the corner of its sprite is
where the registers `x` and `y` say, and the rows of the sprite stand in memory at the
index. -/
def spriteBit (m : Machine) (x y n : Digit) (row column : Nat) : Bool :=
  let j := around screenHeight (m.register y).toNat row
  let k := around screenWidth (m.register x).toNat column
  decide (j < n.val ∧ k < 8) && (m.byteAt (m.index.toNat + j)).toNat.testBit (7 - k)

/-- An instruction draws no sprite higher than the screen. -/
theorem spriteAt_rows_le (m : Machine) (x y n : Digit) :
    (m.spriteAt x y n).rows.length ≤ screenHeight := by
  rw [spriteAt, length_bytesFrom]
  exact Nat.le_of_lt (Nat.lt_of_lt_of_le n.isLt (by decide))

theorem bitAt_spriteAt (m : Machine) (x y n : Digit) (row column : Nat) :
    (m.spriteAt x y n).bitAt row column = m.spriteBit x y n row column := by
  simp only [Sprite.bitAt, spriteAt, spriteBit, length_bytesFrom]
  by_cases hj : around screenHeight (m.register y).toNat row < n.val
  · rw [bytesFrom, List.getD_eq_getElem?_getD, List.getElem?_map, List.getElem?_range hj]
    rfl
  · simp [hj]

end Machine

namespace Screen

/-! ## One sprite -/

/-- Flipping pixels that are all different flips these and no others. -/
theorem get_foldl_flip (s : Screen) {ps : List (Fin screenSize)} (h : ps.Nodup)
    (q : Fin screenSize) : (ps.foldl flip s).get q = (s.get q ^^ ps.contains q) := by
  induction ps generalizing s with
  | nil => simp
  | cons p ps ih =>
      obtain ⟨hp, hps⟩ := List.nodup_cons.mp h
      rw [List.foldl_cons, ih _ hps, get_flip, Bool.xor_assoc]
      congr 1
      by_cases hq : q = p
      · subst hq
        simp [hp]
      · simp [hq, Ne.symm hq]

variable {sprite : Sprite}

/-- Drawing a sprite flips the pixels under its set bits. -/
theorem get_draw (s : Screen) (h : sprite.rows.length ≤ screenHeight) (row column : Nat) :
    (s.draw sprite).get (pixel row column) =
      (s.get (pixel row column) ^^ sprite.bitAt row column) := by
  have hbit : sprite.pixels.contains (pixel row column) = sprite.bitAt row column := by
    rw [Bool.eq_iff_iff, List.contains_iff_mem]
    exact Sprite.mem_pixels_iff h
  rw [draw, get_foldl_flip s (Sprite.pixels_nodup h), hbit]

theorem hits_eq_true_iff {s : Screen} (h : sprite.rows.length ≤ screenHeight) :
    s.hits sprite = true ↔
      ∃ row column, sprite.bitAt row column = true ∧ s.get (pixel row column) = true := by
  rw [hits, List.any_eq_true]
  constructor
  · rintro ⟨p, hp, hon⟩
    obtain ⟨j, b, k, -, -, rfl⟩ := Sprite.mem_pixelsFrom_iff.mp hp
    exact ⟨_, _, (Sprite.mem_pixels_iff h).mp hp, hon⟩
  · rintro ⟨row, column, hbit, hon⟩
    exact ⟨_, (Sprite.mem_pixels_iff h).mpr hbit, hon⟩

/-- A sprite that was drawn hits itself where the screen was off before. -/
theorem hits_draw_iff {s : Screen} (h : sprite.rows.length ≤ screenHeight) :
    (s.draw sprite).hits sprite = true ↔
      ∃ row column, sprite.bitAt row column = true ∧ s.get (pixel row column) = false := by
  rw [hits_eq_true_iff h]
  refine exists_congr fun row => exists_congr fun column => and_congr_right fun hbit => ?_
  rw [get_draw s h, hbit, Bool.xor_true, Bool.not_eq_true']

/-! ## Sprites in any order -/

section

variable {σ α : Type} {f : σ → α → σ}

theorem foldl_reverse_foldl (hself : ∀ s a, f (f s a) a = s) (as : List α) (s : σ) :
    as.reverse.foldl f (as.foldl f s) = s := by
  induction as generalizing s with
  | nil => rfl
  | cons a as ih =>
      rw [List.foldl_cons, List.reverse_cons, List.foldl_append, ih]
      exact hself s a

/-- What commutes and undoes itself is undone when it is all done again, in any order. -/
theorem foldl_foldl_perm (hcomm : ∀ s a b, f (f s a) b = f (f s b) a)
    (hself : ∀ s a, f (f s a) a = s) {as bs : List α} (h : as.Perm bs) (s : σ) :
    bs.foldl f (as.foldl f s) = s := by
  have hperm : bs.Perm as.reverse := h.symm.trans as.reverse_perm.symm
  calc bs.foldl f (as.foldl f s)
    _ = as.reverse.foldl f (as.foldl f s) :=
        hperm.foldl_eq' (fun a _ b _ s => hcomm s a b) (as.foldl f s)
    _ = s := foldl_reverse_foldl hself as s

end

theorem flip_comm (s : Screen) (p q : Fin screenSize) : (s.flip p).flip q = (s.flip q).flip p := by
  apply Bank.ext_get
  intro r
  rw [get_flip, get_flip, get_flip, get_flip, Bool.xor_right_comm]

theorem flip_flip (s : Screen) (p : Fin screenSize) : (s.flip p).flip p = s := by
  apply Bank.ext_get
  intro q
  rw [get_flip, get_flip, Bool.xor_assoc, Bool.xor_self, Bool.xor_false]

theorem draw_comm (s : Screen) (a b : Sprite) : (s.draw a).draw b = (s.draw b).draw a := by
  rw [draw, draw, draw, draw, ← List.foldl_append, ← List.foldl_append]
  exact List.perm_append_comm.foldl_eq' (fun p _ q _ s => flip_comm s p q) s

theorem draw_draw (s : Screen) (a : Sprite) : (s.draw a).draw a = s :=
  foldl_foldl_perm flip_comm flip_flip (List.Perm.refl _) s

end Screen

end ChipEight
