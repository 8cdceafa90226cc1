import ChipEight.Proofs.Checks
import ChipEight.Proofs.Sprites
import ChipEight.Proofs.Strict.Machine

/-!
# Drawing does not trap

A sprite is drawn row by row and bit by bit, each pixel is flipped in place, and the note
whether one was on is taken on the way.  Since all rows differ and so do the eight columns
of each, no pixel is flipped twice (`pixelsFrom_nodup`).  So every pixel that is looked at is
still as it was before the sprite, and the note is what `Screen.hits` says.

Both the place of the sprite and each pixel of it are taken around the edges, so every
pixel is on the screen.
-/

namespace ChipEight

/-! ## Flipping in place -/

namespace Screen

/-- Flip a pixel and note if it was on. -/
def paint (done : Screen × Bool) (p : Fin screenSize) : Screen × Bool :=
  (done.1.flip p, done.2 || done.1.get p)

/-- When no pixel comes twice, what is noted on the way is what was on before. -/
theorem foldl_paint (s : Screen) (hit : Bool) {ps : List (Fin screenSize)} (h : ps.Nodup) :
    ps.foldl paint (s, hit) = (ps.foldl flip s, hit || ps.any fun p => s.get p) := by
  induction ps generalizing s hit with
  | nil => simp
  | cons p ps ih =>
      obtain ⟨hp, hps⟩ := List.nodup_cons.mp h
      have hany : (ps.any fun q => (s.flip p).get q) = ps.any fun q => s.get q := by
        rw [Bool.eq_iff_iff, List.any_eq_true, List.any_eq_true]
        refine exists_congr fun q => and_congr_right fun hq => ?_
        have hne : p ≠ q := fun heq => hp (heq ▸ hq)
        rw [get_flip, decide_eq_false hne, Bool.xor_false]
      rw [List.foldl_cons, paint, ih _ _ hps, hany, List.any_cons, List.foldl_cons, Bool.or_assoc]

end Screen

namespace Strict

variable {m : Machine}

theorem bit_ne_zero_iff (b : UInt8) {c : Nat} (h : c < 8) :
    b &&& (0x80 >>> UInt8.ofNat c) ≠ 0 ↔ b.toNat.testBit (7 - c) = true := by
  have hall : ∀ n < 256, ∀ c < 8,
      (UInt8.ofNat n &&& (0x80 >>> UInt8.ofNat c) ≠ 0 ↔ n.testBit (7 - c) = true) := by
    decide +kernel
  have hb := hall b.toNat b.toNat_lt c h
  rwa [UInt8.ofNat_toNat] at hb

/-! ## Drawing -/

/-- A bit of a row paints its pixel if it is set. -/
theorem paintBit_eq (b : UInt8) (x y : Nat) (done : Screen × Bool) {c : Nat} (h : c < 8) :
    paintBit b (x % screenWidth) (y % screenHeight) done c =
      .ok (if b.toNat.testBit (7 - c) then Screen.paint done (pixel y (x + c)) else done) := by
  have hx : x % screenWidth < 64 := Nat.mod_lt _ (by decide)
  have hy : y % screenHeight * screenWidth < 2048 :=
    Nat.mul_lt_mul_of_pos_right (Nat.mod_lt y (by decide)) (by decide)
  have hp : y % screenHeight * screenWidth + (x + c) % screenWidth < screenSize :=
    (pixel y (x + c)).isLt
  rw [paintBit, bitFromLeft_of_lt h, ok_bind]
  by_cases hb : b.toNat.testBit (7 - c) = true
  · rw [if_pos ((bit_ne_zero_iff b h).mpr hb), if_pos hb, size_of_lt (by omega), ok_bind,
      size_of_lt (by omega), ok_bind, Nat.mod_add_mod, size_of_lt (Nat.lt_trans hp (by decide)),
      ok_bind, cell_of_lt hp, ok_bind, setCell_of_lt hp]
    rfl
  · rw [if_neg (mt (bit_ne_zero_iff b h).mp hb), if_neg hb]
    rfl

/-- The bits of a row paint its pixels. -/
theorem foldlM_paintBit (b : UInt8) (x y : Nat) (done : Screen × Bool) {cs : List Nat}
    (h : ∀ c ∈ cs, c < 8) :
    cs.foldlM (paintBit b (x % screenWidth) (y % screenHeight)) done =
      .ok (((cs.filter fun c => b.toNat.testBit (7 - c)).map fun c => pixel y (x + c)).foldl
        Screen.paint done) := by
  induction cs generalizing done with
  | nil => rfl
  | cons c cs ih =>
      obtain ⟨hc, hcs⟩ := List.forall_mem_cons.mp h
      rw [List.foldlM_cons, paintBit_eq b x y done hc, ok_bind, ih _ hcs, List.filter_cons]
      by_cases hb : b.toNat.testBit (7 - c) = true
      · rw [if_pos hb, if_pos hb, List.map_cons, List.foldl_cons]
      · rw [if_neg hb, if_neg hb]

theorem byteAt_of_lt {address : Nat} (h : address < memorySize) :
    m.byteAt address = m.memory[address] := by
  rw [Machine.byteAt, Vector.getElem?_eq_getElem h]
  rfl

theorem paintRow_eq (m : Machine) (x y : Nat) (done : Screen × Bool) {row : Nat}
    (h : m.index.toNat + row < memorySize) :
    paintRow m (x % screenWidth) (y % screenHeight) done row =
      .ok (((litColumns (m.byteAt (m.index.toNat + row))).map fun c =>
        pixel (y + row) (x + c)).foldl Screen.paint done) := by
  have haddress : m.index.toNat + row < 4096 := h
  have hy : y % screenHeight < 32 := Nat.mod_lt _ (by decide)
  rw [paintRow, size_of_lt (by omega), ok_bind, cell_of_lt h, ok_bind, size_of_lt (by omega),
    ok_bind, Nat.mod_add_mod, foldlM_paintBit _ _ _ _ fun c hc => List.mem_range.mp hc,
    ← byteAt_of_lt h]
  rfl

/-- The rows of a sprite paint its pixels. -/
theorem foldlM_paintRow (m : Machine) (x y first n : Nat) (done : Screen × Bool)
    (h : m.index.toNat + first + n ≤ memorySize) :
    (List.range' first n).foldlM (paintRow m (x % screenWidth) (y % screenHeight)) done =
      .ok ((Sprite.pixelsFrom x (y + first)
        ((List.range' first n).map fun k => m.byteAt (m.index.toNat + k))).foldl
          Screen.paint done) := by
  induction n generalizing first done with
  | zero => rfl
  | succ n ih =>
      rw [List.range'_succ, List.foldlM_cons, paintRow_eq m x y done (by omega), ok_bind,
        ih (first + 1) _ (by omega), List.map_cons, Sprite.pixelsFrom, List.foldl_append,
        Nat.add_assoc]

theorem setCell_flag {α : Type} (b : Bank α 16) (x : α) :
    setCell b 0xF x = .ok (b.put flagRegister x) := setCell_digit b flagRegister x

/-- Drawing a sprite that lies in memory does not trap. -/
theorem draw_eq {x y n : Digit} (h : m.index.toNat + n.val ≤ memorySize) :
    draw m x y n = .ok (m.drawSprite (m.spriteAt x y n)) := by
  have hpixels : (m.spriteAt x y n).pixels.Nodup :=
    Sprite.pixels_nodup (Machine.spriteAt_rows_le m x y n)
  have hpaint : (List.range n.val).foldlM (paintRow m ((m.registers.get x).toNat % screenWidth)
        ((m.registers.get y).toNat % screenHeight)) (m.screen, false) =
      .ok (m.screen.draw (m.spriteAt x y n), m.screen.hits (m.spriteAt x y n)) := by
    have hrows := foldlM_paintRow m (m.registers.get x).toNat (m.registers.get y).toNat 0 n.val
      (m.screen, false) h
    rw [← List.range_eq_range'] at hrows
    refine hrows.trans (congrArg Except.ok ?_)
    refine (Screen.foldl_paint m.screen false hpixels).trans ?_
    rw [Bool.false_or]
    rfl
  rw [draw, cell_digit, ok_bind, cell_digit, ok_bind]
  dsimp only
  rw [hpaint, ok_bind]
  dsimp only
  rw [setCell_flag, ok_bind]
  rfl

end Strict

end ChipEight
