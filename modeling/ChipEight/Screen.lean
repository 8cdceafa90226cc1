import ChipEight.Bank

/-!
# The screen

The screen has 64 columns and 32 rows of pixels that are on or off, stored row
by row.  A sprite is a column of rows of eight pixels at a place on the screen.
Drawing flips every pixel under a set bit of the sprite (`Screen.draw`), and
`Screen.hits` tells whether one of those pixels was on.  Both coordinates go
around the edges, so a sprite that leaves on one side comes in on the other.
-/

namespace ChipEight

def screenWidth : Nat := 64

def screenHeight : Nat := 32

def screenSize : Nat := screenWidth * screenHeight

/-- The pixels, row by row from the top, each row from the left. -/
abbrev Screen := Bank Bool screenSize

/-! ## Sprites -/

/-- A sprite and the place of its upper left corner. -/
structure Sprite where
  column : Nat
  row : Nat
  /-- Eight pixels each, the leftmost in the highest bit. -/
  rows : List UInt8
deriving DecidableEq, Repr

/-- The pixel at a row and a column, both taken around the edges. -/
def pixel (row column : Nat) : Fin screenSize :=
  ⟨row % screenHeight * screenWidth + column % screenWidth, by
    have h1 : row % screenHeight < screenHeight := Nat.mod_lt _ (by decide)
    have h2 : column % screenWidth < screenWidth := Nat.mod_lt _ (by decide)
    simp only [screenSize, screenWidth, screenHeight] at *
    omega⟩

/-- The columns of the set bits of a sprite row, from the left. -/
def litColumns (b : UInt8) : List Nat := (List.range 8).filter fun c => b.toNat.testBit (7 - c)

namespace Sprite

/-- The pixels under the set bits of rows that start at row `y`. -/
def pixelsFrom (column : Nat) : Nat → List UInt8 → List (Fin screenSize)
  | _, [] => []
  | y, b :: bs =>
      (litColumns b).map (fun c => pixel y (column + c)) ++ pixelsFrom column (y + 1) bs

/-- The pixels under the set bits of a sprite, row by row. -/
def pixels (s : Sprite) : List (Fin screenSize) := pixelsFrom s.column s.row s.rows

end Sprite

namespace Screen

def blank : Screen := Vector.replicate screenSize false

def flip (s : Screen) (p : Fin screenSize) : Screen := Bank.put s p (!s.get p)

/-- Flip every pixel under a set bit of the sprite. -/
def draw (s : Screen) (sprite : Sprite) : Screen := sprite.pixels.foldl flip s

/-- True if a pixel under a set bit of the sprite is on. -/
def hits (s : Screen) (sprite : Sprite) : Bool := sprite.pixels.any fun p => s.get p

/-- The pixel at a row and a column that need not lie on the screen as long as
their place in the row-by-row order does. -/
def at? (s : Screen) (row column : Nat) : Option Bool := s[row * screenWidth + column]?

end Screen

/-! ## Lemmas -/

namespace Screen

theorem get_flip (s : Screen) (p q : Fin screenSize) :
    (s.flip p).get q = (s.get q ^^ decide (p = q)) := by
  rw [flip, Bank.get_put]
  by_cases h : p = q <;> simp [h]

/-- The row-by-row place is looked up exactly when it is one of the pixels. -/
theorem at?_eq_none_iff (s : Screen) (row column : Nat) :
    s.at? row column = none ↔ screenSize ≤ row * screenWidth + column := by
  simp [at?]

end Screen

/-! ## Tests -/

example : litColumns 0x81 = [0, 7] := by decide
example : (Sprite.mk 63 31 [0xC0, 0x80]).pixels.map Fin.val = [2047, 1984, 63] := by decide

end ChipEight
