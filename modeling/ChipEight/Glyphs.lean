/-!
# The built-in glyphs

Sixteen pictures of the hexadecimal digits, five rows of eight pixels each,
stand in the machine's memory below the program.
-/

namespace ChipEight

def glyphBase : Nat := 0x50

def glyphHeight : Nat := 5

/-- The rows of the glyphs, the glyph of 0 first and its top row first. -/
def glyphRows : List UInt8 :=
  [0xF0, 0x90, 0x90, 0x90, 0xF0,
   0x20, 0x60, 0x20, 0x20, 0x70,
   0xF0, 0x10, 0xF0, 0x80, 0xF0,
   0xF0, 0x10, 0xF0, 0x10, 0xF0,
   0x90, 0x90, 0xF0, 0x10, 0x10,
   0xF0, 0x80, 0xF0, 0x10, 0xF0,
   0xF0, 0x80, 0xF0, 0x90, 0xF0,
   0xF0, 0x10, 0x20, 0x40, 0x40,
   0xF0, 0x90, 0xF0, 0x90, 0xF0,
   0xF0, 0x90, 0xF0, 0x10, 0xF0,
   0xF0, 0x90, 0xF0, 0x90, 0x90,
   0xE0, 0x90, 0xE0, 0x90, 0xE0,
   0xF0, 0x80, 0x80, 0x80, 0xF0,
   0xE0, 0x90, 0x90, 0x90, 0xE0,
   0xF0, 0x80, 0xF0, 0x80, 0xF0,
   0xF0, 0x80, 0xF0, 0x80, 0x80]

def glyphEnd : Nat := glyphBase + glyphRows.length

/-- The address of the glyph numbered `b`.  Numbers above fifteen address the
memory behind the glyphs at the same spacing. -/
def glyphAddress (b : UInt8) : UInt16 := UInt16.ofNat (glyphBase + b.toNat * glyphHeight)

/-- The highest number still addresses a cell of memory, so no address is cut. -/
theorem glyphAddress_toNat (b : UInt8) :
    (glyphAddress b).toNat = glyphBase + b.toNat * glyphHeight := by
  have := b.toNat_lt
  simp only [glyphAddress, glyphBase, glyphHeight, UInt16.toNat_ofNat']
  omega

example : glyphRows.length = 16 * glyphHeight ∧ glyphEnd = 0xA0 := by decide

end ChipEight
