import ChipEight.Screen

/-!
# The phosphor

The screen of a console glows like a tube: a pixel that is on has full
brightness, and one that is off fades with the time.  Brightness is a number
from 0 to 1 in single precision.  A frame holds the colours that are shown, green
with the brightness as opacity.
-/

namespace ChipEight

/-- The brightness of every pixel. -/
abbrev Glow := Bank Float32 screenSize

structure Colour where
  red : UInt8
  green : UInt8
  blue : UInt8
  alpha : UInt8
deriving DecidableEq, Repr

abbrev Frame := Bank Colour screenSize

/-- The frame that nothing was painted on. -/
def Frame.clear : Frame := Vector.replicate screenSize ⟨0, 0, 0, 0⟩

namespace Glow

/-- The brightness an unlit pixel loses in a second. -/
def decayRate : Float32 := 10.0

def dark : Glow := Vector.replicate screenSize 0.0

/-- The brightness of a pixel after some seconds. -/
def fade (on : Bool) (brightness seconds : Float32) : Float32 :=
  if on then 1.0
  else
    let rest := brightness - decayRate * seconds
    if 0.0 < rest then rest else 0.0

def decay (glow : Glow) (screen : Screen) (seconds : Float32) : Glow :=
  Vector.zipWith (fun on b => fade on b seconds) screen glow

/-- Is there a pixel that is neither dark nor at full brightness? -/
def isFading (glow : Glow) : Bool := glow.toList.any fun b => 0.0 < b && b < 1.0

def colour (brightness : Float32) : Colour := ⟨0, 0xFF, 0, (brightness * 255.0).toUInt8⟩

def frame (glow : Glow) : Frame := glow.map colour

/-- Full brightness is opaque. -/
theorem colour_full : (colour 1.0).alpha = 0xFF := by decide +kernel

end Glow

end ChipEight
