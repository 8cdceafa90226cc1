/-!
# Single-precision numbers in text

A finite number is a significand times a power of two (`Binary32.Magnitude`), so
its decimal forms are computed in exact natural arithmetic.

`fixedText` rounds to a given number of places, a half to the even neighbour.
`shortestText` writes the fewest digits that no other number is nearer to, with
zeros up to the point and no exponent.  Of two such forms the nearer is taken.
-/

namespace ChipEight.Binary32

/-- The size of a number. -/
inductive Magnitude where
  /-- The significand times two to the exponent. -/
  | finite (significand : Nat) (exponent : Int)
  | infinite
  | notANumber
deriving DecidableEq, Repr

/-- The leading bit of a significand of full length, which is not stored. -/
def hiddenBit : Nat := 0x800000

/-- The size of the number with these bits. -/
def Magnitude.ofBits (bits : UInt32) : Magnitude :=
  let fraction := bits.toNat % hiddenBit
  let field := bits.toNat / hiddenBit % 256
  if field = 255 then if fraction = 0 then .infinite else .notANumber
  else if field = 0 then .finite fraction (-149)
  else .finite (hiddenBit + fraction) (field - 150)

def isNegative (bits : UInt32) : Bool := bits.toNat / 0x80000000 == 1

/-- The text of a number from the text of its finite sizes.  What is no number
has no sign. -/
def textWith (finite : Nat → Int → String) (x : Float32) : String :=
  let sign := if isNegative x.toBits then "-" else ""
  match Magnitude.ofBits x.toBits with
  | .finite m e => sign ++ finite m e
  | .infinite => sign ++ "inf"
  | .notANumber => "NaN"

/-! ## A fixed number of places -/

/-- The nearest whole number of a quotient, the even one of two. -/
def roundQuotient (num den : Nat) : Nat :=
  let rest := 2 * (num % den)
  if rest < den ∨ (rest = den ∧ num / den % 2 = 0) then num / den else num / den + 1

/-- A whole number of the unit `10 ^ -places`, with a point before the places. -/
def pointText (places n : Nat) : String :=
  let whole := toString (n / Nat.pow 10 places)
  let fraction := String.ofList ((Nat.toDigits 10 (n % Nat.pow 10 places)).leftpad places '0')
  if places = 0 then whole else whole ++ "." ++ fraction

/-- A number with a fixed number of places. -/
def fixedText (places : Nat) : Float32 → String :=
  textWith fun m e =>
    pointText places (roundQuotient (m * Nat.pow 10 places * Nat.pow 2 e.toNat) (Nat.pow 2 (-e).toNat))

/-! ## The fewest digits -/

/-- The numbers nearer to a given one than to its neighbours, as whole numbers of
a quarter of its last bit.  The neighbour below a power of two is at half the
distance.  The ends belong to the numbers if the significand is even. -/
structure Cell where
  low : Nat
  middle : Nat
  high : Nat
  closed : Bool
deriving DecidableEq, Repr

/-- The cell of a significand. -/
def Cell.ofSignificand (m : Nat) (e : Int) : Cell where
  low := if m = hiddenBit ∧ -149 < e then 4 * m - 1 else 4 * m - 2
  middle := 4 * m
  high := 4 * m + 2
  closed := m % 2 = 0

/-- Is the fraction `n / den` in the cell, with the quarter bits scaled by `num`? -/
def Cell.holds (c : Cell) (num n den : Nat) : Bool :=
  if c.closed then c.low * num ≤ n * den ∧ n * den ≤ c.high * num
  else c.low * num < n * den ∧ n * den < c.high * num

/-- The multiple of `10 ^ k` in the cell that is nearest to its middle, where the
quarter bit is `2 ^ e`. -/
def Cell.multiple? (c : Cell) (e k : Int) : Option Nat :=
  let num := Nat.pow 2 e.toNat * Nat.pow 10 (-k).toNat
  let den := Nat.pow 2 (-e).toNat * Nat.pow 10 k.toNat
  let below := c.middle * num / den
  let rest := 2 * (c.middle * num % den)
  let nearer := if rest < den then below else below + 1
  let farther := if rest < den then below + 1 else below
  if c.holds num nearer den then some nearer
  else if c.holds num farther den then some farther
  else none

/-- The first of the powers `10 ^ k`, `10 ^ (k - 1)`, … that has a multiple in the
cell, and that multiple. -/
def Cell.shortest (c : Cell) (e : Int) : Nat → Int → Nat × Int
  | 0, k => (0, k)
  | fuel + 1, k =>
      match c.multiple? e k with
      | some n => (n, k)
      | none => Cell.shortest c e fuel (k - 1)

/-- A multiple of a power of ten, without an exponent. -/
def powerText (n : Nat) (k : Int) : String :=
  if 0 ≤ k then toString n ++ String.ofList (List.replicate k.toNat '0')
  else pointText (-k).toNat n

/-- The fewest digits that tell a number from all others.  No number is above
`10 ^ 39`, and at `10 ^ -54` every cell holds a multiple. -/
def shortestText : Float32 → String :=
  textWith fun m e =>
    if m = 0 then "0"
    else
      let (n, k) := (Cell.ofSignificand m e).shortest (e - 2) 94 39
      powerText n k

/-! ## Tests -/

example : roundQuotient 5 2 = 2 ∧ roundQuotient 7 2 = 4 := by decide
example : fixedText 3 (Float32.ofBits 0x3F800000) = "1.000" := by decide +kernel
example : fixedText 3 (Float32.ofBits 0x3D800000) = "0.062" := by decide +kernel
example : shortestText (Float32.ofBits 0x3DCCCCCD) = "0.1" := by decide +kernel
example : shortestText (Float32.ofBits 0x52700000) = "257698040000" := by decide +kernel

end ChipEight.Binary32
