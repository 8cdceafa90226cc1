/-!
# The random bytes

Random bytes are taken from a ChaCha keystream with twelve rounds and a 64-bit
block counter.  The stream depends on a key of eight words alone:
`Keystream.word key k` is its word `k`, word `k % 16` of block `k / 16`.  A
`Keystream` is a key and the number of words taken so far, and `Keystream.next`
takes one more.

A key may come from anywhere.  One that is to be had again is stretched from a
seed (`Keystream.seedKey`).
-/

namespace ChipEight

/-- What a stream depends on. -/
abbrev StreamKey := Vector UInt32 8

/-- A place in the stream of a key. -/
structure Keystream where
  key : StreamKey
  /-- Words taken so far. -/
  position : Nat
deriving DecidableEq, Repr

namespace Keystream

/-! ## The key -/

def rotateLeft (x r : UInt32) : UInt32 := (x <<< r) ||| (x >>> (32 - r))

/-- One step of the congruential generator that stretches the seed. -/
def stretch (s : UInt64) : UInt64 := s * 6364136223846793005 + 11634580027462260723

/-- A key word of a stretched seed: the top five bits say how far the bits below
are rotated to the right. -/
def keyWord (s : UInt64) : UInt32 :=
  let x : UInt64 := ((s >>> 18) ^^^ s) >>> 27
  let r : UInt64 := s >>> 59
  rotateLeft x.toUInt32 (32 - r.toUInt32)

def keyWords : Nat → UInt64 → List UInt32
  | 0, _ => []
  | n + 1, s => keyWord (stretch s) :: keyWords n (stretch s)

theorem length_keyWords (n : Nat) (s : UInt64) : (keyWords n s).length = n := by
  induction n generalizing s with
  | zero => rfl
  | succ n ih => simp only [keyWords, List.length_cons, ih]

def seedKey (seed : UInt64) : StreamKey := ⟨(keyWords 8 seed).toArray, length_keyWords 8 seed⟩

/-! ## Blocks -/

abbrev Block := Vector UInt32 16

/-- The word at a place below sixteen. -/
def Block.at (t : Block) (i : Nat) : UInt32 := t.getD i 0

/-- One quarter round, on the words at `a`, `b`, `c` and `d`. -/
def quarterRound (t : Block) (a b c d : Nat) : Block :=
  let xa := t.at a + t.at b
  let xd := rotateLeft (t.at d ^^^ xa) 16
  let xc := t.at c + xd
  let xb := rotateLeft (t.at b ^^^ xc) 12
  let ya := xa + xb
  let yd := rotateLeft (xd ^^^ ya) 8
  let yc := xc + yd
  let yb := rotateLeft (xb ^^^ yc) 7
  (((t.setIfInBounds a ya).setIfInBounds b yb).setIfInBounds c yc).setIfInBounds d yd

/-- The four columns, then the four diagonals. -/
def doubleRound (t : Block) : Block :=
  let t := quarterRound t 0 4 8 12
  let t := quarterRound t 1 5 9 13
  let t := quarterRound t 2 6 10 14
  let t := quarterRound t 3 7 11 15
  let t := quarterRound t 0 5 10 15
  let t := quarterRound t 1 6 11 12
  let t := quarterRound t 2 7 8 13
  quarterRound t 3 4 9 14

def rounds : Nat → Block → Block
  | 0, t => t
  | n + 1, t => rounds n (doubleRound t)

/-- The words a block starts from: four constants, the key, the block number in
two halves and two zeros. -/
def initial (key : StreamKey) (number : Nat) : Block :=
  let words := [0x61707865, 0x3320646e, 0x79622d32, 0x6b206574] ++ key.toList ++
    [UInt32.ofNat number, UInt32.ofNat (number / 0x100000000), 0, 0]
  Vector.ofFn fun k => words.getD k.val 0

/-- A block of the stream: twelve rounds over its initial words, and these added
again. -/
def block (key : StreamKey) (number : Nat) : Block :=
  let t := initial key number
  Vector.zipWith (· + ·) (rounds 6 t) t

/-- Word `k` of the stream of a key. -/
def word (key : StreamKey) (k : Nat) : UInt32 :=
  (block key (k / 16)).at (k % 16)

/-! ## Taking bytes -/

def ofKey (key : StreamKey) : Keystream := ⟨key, 0⟩

def ofSeed (seed : UInt64) : Keystream := ofKey (seedKey seed)

/-- The byte the next word gives: its low eight bits. -/
def byte (s : Keystream) : UInt8 := (word s.key s.position).toUInt8

def next (s : Keystream) : Keystream := ⟨s.key, s.position + 1⟩

/-- The byte of the next word, and the stream behind that word. -/
def take (s : Keystream) : UInt8 × Keystream := (s.byte, s.next)

/-! ## Tests -/

example : (List.range 4).map (fun k => (word (seedKey 0) k).toUInt8)
    = [0x7f, 0xb2, 0x7b, 0x94] := by decide +kernel
example : (Keystream.mk (seedKey 42) 15).byte = 0x9b := by decide +kernel

end Keystream

end ChipEight
