import ChipEight.Pacer

/-!
# The command line

A console is started with the path of a program and up to three options: the
rate (`--cycles-per-tick`), the state file (`--state-file`) and the seed of the
random bytes (`--seed`).  `Options.parse` reads the words from left to right and
stops at the first that is wrong.

An option is written `--name value` or `--name=value`.  A value behind a blank
must not look like an option itself; a lone hyphen does not.  After the word
`--` every word is a path.
-/

namespace ChipEight

/-- Why the words on the command line start nothing. -/
inductive UsageError where
  | help
  /-- An option that does not exist, or a second path. -/
  | unknownArgument
  | missingValue
  | emptyPath
  /-- A value that is no number, or one out of range. -/
  | badNumber
  | repeated
  /-- A value for an option that takes none. -/
  | needlessValue
  | missingPath
deriving DecidableEq, Repr

structure Options where
  programPath : String
  rate : Nat
  stateFile : Option String
  seed : Option UInt64
deriving DecidableEq, Repr

/-! ## Words -/

inductive OptionName where
  | rate
  | stateFile
  | seed
deriving DecidableEq, Repr

def OptionName.ofString? : String → Option OptionName
  | "cycles-per-tick" => some .rate
  | "state-file" => some .stateFile
  | "seed" => some .seed
  | _ => none

/-- What a word is, seen by itself. -/
inductive Word where
  /-- A path, or the value of the option before. -/
  | plain
  /-- From here on every word is a path. -/
  | endOfOptions
  | help
  /-- An option, and its value if the word holds it. -/
  | option (name : OptionName) (value : Option String)
  /-- An option that takes no value, with one. -/
  | needlessValue
  | unknown
deriving DecidableEq, Repr

/-- The word of a name and what stands behind it, with the equals sign. -/
def Word.ofLong (name : String) (tail : List Char) : Word :=
  match OptionName.ofString? name, tail with
  | some o, [] => .option o none
  | some o, _ :: value => .option o (some (String.ofList value))
  | none, tail =>
      if name = "help" then if tail.isEmpty then .help else .needlessValue else .unknown

def Word.ofString (w : String) : Word :=
  match w.toList with
  | ['-', '-'] => .endOfOptions
  | '-' :: '-' :: cs =>
      .ofLong (String.ofList (cs.takeWhile (· != '='))) (cs.dropWhile (· != '='))
  | '-' :: 'h' :: _ => .help
  | '-' :: _ :: _ => .unknown
  | _ => .plain

/-! ## Values -/

/-- The number written by digits, at least one. -/
def digitsValue? (cs : List Char) : Option Nat :=
  if cs ≠ [] ∧ cs.all Char.isDigit then some (Nat.ofDigitChars 10 cs 0) else none

/-- A natural number: digits, with a plus sign if one likes. -/
def natural? : List Char → Option Nat
  | '+' :: cs => digitsValue? cs
  | cs => digitsValue? cs

/-- An integer: a natural number, or digits with a minus sign. -/
def integer? : List Char → Option Int
  | '-' :: cs => (digitsValue? cs).map fun n => -(n : Int)
  | cs => (natural? cs).map fun n => (n : Int)

/-- A rate is an integer from zero to `maxRate`.  Minus zero is one. -/
def rateValue (s : String) : Except UsageError Nat :=
  match integer? s.toList with
  | some n => if 0 ≤ n ∧ n ≤ maxRate then .ok n.toNat else .error .badNumber
  | none => .error .badNumber

/-- A seed is a natural number of sixty-four bits. -/
def seedValue (s : String) : Except UsageError UInt64 :=
  match natural? s.toList with
  | some n => if n < 0x10000000000000000 then .ok (UInt64.ofNat n) else .error .badNumber
  | none => .error .badNumber

def nonemptyPath (s : String) : Except UsageError String :=
  if s.isEmpty then .error .emptyPath else .ok s

namespace Options

/-! ## Reading -/

/-- What the words so far ask for. -/
structure Draft where
  programPath : Option String := none
  rate : Option Nat := none
  stateFile : Option String := none
  seed : Option UInt64 := none

def Draft.addPath (d : Draft) (w : String) : Except UsageError Draft :=
  match d.programPath with
  | some _ => .error .unknownArgument
  | none => do return { d with programPath := some (← nonemptyPath w) }

def Draft.addOption (d : Draft) (name : OptionName) (value : String) : Except UsageError Draft :=
  match name with
  | .rate =>
      if d.rate.isSome then .error .repeated
      else do return { d with rate := some (← rateValue value) }
  | .stateFile =>
      if d.stateFile.isSome then .error .repeated
      else do return { d with stateFile := some (← nonemptyPath value) }
  | .seed =>
      if d.seed.isSome then .error .repeated
      else do return { d with seed := some (← seedValue value) }

/-- Read the words from left to right. -/
def Draft.addWords (d : Draft) : List String → Except UsageError Draft
  | [] => .ok d
  | w :: ws =>
      match Word.ofString w with
      | .plain => do (← d.addPath w).addWords ws
      | .endOfOptions => ws.foldlM Draft.addPath d
      | .help => .error .help
      | .needlessValue => .error .needlessValue
      | .unknown => .error .unknownArgument
      | .option name (some value) => do (← d.addOption name value).addWords ws
      | .option name none =>
          match ws with
          | [] => .error .missingValue
          | value :: ws =>
              match Word.ofString value with
              | .plain => do (← d.addOption name value).addWords ws
              | .unknown => .error .unknownArgument
              | .needlessValue => .error .needlessValue
              | _ => .error .missingValue

def parse (words : List String) : Except UsageError Options := do
  let d ← Draft.addWords {} words
  match d.programPath with
  | none => .error .missingPath
  | some programPath =>
      return ⟨programPath, d.rate.getD defaultRate, d.stateFile, d.seed⟩

end Options

/-! ## Tests -/

example : (Options.parse ["--seed", "+7", "x", "--state-file=-"]).toOption
    = some ⟨"x", 12, some "-", some 7⟩ := by decide +kernel
example : (Options.parse ["--", "--seed"]).toOption = some ⟨"--seed", 12, none, none⟩ := by
  decide +kernel
example : Word.ofString "-1" = .unknown ∧ Word.ofString "-" = .plain := by decide +kernel
example : (rateValue "007").toOption = some 7 ∧ (rateValue "4294967296").toOption = none := by
  decide +kernel
example : (rateValue "-0").toOption = some 0 ∧ (rateValue "-1").toOption = none := by
  decide +kernel
example : (seedValue "+9").toOption = some 9 ∧ (seedValue "-0").toOption = none := by
  decide +kernel

end ChipEight
