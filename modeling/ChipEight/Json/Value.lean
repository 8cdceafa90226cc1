import ChipEight.Json.Token

/-!
# JSON values

A value is written as the tokens `Value.tokens` gives, without any blank, and
`Value.ofTokens?` reads them back.  `Value.read?` and `Value.render` are the two
directions on whole texts.  An object keeps its members in the order they were
written, repeated names included.
-/

namespace ChipEight.Json

inductive Value where
  | null
  | bool (b : Bool)
  /-- A number as written. -/
  | number (lexeme : List Char)
  | string (s : String)
  | array (elements : List Value)
  | object (members : List (String × Value))
deriving Repr

namespace Value

/-! ## Reading -/

mutual

/-- The value at the front of the tokens, nested at most as deep as the fuel
allows. -/
def take? : Nat → List Token → Option (Value × List Token)
  | 0, _ => none
  | n + 1, ts =>
      match ts with
      | .null :: ts => some (.null, ts)
      | .bool b :: ts => some (.bool b, ts)
      | .number lexeme :: ts => some (.number lexeme, ts)
      | .string s :: ts => some (.string s, ts)
      | .openArray :: .closeArray :: ts => some (.array [], ts)
      | .openArray :: ts => (takeElements? n ts).map fun (vs, rest) => (.array vs, rest)
      | .openObject :: .closeObject :: ts => some (.object [], ts)
      | .openObject :: ts => (takeMembers? n ts).map fun (ms, rest) => (.object ms, rest)
      | _ => none

/-- The elements of an array up to its end, at least one. -/
def takeElements? : Nat → List Token → Option (List Value × List Token)
  | 0, _ => none
  | n + 1, ts =>
      match take? n ts with
      | some (v, .comma :: ts) => (takeElements? n ts).map fun (vs, rest) => (v :: vs, rest)
      | some (v, .closeArray :: ts) => some ([v], ts)
      | _ => none

/-- The members of an object up to its end, at least one. -/
def takeMembers? : Nat → List Token → Option (List (String × Value) × List Token)
  | 0, _ => none
  | n + 1, ts =>
      match ts with
      | .string name :: .colon :: ts =>
          match take? n ts with
          | some (v, .comma :: ts) =>
              (takeMembers? n ts).map fun (ms, rest) => ((name, v) :: ms, rest)
          | some (v, .closeObject :: ts) => some ([(name, v)], ts)
          | _ => none
      | _ => none

end

/-- The value written by the tokens, all of them.  A value of `n` tokens is
nested less than `n` deep, so the fuel is enough. -/
def ofTokens? (ts : List Token) : Option Value :=
  match take? ts.length ts with
  | some (v, []) => some v
  | _ => none

def read? (text : String) : Option Value := (Token.scan text.toList).bind ofTokens?

/-! ## Writing -/

mutual

def tokens : Value → List Token
  | .null => [.null]
  | .bool b => [.bool b]
  | .number lexeme => [.number lexeme]
  | .string s => [.string s]
  | .array [] => [.openArray, .closeArray]
  | .array (v :: vs) => .openArray :: v.tokens ++ elementTokens vs
  | .object [] => [.openObject, .closeObject]
  | .object ((name, v) :: ms) =>
      .openObject :: .string name :: .colon :: v.tokens ++ memberTokens ms

/-- The tokens of the further elements of an array, and its end. -/
def elementTokens : List Value → List Token
  | [] => [.closeArray]
  | v :: vs => .comma :: v.tokens ++ elementTokens vs

/-- The tokens of the further members of an object, and its end. -/
def memberTokens : List (String × Value) → List Token
  | [] => [.closeObject]
  | (name, v) :: ms => .comma :: .string name :: .colon :: v.tokens ++ memberTokens ms

end

def render (v : Value) : String := String.ofList (v.tokens.flatMap Token.text)

/-! ## Natural numbers -/

def ofNat (n : Nat) : Value := .number (Nat.toDigits 10 n)

/-- The natural number a value is.  It must be written with digits alone. -/
def natural? : Value → Option Nat
  | .number lexeme =>
      if lexeme.all Char.isDigit then some (Nat.ofDigitChars 10 lexeme 0) else none
  | _ => none

/-- Every natural number is read back from its value. -/
theorem natural?_ofNat (n : Nat) : (ofNat n).natural? = some n := by
  have h : (Nat.toDigits 10 n).all Char.isDigit = true :=
    List.all_eq_true.mpr fun _ hc => Nat.isDigit_of_mem_toDigits (by decide) (by decide) hc
  simp only [ofNat, natural?, h, if_true, Nat.ofDigitChars_ten_toDigits]

end Value

/-! ## Tests -/

example : (Value.object [("pc", .ofNat 512), ("stack", .array [.ofNat 1, .null])]).render
    = "\x7b\"pc\":512,\"stack\":[1,null]\x7d" := by decide +kernel
example : ((Value.read? "[ ]").map Value.render) = some "[]" := by decide +kernel
example : ((Value.read? "[1,]").map Value.render) = none := by decide +kernel
example : ((Value.read? "\x7b\"a\" : 1 , \"a\":\t[true]\x7d").map Value.render)
    = some "\x7b\"a\":1,\"a\":[true]\x7d" := by decide +kernel

end ChipEight.Json
