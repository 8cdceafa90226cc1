/-!
# JSON tokens

A JSON text is a sequence of tokens with blanks between them.  Blanks are space,
tab, line feed and carriage return.  `Token.scan` splits a text into its tokens
and `Token.text` writes one token.

A string token holds the characters meant, not the escapes they were written
with.  A number token holds its characters as written, so that its reader can
tell `1` from `1.0`.
-/

namespace ChipEight.Json

inductive Token where
  | openArray
  | closeArray
  | openObject
  | closeObject
  | comma
  | colon
  | null
  | bool (b : Bool)
  /-- A number as written. -/
  | number (lexeme : List Char)
  /-- The characters a string means. -/
  | string (s : String)
deriving DecidableEq, Repr

/-- The characters that may stand between tokens. -/
def isBlank (c : Char) : Bool := c == ' ' || c == '\t' || c == '\n' || c == '\r'

/-! ## Numbers -/

/-- The digits at the front, at least one. -/
def digits? (cs : List Char) : Option (List Char × List Char) :=
  match cs.takeWhile Char.isDigit with
  | [] => none
  | ds => some (ds, cs.dropWhile Char.isDigit)

/-- The whole part of a number: a lone zero, or digits that start with none. -/
def wholePart? : List Char → Option (List Char × List Char)
  | '0' :: cs => some (['0'], cs)
  | cs => digits? cs

def fraction? : List Char → Option (List Char × List Char)
  | '.' :: cs => (digits? cs).map fun (ds, rest) => ('.' :: ds, rest)
  | cs => some ([], cs)

def signedDigits? : List Char → Option (List Char × List Char)
  | '+' :: cs => (digits? cs).map fun (ds, rest) => ('+' :: ds, rest)
  | '-' :: cs => (digits? cs).map fun (ds, rest) => ('-' :: ds, rest)
  | cs => digits? cs

/-- A power of ten, if there is one. -/
def exponent? : List Char → Option (List Char × List Char)
  | 'e' :: cs => (signedDigits? cs).map fun (ds, rest) => ('e' :: ds, rest)
  | 'E' :: cs => (signedDigits? cs).map fun (ds, rest) => ('E' :: ds, rest)
  | cs => some ([], cs)

def magnitude? (cs : List Char) : Option (List Char × List Char) := do
  let (whole, cs) ← wholePart? cs
  let (fraction, cs) ← fraction? cs
  let (exponent, cs) ← exponent? cs
  return (whole ++ fraction ++ exponent, cs)

def number? : List Char → Option (List Char × List Char)
  | '-' :: cs => (magnitude? cs).map fun (ds, rest) => ('-' :: ds, rest)
  | cs => magnitude? cs

/-! ## Strings -/

def hexValue? (c : Char) : Option Nat :=
  if c.isDigit then some (c.toNat - '0'.toNat)
  else if 'a' ≤ c ∧ c ≤ 'f' then some (c.toNat - 'a'.toNat + 10)
  else if 'A' ≤ c ∧ c ≤ 'F' then some (c.toNat - 'A'.toNat + 10)
  else none

def unit? (a b c d : Char) : Option Nat := do
  return (((← hexValue? a) * 16 + (← hexValue? b)) * 16 + (← hexValue? c)) * 16 + (← hexValue? d)

/-- The character of an escape of one letter. -/
def shortEscape? : Char → Option Char
  | '"' => some '"'
  | '\\' => some '\\'
  | '/' => some '/'
  | 'b' => some '\x08'
  | 'f' => some '\x0c'
  | 'n' => some '\n'
  | 'r' => some '\r'
  | 't' => some '\t'
  | _ => none

/-- The characters of a string behind its opening quote, and the text behind its
closing quote.  Control characters must be escaped, and an escaped half of a
surrogate pair needs its other half. -/
def stringBody? : List Char → Option (List Char × List Char)
  | [] => none
  | '"' :: cs => some ([], cs)
  | '\\' :: 'u' :: a :: b :: c :: d :: cs =>
      match unit? a b c d with
      | none => none
      | some hi =>
          if hi < 0xD800 ∨ 0xDFFF < hi then
            (stringBody? cs).map fun (s, rest) => (Char.ofNat hi :: s, rest)
          else if hi < 0xDC00 then
            match cs with
            | '\\' :: 'u' :: a :: b :: c :: d :: cs =>
                match unit? a b c d with
                | none => none
                | some lo =>
                    if 0xDC00 ≤ lo ∧ lo ≤ 0xDFFF then
                      let code := 0x10000 + (hi - 0xD800) * 0x400 + (lo - 0xDC00)
                      (stringBody? cs).map fun (s, rest) => (Char.ofNat code :: s, rest)
                    else none
            | _ => none
          else none
  | '\\' :: e :: cs =>
      match shortEscape? e with
      | none => none
      | some c => (stringBody? cs).map fun (s, rest) => (c :: s, rest)
  | c :: cs =>
      if c = '\\' ∨ c.toNat < 0x20 then none
      else (stringBody? cs).map fun (s, rest) => (c :: s, rest)

def escape (c : Char) : List Char :=
  match c with
  | '"' => ['\\', '"']
  | '\\' => ['\\', '\\']
  | '\n' => ['\\', 'n']
  | '\r' => ['\\', 'r']
  | '\t' => ['\\', 't']
  | c =>
      if c.toNat < 0x20 then
        ['\\', 'u', '0', '0', Nat.digitChar (c.toNat / 16), Nat.digitChar (c.toNat % 16)]
      else [c]

namespace Token

/-! ## Scanning -/

/-- The token at the front of a text that starts with no blank. -/
def first? : List Char → Option (Token × List Char)
  | '[' :: cs => some (.openArray, cs)
  | ']' :: cs => some (.closeArray, cs)
  | '\x7b' :: cs => some (.openObject, cs)
  | '\x7d' :: cs => some (.closeObject, cs)
  | ',' :: cs => some (.comma, cs)
  | ':' :: cs => some (.colon, cs)
  | 'n' :: 'u' :: 'l' :: 'l' :: cs => some (.null, cs)
  | 't' :: 'r' :: 'u' :: 'e' :: cs => some (.bool true, cs)
  | 'f' :: 'a' :: 'l' :: 's' :: 'e' :: cs => some (.bool false, cs)
  | '"' :: cs => (stringBody? cs).map fun (s, rest) => (.string (String.ofList s), rest)
  | cs => (number? cs).map fun (ds, rest) => (.number ds, rest)

/-- The tokens of a text of at most `n` characters. -/
def scanUpTo : Nat → List Char → Option (List Token)
  | _, [] => some []
  | 0, _ :: _ => none
  | n + 1, c :: cs =>
      if isBlank c then scanUpTo n cs
      else
        match first? (c :: cs) with
        | none => none
        | some (t, rest) => (scanUpTo n rest).map (t :: ·)

/-- The tokens of a text, if it is a sequence of tokens and blanks. -/
def scan (cs : List Char) : Option (List Token) := scanUpTo cs.length cs

/-! ## Writing -/

def text : Token → List Char
  | .openArray => ['[']
  | .closeArray => [']']
  | .openObject => ['\x7b']
  | .closeObject => ['\x7d']
  | .comma => [',']
  | .colon => [':']
  | .null => ['n', 'u', 'l', 'l']
  | .bool true => ['t', 'r', 'u', 'e']
  | .bool false => ['f', 'a', 'l', 's', 'e']
  | .number lexeme => lexeme
  | .string s => '"' :: s.toList.flatMap escape ++ ['"']

end Token

/-! ## Tests -/

example : Token.scan "[1, -0.5e+3]".toList
    = some [.openArray, .number ['1'], .comma, .number "-0.5e+3".toList, .closeArray] := by
  decide +kernel
example : Token.scan "01".toList = some [.number ['0'], .number ['1']] := by decide +kernel
example : Token.scan "\"\\u0070c\"".toList = some [.string "pc"] := by decide +kernel
example : Token.scan "\"\\ud83d\\ude00\"".toList = some [.string "😀"] := by decide +kernel
example : Token.scan "\"\\ud83d\"".toList = none := by decide +kernel
example : Token.scan "1.".toList = none := by decide +kernel

end ChipEight.Json
