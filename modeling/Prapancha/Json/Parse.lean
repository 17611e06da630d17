import Prapancha.Json.Print

/-!
# Parsing JSON

A recursive-descent parser for the texts of `Value.Storable` values and for any white space
between tokens: structural on the nesting depth, with the remaining length as the bound of an
element list.  It refuses what it does not cover: fractions and exponents, integers beyond 64
bits, and escaped surrogates.
-/

namespace Prapancha.Json

open Octet

/-- A parser returns a result and the rest of the text. -/
abbrev Parser (α : Type) := Bytes → Option (α × Bytes)

def isBlank (b : UInt8) : Bool := b == 0x20 || b == 0x09 || b == 0x0A || b == 0x0D

def skipBlanks (s : Bytes) : Bytes := s.dropWhile isBlank

/-! ## Numbers -/

def isDigit (b : UInt8) : Bool := 0x30 ≤ b && b ≤ 0x39

def digitsValue (ds : Bytes) : Nat := Nat.ofDigitChars 10 (ds.map fun b => Char.ofNat b.toNat) 0

/-- A natural number in its decimal form, without leading zeros. -/
def parseNat : Parser Nat := fun s =>
  let ds := s.takeWhile isDigit
  if ds = decimal (digitsValue ds) then some (digitsValue ds, s.dropWhile isDigit) else none

/-- What may follow an integer: not a digit, and not a fraction or an exponent. -/
def endsNumber : Bytes → Bool
  | [] => true
  | b :: _ => !isDigit b && b != 0x2E && b != 0x65 && b != 0x45

/-- The value of an integer literal, with the first kind that it fits. -/
def integerValue (i : Int) : Option Value :=
  if -2 ^ 63 ≤ i ∧ i < 2 ^ 63 then some (.int64 (Int64.ofInt i))
  else if 0 ≤ i ∧ i < 2 ^ 64 then some (.uint64 (UInt64.ofNat i.toNat))
  else none

def parseInt : Parser Int
  | [] => none
  | b :: s =>
    if b = minus then (parseNat s).map fun (n, r) => (-(n : Int), r)
    else (parseNat (b :: s)).map fun (n, r) => ((n : Int), r)

def parseNumber : Parser Value := fun s => do
  let (i, r) ← parseInt s
  if endsNumber r then (integerValue i).map fun v => (v, r) else none

/-! ## Strings -/

def unescape (b : UInt8) : Option UInt8 :=
  if b = quote ∨ b = backslash ∨ b = 0x2F then some b
  else if b = 0x62 then some 0x08
  else if b = 0x66 then some 0x0C
  else if b = 0x6E then some 0x0A
  else if b = 0x72 then some 0x0D
  else if b = 0x74 then some 0x09
  else none

/-- The octets of the character that `\uXXXX` stands for. -/
def unescapeUnit (a b c d : UInt8) : Option Bytes := do
  let n := ((← hexValue a) * 16 + (← hexValue b)) * 256 + ((← hexValue c) * 16 + (← hexValue d))
  if 0xD800 ≤ n ∧ n < 0xE000 then none else some (String.utf8EncodeChar (Char.ofNat n))

/-- `t` before the string that a parser returned. -/
def prepend (t : Bytes) (r : Option (Bytes × Bytes)) : Option (Bytes × Bytes) :=
  r.map fun (s, rest) => (t ++ s, rest)

def parseChars : Parser Bytes
  | [] => none
  | b :: s =>
    if b = quote then some ([], s)
    else if b = backslash then
      match s with
      | [] => none
      | e :: s =>
        if e = 0x75 then
          match s with
          | h₁ :: h₂ :: h₃ :: h₄ :: s => do
            let t ← unescapeUnit h₁ h₂ h₃ h₄
            prepend t (parseChars s)
          | _ => none
        else do
          let c ← unescape e
          prepend [c] (parseChars s)
    else if b < 0x20 then none
    else prepend [b] (parseChars s)

/-- A string literal; its octets must be UTF-8. -/
def parseString : Parser Bytes
  | [] => none
  | b :: s => do
    if b = quote then
      let (t, r) ← parseChars s
      if Utf8 t then some (t, r) else none
    else none

/-! ## Values -/

/-- One or more items, separated by commas, up to `close`; at most `fuel` of them. -/
def sepBy {α : Type} (p : Parser α) (close : UInt8) : Nat → Parser (List α)
  | 0, _ => none
  | fuel + 1, s => do
    let (a, s) ← p s
    match skipBlanks s with
    | [] => none
    | b :: s =>
      if b = close then some ([a], s)
      else if b = comma then do
        let (as, s) ← sepBy p close fuel s
        some (a :: as, s)
      else none

def listOf {α : Type} (p : Parser α) (close : UInt8) : Parser (List α) := fun s =>
  match skipBlanks s with
  | [] => none
  | b :: r => if b = close then some ([], r) else sepBy p close s.length s

def parseMember (p : Parser Value) : Parser (Bytes × Value) := fun s => do
  let (k, s) ← parseString (skipBlanks s)
  match skipBlanks s with
  | [] => none
  | b :: s =>
    if b = colon then do
      let (v, s) ← p s
      some ((k, v), s)
    else none

def parseLiteral (literal : Bytes) (v : Value) : Parser Value := fun s =>
  if literal <+: s then some (v, s.drop literal.length) else none

def parseScalar : Parser Value := fun s =>
  if s.head? = some quote then (parseString s).map fun (t, r) => (.string t, r)
  else if s.head? = some 0x6E then parseLiteral (text "null") .null s
  else if s.head? = some 0x74 then parseLiteral (text "true") (.bool true) s
  else if s.head? = some 0x66 then parseLiteral (text "false") (.bool false) s
  else parseNumber s

/-- A value nested at most `d` deep.  Of equal keys in an object the last one counts. -/
def parseValue : Nat → Parser Value
  | 0 => fun s => parseScalar (skipBlanks s)
  | d + 1 => fun s =>
    match skipBlanks s with
    | [] => none
    | b :: r =>
      if b = openBracket then
        (listOf (parseValue d) closeBracket r).map fun (es, r) => (.array es, r)
      else if b = openBrace then
        (listOf (parseMember (parseValue d)) closeBrace r).map fun (ms, r) =>
          (.object (ms.foldl (fun o m => Object.set o m.1 m.2) []), r)
      else parseScalar (b :: r)

def parse (s : Bytes) : Option Value := do
  let (v, r) ← parseValue Value.maxDepth s
  if skipBlanks r = [] then some v else none

example : (parse (text "[true, 12 ]")).map print = some (text "[true,12]") := by decide +kernel

end Prapancha.Json
