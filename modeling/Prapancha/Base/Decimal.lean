import Mathlib.Data.List.TakeWhile
import Prapancha.Base.Bytes

/-!
# Decimal numbers

`std::from_chars` in base 10: it takes the longest run of digits that a text begins with, so that a
text may have a number at its front without being one.
-/

namespace Prapancha

/-- An integer type by its range. -/
structure IntegerType (α : Type) where
  min : Int
  max : Int
  ofInt : Int → α

namespace IntegerType

def uint16 : IntegerType UInt16 := ⟨0, 65535, UInt16.ofInt⟩

def int32 : IntegerType Int32 := ⟨-2147483648, 2147483647, Int32.ofInt⟩

variable {α : Type} (T : IntegerType α)

/-- Whether a text has a minus sign, which only signed types allow, and what follows it. -/
def splitMinus (s : Bytes) : Bool × Bytes :=
  if T.min < 0 ∧ s.head? = some 0x2D then (true, s.tail) else (false, s)

/-- The value of a number, if it has digits and is in the range. -/
def value? (minus : Bool) (digits : Bytes) : Option α :=
  let magnitude : Nat := digits.foldl (fun n c => n * 10 + (c.toNat - 0x30)) 0
  let n : Int := if minus then -magnitude else magnitude
  if digits ≠ [] ∧ T.min ≤ n ∧ n ≤ T.max then some (T.ofInt n) else none

end IntegerType

def isDigit (b : UInt8) : Bool := 0x30 ≤ b && b ≤ 0x39

/-- What callers look at of the result of `std::from_chars`: the object it writes to, and whether
`ec` is `std::errc()`. -/
structure FromCharsResult (α : Type) where
  value : α
  ok : Bool

/-- `std::from_chars(first, last, value)`. -/
def fromChars {α : Type} (T : IntegerType α) (s : Bytes) (value : α) : FromCharsResult α :=
  let (minus, rest) := T.splitMinus s
  match T.value? minus (rest.takeWhile isDigit) with
  | some n => ⟨n, true⟩
  | none => ⟨value, false⟩

namespace IntegerType

variable {α : Type} (T : IntegerType α)

/-- The number in range that a text begins with. -/
def leading? (s : Bytes) : Option α :=
  T.value? (T.splitMinus s).1 ((T.splitMinus s).2.takeWhile isDigit)

/-- The number in range that a text is. -/
def number? (s : Bytes) : Option α :=
  if (T.splitMinus s).2.all isDigit then T.value? (T.splitMinus s).1 (T.splitMinus s).2 else none

variable {T}

theorem leading?_of_number? {s : Bytes} {n : α} (h : T.number? s = some n) :
    T.leading? s = some n := by
  unfold number? at h
  split at h
  · next hdigits =>
    have hall : (T.splitMinus s).2.takeWhile isDigit = (T.splitMinus s).2 :=
      List.takeWhile_eq_self_iff.2 (List.all_eq_true.1 hdigits)
    rw [leading?, hall, h]
  · cases h

end IntegerType

variable {α : Type} {T : IntegerType α}

/-- A text without a number at its front leaves the object as it was. -/
theorem fromChars_value (s : Bytes) (value : α) :
    (fromChars T s value).value = (T.leading? s).getD value := by
  unfold fromChars IntegerType.leading?
  cases hn : T.value? (T.splitMinus s).1 ((T.splitMinus s).2.takeWhile isDigit) <;> simp [hn]

end Prapancha
