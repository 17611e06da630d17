import Prapancha.Json.Value

/-!
# Printing JSON

A serialiser: compact text, integers in decimal, the two-character escapes and `\u00XX` for the
other control characters.  `utf8_print`: a storable value prints as UTF-8.
-/

namespace Prapancha.Json

namespace Octet

abbrev quote : UInt8 := 0x22
abbrev comma : UInt8 := 0x2C
abbrev minus : UInt8 := 0x2D
abbrev colon : UInt8 := 0x3A
abbrev openBracket : UInt8 := 0x5B
abbrev backslash : UInt8 := 0x5C
abbrev closeBracket : UInt8 := 0x5D
abbrev openBrace : UInt8 := 0x7B
abbrev closeBrace : UInt8 := 0x7D

end Octet

open Octet

def hexDigit (n : Nat) : UInt8 := (Nat.digitChar n).toUInt8

/-- The escaped form of one octet of a string. -/
def escape (b : UInt8) : Bytes :=
  if b = quote then [backslash, quote]
  else if b = backslash then [backslash, backslash]
  else if b = 0x08 then [backslash, 0x62]
  else if b = 0x0C then [backslash, 0x66]
  else if b = 0x0A then [backslash, 0x6E]
  else if b = 0x0D then [backslash, 0x72]
  else if b = 0x09 then [backslash, 0x74]
  else if b < 0x20 then
    [backslash, 0x75, 0x30, 0x30, hexDigit (b.toNat / 16), hexDigit (b.toNat % 16)]
  else [b]

def printString (s : Bytes) : Bytes := quote :: (s.flatMap escape ++ [quote])

def decimal (n : Nat) : Bytes := (Nat.toDigits 10 n).map Char.toUInt8

def printInt : Int → Bytes
  | .ofNat n => decimal n
  | .negSucc n => minus :: decimal (n + 1)

mutual

/-- The text of a value.  A double has no text here: it is outside `Value.Storable`. -/
def print : Value → Bytes
  | .null => text "null"
  | .bool true => text "true"
  | .bool false => text "false"
  | .int64 i => printInt i.toInt
  | .uint64 u => decimal u.toNat
  | .double _ => text "null"
  | .string s => printString s
  | .array [] => [openBracket, closeBracket]
  | .array (v :: es) => openBracket :: (print v ++ printElements es)
  | .object [] => [openBrace, closeBrace]
  | .object ((k, v) :: ms) =>
    openBrace :: (printString k ++ colon :: (print v ++ printMembers ms))

def printElements : List Value → Bytes
  | [] => [closeBracket]
  | v :: es => comma :: (print v ++ printElements es)

def printMembers : List (Bytes × Value) → Bytes
  | [] => [closeBrace]
  | (k, v) :: ms => comma :: (printString k ++ colon :: (print v ++ printMembers ms))

end

/-! ## The text is UTF-8 -/

theorem ascii_hexDigit : ∀ n < 16, hexDigit n < 0x80 := by decide

theorem utf8_printString {s : Bytes} (h : Utf8 s) : Utf8 (printString s) := by
  have hbody : Utf8 (s.flatMap escape) := by
    refine Utf8.flatMap (fun b hb b' hb' => ?_) (fun b hb => ?_) h
    · have hlt : b.toNat < 128 := UInt8.lt_iff_toNat_lt.1 hb
      have h1 := ascii_hexDigit (b.toNat / 16) (by omega)
      have h2 := ascii_hexDigit (b.toNat % 16) (by omega)
      unfold escape at hb'
      repeat' split at hb'
      all_goals simp only [List.mem_cons, List.not_mem_nil, or_false] at hb'
      all_goals rcases hb' with rfl | rfl | rfl | rfl | rfl | rfl <;> first | decide | assumption
    · unfold escape
      have hne : ∀ c : UInt8, c < 0x80 → b ≠ c := by
        rintro c hc rfl
        exact absurd hb (UInt8.not_le.2 hc)
      rw [if_neg (hne _ (by decide)), if_neg (hne _ (by decide)), if_neg (hne _ (by decide)),
        if_neg (hne _ (by decide)), if_neg (hne _ (by decide)), if_neg (hne _ (by decide)),
        if_neg (hne _ (by decide)), if_neg]
      exact UInt8.not_lt.2 (UInt8.le_trans (by decide) hb)
  exact Utf8.append (s := [quote]) (Utf8.singleton (by decide))
    (Utf8.append hbody (Utf8.singleton (by decide)))

theorem digit_bounds {c : Char} (h : c.isDigit = true) : 48 ≤ c.toNat ∧ c.toNat ≤ 57 := by
  simp only [Char.isDigit, Bool.and_eq_true, decide_eq_true_eq, ge_iff_le] at h
  exact ⟨UInt32.le_iff_toNat_le.1 h.1, UInt32.le_iff_toNat_le.1 h.2⟩

theorem toNat_toUInt8_of_isDigit {c : Char} (h : c.isDigit = true) :
    c.toUInt8.toNat = c.toNat := by
  have hc : c.toNat < 256 := by
    have := (digit_bounds h).2
    omega
  rw [Char.toUInt8, UInt32.toNat_toUInt8]
  exact Nat.mod_eq_of_lt hc

theorem decimal_digits {n : Nat} {b : UInt8} (h : b ∈ decimal n) : 48 ≤ b.toNat ∧ b.toNat ≤ 57 := by
  obtain ⟨c, hc, rfl⟩ := List.mem_map.1 h
  have hdigit := Nat.isDigit_of_mem_toDigits (by omega) (by omega) hc
  rw [toNat_toUInt8_of_isDigit hdigit]
  exact digit_bounds hdigit

theorem utf8_decimal (n : Nat) : Utf8 (decimal n) :=
  Utf8.of_ascii fun b hb => UInt8.lt_iff_toNat_lt.2 <| by
    have := (decimal_digits hb).2
    show b.toNat < 128
    omega

theorem utf8_printInt (i : Int) : Utf8 (printInt i) := by
  cases i with
  | ofNat n => exact utf8_decimal n
  | negSucc n => exact Utf8.append (Utf8.singleton (b := minus) (by decide)) (utf8_decimal _)

theorem utf8_printElements {es : List Value} (h : ∀ v ∈ es, Utf8 (print v)) :
    Utf8 (printElements es) := by
  induction es with
  | nil => exact Utf8.singleton (by decide)
  | cons v es ih =>
    exact Utf8.append (Utf8.singleton (b := comma) (by decide))
      (Utf8.append (h v List.mem_cons_self) (ih fun w hw => h w (List.mem_cons_of_mem _ hw)))

theorem utf8_member {k t : Bytes} (hk : Utf8 k) (ht : Utf8 t) :
    Utf8 (printString k ++ colon :: t) :=
  Utf8.append (utf8_printString hk) (Utf8.append (Utf8.singleton (b := colon) (by decide)) ht)

theorem utf8_printMembers {ms : List (Bytes × Value)}
    (h : ∀ m ∈ ms, Utf8 m.1 ∧ Utf8 (print m.2)) : Utf8 (printMembers ms) := by
  induction ms with
  | nil => exact Utf8.singleton (by decide)
  | cons m ms ih =>
    obtain ⟨hk, hv⟩ := h m List.mem_cons_self
    exact Utf8.append (Utf8.singleton (b := comma) (by decide))
      (utf8_member hk (Utf8.append hv (ih fun m' hm => h m' (List.mem_cons_of_mem _ hm))))

theorem utf8_print {d : Nat} {v : Value} (h : v.Fits Value.StorableScalar d) : Utf8 (print v) := by
  refine Value.Fits.induction (P := fun _ v => Utf8 (print v)) ?_ ?_ ?_ h
  · intro _ v hv h
    cases v with
    | string s => exact utf8_printString h
    | int64 i => exact utf8_printInt _
    | uint64 u => exact utf8_decimal _
    | bool b => cases b <;> exact Utf8.text _
    | null => exact Utf8.text _
    | double _ => exact h.elim
    | array _ => cases hv
    | object _ => cases hv
  · intro _ es ih
    cases es with
    | nil =>
      exact Utf8.append (Utf8.singleton (b := openBracket) (by decide))
        (Utf8.singleton (by decide))
    | cons v es =>
      exact Utf8.append (Utf8.singleton (b := openBracket) (by decide))
        (Utf8.append (ih v List.mem_cons_self)
          (utf8_printElements fun w hw => ih w (List.mem_cons_of_mem _ hw)))
  · intro _ ms _ ih
    cases ms with
    | nil =>
      exact Utf8.append (Utf8.singleton (b := openBrace) (by decide)) (Utf8.singleton (by decide))
    | cons m ms =>
      obtain ⟨hk, hv⟩ := ih m List.mem_cons_self
      exact Utf8.append (Utf8.singleton (b := openBrace) (by decide))
        (utf8_member hk (Utf8.append hv
          (utf8_printMembers fun m' hm => ih m' (List.mem_cons_of_mem _ hm))))

end Prapancha.Json
