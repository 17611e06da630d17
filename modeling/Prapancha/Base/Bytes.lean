import Mathlib.Data.List.Basic

/-!
# Byte strings

Texts, file contents and `std::string` values are lists of octets.  `text` gives the UTF-8
octets of a literal, `Utf8` says that a byte string is well-formed UTF-8 in the sense of Lean's
own strings, and `Exn` names the exceptions that library calls can throw.
-/

namespace Prapancha

/-- The octets of a `std::string`, of a message body or of a file. -/
abbrev Bytes := List UInt8

/-- The UTF-8 octets of a literal. -/
def text (s : String) : Bytes := s.toUTF8.data.toList

/-- The exceptions that the modelled library calls throw. -/
inductive Exn
  | malformed
  | kind
  | missingKey
  | badOptionalAccess
  | lengthError
  | filesystemError
  deriving DecidableEq, Repr

/-- `try { .. } catch (...) { return std::nullopt; }` around a function that returns an optional. -/
def caught {α : Type} : Except Exn (Option α) → Option α
  | .ok r => r
  | .error _ => none

@[simp] theorem caught_ok {α : Type} (r : Option α) : caught (.ok r) = r := rfl

@[simp] theorem caught_error {α : Type} (e : Exn) :
    caught (.error e : Except Exn (Option α)) = none :=
  rfl

@[simp] theorem bind_ok {ε α β : Type} (a : α) (f : α → Except ε β) :
    ((Except.ok a : Except ε α) >>= f) = f a :=
  rfl

@[simp] theorem bind_error {ε α β : Type} (e : ε) (f : α → Except ε β) :
    ((Except.error e : Except ε α) >>= f) = .error e :=
  rfl

theorem bind_eq_ok {ε α β : Type} {r : Except ε α} {f : α → Except ε β} {b : β} :
    r >>= f = .ok b ↔ ∃ a, r = .ok a ∧ f a = .ok b := by
  cases r with
  | ok a => simp
  | error e => simp

theorem caught_eq_some {α : Type} {r : Except Exn (Option α)} {a : α} :
    caught r = some a ↔ r = .ok (some a) := by
  cases r with
  | ok o => simp
  | error e => simp

def hexValue (b : UInt8) : Option Nat :=
  if 0x30 ≤ b ∧ b ≤ 0x39 then some (b.toNat - 0x30)
  else if 0x61 ≤ b ∧ b ≤ 0x66 then some (b.toNat - 0x61 + 10)
  else if 0x41 ≤ b ∧ b ≤ 0x46 then some (b.toNat - 0x41 + 10)
  else none

/-- The lower-case form of an ASCII letter; every other octet stays. -/
def toLower (b : UInt8) : UInt8 := if 0x41 ≤ b ∧ b ≤ 0x5A then b + 0x20 else b

/-- A property of every octet, checked number by number. -/
theorem uint8_forall {P : UInt8 → Prop} (h : ∀ n < 256, P (UInt8.ofNat n)) (b : UInt8) : P b := by
  have hb := h b.toNat b.toNat_lt
  rwa [UInt8.ofNat_toNat] at hb

/-! ## UTF-8 -/

def Utf8 (s : Bytes) : Prop := s.toByteArray.IsValidUTF8

instance (s : Bytes) : Decidable (Utf8 s) := inferInstanceAs (Decidable (ByteArray.IsValidUTF8 _))

namespace Utf8

theorem iff_chars {s : Bytes} :
    Utf8 s ↔ ∃ l : List Char, s = l.flatMap String.utf8EncodeChar := by
  constructor
  · rintro ⟨l, hl⟩
    exact ⟨l, by simpa [List.utf8Encode] using congrArg (fun b => b.data.toList) hl⟩
  · rintro ⟨l, rfl⟩
    exact ⟨l, rfl⟩

@[simp] theorem nil : Utf8 [] := iff_chars.2 ⟨[], rfl⟩

theorem append {s t : Bytes} (hs : Utf8 s) (ht : Utf8 t) : Utf8 (s ++ t) := by
  obtain ⟨l, rfl⟩ := iff_chars.1 hs
  obtain ⟨m, rfl⟩ := iff_chars.1 ht
  exact iff_chars.2 ⟨l ++ m, by rw [List.flatMap_append]⟩

@[simp] theorem text (s : String) : Utf8 (text s) := by
  have h : (Prapancha.text s).toByteArray = s.toByteArray :=
    ByteArray.ext (Array.toList_inj.1 List.toList_data_toByteArray)
  rw [Utf8, h]
  exact s.isValidUTF8

theorem encodeChar (c : Char) : Utf8 (String.utf8EncodeChar c) :=
  iff_chars.2 ⟨[c], by simp⟩

/-- The encoding of a character is one ASCII octet or has no ASCII octet at all. -/
theorem encodeChar_cases (c : Char) :
    (∃ b : UInt8, b < 0x80 ∧ String.utf8EncodeChar c = [b]) ∨
      ∀ b ∈ String.utf8EncodeChar c, 0x80 ≤ b := by
  have low : ∀ n m : Nat, n < 64 → m + n < 256 → 128 ≤ m →
      (0x80 : UInt8) ≤ UInt8.ofNat (n + m) := by
    intro n m _ hlt hle
    rw [UInt8.le_iff_toNat_le, UInt8.toNat_ofNat_of_lt' (by simp [UInt8.size]; omega)]
    show 128 ≤ n + m
    omega
  by_cases h : c.val.toNat ≤ 127
  · have hlt : c.val.toNat < 256 := by omega
    refine .inl ⟨UInt8.ofNat c.val.toNat, ?_, by simp only [String.utf8EncodeChar, if_pos h]⟩
    rw [UInt8.lt_iff_toNat_lt, UInt8.toNat_ofNat_of_lt' hlt]
    exact Nat.lt_succ_of_le h
  · right
    simp only [String.utf8EncodeChar, if_neg h]
    intro b hb
    split at hb
    · simp only [List.mem_cons, List.not_mem_nil, or_false] at hb
      rcases hb with rfl | rfl <;> exact low _ _ (by omega) (by omega) (by omega)
    · split at hb
      · simp only [List.mem_cons, List.not_mem_nil, or_false] at hb
        rcases hb with rfl | rfl | rfl <;> exact low _ _ (by omega) (by omega) (by omega)
      · simp only [List.mem_cons, List.not_mem_nil, or_false] at hb
        rcases hb with rfl | rfl | rfl | rfl <;> exact low _ _ (by omega) (by omega) (by omega)

theorem singleton {b : UInt8} (hb : b < 0x80) : Utf8 [b] := by
  have h : b.toNat < 128 := UInt8.lt_iff_toNat_lt.1 hb
  have hv : (Char.ofNat b.toNat).val.toNat = b.toNat := by
    rw [Char.ofNat, dif_pos (.inl (by omega))]
    rfl
  have he := encodeChar (Char.ofNat b.toNat)
  unfold String.utf8EncodeChar at he
  rwa [hv, if_pos (by omega), UInt8.ofNat_toNat] at he

theorem of_ascii : ∀ {s : Bytes}, (∀ b ∈ s, b < 0x80) → Utf8 s
  | [], _ => nil
  | b :: s, h => by
    have hs : Utf8 s := of_ascii fun b' hb' => h b' (List.mem_cons_of_mem _ hb')
    exact append (singleton (h b List.mem_cons_self)) hs

/-- Rewriting ASCII octets by ASCII texts, everything else left alone, keeps UTF-8. -/
theorem flatMap {f : UInt8 → Bytes} (hascii : ∀ b < 0x80, ∀ b' ∈ f b, b' < 0x80)
    (hother : ∀ b, 0x80 ≤ b → f b = [b]) {s : Bytes} (hs : Utf8 s) : Utf8 (s.flatMap f) := by
  obtain ⟨l, rfl⟩ := iff_chars.1 hs
  clear hs
  induction l with
  | nil => exact nil
  | cons c l ih =>
    rw [List.flatMap_cons, List.flatMap_append]
    refine append ?_ ih
    rcases encodeChar_cases c with ⟨b, hb, hc⟩ | hc
    · rw [hc, List.flatMap_singleton]
      exact of_ascii (hascii b hb)
    · have hid : ∀ t : Bytes, (∀ b ∈ t, 0x80 ≤ b) → t.flatMap f = t := by
        intro t ht
        induction t with
        | nil => rfl
        | cons b t iht =>
          rw [List.flatMap_cons, hother b (ht b List.mem_cons_self),
            iht fun b' hb' => ht b' (List.mem_cons_of_mem _ hb')]
          rfl
      rw [hid _ hc]
      exact encodeChar c

end Utf8

end Prapancha
