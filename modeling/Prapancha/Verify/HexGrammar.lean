import Prapancha.Server.Codec.Hex

/-!
# The grammar of the hexadecimal codecs

`Denotes s bytes`: the text `s` spells `bytes`, two digits of either case for each.  The decoders
accept the texts that spell something, the encoder writes the spelling in lower case, and the loop
of the UUID decoder agrees with that of the vector decoder on texts of 32 characters.
-/

namespace Prapancha.HexCodec

def IsHexDigit (c : UInt8) : Prop :=
  (0x30 ≤ c ∧ c ≤ 0x39) ∨ (0x61 ≤ c ∧ c ≤ 0x66) ∨ (0x41 ≤ c ∧ c ≤ 0x46)

instance (c : UInt8) : Decidable (IsHexDigit c) := inferInstanceAs (Decidable (_ ∨ _))

/-- An even number of hexadecimal digits. -/
def IsHex (s : Bytes) : Prop := s.length % 2 = 0 ∧ ∀ c ∈ s, IsHexDigit c

/-- The text spells the bytes, the high digit of each first. -/
inductive Denotes : Bytes → Bytes → Prop
  | nil : Denotes [] []
  | cons {a b : UInt8} {high low : Nat} {s bytes : Bytes} : hexValue a = some high →
    hexValue b = some low → Denotes s bytes →
    Denotes (a :: b :: s) (UInt8.ofNat (16 * high + low) :: bytes)

/-! ## Digits -/

theorem isSome_hexValue (c : UInt8) : (hexValue c).isSome ↔ IsHexDigit c :=
  uint8_forall (P := fun c => (hexValue c).isSome ↔ IsHexDigit c) (by decide +kernel) c

theorem hexValue_lt {c : UInt8} {n : Nat} (h : hexValue c = some n) : n < 16 := by
  have hall : ∀ n ∈ hexValue c, n < 16 :=
    uint8_forall (P := fun c => ∀ n ∈ hexValue c, n < 16) (by decide +kernel) c
  exact hall n h

/-- The digit that the encoder writes for the value of a digit. -/
theorem getD_hexValue {c : UInt8} {n : Nat} (h : hexValue c = some n) :
    hexChars.getD n 0 = toLower c := by
  have hall : ∀ n ∈ hexValue c, hexChars.getD n 0 = toLower c :=
    uint8_forall (P := fun c => ∀ n ∈ hexValue c, hexChars.getD n 0 = toLower c)
      (by decide +kernel) c
  exact hall n h

theorem nibbles_ofNat : ∀ high < 16, ∀ low < 16,
    (UInt8.ofNat (16 * high + low) >>> 4).toNat = high ∧
      (UInt8.ofNat (16 * high + low) &&& 0x0F).toNat = low := by
  decide +kernel

/-- `from_chars` consumes two characters exactly when both are digits. -/
theorem fromChars_pair_eq_ok {a b byte : UInt8} : fromChars [a, b] = .ok (byte, 2) ↔
    ∃ high low, hexValue a = some high ∧ hexValue b = some low ∧
      byte = UInt8.ofNat (16 * high + low) := by
  cases ha : hexValue a with
  | none => simp [fromChars, ha]
  | some high =>
    have hhigh := hexValue_lt ha
    cases hb : hexValue b with
    | none => simp [fromChars, ha, hb, show high < 256 by omega]
    | some low =>
      have hlow := hexValue_lt hb
      have hlt : 16 * high + low < 256 := by omega
      have hvalue : fromChars [a, b] = .ok (UInt8.ofNat (16 * high + low), 2) := by
        simp [fromChars, ha, hb, Nat.mul_comm high, hlt]
      rw [hvalue]
      constructor
      · intro h
        cases h
        exact ⟨high, low, rfl, rfl, rfl⟩
      · rintro ⟨high', low', hhigh', hlow', rfl⟩
        cases hhigh'
        cases hlow'
        rfl

/-! ## Texts -/

theorem decodePairs_cons_eq_some {a b : UInt8} {s bytes : Bytes} :
    decodePairs (a :: b :: s) = some bytes ↔ ∃ byte rest, fromChars [a, b] = .ok (byte, 2) ∧
      decodePairs s = some rest ∧ byte :: rest = bytes := by
  rw [decodePairs]
  split
  · next byte consumed hpair =>
    rw [hpair]
    by_cases h : consumed = 2
    · simp [h]
    · simp [h]
  · next e hpair => simp [hpair]

theorem decodePairs_eq_some : ∀ {s bytes : Bytes}, decodePairs s = some bytes ↔ Denotes s bytes
  | [], bytes => by
    constructor
    · intro h; cases h; exact .nil
    · intro h; cases h; rfl
  | [_], bytes => by
    constructor
    · intro h; cases h
    · intro h; cases h
  | a :: b :: s, bytes => by
    rw [decodePairs_cons_eq_some]
    constructor
    · rintro ⟨byte, rest, hpair, hrest, rfl⟩
      obtain ⟨high, low, ha, hb, rfl⟩ := fromChars_pair_eq_ok.1 hpair
      exact .cons ha hb (decodePairs_eq_some.1 hrest)
    · intro h
      cases h with
      | cons ha hb hs =>
        exact ⟨_, _, fromChars_pair_eq_ok.2 ⟨_, _, ha, hb, rfl⟩, decodePairs_eq_some.2 hs, rfl⟩

namespace Denotes

theorem length_eq {s bytes : Bytes} (h : Denotes s bytes) : s.length = 2 * bytes.length := by
  induction h with
  | nil => rfl
  | cons _ _ _ ih => simp only [List.length_cons, ih]; omega

theorem isHex {s bytes : Bytes} (h : Denotes s bytes) : IsHex s := by
  refine ⟨by rw [h.length_eq, Nat.mul_mod_right], ?_⟩
  induction h with
  | nil => simp
  | cons ha hb _ ih =>
    refine List.forall_mem_cons.2 ⟨?_, List.forall_mem_cons.2 ⟨?_, ih⟩⟩
    · exact (isSome_hexValue _).1 (by rw [ha]; rfl)
    · exact (isSome_hexValue _).1 (by rw [hb]; rfl)

/-- The encoder writes the spelling in lower case. -/
theorem encodeVector_eq {s bytes : Bytes} (h : Denotes s bytes) :
    encodeVector bytes = s.map toLower := by
  induction h with
  | nil => rfl
  | @cons a b high low s bytes ha hb _ ih =>
    obtain ⟨hhigh, hlow⟩ := nibbles_ofNat high (hexValue_lt ha) low (hexValue_lt hb)
    rw [encodeVector] at ih ⊢
    rw [List.flatMap_cons, ih, encodeByte, hhigh, hlow, getD_hexValue ha, getD_hexValue hb]
    rfl

end Denotes

theorem exists_denotes : ∀ {s : Bytes}, IsHex s → ∃ bytes, Denotes s bytes
  | [], _ => ⟨[], .nil⟩
  | [_], h => by cases h.1
  | a :: b :: s, ⟨hlength, hdigits⟩ => by
    simp only [List.length_cons, List.forall_mem_cons] at hlength hdigits
    obtain ⟨bytes, hbytes⟩ := exists_denotes (s := s) ⟨by omega, hdigits.2.2⟩
    obtain ⟨high, hhigh⟩ := Option.isSome_iff_exists.1 ((isSome_hexValue a).2 hdigits.1)
    obtain ⟨low, hlow⟩ := Option.isSome_iff_exists.1 ((isSome_hexValue b).2 hdigits.2.1)
    exact ⟨_, .cons hhigh hlow hbytes⟩

theorem decodeVector_eq_some {s bytes : Bytes} :
    decodeVector s = some bytes ↔ Denotes s bytes := by
  unfold decodeVector
  split
  · next h =>
    constructor
    · intro hnone; cases hnone
    · intro hs; exact absurd hs.isHex.1 h
  · exact decodePairs_eq_some

theorem isSome_decodeVector {s : Bytes} : (decodeVector s).isSome ↔ IsHex s := by
  rw [Option.isSome_iff_exists]
  constructor
  · rintro ⟨bytes, h⟩
    exact (decodeVector_eq_some.1 h).isHex
  · intro h
    obtain ⟨bytes, hbytes⟩ := exists_denotes h
    exact ⟨bytes, decodeVector_eq_some.2 hbytes⟩

/-- A UUID is decoded from a text of its length that spells its bytes. -/
theorem decode_eq_some {s : Bytes} {uuid : UUID} :
    decode s = some uuid ↔ s.length = UUID.hexLength ∧ Denotes s uuid.data := by
  unfold decode
  split
  · next h => simp [h]
  · next h =>
    rw [not_not] at h
    simp only [h, Option.bind_eq_some_iff, decodePairs_eq_some, true_and]
    constructor
    · rintro ⟨bytes, hbytes, hdata⟩
      split at hdata
      · cases hdata; exact hbytes
      · cases hdata
    · intro hs
      exact ⟨uuid.data, hs, by rw [dif_pos uuid.length_data]⟩

/-- The vector decoder accepts exactly the texts of an even number of hexadecimal digits and inverts
the encoder up to the case of the letters; the UUID decoder does the same on 32 digits. -/
theorem accepts_grammar :
    (∀ bytes, decodeVectorByIndex (encodeVector bytes) = some bytes) ∧
    (∀ s, ((decodeVectorByIndex s).isSome ↔ IsHex s) ∧
      ∀ bytes, decodeVectorByIndex s = some bytes → encodeVector bytes = s.map toLower) ∧
    (∀ s, (decodeByIndex s).isSome ↔
      s.length = UUID.hexLength ∧ (decodeVectorByIndex s).isSome) ∧
    (∀ s uuid, decodeByIndex s = some uuid → decodeVectorByIndex s = some uuid.data) ∧
    ∀ uuid : UUID, encode uuid = encodeVector uuid.data := by
  simp only [decodeVectorByIndex_eq, decodeByIndex_eq]
  refine ⟨decodeVector_encodeVector, fun s => ⟨isSome_decodeVector, fun bytes h => ?_⟩, fun s => ?_,
    fun s uuid h => ?_, fun _ => rfl⟩
  · exact (decodeVector_eq_some.1 h).encodeVector_eq
  · constructor
    · intro h
      obtain ⟨uuid, huuid⟩ := Option.isSome_iff_exists.1 h
      obtain ⟨hlength, hs⟩ := decode_eq_some.1 huuid
      exact ⟨hlength, isSome_decodeVector.2 hs.isHex⟩
    · rintro ⟨hlength, h⟩
      obtain ⟨bytes, hbytes⟩ := exists_denotes (isSome_decodeVector.1 h)
      have hdata : bytes.length = UUID.bytesLength := by
        have htwice := hbytes.length_eq
        rw [hlength, UUID.hexLength] at htwice
        omega
      have huuid : decode s = some ⟨bytes, hdata⟩ := decode_eq_some.2 ⟨hlength, hbytes⟩
      rw [huuid, Option.isSome_some]
  · exact decodeVector_eq_some.2 (decode_eq_some.1 h).2

theorem accepts_grammar_mixed : encodeVector [0xAB] = (text "aB").map toLower :=
  (accepts_grammar.2.1 (text "aB")).2 [0xAB] (by decide +kernel)

end Prapancha.HexCodec
