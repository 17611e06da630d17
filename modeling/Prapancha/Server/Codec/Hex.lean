import Prapancha.Server.Uuid

/-!
# Hexadecimal codecs

`HexCodec` for byte vectors and for UUIDs.  Both decoders read two characters at a time with
`std::from_chars` in base 16 and require it to consume both.
-/

namespace Prapancha.HexCodec

def hexChars : Bytes := text "0123456789abcdef"

/-- The two characters pushed for one byte. -/
def encodeByte (byte : UInt8) : Bytes :=
  [hexChars.getD (byte >>> 4).toNat 0, hexChars.getD (byte &&& 0x0F).toNat 0]

/-- The error codes of `std::from_chars`. -/
inductive Errc
  | invalidArgument
  | resultOutOfRange
  deriving DecidableEq

/-- `std::from_chars(first, last, byte, 16)` for an unsigned 8-bit `byte`: the longest prefix of
hexadecimal digits of either case; the value and the number of characters consumed. -/
def fromChars (s : Bytes) : Except Errc (UInt8 × Nat) :=
  let digits := s.takeWhile fun c => (hexValue c).isSome
  let value := digits.foldl (fun n c => n * 16 + (hexValue c).getD 0) 0
  if digits = [] then .error .invalidArgument
  else if value < 256 then .ok (UInt8.ofNat value, digits.length)
  else .error .resultOutOfRange

/-- Both decoding loops without their indices: two characters a byte, any failure ends it. -/
def decodePairs : Bytes → Option Bytes
  | [] => some []
  | [_] => none
  | a :: b :: rest =>
    match fromChars [a, b] with
    | .ok (byte, consumed) =>
      if consumed = 2 then (decodePairs rest).map (byte :: ·) else none
    | .error _ => none

/-- `HexCodec<std::vector<std::uint8_t>>::encode`. -/
def encodeVector (bytes : Bytes) : Bytes := bytes.flatMap encodeByte

/-- `HexCodec<std::vector<std::uint8_t>>::decode`. -/
def decodeVector (data : Bytes) : Option Bytes :=
  if data.length % 2 ≠ 0 then none else decodePairs data

/-- `HexCodec<UUID>::encode`. -/
def encode (uuid : UUID) : Bytes := uuid.data.flatMap encodeByte

/-- `HexCodec<UUID>::decode`. -/
def decode (data : Bytes) : Option UUID :=
  if data.length ≠ UUID.hexLength then none
  else (decodePairs data).bind fun bytes =>
    if h : bytes.length = UUID.bytesLength then some ⟨bytes, h⟩ else none

/-! ## The loops with their indices -/

/-- `std::from_chars(data.data() + i, data.data() + i + 2, byte, 16)`, which has to consume both
characters. -/
def byteAt (data : Bytes) (i : Nat) : Option UInt8 :=
  match fromChars ((data.drop i).take 2) with
  | .ok (byte, consumed) => if consumed = 2 then some byte else none
  | .error _ => none

/-- `HexCodec<std::vector<std::uint8_t>>::decode`, index by index. -/
def decodeVectorByIndex (data : Bytes) : Option Bytes := do
  if data.length % 2 ≠ 0 then none
  let mut bytes : Bytes := []
  for i in [0:data.length:2] do
    bytes := bytes ++ [← byteAt data i]
  return bytes

/-- `HexCodec<UUID>::decode`, index by index. -/
def decodeByIndex (data : Bytes) : Option UUID := do
  if data.length ≠ UUID.hexLength then none
  let mut bytes : Vector UInt8 UUID.bytesLength := .replicate _ 0
  for i in [0:UUID.bytesLength] do
    bytes := bytes.setIfInBounds i (← byteAt data (i * 2))
  return ⟨bytes.toList, bytes.length_toList⟩

theorem decodePairs_drop {data : Bytes} {i : Nat} (h : i + 1 < data.length) :
    decodePairs (data.drop i) =
      (byteAt data i).bind fun byte => (decodePairs (data.drop (i + 2))).map (byte :: ·) := by
  have hdrop : data.drop i = data[i] :: data[i + 1] :: data.drop (i + 2) := by
    rw [List.drop_eq_getElem_cons (by omega), List.drop_eq_getElem_cons h]
  rw [byteAt, hdrop, decodePairs, List.take_succ_cons, List.take_succ_cons, List.take_zero]
  cases fromChars [data[i], data[i + 1]] with
  | ok r => by_cases hr : r.2 = 2 <;> simp [hr]
  | error e => rfl

/-- From an even index on, the loop appends what the rest of the text spells. -/
theorem vectorLoop_eq (data : Bytes) : ∀ n i : Nat, data.length = i + 2 * n → ∀ bytes : Bytes,
    (forIn (List.range' i n 2) bytes fun i bytes => (byteAt data i).bind fun byte =>
      some (ForInStep.yield (bytes ++ [byte]))) = (decodePairs (data.drop i)).map (bytes ++ ·)
  | 0, i, h, bytes => by
    rw [List.drop_of_length_le (by omega)]
    simp [decodePairs]
  | n + 1, i, h, bytes => by
    rw [decodePairs_drop (by omega), List.range'_succ, List.forIn_cons]
    cases byteAt data i with
    | none => rfl
    | some byte =>
      have ih := vectorLoop_eq data n (i + 2) (by omega) (bytes ++ [byte])
      simp only [Option.bind_eq_bind, Option.bind_some, ih, Option.map_map]
      congr 1
      funext rest
      simp

/-- From index `i` on, the loop keeps the bytes before `i` and puts what the rest of the text spells
in the places of the others. -/
theorem uuidLoop_eq (data : Bytes) : ∀ n i : Nat, i + n = UUID.bytesLength →
    data.length = 2 * (i + n) → ∀ bytes : Vector UInt8 UUID.bytesLength,
    (forIn (List.range' i n) bytes fun i bytes => (byteAt data (i * 2)).bind fun byte =>
      some (ForInStep.yield (bytes.setIfInBounds i byte))).map Vector.toList =
        (decodePairs (data.drop (i * 2))).map (bytes.toList.take i ++ ·)
  | 0, i, hi, h, bytes => by
    rw [List.drop_of_length_le (by omega), List.take_of_length_le (by simp; omega)]
    simp [decodePairs]
  | n + 1, i, hi, h, bytes => by
    rw [decodePairs_drop (by omega), List.range'_succ, List.forIn_cons]
    cases byteAt data (i * 2) with
    | none => rfl
    | some byte =>
      have ih := uuidLoop_eq data n (i + 1) (by omega) (by omega) (bytes.setIfInBounds i byte)
      rw [UUID.take_toList_setIfInBounds (by omega), show (i + 1) * 2 = i * 2 + 2 by omega] at ih
      simp only [Option.bind_eq_bind, Option.bind_some, ih, Option.map_map]
      congr 1
      funext rest
      simp

theorem decodeVectorByIndex_eq (data : Bytes) : decodeVectorByIndex data = decodeVector data := by
  by_cases h : data.length % 2 = 0
  · have hcount : (data.length + 1) / 2 = data.length / 2 := by omega
    have hloop := vectorLoop_eq data (data.length / 2) 0 (by omega) []
    simp only [List.nil_append, Option.map_id_fun', List.drop_zero, id_eq] at hloop
    simp [decodeVectorByIndex, decodeVector, h, hcount, hloop]
  · simp [decodeVectorByIndex, decodeVector, h]

theorem decodeByIndex_eq (data : Bytes) : decodeByIndex data = decode data := by
  by_cases h : data.length = UUID.hexLength
  · have hlength : data.length = 2 * (0 + UUID.bytesLength) := h
    have hloop := uuidLoop_eq data UUID.bytesLength 0 (Nat.zero_add _) hlength
      (Vector.replicate UUID.bytesLength 0)
    simp only [List.take_zero, List.nil_append, Option.map_id_fun', id_eq, Nat.zero_mul,
      List.drop_zero] at hloop
    have hbind (r : Option (Vector UInt8 UUID.bytesLength)) (f : Bytes → Option UUID) :
        (r.map Vector.toList).bind f = r.bind fun bytes => f bytes.toList := by
      cases r <;> rfl
    simp [decodeByIndex, decode, h, ← hloop, hbind]
  · simp [decodeByIndex, decode, h]

/-! ## Decoding what was encoded -/

theorem fromChars_encodeByte (byte : UInt8) : fromChars (encodeByte byte) = .ok (byte, 2) :=
  uint8_forall (P := fun b => fromChars (encodeByte b) = .ok (b, 2)) (by decide +kernel) byte

theorem decodePairs_encode (bytes : Bytes) :
    decodePairs (bytes.flatMap encodeByte) = some bytes := by
  induction bytes with
  | nil => rfl
  | cons byte bytes ih =>
    have hbyte := fromChars_encodeByte byte
    simp only [encodeByte] at hbyte
    simp only [List.flatMap_cons, encodeByte, List.cons_append, List.nil_append, decodePairs, hbyte,
      if_true, ih, Option.map_some]

@[simp] theorem length_flatMap_encodeByte (bytes : Bytes) :
    (bytes.flatMap encodeByte).length = 2 * bytes.length := by
  induction bytes with
  | nil => rfl
  | cons byte bytes ih =>
    rw [List.flatMap_cons, List.length_append, ih, encodeByte]
    simp only [List.length_cons, List.length_nil]
    omega

@[simp] theorem decodeVector_encodeVector (bytes : Bytes) :
    decodeVector (encodeVector bytes) = some bytes := by
  rw [decodeVector, encodeVector, length_flatMap_encodeByte, if_neg (by omega), decodePairs_encode]

@[simp] theorem length_encode (uuid : UUID) : (encode uuid).length = UUID.hexLength := by
  rw [encode, length_flatMap_encodeByte, uuid.length_data, UUID.hexLength, Nat.mul_comm]

@[simp] theorem decode_encode (uuid : UUID) : decode (encode uuid) = some uuid := by
  rw [decode, length_encode, if_neg (by simp), encode, decodePairs_encode, Option.bind_some,
    dif_pos uuid.length_data]

theorem encode_injective : Function.Injective encode := fun a b h => by
  have hd := congrArg decode h
  rwa [decode_encode, decode_encode, Option.some.injEq] at hd

theorem mem_hexChars {bytes : Bytes} {c : UInt8} (h : c ∈ bytes.flatMap encodeByte) :
    c ∈ hexChars := by
  obtain ⟨byte, _, hc⟩ := List.mem_flatMap.1 h
  exact uint8_forall (P := fun b => ∀ c ∈ encodeByte b, c ∈ hexChars) (by decide +kernel) byte c hc

theorem utf8_encodeVector (bytes : Bytes) : Utf8 (encodeVector bytes) := by
  have hascii : ∀ c ∈ hexChars, c < 0x80 := by decide +kernel
  exact Utf8.of_ascii fun c hc => hascii c (mem_hexChars hc)

theorem utf8_encode (uuid : UUID) : Utf8 (encode uuid) := utf8_encodeVector uuid.data

/-! ## Order -/

theorem compare_hexChars : ∀ m < 16, ∀ n < 16,
    compare (hexChars.getD m 0) (hexChars.getD n 0) = compare m n := by
  decide +kernel

/-- The alphabet is in order, so two characters compare as the two halves of the byte. -/
theorem compare_encodeByte (x y : UInt8) :
    compare (encodeByte x) (encodeByte y) = compare x y := by
  have hhigh (byte : UInt8) : (byte >>> 4).toNat = byte.toNat / 16 := by
    rw [UInt8.toNat_shiftRight, Nat.shiftRight_eq_div_pow]
    rfl
  have hlow (byte : UInt8) : (byte &&& 0x0F).toNat = byte.toNat % 16 := by
    rw [UInt8.toNat_and]
    exact Nat.and_two_pow_sub_one_eq_mod byte.toNat 4
  have hx := x.toNat_lt
  have hy := y.toNat_lt
  rw [← compare_toNat, ← Nat.div_add_mod' x.toNat 16, ← Nat.div_add_mod' y.toNat 16,
    compare_digits (Nat.mod_lt _ (by omega)) (Nat.mod_lt _ (by omega)), encodeByte, encodeByte,
    List.compare_cons_cons, List.compare_cons_cons, hhigh, hlow, hhigh, hlow,
    compare_hexChars _ (by omega) _ (by omega), compare_hexChars _ (by omega) _ (by omega)]
  rw [show compare ([] : Bytes) [] = .eq from rfl, Ordering.then_eq]

theorem compare_encode (a b : UUID) : compare (encode a) (encode b) = compare a.data b.data :=
  compare_flatMap (fun _ _ => rfl) (fun _ => List.cons_ne_nil _ _) compare_encodeByte a.data b.data

end Prapancha.HexCodec
