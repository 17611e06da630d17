import Prapancha.Base.BigEndian

/-!
# UUIDs

The 16-byte identifiers of the server (version 7: a 48-bit clock reading, then random bits), and
the outcome of `UUID::generate` as a function of what it reads: the clock and ten random bytes.
-/

namespace Prapancha

def UUID.bytesLength : Nat := 16

def UUID.hexLength : Nat := UUID.bytesLength * 2

structure UUID where
  data : Bytes
  length_data : data.length = UUID.bytesLength
  deriving DecidableEq

instance : Inhabited UUID := ⟨⟨List.replicate UUID.bytesLength 0, rfl⟩⟩

/-- What one call of `UUID::generate` reads: the system clock in milliseconds and the ten bytes
drawn from the random generator. -/
structure Draw where
  ms : UInt64
  random : Vector UInt8 10

instance : Inhabited Draw := ⟨⟨0, Vector.replicate 10 0⟩⟩

namespace UUID

def generate (draw : Draw) : UUID where
  data := [
    (draw.ms >>> 40).toUInt8, (draw.ms >>> 32).toUInt8, (draw.ms >>> 24).toUInt8,
    (draw.ms >>> 16).toUInt8, (draw.ms >>> 8).toUInt8, draw.ms.toUInt8,
    -- version 7 in the high bits of byte 6, variant 10 in those of byte 8
    (draw.random[0] &&& 0x0F) ||| 0x70, draw.random[1],
    (draw.random[2] &&& 0x3F) ||| 0x80, draw.random[3],
    draw.random[4], draw.random[5], draw.random[6], draw.random[7], draw.random[8], draw.random[9]]
  length_data := rfl

def timestampMs (uuid : UUID) : UInt64 :=
  let byte (i : Nat) : UInt64 := (uuid.data.getD i 0).toUInt64
  byte 0 <<< 40 ||| byte 1 <<< 32 ||| byte 2 <<< 24 ||| byte 3 <<< 16 ||| byte 4 <<< 8 ||| byte 5

theorem eq_of_data_eq : ∀ {a b : UUID}, a.data = b.data → a = b
  | ⟨_, _⟩, ⟨_, _⟩, rfl => rfl

/-! ## The assignments one by one -/

/-- The six bytes of the clock, most significant first. -/
def stamp (ms : UInt64) (data : Vector UInt8 bytesLength) : Vector UInt8 bytesLength := Id.run do
  let mut data := data
  data := data.set 0 (ms >>> 40).toUInt8 (by decide)
  data := data.set 1 (ms >>> 32).toUInt8 (by decide)
  data := data.set 2 (ms >>> 24).toUInt8 (by decide)
  data := data.set 3 (ms >>> 16).toUInt8 (by decide)
  data := data.set 4 (ms >>> 8).toUInt8 (by decide)
  data := data.set 5 ms.toUInt8 (by decide)
  return data

/-- The loop that fills the rest of the array with random bytes. -/
def fill (random : Vector UInt8 10) (data : Vector UInt8 bytesLength) :
    Vector UInt8 bytesLength := Id.run do
  let mut data := data
  for i in [6:bytesLength] do
    data := data.setIfInBounds i (random.toList.getD (i - 6) 0)
  return data

/-- `generate` statement by statement, over whatever the uninitialised array holds. -/
def generateInto (data : Vector UInt8 bytesLength) (draw : Draw) : UUID := Id.run do
  let mut data := data
  data := stamp draw.ms data
  data := fill draw.random data
  data := data.set 6 ((data.get ⟨6, by decide⟩ &&& 0x0F) ||| 0x70) (by decide)
  data := data.set 8 ((data.get ⟨8, by decide⟩ &&& 0x3F) ||| 0x80) (by decide)
  return ⟨data.toList, data.length_toList⟩

theorem take_toList_setIfInBounds {α : Type} {n i : Nat} (h : i < n) (data : Vector α n) (a : α) :
    (data.setIfInBounds i a).toList.take (i + 1) = data.toList.take i ++ [a] := by
  have hdata : i < data.toList.length := by rwa [Vector.length_toList]
  have hmin : min i n = i := by omega
  rw [Vector.toList_setIfInBounds, List.take_set, List.take_succ_eq_append_getElem hdata,
    List.set_append_right _ _ (List.length_take_le _ _)]
  simp [hmin]

/-- From index `i` on, the loop leaves the bytes before `i` and draws the others. -/
theorem fillLoop_eq (random : Vector UInt8 10) : ∀ n i : Nat, 6 ≤ i → i + n = bytesLength →
    ∀ data : Vector UInt8 bytesLength,
    ((List.range' i n).foldl (fun data i =>
      data.setIfInBounds i (random.toList.getD (i - 6) 0)) data).toList =
        data.toList.take i ++ random.toList.drop (i - 6)
  | 0, i, hle, hi, data => by
    have hrandom : random.toList.length ≤ i - 6 := by
      rw [Vector.length_toList]
      unfold bytesLength at hi
      omega
    rw [List.drop_of_length_le hrandom, List.append_nil, List.take_of_length_le (by simp; omega)]
    rfl
  | n + 1, i, hle, hi, data => by
    have hrandom : i - 6 < random.toList.length := by
      rw [Vector.length_toList]
      unfold bytesLength at hi
      omega
    have hbyte : random.toList.getD (i - 6) 0 = random.toList[i - 6] := by
      rw [List.getD_eq_getElem?_getD, List.getElem?_eq_getElem hrandom, Option.getD_some]
    rw [List.range'_succ, List.foldl_cons, fillLoop_eq random n (i + 1) (by omega) (by omega),
      take_toList_setIfInBounds (by omega), hbyte, List.append_assoc,
      List.drop_eq_getElem_cons hrandom, show i + 1 - 6 = i - 6 + 1 by omega]
    rfl

theorem toList_fill (random : Vector UInt8 10) (data : Vector UInt8 bytesLength) :
    (fill random data).toList = data.toList.take 6 ++ random.toList := by
  have hcount : bytesLength - 6 = 10 := rfl
  have hloop := fillLoop_eq random 10 6 (by omega) rfl data
  rw [Nat.sub_self, List.drop_zero] at hloop
  rw [← hloop]
  simp [fill, hcount]

theorem take_toList_stamp (ms : UInt64) (data : Vector UInt8 bytesLength) :
    (stamp ms data).toList.take 6 = [(ms >>> 40).toUInt8, (ms >>> 32).toUInt8,
      (ms >>> 24).toUInt8, (ms >>> 16).toUInt8, (ms >>> 8).toUInt8, ms.toUInt8] := by
  obtain ⟨⟨l⟩, hl⟩ := data
  match l, hl with
  | [_, _, _, _, _, _, _, _, _, _, _, _, _, _, _, _], _ => rfl

theorem toList_random (random : Vector UInt8 10) : random.toList =
    [random[0], random[1], random[2], random[3], random[4], random[5], random[6], random[7],
      random[8], random[9]] := by
  obtain ⟨⟨l⟩, hl⟩ := random
  match l, hl with
  | [_, _, _, _, _, _, _, _, _, _], _ => rfl

theorem generateInto_eq (data : Vector UInt8 bytesLength) (draw : Draw) :
    generateInto data draw = generate draw := by
  have hfilled := toList_fill draw.random (stamp draw.ms data)
  rw [take_toList_stamp, toList_random] at hfilled
  unfold generateInto
  -- inlines the assignments, so that the filled array can be taken apart
  dsimp only
  generalize fill draw.random (stamp draw.ms data) = filled at hfilled
  obtain ⟨⟨l⟩, hl⟩ := filled
  obtain rfl : l = _ := hfilled
  rfl

/-! ## The clock in the first six bytes -/

theorem shiftLeft_or_eq {n w : Nat} (b : Nat) (h : n < 2 ^ w) : b <<< w ||| n = b * 2 ^ w + n := by
  rw [← Nat.shiftLeft_add_eq_or_of_lt h, Nat.shiftLeft_eq]

/-- A shift by less than the width is a shift by that number. -/
theorem toNat_ofNat_mod_64 {w : Nat} (h : w < 64) : (UInt64.ofNat w).toNat % 64 = w := by
  rw [UInt64.toNat_ofNat', Nat.mod_mod_of_dvd w (by decide), Nat.mod_eq_of_lt h]

theorem toNat_shiftLeft_byte (byte : UInt8) {w : Nat} (h : w ≤ 56) :
    (byte.toUInt64 <<< UInt64.ofNat w).toNat = byte.toNat <<< w := by
  have hbyte : byte.toNat * 2 ^ w < 2 ^ 64 := by
    calc byte.toNat * 2 ^ w < 256 * 2 ^ w := by
          exact Nat.mul_lt_mul_of_pos_right byte.toNat_lt (Nat.two_pow_pos w)
      _ = 2 ^ (8 + w) := by rw [Nat.pow_add]
      _ ≤ 2 ^ 64 := Nat.pow_le_pow_right (by omega) (by omega)
  rw [UInt64.toNat_shiftLeft, toNat_ofNat_mod_64 (by omega), UInt8.toNat_toUInt64,
    Nat.shiftLeft_eq, Nat.mod_eq_of_lt hbyte]

/-- The clock reading is the first six bytes, read as a number. -/
theorem toNat_timestampMs (uuid : UUID) : uuid.timestampMs.toNat = number (uuid.data.take 6) := by
  obtain ⟨data, hlength⟩ := uuid
  match data, hlength with
  | [b0, b1, b2, b3, b4, b5, _, _, _, _, _, _, _, _, _, _], _ =>
    have h0 := b0.toNat_lt
    have h1 := b1.toNat_lt
    have h2 := b2.toNat_lt
    have h3 := b3.toNat_lt
    have h4 := b4.toNat_lt
    have h5 := b5.toNat_lt
    show (b0.toUInt64 <<< UInt64.ofNat 40 ||| b1.toUInt64 <<< UInt64.ofNat 32 |||
      b2.toUInt64 <<< UInt64.ofNat 24 ||| b3.toUInt64 <<< UInt64.ofNat 16 |||
      b4.toUInt64 <<< UInt64.ofNat 8 ||| b5.toUInt64).toNat =
      (((((0 * 256 + b0.toNat) * 256 + b1.toNat) * 256 + b2.toNat) * 256 + b3.toNat) * 256 +
        b4.toNat) * 256 + b5.toNat
    simp only [UInt64.toNat_or, UInt8.toNat_toUInt64]
    rw [toNat_shiftLeft_byte b0 (by omega), toNat_shiftLeft_byte b1 (by omega),
      toNat_shiftLeft_byte b2 (by omega), toNat_shiftLeft_byte b3 (by omega),
      toNat_shiftLeft_byte b4 (by omega)]
    simp only [Nat.or_assoc]
    rw [shiftLeft_or_eq b4.toNat (by omega), shiftLeft_or_eq b3.toNat (by omega),
      shiftLeft_or_eq b2.toNat (by omega), shiftLeft_or_eq b1.toNat (by omega),
      shiftLeft_or_eq b0.toNat (by omega)]
    omega

theorem timestampMs_lt (uuid : UUID) : uuid.timestampMs.toNat < 2 ^ 48 := by
  have hbound := number_lt (uuid.data.take 6)
  rw [List.length_take, uuid.length_data, ← toNat_timestampMs] at hbound
  exact hbound

theorem number_take_generate (draw : Draw) :
    number ((generate draw).data.take 6) = draw.ms.toNat % 2 ^ 48 := by
  have hshift (w : Nat) (hw : w < 64) : (draw.ms >>> UInt64.ofNat w).toUInt8.toNat =
      draw.ms.toNat / 2 ^ w % 256 := by
    rw [UInt64.toNat_toUInt8, UInt64.toNat_shiftRight, toNat_ofNat_mod_64 hw,
      Nat.shiftRight_eq_div_pow]
  show ((((((0 * 256 + (draw.ms >>> UInt64.ofNat 40).toUInt8.toNat) * 256 +
    (draw.ms >>> UInt64.ofNat 32).toUInt8.toNat) * 256 +
    (draw.ms >>> UInt64.ofNat 24).toUInt8.toNat) * 256 +
    (draw.ms >>> UInt64.ofNat 16).toUInt8.toNat) * 256 +
    (draw.ms >>> UInt64.ofNat 8).toUInt8.toNat) * 256 + draw.ms.toUInt8.toNat) = _
  rw [hshift 40 (by omega), hshift 32 (by omega), hshift 24 (by omega), hshift 16 (by omega),
    hshift 8 (by omega), UInt64.toNat_toUInt8]
  omega

theorem timestampMs_generate (draw : Draw) :
    (generate draw).timestampMs.toNat = draw.ms.toNat % 2 ^ 48 := by
  rw [toNat_timestampMs, number_take_generate]

/-! ## Order -/

/-- `operator<=>`, defaulted: that of the arrays, byte by byte. -/
instance : Ord UUID := ⟨fun a b => compare a.data b.data⟩

instance : LT UUID := ltOfOrd

theorem lt_iff_compare (a b : UUID) : a < b ↔ compare a.data b.data = .lt := Iff.rfl

/-- The clock decides before the other ten bytes do. -/
theorem compare_data (a b : UUID) : compare a.data b.data =
    (compare a.timestampMs.toNat b.timestampMs.toNat).then
      (compare (a.data.drop 6) (b.data.drop 6)) := by
  have hlength : (a.data.take 6).length = (b.data.take 6).length := by
    rw [List.length_take, List.length_take, a.length_data, b.length_data]
  conv_lhs => rw [← List.take_append_drop 6 a.data, ← List.take_append_drop 6 b.data]
  rw [compare_append hlength, ← compare_number hlength, toNat_timestampMs, toNat_timestampMs]

theorem lt_of_timestampMs_lt {a b : UUID} (h : a.timestampMs.toNat < b.timestampMs.toNat) :
    a < b := by
  rw [lt_iff_compare, compare_data, Nat.compare_eq_lt.2 h]
  rfl

end UUID

end Prapancha
