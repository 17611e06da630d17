import Prapancha.Server.Persistence

/-!
# The bits and the order of UUIDs

The clock stands in front, so that UUIDs sort by time, in memory and by the names of their files.
Behind it are the version, the variant and 74 random bits, each where the generator drew it.
-/

namespace Prapancha.UUID

/-! ## Bits -/

/-- The version nibble: the high half of byte 6. -/
def versionBits : List Nat := [48, 49, 50, 51]

/-- The two variant bits on top of byte 8. -/
def variantBits : List Nat := [64, 65]

/-- The positions behind the clock that hold neither the version nor the variant. -/
def entropyBits : List Nat :=
  (List.range' 48 80).filter fun p => p ∉ versionBits ∧ p ∉ variantBits

def version (uuid : UUID) : UInt8 := uuid.data.getD 6 0 >>> 4

def variant (uuid : UUID) : UInt8 := uuid.data.getD 8 0 >>> 6

theorem length_entropyBits : entropyBits.length = 74 := by decide

/-- What `generate` keeps of the random byte that goes to index `i`. -/
def keep (i : Nat) : UInt8 := if i = 6 then 0x0F else if i = 8 then 0x3F else 0xFF

/-- What `generate` puts over the random byte that goes to index `i`. -/
def mark (i : Nat) : UInt8 := if i = 6 then 0x70 else if i = 8 then 0x80 else 0

theorem version_generate (draw : Draw) : (generate draw).version = 7 :=
  uint8_forall (P := fun b => (b &&& 0x0F ||| 0x70) >>> 4 = 7) (by decide +kernel) draw.random[0]

theorem variant_generate (draw : Draw) : (generate draw).variant = 0b10 :=
  uint8_forall (P := fun b => (b &&& 0x3F ||| 0x80) >>> 6 = 0b10) (by decide +kernel) draw.random[2]

theorem getD_generate (draw : Draw) {i : Nat} (hle : 6 ≤ i) (hlt : i < bytesLength) :
    (generate draw).data.getD i 0 =
      draw.random.toList.getD (i - 6) 0 &&& keep i ||| mark i := by
  have hplain (b : UInt8) : b = b &&& 0xFF ||| 0 :=
    uint8_forall (P := fun b => b = b &&& 0xFF ||| 0) (by decide +kernel) b
  rw [toList_random]
  unfold bytesLength at hlt
  obtain ⟨j, rfl⟩ := Nat.exists_eq_add_of_le hle
  match j, hlt with
  | 0, _ => rfl
  | 1, _ => exact hplain _
  | 2, _ => rfl
  | 3, _ => exact hplain _
  | 4, _ => exact hplain _
  | 5, _ => exact hplain _
  | 6, _ => exact hplain _
  | 7, _ => exact hplain _
  | 8, _ => exact hplain _
  | 9, _ => exact hplain _
  | _ + 10, h => omega

theorem bit_generate (draw : Draw) {p : Nat} (hle : 48 ≤ p) (hlt : p < 128) :
    bit (generate draw).data p =
      (bit draw.random.toList (p - 48) && (keep (p / 8)).toNat.testBit (7 - p % 8) ||
        (mark (p / 8)).toNat.testBit (7 - p % 8)) := by
  have hbytes : p / 8 < bytesLength := by
    unfold bytesLength
    omega
  unfold bit
  rw [getD_generate draw (by omega) hbytes, UInt8.toNat_or, UInt8.toNat_and, Nat.testBit_or,
    Nat.testBit_and, show (p - 48) / 8 = p / 8 - 6 by omega,
    show (p - 48) % 8 = p % 8 by omega]

theorem entropyBits_free : ∀ p ∈ entropyBits, 48 ≤ p ∧ p < 128 ∧
    (keep (p / 8)).toNat.testBit (7 - p % 8) = true ∧
    (mark (p / 8)).toNat.testBit (7 - p % 8) = false := by
  decide

theorem bit_of_mem_entropyBits (draw : Draw) {p : Nat} (h : p ∈ entropyBits) :
    bit (generate draw).data p = bit draw.random.toList (p - 48) := by
  obtain ⟨hle, hlt, hkeep, hmark⟩ := entropyBits_free p h
  rw [bit_generate draw hle hlt, hkeep, hmark, Bool.and_true, Bool.or_false]

theorem keep_of_mem : ∀ p ∈ versionBits ++ variantBits,
    (keep (p / 8)).toNat.testBit (7 - p % 8) = false := by
  decide

theorem bit_of_not_mem_entropyBits (draw draw' : Draw) {p : Nat} (hle : 48 ≤ p) (hlt : p < 128)
    (h : p ∉ entropyBits) : bit (generate draw).data p = bit (generate draw').data p := by
  have hfixed : p ∈ versionBits ++ variantBits := by
    have hrange : p ∈ List.range' 48 80 := List.mem_range'_1.2 ⟨hle, hlt⟩
    by_contra hnot
    rw [List.mem_append, not_or] at hnot
    exact h (List.mem_filter.2 ⟨hrange, decide_eq_true hnot⟩)
  rw [bit_generate draw hle hlt, bit_generate draw' hle hlt, keep_of_mem p hfixed,
    Bool.and_false, Bool.and_false]

theorem bit_clock {draw draw' : Draw} (h : draw.ms.toNat % 2 ^ 48 = draw'.ms.toNat % 2 ^ 48)
    {p : Nat} (hp : p < 48) : bit (generate draw).data p = bit (generate draw').data p := by
  have hfront : (generate draw).data.take 6 = (generate draw').data.take 6 := by
    apply number_injective
    · rw [List.length_take, List.length_take, length_data, length_data]
    · rw [number_take_generate, number_take_generate, h]
  rw [← bit_take (n := 6) hp, hfront, bit_take hp]

theorem generate_eq_iff (draw draw' : Draw) : generate draw = generate draw' ↔
    draw.ms.toNat % 2 ^ 48 = draw'.ms.toNat % 2 ^ 48 ∧
      ∀ p ∈ entropyBits, bit draw.random.toList (p - 48) = bit draw'.random.toList (p - 48) := by
  constructor
  · intro h
    constructor
    · rw [← timestampMs_generate, ← timestampMs_generate, h]
    · intro p hp
      rw [← bit_of_mem_entropyBits draw hp, ← bit_of_mem_entropyBits draw' hp, h]
  · rintro ⟨hclock, hrandom⟩
    apply eq_of_data_eq
    apply eq_of_bit_eq
    · rw [length_data, length_data]
    · -- Each bit is one of the clock, a random one, or the same in every UUID.
      intro p hp
      rw [length_data] at hp
      by_cases hle : 48 ≤ p
      · by_cases hmem : p ∈ entropyBits
        · rw [bit_of_mem_entropyBits draw hmem, bit_of_mem_entropyBits draw' hmem, hrandom p hmem]
        · exact bit_of_not_mem_entropyBits draw draw' hle hp hmem
      · exact bit_clock hclock (by omega)

/-- Every bit of a generated UUID is a bit of the clock, of the version, of the variant or of the
random bytes, and nothing else is in it, whatever the array held before. -/
theorem generate_layout :
    (∀ (data : Vector UInt8 bytesLength) (draw : Draw),
      (generateInto data draw).version = 7 ∧ (generateInto data draw).variant = 0b10 ∧
      (generateInto data draw).timestampMs.toNat = draw.ms.toNat % 2 ^ 48 ∧
      (draw.ms.toNat < 2 ^ 48 → (generateInto data draw).timestampMs = draw.ms) ∧
      ∀ p ∈ entropyBits,
        bit (generateInto data draw).data p = bit draw.random.toList (p - 48)) ∧
    entropyBits.length = 74 ∧
    ∀ (data data' : Vector UInt8 bytesLength) (draw draw' : Draw),
      generateInto data draw = generateInto data' draw' ↔
        draw.ms.toNat % 2 ^ 48 = draw'.ms.toNat % 2 ^ 48 ∧
          ∀ p ∈ entropyBits,
            bit draw.random.toList (p - 48) = bit draw'.random.toList (p - 48) := by
  refine ⟨fun data draw => ?_, length_entropyBits, fun data data' draw draw' => ?_⟩
  · rw [generateInto_eq]
    refine ⟨version_generate draw, variant_generate draw, timestampMs_generate draw, ?_, ?_⟩
    · intro hclock
      apply UInt64.toNat_inj.1
      rw [timestampMs_generate, Nat.mod_eq_of_lt hclock]
    · exact fun p hp => bit_of_mem_entropyBits draw hp
  · rw [generateInto_eq, generateInto_eq, generate_eq_iff]

/-! ## Order -/

open FilePersistence in
theorem lt_iff_encode_lt (a b : UUID) :
    (a < b ↔ HexCodec.encode a < HexCodec.encode b) ∧ (a < b ↔ getPath a < getPath b) := by
  have hlength : (HexCodec.encode a).length = (HexCodec.encode b).length := by
    rw [HexCodec.length_encode, HexCodec.length_encode]
  constructor
  · rw [lt_iff_compare, ← HexCodec.compare_encode, compare_bytes_eq_lt_iff]
  · rw [lt_iff_compare, ← HexCodec.compare_encode, ← compare_bytes_eq_lt_iff, getPath, getPath,
      compare_append hlength, Std.compare_eq_iff_eq.2 rfl, Ordering.then_eq]

theorem generate_lt {draw draw' : Draw} (hlt : draw.ms < draw'.ms)
    (hclock : draw'.ms.toNat < 2 ^ 48) : generate draw < generate draw' := by
  have hms : draw.ms.toNat < draw'.ms.toNat := UInt64.lt_iff_toNat_lt.1 hlt
  apply lt_of_timestampMs_lt
  rw [timestampMs_generate, timestampMs_generate, Nat.mod_eq_of_lt (by omega),
    Nat.mod_eq_of_lt hclock]
  exact hms

/-- UUIDs generated at a later clock reading are greater, and the names of the files in a store have
the order of the UUIDs. -/
theorem sorted_by_time :
    (∀ (data data' : Vector UInt8 bytesLength) (draw draw' : Draw), draw.ms < draw'.ms →
      draw'.ms.toNat < 2 ^ 48 → generateInto data draw < generateInto data' draw') ∧
    ∀ a b : UUID, (a < b ↔ HexCodec.encode a < HexCodec.encode b) ∧
      (a < b ↔ FilePersistence.getPath a < FilePersistence.getPath b) := by
  refine ⟨fun data data' draw draw' hlt hclock => ?_, lt_iff_encode_lt⟩
  rw [generateInto_eq, generateInto_eq]
  exact generate_lt hlt hclock

theorem sorted_by_time_tick :
    generateInto (.replicate _ 0xFF) ⟨1, .replicate 10 0xFF⟩ <
      generateInto (.replicate _ 0) ⟨2, .replicate 10 0⟩ :=
  sorted_by_time.1 _ _ _ _ (by decide) (by decide)

end Prapancha.UUID
