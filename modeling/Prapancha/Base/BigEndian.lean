import Mathlib.Algebra.Group.Nat.Defs
import Prapancha.Base.Bytes

/-!
# Big-endian numbers

Byte strings in lexicographic order, and as numbers in base 256 with the most significant byte
first.  On byte strings of one length the two orders agree, and a code of fixed length that keeps
the order of single bytes keeps that of byte strings.
-/

namespace Prapancha

/-! ## Lexicographic order -/

section Lexicographic

variable {α β : Type} [Ord α] [Ord β]

theorem compare_append : ∀ {a b : List α}, a.length = b.length → ∀ r s : List α,
    compare (a ++ r) (b ++ s) = (compare a b).then (compare r s)
  | [], [], _, r, s => rfl
  | x :: a, y :: b, h, r, s => by
    rw [List.cons_append, List.cons_append, List.compare_cons_cons, List.compare_cons_cons,
      compare_append (Nat.succ.inj h), Ordering.then_assoc]

/-- A code of one length that keeps the order of the letters keeps the order of the words. -/
theorem compare_flatMap {f : α → List β} (hlength : ∀ x y, (f x).length = (f y).length)
    (hne : ∀ x, f x ≠ []) (hf : ∀ x y, compare (f x) (f y) = compare x y) :
    ∀ a b : List α, compare (a.flatMap f) (b.flatMap f) = compare a b
  | [], [] => rfl
  | [], y :: b => by
    rw [List.flatMap_cons]
    obtain ⟨c, code, hcode⟩ := List.exists_cons_of_ne_nil (hne y)
    rw [hcode]
    rfl
  | x :: a, [] => by
    rw [List.flatMap_cons]
    obtain ⟨c, code, hcode⟩ := List.exists_cons_of_ne_nil (hne x)
    rw [hcode]
    rfl
  | x :: a, y :: b => by
    rw [List.flatMap_cons, List.flatMap_cons, compare_append (hlength x y), hf,
      compare_flatMap hlength hne hf a b, List.compare_cons_cons]

theorem compare_eq_lt_iff [LT α] [Std.LawfulEqOrd α]
    (hlt : ∀ x y : α, compare x y = .lt ↔ x < y) :
    ∀ a b : List α, compare a b = .lt ↔ a < b
  | [], [] => by simp
  | [], y :: b => by simp
  | x :: a, [] => by simp
  | x :: a, y :: b => by
    rw [List.compare_cons_cons, Ordering.then_eq_lt, hlt, Std.compare_eq_iff_eq,
      List.cons_lt_cons_iff, compare_eq_lt_iff hlt a b]

end Lexicographic

/-! ## Numbers -/

/-- Numbers in a base are ordered by what stands before the last digit, then by that digit. -/
theorem compare_digits {b q q' r r' : Nat} (hr : r < b) (hr' : r' < b) :
    compare (q * b + r) (q' * b + r') = (compare q q').then (compare r r') := by
  have hless {q q' r r' : Nat} (hr : r < b) (hq : q < q') : q * b + r < q' * b + r' := by
    have hmul : (q + 1) * b ≤ q' * b := Nat.mul_le_mul_right b hq
    rw [Nat.succ_mul] at hmul
    omega
  rcases Nat.lt_trichotomy q q' with hq | rfl | hq
  · rw [Nat.compare_eq_lt.2 hq, Nat.compare_eq_lt.2 (hless hr hq)]
    rfl
  · rw [Nat.compare_eq_eq.2 rfl, Ordering.eq_then]
    rcases Nat.lt_trichotomy r r' with hlast | rfl | hlast
    · rw [Nat.compare_eq_lt.2 hlast, Nat.compare_eq_lt.2 (by omega)]
    · rw [Nat.compare_eq_eq.2 rfl, Nat.compare_eq_eq.2 rfl]
    · rw [Nat.compare_eq_gt.2 hlast, Nat.compare_eq_gt.2 (by omega)]
  · rw [Nat.compare_eq_gt.2 hq, Nat.compare_eq_gt.2 (hless hr' hq)]
    rfl

theorem compare_toNat (x y : UInt8) : compare x.toNat y.toNat = compare x y := by
  show compareOfLessAndEq x.toNat y.toNat = compareOfLessAndEq x y
  simp only [compareOfLessAndEq, UInt8.lt_iff_toNat_lt, UInt8.toNat_inj]

theorem compare_bytes_eq_lt_iff (a b : Bytes) : compare a b = .lt ↔ a < b :=
  compare_eq_lt_iff (fun x y => by
    rw [← compare_toNat, Nat.compare_eq_lt, UInt8.lt_iff_toNat_lt]) a b

/-- The number that a byte string spells in base 256. -/
def number (bytes : Bytes) : Nat := bytes.foldl (fun n b => n * 256 + b.toNat) 0

/-- Byte strings of one length have the order of their numbers, behind any numbers before them. -/
theorem compare_foldl : ∀ {a b : Bytes}, a.length = b.length → ∀ n m : Nat,
    compare (a.foldl (fun n b => n * 256 + b.toNat) n)
      (b.foldl (fun n b => n * 256 + b.toNat) m) = (compare n m).then (compare a b)
  | [], [], _, n, m => by
    show compare n m = (compare n m).then .eq
    rw [Ordering.then_eq]
  | x :: a, y :: b, h, n, m => by
    rw [List.foldl_cons, List.foldl_cons, compare_foldl (Nat.succ.inj h),
      compare_digits x.toNat_lt y.toNat_lt, compare_toNat, Ordering.then_assoc,
      List.compare_cons_cons]

theorem compare_number {a b : Bytes} (h : a.length = b.length) :
    compare (number a) (number b) = compare a b := by
  rw [number, number, compare_foldl h, Nat.compare_eq_eq.2 rfl, Ordering.eq_then]

theorem number_injective {a b : Bytes} (hlength : a.length = b.length)
    (h : number a = number b) : a = b := by
  have hcompare := compare_number hlength
  rw [Nat.compare_eq_eq.2 h] at hcompare
  exact Std.LawfulEqOrd.eq_of_compare hcompare.symm

theorem foldl_lt (bytes : Bytes) : ∀ n : Nat,
    bytes.foldl (fun n b => n * 256 + b.toNat) n < (n + 1) * 256 ^ bytes.length := by
  induction bytes with
  | nil => simp
  | cons x bytes ih =>
    intro n
    have hx := x.toNat_lt
    calc (x :: bytes).foldl (fun n b => n * 256 + b.toNat) n
      _ < (n * 256 + x.toNat + 1) * 256 ^ bytes.length := ih _
      _ ≤ (n + 1) * 256 * 256 ^ bytes.length := Nat.mul_le_mul_right _ (by omega)
      _ = (n + 1) * 256 ^ (x :: bytes).length := by
        rw [List.length_cons, Nat.pow_succ', Nat.mul_assoc]

theorem number_lt (bytes : Bytes) : number bytes < 256 ^ bytes.length := by
  have h := foldl_lt bytes 0
  rwa [Nat.zero_add, Nat.one_mul] at h

/-! ## Bits -/

/-- Bit `p` of a byte string, counted from the most significant bit of its first byte. -/
def bit (bytes : Bytes) (p : Nat) : Bool := (bytes.getD (p / 8) 0).toNat.testBit (7 - p % 8)

theorem bit_take {bytes : Bytes} {n p : Nat} (h : p < 8 * n) :
    bit (bytes.take n) p = bit bytes p := by
  unfold bit
  rw [List.getD_eq_getElem?_getD, List.getElem?_take_of_lt (by omega),
    ← List.getD_eq_getElem?_getD]

theorem uint8_ext {x y : UInt8} (h : ∀ k < 8, x.toNat.testBit k = y.toNat.testBit k) : x = y := by
  apply UInt8.toNat_inj.1
  apply Nat.eq_of_testBit_eq
  intro k
  by_cases hk : k < 8
  · exact h k hk
  · have hlarge (byte : UInt8) : byte.toNat < 2 ^ k :=
      Nat.lt_of_lt_of_le byte.toNat_lt (Nat.pow_le_pow_right (by omega) (by omega))
    rw [Nat.testBit_lt_two_pow (hlarge x), Nat.testBit_lt_two_pow (hlarge y)]

theorem eq_of_bit_eq {a b : Bytes} (hlength : a.length = b.length)
    (h : ∀ p < 8 * a.length, bit a p = bit b p) : a = b := by
  apply List.ext_getElem hlength
  intro i ha hb
  apply uint8_ext
  intro k hk
  have hbit := h (8 * i + (7 - k)) (by omega)
  unfold bit at hbit
  rw [show (8 * i + (7 - k)) / 8 = i by omega, show 7 - (8 * i + (7 - k)) % 8 = k by omega] at hbit
  rwa [List.getD_eq_getElem?_getD, List.getD_eq_getElem?_getD, List.getElem?_eq_getElem ha,
    List.getElem?_eq_getElem hb] at hbit

end Prapancha
