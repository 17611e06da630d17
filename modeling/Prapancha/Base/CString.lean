import Mathlib.Data.List.TakeWhile
import Prapancha.Base.Bytes

/-!
# C strings

A routine on C strings gets an address and reads from there up to a NUL.  A view knows its length,
but its address is all that such a routine sees of it.
-/

namespace Prapancha

/-- A `std::string_view`: its characters, and the memory behind them. -/
structure StringView where
  chars : Bytes
  beyond : Nat → UInt8

namespace StringView

def size (view : StringView) : Nat := view.chars.length

/-- The memory from the address of the view on. -/
def data (view : StringView) (i : Nat) : UInt8 :=
  view.chars.getD i (view.beyond (i - view.chars.length))

end StringView

/-- `strcasecmp(a.c_str(), b)` in the C locale, for the memory `b`. -/
def strcasecmp : Bytes → (Nat → UInt8) → Int
  | [], b => -(toLower (b 0)).toNat
  | c :: a, b =>
    let difference : Int := (toLower c).toNat - (toLower (b 0)).toNat
    if difference ≠ 0 ∨ c = 0 then difference else strcasecmp a fun i => b (i + 1)

/-- The C string at the start of a byte string. -/
def untilNul (s : Bytes) : Bytes := s.takeWhile (· ≠ 0)

/-- Equality up to the case of ASCII letters. -/
def EqualIgnoringCase (a b : Bytes) : Prop := a.map toLower = b.map toLower

instance (a b : Bytes) : Decidable (EqualIgnoringCase a b) := inferInstanceAs (Decidable (_ = _))

@[simp] theorem toLower_eq_zero {b : UInt8} : toLower b = 0 ↔ b = 0 :=
  uint8_forall (P := fun b => toLower b = 0 ↔ b = 0) (by decide +kernel) b

namespace EqualIgnoringCase

variable {a b : Bytes}

theorem symm (h : EqualIgnoringCase a b) : EqualIgnoringCase b a := Eq.symm h

theorem trans {c : Bytes} (hab : EqualIgnoringCase a b) (hbc : EqualIgnoringCase b c) :
    EqualIgnoringCase a c :=
  Eq.trans hab hbc

theorem length_eq (h : EqualIgnoringCase a b) : a.length = b.length := by
  simpa using congrArg List.length h

@[simp] theorem cons_iff {c d : UInt8} :
    EqualIgnoringCase (c :: a) (d :: b) ↔ toLower c = toLower d ∧ EqualIgnoringCase a b :=
  List.cons_eq_cons

theorem untilNul (h : EqualIgnoringCase a b) :
    EqualIgnoringCase (untilNul a) (untilNul b) := by
  have hmap (s : Bytes) : (Prapancha.untilNul s).map toLower =
      (s.map toLower).takeWhile (· ≠ 0) := by
    rw [List.takeWhile_map, Prapancha.untilNul]
    congr 2
    funext c
    simp
  rw [EqualIgnoringCase, hmap, hmap, h]

end EqualIgnoringCase

theorem untilNul_zero_cons (s : Bytes) : untilNul (0 :: s) = [] :=
  List.takeWhile_cons_of_neg (by simp)

theorem untilNul_cons_of_ne {c : UInt8} (h : c ≠ 0) (s : Bytes) :
    untilNul (c :: s) = c :: untilNul s :=
  List.takeWhile_cons_of_pos (by simpa using h)

theorem untilNul_of_not_mem {s : Bytes} (h : 0 ∉ s) : untilNul s = s :=
  List.takeWhile_eq_self_iff.2 fun c hc => by
    simpa using fun heq : c = 0 => h (heq ▸ hc)

/-- C strings that are equal up to case begin with the same character, if only with a NUL. -/
theorem toLower_eq_of_untilNul {c d : UInt8} {a b : Bytes}
    (h : EqualIgnoringCase (untilNul (c :: a)) (untilNul (d :: b))) : toLower c = toLower d := by
  by_cases hc : c = 0
  · by_cases hd : d = 0
    · rw [hc, hd]
    · rw [hc, untilNul_zero_cons, untilNul_cons_of_ne hd] at h
      cases h
  · by_cases hd : d = 0
    · rw [hd, untilNul_zero_cons, untilNul_cons_of_ne hc] at h
      cases h
    · rw [untilNul_cons_of_ne hc, untilNul_cons_of_ne hd] at h
      exact (EqualIgnoringCase.cons_iff.1 h).1

/-- For a string of the length of the view: the comparison ends at a NUL of the view, or goes on
behind its end and finds the NUL of the string there. -/
theorem strcasecmp_eq_zero (beyond : Nat → UInt8) : ∀ {a chars : Bytes},
    a.length = chars.length → (strcasecmp a (StringView.mk chars beyond).data = 0 ↔
      EqualIgnoringCase (untilNul a) (untilNul chars) ∧ (0 ∈ chars ∨ beyond 0 = 0))
  | [], [], _ => by
    have hnul : (toLower (beyond 0)).toNat = 0 ↔ beyond 0 = 0 := by
      rw [← toLower_eq_zero, ← UInt8.toNat_inj]
      rfl
    simpa [strcasecmp, StringView.data, untilNul, EqualIgnoringCase] using hnul
  | c :: a, d :: chars, h => by
    have ih := strcasecmp_eq_zero beyond (Nat.succ.inj h)
    have hnext : (fun i => (StringView.mk (d :: chars) beyond).data (i + 1)) =
        (StringView.mk chars beyond).data := by
      funext i
      simp [StringView.data]
    have hdata : (StringView.mk (d :: chars) beyond).data 0 = d := rfl
    have hdifference : ((toLower c).toNat : Int) - (toLower d).toNat = 0 ↔
        toLower c = toLower d := by
      rw [← UInt8.toNat_inj]
      omega
    rw [strcasecmp, hnext, hdata]
    by_cases hcd : toLower c = toLower d
    case neg =>
      have hprefix : ¬ EqualIgnoringCase (untilNul (c :: a)) (untilNul (d :: chars)) :=
        mt toLower_eq_of_untilNul hcd
      have hne : ((toLower c).toNat : Int) - (toLower d).toNat ≠ 0 := mt hdifference.1 hcd
      simp only [ne_eq, hne, not_false_eq_true, true_or, if_true, hprefix, false_and]
    case pos =>
      simp only [ne_eq, hdifference.2 hcd, not_true_eq_false, false_or]
      by_cases hc : c = 0
      · subst hc
        have hd : d = 0 := toLower_eq_zero.1 hcd.symm
        subst hd
        simp [untilNul_zero_cons, EqualIgnoringCase]
      · have hd : d ≠ 0 := fun hd => hc (toLower_eq_zero.1 (hcd.trans (toLower_eq_zero.2 hd)))
        rw [if_neg hc, ih, untilNul_cons_of_ne hc, untilNul_cons_of_ne hd,
          EqualIgnoringCase.cons_iff, and_iff_right hcd, List.mem_cons, or_iff_right (Ne.symm hd)]

end Prapancha
