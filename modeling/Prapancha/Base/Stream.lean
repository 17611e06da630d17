import Prapancha.Base.Bytes

/-!
# Input streams

A `std::istream` that throws nothing itself: its error state and what its buffer still delivers.
The buffer ends at the end of the file, or reading from it fails, which sets `bad`.
-/

namespace Prapancha

/-- What comes after the characters that a stream can deliver. -/
inductive Ending
  | endOfFile
  | failure (unread : Bytes)
  deriving DecidableEq

def Ending.unread : Ending → Bytes
  | .endOfFile => []
  | .failure unread => unread

/-- The state of a stream.  One that has reported an end of file can have content left: a string
stream that is given another string keeps its state. -/
structure IStream where
  eof : Bool := false
  fail : Bool := false
  bad : Bool := false
  rest : Bytes
  ending : Ending := .endOfFile

namespace IStream

def good (s : IStream) : Bool := !s.eof && !s.fail && !s.bad

/-- The conversion to `bool`. -/
def ok (s : IStream) : Bool := !s.fail && !s.bad

/-- What is still to be read, whether or not it can be. -/
def content (s : IStream) : Bytes := s.rest ++ s.ending.unread

/-- The stream is in a failed state, or reading will fail before the end of the file: because of
its buffer, or because it reported an end before that content came. -/
def Fails (s : IStream) : Prop :=
  s.fail = true ∨ s.bad = true ∨ s.ending ≠ .endOfFile ∨ (s.eof = true ∧ s.rest ≠ [])

instance (s : IStream) : Decidable s.Fails := inferInstanceAs (Decidable (_ ∨ _))

example : Fails { eof := true, rest := text "abc" } := by decide

/-- The stream delivers all of its content. -/
def Healthy (s : IStream) : Prop := s.good = true ∧ s.ending = .endOfFile

/-- `read` of `n` characters: the stream after it, and the characters that `gcount` counts.  When
the buffer throws, none are counted. -/
def read (s : IStream) (n : Nat) : IStream × Bytes :=
  if s.good = true then
    if n ≤ s.rest.length then ({ s with rest := s.rest.drop n }, s.rest.take n)
    else
      match s.ending with
      | .endOfFile => ({ eof := true, fail := true, bad := s.bad, rest := [] }, s.rest)
      | .failure unread => ({ bad := true, rest := [], ending := .failure unread }, [])
  else ({ s with fail := true }, [])

variable {s : IStream} {n : Nat}

theorem good_iff : s.good = true ↔ s.eof = false ∧ s.fail = false ∧ s.bad = false := by
  simp [good, and_assoc]

theorem read_of_not_good (h : s.good = false) : s.read n = ({ s with fail := true }, []) := by
  rw [read, if_neg (by simp [h])]

theorem read_of_le (h : s.good = true) (hn : n ≤ s.rest.length) :
    s.read n = ({ s with rest := s.rest.drop n }, s.rest.take n) := by
  rw [read, if_pos h, if_pos hn]

theorem read_of_lt (h : s.good = true) (hending : s.ending = .endOfFile) (hn : s.rest.length < n) :
    s.read n = ({ eof := true, fail := true, bad := s.bad, rest := [] }, s.rest) := by
  rw [read, if_pos h, if_neg (Nat.not_le.2 hn)]
  simp only [hending]

theorem read_of_failure (h : s.good = true) {unread : Bytes} (hending : s.ending = .failure unread)
    (hn : s.rest.length < n) :
    s.read n = ({ bad := true, rest := [], ending := .failure unread }, []) := by
  rw [read, if_pos h, if_neg (Nat.not_le.2 hn)]
  simp only [hending]

/-- A read that succeeds or counts characters leaves less to read. -/
theorem length_rest_read (hn : 0 < n) (h : (s.read n).1.ok = true ∨ 0 < (s.read n).2.length) :
    (s.read n).1.rest.length < s.rest.length := by
  by_cases hgood : s.good = true
  · by_cases hle : n ≤ s.rest.length
    · rw [read_of_le hgood hle]
      simp only [List.length_drop]
      omega
    · rw [Nat.not_le] at hle
      cases hending : s.ending with
      | endOfFile =>
        rw [read_of_lt hgood hending hle] at h ⊢
        simpa [ok] using h
      | failure unread =>
        rw [read_of_failure hgood hending hle] at h
        simp [ok] at h
  · rw [Bool.not_eq_true] at hgood
    rw [read_of_not_good hgood] at h
    simp [ok] at h

end IStream

end Prapancha
