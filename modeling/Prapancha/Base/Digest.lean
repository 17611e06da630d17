import Prapancha.Base.Bytes

/-!
# Incremental hash functions

A hash function that can be fed piece by piece: the digest is that of the concatenated pieces.
-/

namespace Prapancha

structure IncrementalHash (length : Nat) where
  Ctx : Type
  init : Ctx
  update : Ctx → Bytes → Ctx
  final : Ctx → Bytes
  digest : Bytes → Bytes
  length_digest : ∀ data, (digest data).length = length
  final_foldl : ∀ pieces : List Bytes, final (pieces.foldl update init) = digest pieces.flatten

namespace IncrementalHash

/-- A hash function that keeps all it is fed until the end. -/
def ofFunction {length : Nat} (digest : Bytes → Bytes)
    (length_digest : ∀ data, (digest data).length = length) : IncrementalHash length where
  Ctx := Bytes
  init := []
  update := (· ++ ·)
  final := digest
  digest := digest
  length_digest := length_digest
  final_foldl pieces := by
    have hfold : ∀ (pieces : List Bytes) (fed : Bytes),
        pieces.foldl (· ++ ·) fed = fed ++ pieces.flatten := by
      intro pieces
      induction pieces with
      | nil => simp
      | cons piece pieces ih => intro fed; simp [ih]
    rw [hfold, List.nil_append]

end IncrementalHash

end Prapancha
