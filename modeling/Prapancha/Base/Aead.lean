import Prapancha.Base.Bytes

/-!
# Authenticated ciphers

An authenticated cipher without associated data: the ciphertext is as long as the plaintext, and
its tag is computed from the ciphertext.
-/

namespace Prapancha

structure Aead (tagLength : Nat) where
  encrypt : (key iv plain : Bytes) → Bytes
  decrypt : (key iv ciphertext : Bytes) → Bytes
  tag : (key iv ciphertext : Bytes) → Bytes
  length_encrypt : ∀ key iv plain, (encrypt key iv plain).length = plain.length
  length_decrypt : ∀ key iv ciphertext, (decrypt key iv ciphertext).length = ciphertext.length
  length_tag : ∀ key iv ciphertext, (tag key iv ciphertext).length = tagLength
  decrypt_encrypt : ∀ key iv plain, decrypt key iv (encrypt key iv plain) = plain

namespace Aead

variable {tagLength : Nat}

/-- The tag is valid for one ciphertext only. -/
def Unforgeable (A : Aead tagLength) (key iv tag : Bytes) : Prop :=
  ∀ ciphertext ciphertext', A.tag key iv ciphertext = tag → A.tag key iv ciphertext' = tag →
    ciphertext = ciphertext'

/-- A stream cipher that adds the bytes of `stream`, with a given tag for each ciphertext. -/
def ofStream (stream : Nat → UInt8) (tag : Bytes → Bytes)
    (length_tag : ∀ ciphertext, (tag ciphertext).length = tagLength) : Aead tagLength where
  encrypt _ _ plain := plain.mapIdx fun i b => b ^^^ stream i
  decrypt _ _ ciphertext := ciphertext.mapIdx fun i b => b ^^^ stream i
  tag _ _ ciphertext := tag ciphertext
  length_encrypt _ _ _ := List.length_mapIdx
  length_decrypt _ _ _ := List.length_mapIdx
  length_tag _ _ := length_tag
  decrypt_encrypt _ _ plain := by
    rw [List.mapIdx_mapIdx]
    apply List.ext_getElem
    · rw [List.length_mapIdx]
    · intro i _ _
      rw [List.getElem_mapIdx, Function.comp_apply, UInt8.xor_assoc, UInt8.xor_self, UInt8.xor_zero]

/-- A tag of its own for one ciphertext. -/
def markTag (tagLength : Nat) (marked ciphertext : Bytes) : Bytes :=
  List.replicate tagLength (if ciphertext = marked then 1 else 0)

theorem markTag_eq_iff {marked ciphertext : Bytes} :
    markTag (tagLength + 1) marked ciphertext = markTag (tagLength + 1) marked marked ↔
      ciphertext = marked := by
  by_cases h : ciphertext = marked
  · simp [h]
  · simp [markTag, h]

/-- There is a cipher in which the tag of the encryption of a given plaintext is unforgeable. -/
theorem exists_unforgeable (key iv plain : Bytes) : ∃ A : Aead (tagLength + 1),
    A.Unforgeable key iv (A.tag key iv (A.encrypt key iv plain)) := by
  let marked := plain.mapIdx fun i b => b ^^^ (0 : UInt8)
  refine ⟨ofStream (fun _ => 0) (markTag (tagLength + 1) marked) fun _ => by simp [markTag], ?_⟩
  intro ciphertext ciphertext' h h'
  exact (markTag_eq_iff.1 h).trans (markTag_eq_iff.1 h').symm

end Aead

end Prapancha
