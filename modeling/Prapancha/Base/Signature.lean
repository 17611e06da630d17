import Prapancha.Base.Bytes

/-!
# Signature schemes

A deterministic signature scheme with public keys and signatures of fixed lengths.
-/

namespace Prapancha

structure SignatureScheme (keyLength signatureLength : Nat) where
  publicKey : (privateKey : Bytes) → Bytes
  sign : (privateKey message : Bytes) → Bytes
  verify : (publicKey message signature : Bytes) → Bool
  length_publicKey : ∀ privateKey, (publicKey privateKey).length = keyLength
  length_sign : ∀ privateKey message, (sign privateKey message).length = signatureLength
  verify_sign : ∀ privateKey message,
    verify (publicKey privateKey) message (sign privateKey message) = true

namespace SignatureScheme

variable {keyLength signatureLength : Nat}

/-- The scheme that signs with a hash of the key and the message, and has no secrets. -/
def ofHash (publicKey : Bytes → Bytes) (hash : Bytes → Bytes → Bytes)
    (length_publicKey : ∀ privateKey, (publicKey privateKey).length = keyLength)
    (length_hash : ∀ key message, (hash key message).length = signatureLength) :
    SignatureScheme keyLength signatureLength where
  publicKey := publicKey
  sign privateKey message := hash (publicKey privateKey) message
  verify publicKey message signature := signature == hash publicKey message
  length_publicKey := length_publicKey
  length_sign _ _ := length_hash _ _
  verify_sign _ _ := beq_self_eq_true _

end SignatureScheme

end Prapancha
