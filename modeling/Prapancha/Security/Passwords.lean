import Prapancha.Security.Argon2

/-!
# The templates of the hasher

`Hasher::hash<Algorithm>` and `Hasher::verify<Algorithm>` of data in memory: each calls the overload
of its algorithm.
-/

namespace Prapancha.Security

/-- The functions that OpenSSL computes for the overloads. -/
structure HashFunctions where
  kdf : Kdf
  md : IncrementalHash Sha256.digestLength

/-- The calls that the overloads make. -/
structure HashCalls where
  kdf : KdfCalls
  md : MdCalls

/-- All calls succeed that a verification makes. -/
def HashCalls.Verifies (o : HashCalls) : HashAlgorithm → Prop
  | .argon2id => o.kdf.Derives
  | .sha256 => o.md.fails .qDigest = false

namespace Hasher

variable (F : HashFunctions) (o : HashCalls) (constants : Argon2idConstants)

def hash : (H : HashAlgorithm) → Bytes → HashResult H
  | .argon2id => hashArgon2id F.kdf o.kdf constants
  | .sha256 => hashSha256 F.md o.md

def verify : (H : HashAlgorithm) → Bytes → H.Binding → Except Error Bool
  | .argon2id => verifyArgon2id F.kdf o.kdf constants
  | .sha256 => verifySha256 F.md o.md

/-! ## What a verification compares -/

/-- What a password becomes under the parameters of a binding. -/
def derived : (H : HashAlgorithm) → H.Binding → Bytes → Bytes
  | .argon2id, binding, password => F.kdf.derive password (binding : Argon2idBinding).version
      binding.m binding.t binding.p binding.salt binding.hash.length
  | .sha256, _, password => F.md.digest password

variable {F o constants}

/-- A binding that was made from a password verifies those that become the same under it, whatever
the constants and the other calls of the verification are. -/
theorem verify_of_hash {H : HashAlgorithm} {password : Bytes} {binding : H.Binding}
    (hhash : hash F o constants H password = .ok binding) {o' : HashCalls} (ho' : o'.Verifies H)
    (constants' : Argon2idConstants) (q : Bytes) : verify F o' constants' H q binding =
      .ok (decide (derived F H binding q = derived F H binding password)) := by
  cases H with
  | argon2id =>
    have hderived : derived F .argon2id binding password = (binding : Argon2idBinding).hash :=
      hash_of_hashArgon2id hhash
    have hverdict : verifyArgon2id F.kdf o'.kdf constants' q binding =
        .ok (decide (derived F .argon2id binding q = (binding : Argon2idBinding).hash)) :=
      verifyArgon2id_eq_ok.2 ⟨ho', rfl⟩
    rw [hderived]
    exact hverdict
  | sha256 =>
    obtain ⟨_, -, hbinding⟩ := bind_eq_ok.1 hhash
    cases hbinding
    have hcall : o'.md.check .qDigest = .ok () := MdCalls.check_eq_ok.2 ho'
    have hq : hashSha256 F.md o'.md q = .ok ⟨F.md.digest q⟩ := by
      rw [hashSha256, hcall]
      rfl
    show (hashSha256 F.md o'.md q).map _ = _
    rw [hq, Except.map, matchesBinding, if_neg (by simp [F.md.length_digest]),
      memcmpEq_of_length_eq (by rw [F.md.length_digest, F.md.length_digest]) rfl]
    rfl

end Hasher

end Prapancha.Security
