import Prapancha.Base.Bytes

/-!
# Password hashes

The two hash algorithms of the server and the bindings that `Hasher::hash` returns for a password.
-/

namespace Prapancha.Security

structure Argon2idBinding where
  version : UInt32
  m : UInt32
  t : UInt32
  p : UInt32
  salt : Bytes
  hash : Bytes
  deriving DecidableEq

structure Sha256Binding where
  hash : Bytes
  deriving DecidableEq

inductive HashAlgorithm
  | argon2id
  | sha256
  deriving DecidableEq, Repr

def HashAlgorithm.Binding : HashAlgorithm → Type
  | .argon2id => Argon2idBinding
  | .sha256 => Sha256Binding

instance : (H : HashAlgorithm) → DecidableEq H.Binding
  | .argon2id => inferInstanceAs (DecidableEq Argon2idBinding)
  | .sha256 => inferInstanceAs (DecidableEq Sha256Binding)

/-- `Error`: the code of a failed cryptographic call. -/
structure Error where
  code : UInt64
  deriving DecidableEq

/-- What `Hasher::hash<HashAlgorithm>` returns for a password. -/
abbrev HashResult (H : HashAlgorithm) := Except Error H.Binding

end Prapancha.Security
