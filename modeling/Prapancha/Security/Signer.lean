import Prapancha.Base.Signature
import Prapancha.Security.Evp

/-!
# The signer

`Signer::sign<Ed25519>` and `Signer::verify<Ed25519>`.  The length of a signature is asked for
before it is written; a verification tells a bad signature from a call that fails by the sign of
what `EVP_DigestVerify` returns.
-/

namespace Prapancha.Security

structure Ed25519Binding where
  signature : Bytes
  deriving DecidableEq

/-- The calls of a signature or its verification. -/
inductive SignCall
  | newRawPrivateKey
  | newRawPublicKey
  | ctxNew
  | signInit
  | signLength
  | sign
  | verifyInit
  | verify
  deriving DecidableEq, Repr

/-- Which calls fail by themselves, with which error, and what a failing `EVP_DigestVerify`
returns. -/
structure SignCalls where
  fails : SignCall → Bool
  errorCode : SignCall → UInt64
  verifyFailure : Int
  verifyFailure_ne_one : verifyFailure ≠ 1

namespace SignCalls

variable (o : SignCalls) (S : SignatureScheme 32 64)

/-- A call that fails by itself, or because it has to. -/
def check (call : SignCall) (ok : Bool := true) : Except Error Unit :=
  if !o.fails call && ok then .ok () else .error ⟨o.errorCode call⟩

/-- `EVP_PKEY_new_raw_private_key` and `EVP_PKEY_new_raw_public_key` for Ed25519. -/
def newRawKey (call : SignCall) (key : Bytes) : Except Error Bytes := do
  o.check call (key.length = 32)
  return key

/-- `EVP_DigestSign` without a buffer: the length of a signature. -/
def digestSignLength : Except Error Nat := do
  o.check .signLength
  return 64

/-- `EVP_DigestSign` into a buffer, which has to be long enough. -/
def digestSign (pkey out data : Bytes) : Except Error Bytes := do
  o.check .sign (64 ≤ out.length)
  return OpenSsl.overwrite out (S.sign pkey data)

/-- `EVP_DigestVerify`. -/
def digestVerify (pkey signature data : Bytes) : Int :=
  if o.fails .verify then o.verifyFailure
  else if S.verify pkey data signature then 1 else 0

end SignCalls

namespace Signer

variable (S : SignatureScheme 32 64) (o : SignCalls)

/-- `Signer::sign(data, private_key, Ed25519)`. -/
def sign (data privateKey : Bytes) : Except Error Ed25519Binding := do
  let pkey ← o.newRawKey .newRawPrivateKey privateKey
  o.check .ctxNew
  o.check .signInit
  let signatureLength ← o.digestSignLength
  let signature ← o.digestSign S pkey (List.replicate signatureLength 0) data
  return ⟨signature⟩

/-- `Signer::verify(data, binding, public_key, Ed25519)`. -/
def verify (data : Bytes) (binding : Ed25519Binding) (publicKey : Bytes) : Except Error Bool := do
  let pkey ← o.newRawKey .newRawPublicKey publicKey
  o.check .ctxNew
  o.check .verifyInit
  let result := o.digestVerify S pkey binding.signature data
  if result < 0 then .error ⟨o.errorCode .verify⟩
  else return result == 1

/-- The calls of `sign` and of `verify` in their order. -/
def signOrder : List SignCall := [.newRawPrivateKey, .ctxNew, .signInit, .signLength, .sign]

def verifyOrder : List SignCall := [.newRawPublicKey, .ctxNew, .verifyInit, .verify]

end Signer

end Prapancha.Security
