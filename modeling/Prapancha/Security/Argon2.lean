import Prapancha.Security.Crypter
import Prapancha.Security.Sha256

/-!
# Argon2id hashes

`Hasher::hash` and `Hasher::verify` for `Argon2id`.  Both build the parameters of the key derivation
with `construct_algorithm_params`: the one from the constants of the library, the other from a
stored binding.
-/

namespace Prapancha.Security

/-- A key derivation function: an output of the length that it is asked for. -/
structure Kdf where
  derive : (password : Bytes) → (version m t p : UInt32) → (salt : Bytes) → (length : Nat) → Bytes
  length_derive : ∀ password version m t p salt length,
    (derive password version m t p salt length).length = length

/-- The keys `OSSL_KDF_PARAM_*` of the parameters. -/
inductive KdfParam
  | password
  | argon2Version
  | argon2Memcost
  | iter
  | argon2Lanes
  | salt
  deriving DecidableEq, Repr

/-- An entry of an `OSSL_PARAM` array, with the data that it points to. -/
inductive OsslParam
  | octetString (key : KdfParam) (data : Bytes)
  | uint32 (key : KdfParam) (value : UInt32)
  | finish
  deriving DecidableEq

namespace OsslParam

/-- The octet string with a key, before the end of an array. -/
def octets? (key : KdfParam) : List OsslParam → Option Bytes
  | octetString k data :: params => if k = key then some data else octets? key params
  | uint32 _ _ :: params => octets? key params
  | _ => none

def uint32? (key : KdfParam) : List OsslParam → Option UInt32
  | uint32 k value :: params => if k = key then some value else uint32? key params
  | octetString _ _ :: params => uint32? key params
  | _ => none

end OsslParam

/-- The calls that a password hash makes. -/
inductive KdfCall
  | fetch
  | ctxNew
  | randBytes
  | derive
  deriving DecidableEq, Repr

/-- Which calls fail, with which error, and the random bytes. -/
structure KdfCalls where
  fails : KdfCall → Bool
  errorCode : KdfCall → UInt64
  random : Nat → UInt8

namespace KdfCalls

variable (o : KdfCalls)

def check (call : KdfCall) (ok : Bool := true) : Except Error Unit :=
  if !o.fails call && ok then .ok () else .error ⟨o.errorCode call⟩

/-- `RAND_bytes` into a vector of `length` zeros, of which it is told `count`. -/
def randBytes (length : Nat) (count : Int) : Except Error Bytes := do
  o.check .randBytes (0 ≤ count)
  return (List.range count.toNat).map o.random ++ List.replicate (length - count.toNat) 0

/-- `EVP_KDF_derive`, which needs a password and a salt and has defaults for the rest. -/
def derive (K : Kdf) (params : List OsslParam) (length : Nat) : Except Error Bytes := do
  o.check .derive
  match OsslParam.octets? .password params, OsslParam.octets? .salt params with
  | some password, some salt =>
    return K.derive password
      ((OsslParam.uint32? .argon2Version params).getD 0x13)
      ((OsslParam.uint32? .argon2Memcost params).getD 8)
      ((OsslParam.uint32? .iter params).getD 3)
      ((OsslParam.uint32? .argon2Lanes params).getD 1) salt length
  | _, _ => .error ⟨o.errorCode .derive⟩

end KdfCalls

/-- The constants `argon2id_*` that the library was compiled with. -/
structure Argon2idConstants where
  version : UInt32
  m : UInt32
  t : UInt32
  p : UInt32
  saltLength : Nat
  hashLength : Nat

def Argon2idConstants.current : Argon2idConstants where
  version := 0x13
  m := 65536
  t := 3
  p := 4
  saltLength := 16
  hashLength := 32

namespace Hasher

def constructAlgorithmParams (password : Bytes) (version m t p : UInt32) (salt : Bytes) :
    List OsslParam :=
  [.octetString .password password, .uint32 .argon2Version version, .uint32 .argon2Memcost m,
    .uint32 .iter t, .uint32 .argon2Lanes p, .octetString .salt salt, .finish]

variable (K : Kdf) (o : KdfCalls)

/-- `Hasher::hash(std::string_view, Argon2id)`, compiled with `constants`. -/
def hashArgon2id (constants : Argon2idConstants) (data : Bytes) : Except Error Argon2idBinding := do
  o.check .fetch
  o.check .ctxNew
  let salt ← o.randBytes constants.saltLength (Crypter.castInt constants.saltLength)
  let params := constructAlgorithmParams data constants.version constants.m constants.t constants.p
    salt
  let hash ← o.derive K params constants.hashLength
  return ⟨constants.version, constants.m, constants.t, constants.p, salt, hash⟩

/-- `Hasher::verify(std::string_view, const Argon2idBinding &, Argon2id)`, compiled with
`constants`. -/
def verifyArgon2id (_constants : Argon2idConstants) (data : Bytes) (binding : Argon2idBinding) :
    Except Error Bool := do
  o.check .fetch
  o.check .ctxNew
  let params := constructAlgorithmParams data binding.version binding.m binding.t binding.p
    binding.salt
  let check ← o.derive K params binding.hash.length
  return memcmpEq check binding.hash check.length

end Hasher

/-! ## What the functions return -/

variable {K : Kdf} {o : KdfCalls}

@[simp] theorem KdfCalls.check_eq_ok {call : KdfCall} {ok : Bool} {u : Unit} :
    o.check call ok = .ok u ↔ o.fails call = false ∧ ok = true := by
  unfold check
  split
  · next h => simpa using h
  · next h => simpa [-Bool.not_eq_true] using h

/-- The derivation takes every one of its inputs from the slot that was built for it. -/
theorem KdfCalls.derive_params {password salt : Bytes} {version m t p : UInt32} {length : Nat}
    {key : Bytes} :
    o.derive K (Hasher.constructAlgorithmParams password version m t p salt) length = .ok key ↔
      o.fails .derive = false ∧ K.derive password version m t p salt length = key := by
  have hslots : o.derive K (Hasher.constructAlgorithmParams password version m t p salt) length =
      o.check .derive >>= fun _ => .ok (K.derive password version m t p salt length) := rfl
  simp only [hslots, bind_eq_ok, check_eq_ok, and_true, exists_const, Except.ok.injEq]

/-- All calls succeed that a verification makes. -/
def KdfCalls.Derives (o : KdfCalls) : Prop := ∀ call, call ≠ .randBytes → o.fails call = false

namespace Hasher

theorem hash_of_hashArgon2id {constants : Argon2idConstants} {data : Bytes}
    {binding : Argon2idBinding} (h : hashArgon2id K o constants data = .ok binding) :
    K.derive data binding.version binding.m binding.t binding.p binding.salt binding.hash.length =
      binding.hash := by
  simp only [hashArgon2id, bind_eq_ok, KdfCalls.derive_params] at h
  obtain ⟨_, _, _, _, salt, _, hash, ⟨_, rfl⟩, hbinding⟩ := h
  cases hbinding
  show K.derive _ _ _ _ _ _ (K.derive _ _ _ _ _ _ _).length = _
  rw [K.length_derive]

theorem derives_iff : o.Derives ↔
    o.fails .fetch = false ∧ o.fails .ctxNew = false ∧ o.fails .derive = false :=
  ⟨fun h => ⟨h _ (by decide), h _ (by decide), h _ (by decide)⟩, fun ⟨h₁, h₂, h₃⟩ call hcall => by
    cases call <;> first | assumption | exact absurd rfl hcall⟩

/-- A verification compares the output of the function with the hash of the binding. -/
theorem verifyArgon2id_eq_ok {constants : Argon2idConstants} {data : Bytes}
    {binding : Argon2idBinding} {verdict : Bool} :
    verifyArgon2id K o constants data binding = .ok verdict ↔ o.Derives ∧
      decide (K.derive data binding.version binding.m binding.t binding.p binding.salt
        binding.hash.length = binding.hash) = verdict := by
  have hcompare (check : Bytes) (hcheck : check.length = binding.hash.length) :
      memcmpEq check binding.hash check.length = decide (check = binding.hash) :=
    memcmpEq_of_length_eq rfl hcheck.symm
  simp only [verifyArgon2id, bind_eq_ok, KdfCalls.derive_params, KdfCalls.check_eq_ok, and_true,
    exists_const, derives_iff, and_assoc]
  constructor
  · rintro ⟨hfetch, hctx, check, hderive, rfl, hverdict⟩
    rw [hcompare _ (K.length_derive ..)] at hverdict
    exact ⟨hfetch, hctx, hderive, Except.ok.inj hverdict⟩
  · rintro ⟨hfetch, hctx, hderive, hverdict⟩
    refine ⟨hfetch, hctx, _, hderive, rfl, ?_⟩
    rw [hcompare _ (K.length_derive ..), hverdict]
    rfl

end Hasher

end Prapancha.Security
