import Prapancha.Security.Argon2

/-!
# Stored passwords

A binding carries all that its verification needs: it keeps verifying when the constants of the
library change, and the verdict on a password depends on the password and the binding only.
-/

namespace Prapancha.Security.Hasher

variable {K : Kdf}

theorem verifyArgon2id_of_derives {o : KdfCalls} (ho : o.Derives) (constants : Argon2idConstants)
    (data : Bytes) (binding : Argon2idBinding) : verifyArgon2id K o constants data binding =
      .ok (decide (K.derive data binding.version binding.m binding.t binding.p binding.salt
        binding.hash.length = binding.hash)) :=
  verifyArgon2id_eq_ok.2 ⟨ho, rfl⟩

/-- The binding carries the constants in force when it was made, and the lengths that they give. -/
structure Carries (c : Argon2idConstants) (binding : Argon2idBinding) : Prop where
  version : binding.version = c.version
  m : binding.m = c.m
  t : binding.t = c.t
  p : binding.p = c.p
  salt : binding.salt.length = c.saltLength
  hash : binding.hash.length = c.hashLength

theorem length_randBytes {o : KdfCalls} {length : Nat} {salt : Bytes}
    (h : o.randBytes length (Crypter.castInt length) = .ok salt) : salt.length = length := by
  simp only [KdfCalls.randBytes, bind_eq_ok] at h
  obtain ⟨_, _, hsalt⟩ := h
  have hle := Crypter.toNat_castInt_le length
  rw [← Except.ok.inj hsalt, List.length_append, List.length_map, List.length_range,
    List.length_replicate]
  omega

theorem carries_of_hashArgon2id {o : KdfCalls} {c : Argon2idConstants} {data : Bytes}
    {binding : Argon2idBinding} (h : hashArgon2id K o c data = .ok binding) :
    Carries c binding := by
  simp only [hashArgon2id, bind_eq_ok, KdfCalls.derive_params] at h
  obtain ⟨_, _, _, _, salt, hsalt, hash, ⟨_, rfl⟩, hbinding⟩ := h
  cases hbinding
  exact ⟨rfl, rfl, rfl, rfl, length_randBytes hsalt, K.length_derive ..⟩

/-- A binding carries the constants that it was made with.  Its password verifies under any others,
and another password if the key derivation maps it to the hash under the parameters of the
binding. -/
theorem stored_verifies {o o' : KdfCalls} {c c' : Argon2idConstants} {password : Bytes}
    {binding : Argon2idBinding} (hhash : hashArgon2id K o c password = .ok binding)
    (ho' : o'.Derives) :
    Carries c binding ∧ verifyArgon2id K o' c' password binding = .ok true ∧
    (∀ q, verifyArgon2id K o' c' q binding = .ok (decide
      (K.derive q binding.version binding.m binding.t binding.p binding.salt binding.hash.length =
        binding.hash))) ∧
    ∀ (o₁ o₂ : KdfCalls) (c₁ c₂ : Argon2idConstants) (q : Bytes) (b : Argon2idBinding),
      o₁.Derives → o₂.Derives → verifyArgon2id K o₁ c₁ q b = verifyArgon2id K o₂ c₂ q b := by
  refine ⟨carries_of_hashArgon2id hhash, ?_,
    fun q => verifyArgon2id_of_derives ho' c' q binding, ?_⟩
  · rw [verifyArgon2id_of_derives ho', hash_of_hashArgon2id hhash, decide_eq_true rfl]
  · intro o₁ o₂ c₁ c₂ q b ho₁ ho₂
    rw [verifyArgon2id_of_derives ho₁, verifyArgon2id_of_derives ho₂]

/-- A key derivation that repeats the sum of its inputs. -/
def sumKdf : Kdf where
  derive password version m t p salt length :=
    List.replicate length ((password ++ salt).foldl (· + ·) (version + m + t + p).toUInt8)
  length_derive _ _ _ _ _ _ _ := List.length_replicate

def steady : KdfCalls := ⟨fun _ => false, fun _ => 0, UInt8.ofNat⟩

/-- A binding made with the current constants, verified after they were raised. -/
theorem stored_verifies_raised : verifyArgon2id sumKdf steady ⟨0x14, 131072, 4, 8, 32, 64⟩
    (text "secret") ⟨0x13, 65536, 3, 4, (List.range 16).map UInt8.ofNat,
      List.replicate 32 0x18⟩ = .ok true :=
  (stored_verifies (o := steady) (c := .current) (by decide +kernel) fun _ _ => rfl).2.1

end Prapancha.Security.Hasher
