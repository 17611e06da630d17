import Mathlib.Tactic.NormNum
import Prapancha.Security.Evp

/-!
# The crypter

`Crypter::encrypt<Aes256Gcm>` and `Crypter::decrypt<Aes256Gcm>`.  The lengths of vectors are
narrowed to `int` for the update calls, while the output vectors have the full length.
-/

namespace Prapancha.Security

structure Aes256GcmBinding where
  iv : Bytes
  tag : Bytes
  ciphertext : Bytes
  deriving DecidableEq

namespace Crypter

/-- `static_cast<int>` of a `std::size_t`. -/
def castInt (n : Nat) : Int := Int.bmod n (2 ^ 32)

variable (A : Aead 16) (o : OpenSsl)

def encrypt (plain key : Bytes) : Evp Aes256GcmBinding := do
  o.check .ctxNew
  o.check .randBytes
  let iv := o.random.toList
  let ctx ← o.cipherInit key iv
  let cipher := List.replicate plain.length 0
  let (ctx, cipher) ← o.encryptUpdate A ctx cipher plain (castInt plain.length)
  o.encryptFinal ctx
  let tag ← o.getTag A ctx (List.replicate 16 0)
  return ⟨iv, tag, cipher⟩

def decrypt (binding : Aes256GcmBinding) (key : Bytes) : Evp Bytes := do
  o.check .ctxNew
  let ctx ← o.cipherInit key binding.iv
  let plain := List.replicate binding.ciphertext.length 0
  let (ctx, plain) ←
    o.decryptUpdate A ctx plain binding.ciphertext (castInt binding.ciphertext.length)
  let ctx ← o.setTag ctx binding.tag
  o.decryptFinal A ctx
  return plain

/-! ## Narrowed lengths -/

theorem castInt_eq (n : Nat) : castInt n =
    if n % 2 ^ 32 < 2 ^ 31 then ((n % 2 ^ 32 : Nat) : Int)
    else ((n % 2 ^ 32 : Nat) : Int) - 2 ^ 32 := by
  unfold castInt
  rw [Int.bmod_def]
  norm_num
  split <;> split <;> omega

theorem castInt_nonneg {n : Nat} : 0 ≤ castInt n ↔ n % 2 ^ 32 < 2 ^ 31 := by
  rw [castInt_eq]
  norm_num
  split <;> omega

theorem toNat_castInt {n : Nat} (h : n % 2 ^ 32 < 2 ^ 31) : (castInt n).toNat = n % 2 ^ 32 := by
  rw [castInt_eq, if_pos h, Int.toNat_natCast]

theorem toNat_castInt_le (n : Nat) : (castInt n).toNat ≤ n := by
  by_cases h : n % 2 ^ 32 < 2 ^ 31
  · rw [toNat_castInt h]
    exact Nat.mod_le _ _
  · have hneg : castInt n ≤ 0 := (not_le.1 (castInt_nonneg.not.2 h)).le
    rw [Int.toNat_of_nonpos hneg]
    exact Nat.zero_le n

/-! ## What the functions return -/

variable {A o}

/-- The binding of a plaintext of which the update processes a part: the ciphertext is that of the
part, filled up with zeros to the length of the plaintext. -/
def sealed (A : Aead 16) (key iv plain : Bytes) : Aes256GcmBinding :=
  let ciphertext := A.encrypt key iv (plain.take (plain.length % 2 ^ 32))
  { iv
    tag := A.tag key iv ciphertext
    ciphertext := ciphertext ++ List.replicate (plain.length - plain.length % 2 ^ 32) 0 }

/-- The plaintext of a ciphertext of which the update processes a part. -/
def opened (A : Aead 16) (key iv ciphertext : Bytes) : Bytes :=
  A.decrypt key iv (ciphertext.take (ciphertext.length % 2 ^ 32)) ++
    List.replicate (ciphertext.length - ciphertext.length % 2 ^ 32) 0

theorem overwrite_replicate {bytes input : Bytes}
    (h : bytes.length = (input.take (input.length % 2 ^ 32)).length) :
    OpenSsl.overwrite (List.replicate input.length 0) bytes =
      bytes ++ List.replicate (input.length - input.length % 2 ^ 32) 0 := by
  rw [OpenSsl.overwrite, List.drop_replicate, h, List.length_take_of_le (Nat.mod_le _ _)]

/-- What the calls of an encryption write is the binding. -/
theorem written_eq_sealed {plain : Bytes} (hlength : plain.length % 2 ^ 32 < 2 ^ 31)
    (key iv : Bytes) :
    (let written := A.encrypt key iv (plain.take (castInt plain.length).toNat)
    { iv
      tag := A.tag key iv written
      ciphertext := OpenSsl.overwrite (List.replicate plain.length 0) written }) =
      sealed A key iv plain := by
  dsimp only
  rw [toNat_castInt hlength, overwrite_replicate (A.length_encrypt _ _ _)]
  rfl

/-- What the calls of a decryption write is the plaintext. -/
theorem written_eq_opened {ciphertext : Bytes} (hlength : ciphertext.length % 2 ^ 32 < 2 ^ 31)
    (key iv : Bytes) :
    OpenSsl.overwrite (List.replicate ciphertext.length 0)
        (A.decrypt key iv (ciphertext.take (castInt ciphertext.length).toNat)) =
      opened A key iv ciphertext := by
  rw [toNat_castInt hlength, overwrite_replicate (A.length_decrypt _ _ _)]
  rfl

theorem forall_not_fails :
    (∀ call, o.fails call = false) ↔ o.fails .ctxNew = false ∧ o.fails .randBytes = false ∧
      o.fails .init = false ∧ o.fails .update = false ∧ o.fails .final = false ∧
        o.fails .ctrl = false :=
  ⟨fun h => ⟨h _, h _, h _, h _, h _, h _⟩,
    fun ⟨h₁, h₂, h₃, h₄, h₅, h₆⟩ call => by cases call <;> assumption⟩

theorem forall_not_fails_or_random :
    (∀ call, call ≠ .randBytes → o.fails call = false) ↔ o.fails .ctxNew = false ∧
      o.fails .init = false ∧ o.fails .update = false ∧ o.fails .final = false ∧
        o.fails .ctrl = false := by
  refine ⟨fun h => ⟨h _ (by decide), h _ (by decide), h _ (by decide), h _ (by decide),
    h _ (by decide)⟩, fun ⟨h₁, h₂, h₃, h₄, h₅⟩ call hcall => ?_⟩
  cases call with
  | randBytes => exact absurd rfl hcall
  | _ => assumption

/-- An encryption that succeeds has found a key. -/
theorem not_null_of_encrypt {plain key : Bytes} {binding : Aes256GcmBinding}
    (h : (encrypt A o plain key).result = .ok binding) : ¬ o.Null .key key := by
  simp only [encrypt, Evp.result_bind_eq_ok, OpenSsl.result_cipherInit] at h
  obtain ⟨_, -, _, -, _, ⟨-, rfl⟩, updated, hupdated, _, hfinal, -⟩ := h
  have hkeyed := ((OpenSsl.result_check o).1 hfinal).2
  rw [OpenSsl.keyed_encryptUpdate o A hupdated, OpenSsl.isSome_keyed_cipherInit] at hkeyed
  exact hkeyed.1

/-- A decryption that succeeds has found a key, an iv and a tag. -/
theorem not_null_of_decrypt {binding : Aes256GcmBinding} {key plain : Bytes}
    (h : (decrypt A o binding key).result = .ok plain) :
    ¬ o.Null .key key ∧ ¬ o.Null .iv binding.iv ∧ ¬ o.Null .tag binding.tag := by
  simp only [decrypt, Evp.result_bind_eq_ok, OpenSsl.result_cipherInit,
    OpenSsl.result_setTag] at h
  obtain ⟨_, -, _, ⟨-, rfl⟩, updated, hupdated, _, ⟨-, htag, rfl⟩, _, hfinal, -⟩ := h
  have hcompared := ((OpenSsl.result_check o).1 hfinal).2
  rw [Bool.and_eq_true, decide_eq_true_eq] at hcompared
  have hkeyed : updated.1.keyed.isSome = true := by
    have hcomputed := hcompared.1
    rwa [hcompared.2, OpenSsl.computedTag, Option.isSome_map] at hcomputed
  rw [OpenSsl.keyed_decryptUpdate o A hupdated, OpenSsl.isSome_keyed_cipherInit] at hkeyed
  exact ⟨hkeyed.1, hkeyed.2, htag⟩

theorem not_null_random : ¬ o.Null .iv o.random.toList :=
  o.not_null_of_length_pos (by rw [o.random.length_toList]; decide)

/-- An encryption succeeds if no call fails, the narrowed length is not negative and there is a key.
-/
theorem encrypt_eq_ok {plain key : Bytes} {binding : Aes256GcmBinding} :
    (encrypt A o plain key).result = .ok binding ↔
      (∀ call, o.fails call = false) ∧ plain.length % 2 ^ 32 < 2 ^ 31 ∧ ¬ o.Null .key key ∧
        binding = sealed A (o.bytesAt .key key 32) o.random.toList plain := by
  by_cases hkey : o.Null .key key
  · exact iff_of_false (fun h => not_null_of_encrypt h hkey) fun h => h.2.2.1 hkey
  have hiv : o.dataAt .iv o.random.toList 12 = some o.random.toList := by
    rw [o.dataAt_of_not_null not_null_random, o.bytesAt_of_le (by simp),
      List.take_of_length_le (by simp)]
  have hplain : o.bytesAt .plain plain (castInt plain.length).toNat =
      plain.take (castInt plain.length).toNat := o.bytesAt_of_le (toNat_castInt_le _)
  -- the conditions in the order of the calls
  have hcalls : (encrypt A o plain key).result = .ok binding ↔
      o.fails .ctxNew = false ∧ o.fails .randBytes = false ∧ o.fails .init = false ∧
        (o.fails .update = false ∧ 0 ≤ castInt plain.length) ∧ o.fails .final = false ∧
          o.fails .ctrl = false ∧
            (let written := A.encrypt (o.bytesAt .key key 32) o.random.toList
              (plain.take (castInt plain.length).toNat)
            { iv := o.random.toList
              tag := A.tag (o.bytesAt .key key 32) o.random.toList written
              ciphertext := OpenSsl.overwrite (List.replicate plain.length 0) written }) =
              binding := by
    simp [encrypt, OpenSsl.encryptFinal, o.result_getTag A List.length_replicate, hiv, hplain,
      o.dataAt_of_not_null hkey, -List.reduceReplicate]
  rw [hcalls, forall_not_fails, castInt_nonneg]
  constructor
  · rintro ⟨hctx, hrand, hinit, ⟨hupdate, hlength⟩, hfinal, hctrl, rfl⟩
    exact ⟨⟨hctx, hrand, hinit, hupdate, hfinal, hctrl⟩, hlength, hkey,
      written_eq_sealed hlength _ _⟩
  · rintro ⟨⟨hctx, hrand, hinit, hupdate, hfinal, hctrl⟩, hlength, -, rfl⟩
    exact ⟨hctx, hrand, hinit, ⟨hupdate, hlength⟩, hfinal, hctrl, written_eq_sealed hlength _ _⟩

/-- A decryption succeeds if no call fails, the narrowed length is not negative, there are a key and
an iv, and the tag is that of the part of the ciphertext that the update processes. -/
theorem decrypt_eq_ok {binding : Aes256GcmBinding} {key plain : Bytes} :
    (decrypt A o binding key).result = .ok plain ↔
      (∀ call, call ≠ .randBytes → o.fails call = false) ∧
        binding.ciphertext.length % 2 ^ 32 < 2 ^ 31 ∧
        (¬ o.Null .key key ∧ ¬ o.Null .iv binding.iv ∧ ¬ o.Null .tag binding.tag) ∧
        o.bytesAt .tag binding.tag 16 = A.tag (o.bytesAt .key key 32) (o.bytesAt .iv binding.iv 12)
          (binding.ciphertext.take (binding.ciphertext.length % 2 ^ 32)) ∧
        plain = opened A (o.bytesAt .key key 32) (o.bytesAt .iv binding.iv 12)
          binding.ciphertext := by
  by_cases hnull : ¬ o.Null .key key ∧ ¬ o.Null .iv binding.iv ∧ ¬ o.Null .tag binding.tag
  case neg =>
    exact iff_of_false (fun h => hnull (not_null_of_decrypt h)) fun h => hnull h.2.2.1
  obtain ⟨hkey, hiv, htag⟩ := hnull
  have hciphertext : o.bytesAt .ciphertext binding.ciphertext
      (castInt binding.ciphertext.length).toNat =
        binding.ciphertext.take (castInt binding.ciphertext.length).toNat :=
    o.bytesAt_of_le (toNat_castInt_le _)
  have hcalls : (decrypt A o binding key).result = .ok plain ↔
      o.fails .ctxNew = false ∧ o.fails .init = false ∧
        (o.fails .update = false ∧ 0 ≤ castInt binding.ciphertext.length ∧
          OpenSsl.overwrite (List.replicate binding.ciphertext.length 0)
              (A.decrypt (o.bytesAt .key key 32) (o.bytesAt .iv binding.iv 12)
                (binding.ciphertext.take (castInt binding.ciphertext.length).toNat)) = plain) ∧
          o.fails .ctrl = false ∧ o.fails .final = false ∧ o.bytesAt .tag binding.tag 16 =
            A.tag (o.bytesAt .key key 32) (o.bytesAt .iv binding.iv 12)
              (binding.ciphertext.take (castInt binding.ciphertext.length).toNat) := by
    simp [decrypt, OpenSsl.decryptFinal, OpenSsl.computedTag, hciphertext,
      o.dataAt_of_not_null hkey, o.dataAt_of_not_null hiv, o.dataAt_of_not_null htag, htag]
  rw [hcalls, forall_not_fails_or_random, castInt_nonneg]
  constructor
  · rintro ⟨hctx, hinit, ⟨hupdate, hlength, rfl⟩, hctrl, hfinal, hequal⟩
    rw [toNat_castInt hlength] at hequal
    exact ⟨⟨hctx, hinit, hupdate, hfinal, hctrl⟩, hlength, ⟨hkey, hiv, htag⟩, hequal,
      written_eq_opened hlength _ _⟩
  · rintro ⟨⟨hctx, hinit, hupdate, hfinal, hctrl⟩, hlength, -, hequal, rfl⟩
    rw [← toNat_castInt hlength] at hequal
    exact ⟨hctx, hinit, ⟨hupdate, hlength, written_eq_opened hlength _ _⟩, hctrl, hfinal, hequal⟩

/-! ## What the functions read -/

theorem mem_reads_encrypt {plain key : Bytes} {r : Read} :
    r ∈ (encrypt A o plain key).reads ↔
      o.fails .ctxNew = false ∧ o.fails .randBytes = false ∧
        (¬ o.Null .key key ∧ r = ⟨.key, key.length, 32⟩ ∨ r = ⟨.iv, 12, 12⟩ ∨
          o.fails .init = false ∧ ¬ o.Null .key key ∧
            r = ⟨.plain, plain.length, (castInt plain.length).toNat⟩) := by
  simp [encrypt, OpenSsl.encryptFinal, OpenSsl.mem_reads_cipherInit,
    OpenSsl.mem_reads_encryptUpdate, OpenSsl.isSome_keyed_cipherInit, not_null_random, or_assoc,
    and_assoc]

/-- The update of a decryption succeeds unless it fails by itself. -/
def Updates (o : OpenSsl) (binding : Aes256GcmBinding) (key : Bytes) : Prop :=
  0 ≤ castInt binding.ciphertext.length ∧ (castInt binding.ciphertext.length = 0 ∨
    ¬ o.Null .key key ∧ ¬ o.Null .iv binding.iv)

theorem mem_reads_decrypt {binding : Aes256GcmBinding} {key : Bytes} {r : Read} :
    r ∈ (decrypt A o binding key).reads ↔
      o.fails .ctxNew = false ∧
        (¬ o.Null .key key ∧ r = ⟨.key, key.length, 32⟩ ∨
          ¬ o.Null .iv binding.iv ∧ r = ⟨.iv, binding.iv.length, 12⟩ ∨
          o.fails .init = false ∧
            ((¬ o.Null .key key ∧ ¬ o.Null .iv binding.iv) ∧
                r = ⟨.ciphertext, binding.ciphertext.length,
                  (castInt binding.ciphertext.length).toNat⟩ ∨
              (o.fails .update = false ∧ Updates o binding key) ∧
                ¬ o.Null .tag binding.tag ∧ r = ⟨.tag, binding.tag.length, 16⟩)) := by
  have hupdates : (∃ ctx plain, (o.decryptUpdate A
      { key := o.dataAt .key key 32, iv := o.dataAt .iv binding.iv 12 }
      (List.replicate binding.ciphertext.length 0) binding.ciphertext
      (castInt binding.ciphertext.length)).result = .ok (ctx, plain)) ↔
        o.fails .update = false ∧ Updates o binding key := by
    rw [← Prod.exists', OpenSsl.exists_result_decryptUpdate, OpenSsl.isSome_keyed_cipherInit,
      Updates]
  simp [decrypt, OpenSsl.decryptFinal, OpenSsl.mem_reads_cipherInit,
    OpenSsl.mem_reads_decryptUpdate, OpenSsl.isSome_keyed_cipherInit, OpenSsl.mem_reads_setTag,
    hupdates, or_assoc, and_assoc]

end Crypter

end Prapancha.Security
