import Prapancha.Base.Aead
import Prapancha.Security.Hasher

/-!
# The cipher calls of OpenSSL

The `EVP` calls that the crypter makes, over an authenticated cipher.  A call can fail, and it reads
bytes through the pointers that it is given unless they are null; `Evp` keeps an account of these
reads, also when a call fails.
-/

namespace Prapancha.Security

/-- What a pointer that is handed over points to. -/
inductive Source
  | key
  | iv
  | plain
  | ciphertext
  | tag
  deriving DecidableEq, Repr

/-- `count` bytes are read from the data of a vector of `size` bytes. -/
structure Read where
  source : Source
  size : Nat
  count : Nat
  deriving DecidableEq, Repr

/-- The read does not go past the end of the vector. -/
def Read.Within (r : Read) : Prop := r.count ≤ r.size

instance (r : Read) : Decidable r.Within := inferInstanceAs (Decidable (_ ≤ _))

/-- The result of calls, and the reads that they made. -/
structure Evp (α : Type) where
  result : Except Error α
  reads : List Read

namespace Evp

instance : Monad Evp where
  pure a := ⟨.ok a, []⟩
  bind m f :=
    match m.result with
    | .ok a => ⟨(f a).result, m.reads ++ (f a).reads⟩
    | .error e => ⟨.error e, m.reads⟩

variable {α β : Type}

@[simp] theorem result_pure (a : α) : (pure a : Evp α).result = .ok a := rfl

@[simp] theorem reads_pure (a : α) : (pure a : Evp α).reads = [] := rfl

theorem bind_of_ok {m : Evp α} {a : α} (h : m.result = .ok a) (f : α → Evp β) :
    m >>= f = ⟨(f a).result, m.reads ++ (f a).reads⟩ := by
  simp only [bind, h]

theorem bind_of_error {m : Evp α} {e : Error} (h : m.result = .error e) (f : α → Evp β) :
    m >>= f = ⟨.error e, m.reads⟩ := by
  simp only [bind, h]

@[simp] theorem result_bind_eq_ok {m : Evp α} {f : α → Evp β} {b : β} :
    (m >>= f).result = .ok b ↔ ∃ a, m.result = .ok a ∧ (f a).result = .ok b := by
  cases h : m.result with
  | ok a => simp [bind_of_ok h]
  | error e => simp [bind_of_error h]

@[simp] theorem mem_reads_bind {m : Evp α} {f : α → Evp β} {r : Read} :
    r ∈ (m >>= f).reads ↔ r ∈ m.reads ∨ ∃ a, m.result = .ok a ∧ r ∈ (f a).reads := by
  cases h : m.result with
  | ok a => simp [bind_of_ok h]
  | error e => simp [bind_of_error h]

end Evp

/-- The calls that can fail. -/
inductive EvpCall
  | ctxNew
  | randBytes
  | init
  | update
  | final
  | ctrl
  deriving DecidableEq, Repr

/-- What the surroundings decide: which calls fail by themselves and with which error, the random
bytes, which vectors have memory even when they are empty, and what lies in memory beyond the end of
a vector. -/
structure OpenSsl where
  fails : EvpCall → Bool
  errorCode : EvpCall → UInt64
  random : Vector UInt8 12
  allocated : Source → Bool
  beyond : Source → Nat → UInt8

/-- The part of an `EVP_CIPHER_CTX` that matters: what has been set, and the ciphertext of the
update. -/
structure CipherCtx where
  key : Option Bytes
  iv : Option Bytes
  ciphertext : Bytes := []
  tag : Option Bytes := none

/-- The key and the iv, if both have been set. -/
def CipherCtx.keyed (ctx : CipherCtx) : Option (Bytes × Bytes) :=
  ctx.key.bind fun key => ctx.iv.map fun iv => (key, iv)

namespace CipherCtx

@[simp] theorem keyed_mk (key iv c : Bytes) (t : Option Bytes) :
    keyed ⟨some key, some iv, c, t⟩ = some (key, iv) :=
  rfl

theorem isSome_keyed {ctx : CipherCtx} :
    ctx.keyed.isSome = true ↔ ctx.key.isSome = true ∧ ctx.iv.isSome = true := by
  cases hkey : ctx.key <;> simp [keyed, hkey]

end CipherCtx

namespace OpenSsl

variable (o : OpenSsl) (A : Aead 16)

/-- A call that fails by itself, or because it has to. -/
def check (call : EvpCall) (ok : Bool := true) : Evp Unit :=
  if !o.fails call && ok then pure () else ⟨.error ⟨o.errorCode call⟩, []⟩

/-- The bytes at the start of a vector, and beyond its end. -/
def bytesAt (source : Source) (v : Bytes) (count : Nat) : Bytes :=
  v.take count ++ (List.range (count - v.length)).map (o.beyond source)

def read (source : Source) (v : Bytes) (count : Nat) : Evp Bytes :=
  ⟨.ok (o.bytesAt source v count), [⟨source, v.length, count⟩]⟩

/-- `data()` of the vector is a null pointer. -/
def Null (source : Source) (v : Bytes) : Prop := v = [] ∧ o.allocated source = false

instance (source : Source) (v : Bytes) : Decidable (o.Null source v) :=
  inferInstanceAs (Decidable (_ ∧ _))

/-- What a call finds through the data pointer of a vector. -/
def dataAt (source : Source) (v : Bytes) (count : Nat) : Option Bytes :=
  if o.Null source v then none else some (o.bytesAt source v count)

/-- A read through a data pointer that can be null, and is not followed then. -/
def readData (source : Source) (v : Bytes) (count : Nat) : Evp (Option Bytes) :=
  ⟨.ok (o.dataAt source v count), if o.Null source v then [] else [⟨source, v.length, count⟩]⟩

/-- The vector `out` after bytes have been written through its data pointer. -/
def overwrite (out bytes : Bytes) : Bytes := bytes ++ out.drop bytes.length

/-- `EVP_EncryptInit_ex` and `EVP_DecryptInit_ex` for AES-256-GCM, which leave unset what they are
given no pointer for. -/
def cipherInit (key iv : Bytes) : Evp CipherCtx := do
  let key ← o.readData .key key 32
  let iv ← o.readData .iv iv 12
  o.check .init
  return { key, iv }

/-- `EVP_EncryptUpdate`, once for a context: the context and the output after it.  Without a key and
an iv an update of nothing succeeds. -/
def encryptUpdate (ctx : CipherCtx) (out input : Bytes) (length : Int) :
    Evp (CipherCtx × Bytes) := do
  match ctx.keyed with
  | some (key, iv) =>
    let bytes ← o.read .plain input length.toNat
    o.check .update (0 ≤ length)
    let written := A.encrypt key iv bytes
    return ({ ctx with ciphertext := written }, overwrite out written)
  | none =>
    o.check .update (length = 0)
    return (ctx, out)

/-- `EVP_DecryptUpdate`, once for a context. -/
def decryptUpdate (ctx : CipherCtx) (out input : Bytes) (length : Int) :
    Evp (CipherCtx × Bytes) := do
  match ctx.keyed with
  | some (key, iv) =>
    let bytes ← o.read .ciphertext input length.toNat
    o.check .update (0 ≤ length)
    let written := A.decrypt key iv bytes
    return ({ ctx with ciphertext := bytes }, overwrite out written)
  | none =>
    o.check .update (length = 0)
    return (ctx, out)

/-- The tag of what has been processed. -/
def computedTag (ctx : CipherCtx) : Option Bytes :=
  ctx.keyed.map fun (key, iv) => A.tag key iv ctx.ciphertext

/-- `EVP_EncryptFinal_ex`, which writes nothing for this cipher. -/
def encryptFinal (ctx : CipherCtx) : Evp Unit := o.check .final ctx.keyed.isSome

/-- `EVP_CTRL_AEAD_GET_TAG` of 16 bytes into `out`. -/
def getTag (ctx : CipherCtx) (out : Bytes) : Evp Bytes := do
  match computedTag A ctx with
  | some tag =>
    o.check .ctrl
    return overwrite out tag
  | none =>
    o.check .ctrl false
    return out

/-- `EVP_CTRL_AEAD_SET_TAG` of 16 bytes, which takes no null pointer. -/
def setTag (ctx : CipherCtx) (tag : Bytes) : Evp CipherCtx := do
  let tag ← o.readData .tag tag 16
  o.check .ctrl tag.isSome
  return { ctx with tag }

/-- `EVP_DecryptFinal_ex`, which compares the tags. -/
def decryptFinal (ctx : CipherCtx) : Evp Unit :=
  o.check .final (ctx.tag.isSome && ctx.tag = computedTag A ctx)

/-! ## What the calls do -/

@[simp] theorem result_check {call : EvpCall} {ok : Bool} {u : Unit} :
    (o.check call ok).result = .ok u ↔ o.fails call = false ∧ ok = true := by
  rw [check]
  split
  · next h => simpa using h
  · next h => simpa [-Bool.not_eq_true] using h

@[simp] theorem reads_check (call : EvpCall) (ok : Bool) : (o.check call ok).reads = [] := by
  rw [check]
  split <;> rfl

@[simp] theorem result_read {source : Source} {v : Bytes} {count : Nat} {bytes : Bytes} :
    (o.read source v count).result = .ok bytes ↔ o.bytesAt source v count = bytes := by
  simp [read]

@[simp] theorem reads_read (source : Source) (v : Bytes) (count : Nat) :
    (o.read source v count).reads = [⟨source, v.length, count⟩] :=
  rfl

theorem bytesAt_of_le {source : Source} {v : Bytes} {count : Nat} (h : count ≤ v.length) :
    o.bytesAt source v count = v.take count := by
  rw [bytesAt, Nat.sub_eq_zero_of_le h, List.range_zero, List.map_nil, List.append_nil]

theorem not_null_of_length_pos {source : Source} {v : Bytes} (h : 0 < v.length) :
    ¬ o.Null source v :=
  fun hnull => List.ne_nil_of_length_pos h hnull.1

theorem dataAt_of_not_null {source : Source} {v : Bytes} (h : ¬ o.Null source v) (count : Nat) :
    o.dataAt source v count = some (o.bytesAt source v count) :=
  if_neg h

@[simp] theorem isSome_dataAt {source : Source} {v : Bytes} {count : Nat} :
    (o.dataAt source v count).isSome = true ↔ ¬ o.Null source v := by
  rw [dataAt]
  split <;> simp_all

@[simp] theorem result_readData {source : Source} {v : Bytes} {count : Nat}
    {found : Option Bytes} :
    (o.readData source v count).result = .ok found ↔ o.dataAt source v count = found := by
  simp [readData]

@[simp] theorem mem_reads_readData {source : Source} {v : Bytes} {count : Nat} {r : Read} :
    r ∈ (o.readData source v count).reads ↔
      ¬ o.Null source v ∧ r = ⟨source, v.length, count⟩ := by
  rw [readData]
  split <;> simp_all

theorem overwrite_of_length_le {out bytes : Bytes} (h : out.length ≤ bytes.length) :
    overwrite out bytes = bytes := by
  rw [overwrite, List.drop_eq_nil_iff.2 h, List.append_nil]

@[simp] theorem result_cipherInit {key iv : Bytes} {ctx : CipherCtx} :
    (o.cipherInit key iv).result = .ok ctx ↔
      o.fails .init = false ∧
        { key := o.dataAt .key key 32, iv := o.dataAt .iv iv 12 } = ctx := by
  simp [cipherInit]

theorem mem_reads_cipherInit {key iv : Bytes} {r : Read} :
    r ∈ (o.cipherInit key iv).reads ↔ (¬ o.Null .key key ∧ r = ⟨.key, key.length, 32⟩) ∨
      (¬ o.Null .iv iv ∧ r = ⟨.iv, iv.length, 12⟩) := by
  simp [cipherInit]

/-- The initialisation leaves a key and an iv if neither pointer is null. -/
theorem isSome_keyed_cipherInit {key iv : Bytes} :
    (CipherCtx.keyed { key := o.dataAt .key key 32, iv := o.dataAt .iv iv 12 }).isSome = true ↔
      ¬ o.Null .key key ∧ ¬ o.Null .iv iv := by
  simp [CipherCtx.isSome_keyed]

@[simp] theorem result_encryptUpdate {key iv c : Bytes} {t : Option Bytes} {out input : Bytes}
    {length : Int} {updated : CipherCtx × Bytes} :
    (o.encryptUpdate A ⟨some key, some iv, c, t⟩ out input length).result = .ok updated ↔
      o.fails .update = false ∧ 0 ≤ length ∧
        let written := A.encrypt key iv (o.bytesAt .plain input length.toNat)
        (⟨some key, some iv, written, t⟩, overwrite out written) = updated := by
  simp [encryptUpdate, and_assoc]

@[simp] theorem result_decryptUpdate {key iv c : Bytes} {t : Option Bytes} {out input : Bytes}
    {length : Int} {updated : CipherCtx × Bytes} :
    (o.decryptUpdate A ⟨some key, some iv, c, t⟩ out input length).result = .ok updated ↔
      o.fails .update = false ∧ 0 ≤ length ∧
        let bytes := o.bytesAt .ciphertext input length.toNat
        (⟨some key, some iv, bytes, t⟩, overwrite out (A.decrypt key iv bytes)) = updated := by
  simp [decryptUpdate, and_assoc]

/-- An update sets neither a key nor an iv. -/
theorem keyed_encryptUpdate {ctx : CipherCtx} {out input : Bytes} {length : Int}
    {updated : CipherCtx × Bytes}
    (h : (o.encryptUpdate A ctx out input length).result = .ok updated) :
    updated.1.keyed = ctx.keyed := by
  unfold encryptUpdate at h
  split at h
  · simp only [Evp.result_bind_eq_ok, Evp.result_pure, Except.ok.injEq] at h
    obtain ⟨-, -, -, -, rfl⟩ := h
    rfl
  · simp only [Evp.result_bind_eq_ok, Evp.result_pure, Except.ok.injEq] at h
    obtain ⟨-, -, rfl⟩ := h
    rfl

theorem keyed_decryptUpdate {ctx : CipherCtx} {out input : Bytes} {length : Int}
    {updated : CipherCtx × Bytes}
    (h : (o.decryptUpdate A ctx out input length).result = .ok updated) :
    updated.1.keyed = ctx.keyed := by
  unfold decryptUpdate at h
  split at h
  · simp only [Evp.result_bind_eq_ok, Evp.result_pure, Except.ok.injEq] at h
    obtain ⟨-, -, -, -, rfl⟩ := h
    rfl
  · simp only [Evp.result_bind_eq_ok, Evp.result_pure, Except.ok.injEq] at h
    obtain ⟨-, -, rfl⟩ := h
    rfl

theorem mem_reads_encryptUpdate {ctx : CipherCtx} {out input : Bytes} {length : Int} {r : Read} :
    r ∈ (o.encryptUpdate A ctx out input length).reads ↔
      ctx.keyed.isSome = true ∧ r = ⟨.plain, input.length, length.toNat⟩ := by
  cases hkeyed : ctx.keyed <;> simp [encryptUpdate, hkeyed]

theorem mem_reads_decryptUpdate {ctx : CipherCtx} {out input : Bytes} {length : Int} {r : Read} :
    r ∈ (o.decryptUpdate A ctx out input length).reads ↔
      ctx.keyed.isSome = true ∧ r = ⟨.ciphertext, input.length, length.toNat⟩ := by
  cases hkeyed : ctx.keyed <;> simp [decryptUpdate, hkeyed]

/-- An update succeeds, unless it fails by itself, for any length that is not negative, or without a
key and an iv for the length zero. -/
theorem exists_result_decryptUpdate {ctx : CipherCtx} {out input : Bytes} {length : Int} :
    (∃ updated, (o.decryptUpdate A ctx out input length).result = .ok updated) ↔
      o.fails .update = false ∧ 0 ≤ length ∧ (length = 0 ∨ ctx.keyed.isSome = true) := by
  cases hkeyed : ctx.keyed with
  | none =>
    have hlength : length = 0 ↔ 0 ≤ length ∧ length = 0 := by omega
    simpa [decryptUpdate, hkeyed] using fun _ => hlength
  | some keyed => simp [decryptUpdate, hkeyed, and_assoc]

/-- The tag replaces an output of its length. -/
theorem result_getTag {key iv c : Bytes} {t : Option Bytes} {out tag : Bytes}
    (hout : out.length = 16) :
    (o.getTag A ⟨some key, some iv, c, t⟩ out).result = .ok tag ↔
      o.fails .ctrl = false ∧ A.tag key iv c = tag := by
  have hlength : out.length ≤ (A.tag key iv c).length :=
    Nat.le_of_eq (hout.trans (A.length_tag _ _ _).symm)
  simp [getTag, computedTag, overwrite_of_length_le hlength]

@[simp] theorem reads_getTag (ctx : CipherCtx) (out : Bytes) : (o.getTag A ctx out).reads = [] := by
  rw [List.eq_nil_iff_forall_not_mem]
  cases h : computedTag A ctx <;> simp [getTag, h]

@[simp] theorem result_setTag {ctx ctx' : CipherCtx} {tag : Bytes} :
    (o.setTag ctx tag).result = .ok ctx' ↔ o.fails .ctrl = false ∧ ¬ o.Null .tag tag ∧
      { ctx with tag := o.dataAt .tag tag 16 } = ctx' := by
  simp [setTag, and_assoc]

theorem mem_reads_setTag {ctx : CipherCtx} {tag : Bytes} {r : Read} :
    r ∈ (o.setTag ctx tag).reads ↔ ¬ o.Null .tag tag ∧ r = ⟨.tag, tag.length, 16⟩ := by
  simp [setTag]

end OpenSsl

end Prapancha.Security
