import Prapancha.Security.Crypter

/-!
# What the crypter protects

The update calls take an `int`, so a length is either processed whole, or refused, or cut down to
what is left of it modulo 2^32.  For which lengths encryption loses nothing and decryption
authenticates everything, and for which vectors no call reads past the end.
-/

namespace Prapancha.Security.Crypter

/-- An update of `n` bytes processes them all or fails. -/
def Handled (n : Nat) : Prop := n < 2 ^ 32 ∨ 2 ^ 31 ≤ n % 2 ^ 32

variable {A : Aead 16} {o : OpenSsl}

theorem Handled.mod_eq {n : Nat} (h : Handled n) (hlength : n % 2 ^ 32 < 2 ^ 31) :
    n % 2 ^ 32 = n :=
  Nat.mod_eq_of_lt (h.resolve_right hlength.not_ge)

theorem not_handled {n : Nat} : ¬ Handled n ↔ 2 ^ 32 ≤ n ∧ n % 2 ^ 32 < 2 ^ 31 := by
  rw [Handled, not_or, not_lt, not_le]

theorem sealed_of_mod_eq {key iv plain : Bytes} (h : plain.length % 2 ^ 32 = plain.length) :
    sealed A key iv plain =
      ⟨iv, A.tag key iv (A.encrypt key iv plain), A.encrypt key iv plain⟩ := by
  simp only [sealed, h, List.take_length, Nat.sub_self, List.replicate_zero, List.append_nil]

theorem opened_of_mod_eq {key iv ciphertext : Bytes}
    (h : ciphertext.length % 2 ^ 32 = ciphertext.length) :
    opened A key iv ciphertext = A.decrypt key iv ciphertext := by
  rw [opened, h, List.take_length, Nat.sub_self, List.replicate_zero, List.append_nil]

section Sealed

variable (A) (key iv plain : Bytes)

theorem length_encrypt_take :
    (A.encrypt key iv (plain.take (plain.length % 2 ^ 32))).length = plain.length % 2 ^ 32 := by
  rw [A.length_encrypt, List.length_take_of_le (Nat.mod_le _ _)]

theorem length_sealed : (sealed A key iv plain).ciphertext.length = plain.length := by
  rw [sealed, List.length_append, length_encrypt_take, List.length_replicate,
    Nat.add_sub_cancel' (Nat.mod_le _ _)]

/-- The part that is processed on both sides. -/
theorem take_sealed : (sealed A key iv plain).ciphertext.take (plain.length % 2 ^ 32) =
    A.encrypt key iv (plain.take (plain.length % 2 ^ 32)) := by
  rw [sealed, List.take_append_of_le_length (length_encrypt_take A key iv plain).ge,
    List.take_of_length_le (length_encrypt_take A key iv plain).le]

theorem opened_sealed : opened A key iv (sealed A key iv plain).ciphertext =
    plain.take (plain.length % 2 ^ 32) ++
      List.replicate (plain.length - plain.length % 2 ^ 32) 0 := by
  rw [opened, length_sealed, take_sealed, A.decrypt_encrypt]

/-- What is not processed of a ciphertext is decrypted to zeros. -/
theorem drop_opened (ciphertext : Bytes) :
    (opened A key iv ciphertext).drop (ciphertext.length % 2 ^ 32) =
      List.replicate (ciphertext.length - ciphertext.length % 2 ^ 32) 0 := by
  rw [opened, List.drop_left' (by rw [A.length_decrypt, List.length_take_of_le (Nat.mod_le _ _)])]

end Sealed

/-- Vectors of the right lengths are read as they are. -/
theorem bytesAt_self {source : Source} {v : Bytes} {n : Nat} (h : v.length = n) :
    o.bytesAt source v n = v := by
  rw [o.bytesAt_of_le h.ge, ← h, List.take_length]

theorem encrypt_eq_ok_of_length {plain key : Bytes} (hkey : key.length = 32)
    {binding : Aes256GcmBinding} :
    (encrypt A o plain key).result = .ok binding ↔
      (∀ call, o.fails call = false) ∧ plain.length % 2 ^ 32 < 2 ^ 31 ∧
        binding = sealed A key o.random.toList plain := by
  have hnull : ¬ o.Null .key key := o.not_null_of_length_pos (by omega)
  rw [encrypt_eq_ok, bytesAt_self hkey, iff_true_intro hnull, true_and]

theorem decrypt_eq_ok_of_length {binding : Aes256GcmBinding} {key : Bytes}
    (hkey : key.length = 32) (hiv : binding.iv.length = 12) (htag : binding.tag.length = 16)
    {plain : Bytes} :
    (decrypt A o binding key).result = .ok plain ↔
      (∀ call, call ≠ .randBytes → o.fails call = false) ∧
        binding.ciphertext.length % 2 ^ 32 < 2 ^ 31 ∧
        binding.tag = A.tag key binding.iv
          (binding.ciphertext.take (binding.ciphertext.length % 2 ^ 32)) ∧
        plain = opened A key binding.iv binding.ciphertext := by
  have hnull : ¬ o.Null .key key ∧ ¬ o.Null .iv binding.iv ∧ ¬ o.Null .tag binding.tag :=
    ⟨o.not_null_of_length_pos (by omega), o.not_null_of_length_pos (by omega),
      o.not_null_of_length_pos (by omega)⟩
  rw [decrypt_eq_ok, bytesAt_self hkey, bytesAt_self hiv, bytesAt_self htag, iff_true_intro hnull,
    true_and]

/-- Surroundings in which no call fails. -/
def healthy : OpenSsl where
  fails _ := false
  errorCode _ := 0
  random := Vector.replicate 12 0
  allocated _ := false
  beyond _ _ := 0

/-! ## Round trips -/

section RoundTrip

/-- Encryption of the plaintext fails, or it encrypts all of it and decryption gives it back. -/
def Preserves (A : Aead 16) (key plain : Bytes) : Prop :=
  ∀ o binding, (encrypt A o plain key).result = .ok binding →
    binding.ciphertext = A.encrypt key binding.iv plain ∧
      ∀ o', (∀ plain', (decrypt A o' binding key).result = .ok plain' → plain' = plain) ∧
        ((∀ call, o'.fails call = false) → (decrypt A o' binding key).result = .ok plain)

variable {key plain : Bytes} (hkey : key.length = 32)

include hkey

/-- A plaintext survives if what is cut off it, where anything is processed at all, consists of
zeros and would be encrypted to zeros. -/
theorem preserves_iff_kept : Preserves A key plain ↔ (plain.length % 2 ^ 32 < 2 ^ 31 →
    plain.drop (plain.length % 2 ^ 32) =
        List.replicate (plain.length - plain.length % 2 ^ 32) 0 ∧
      ∀ iv, iv.length = 12 → (sealed A key iv plain).ciphertext = A.encrypt key iv plain) := by
  have hdecrypt (o o' : OpenSsl) (plain' : Bytes) :
      (decrypt A o' (sealed A key o.random.toList plain) key).result = .ok plain' ↔ _ :=
    decrypt_eq_ok_of_length hkey o.random.length_toList (A.length_tag _ _ _)
  constructor
  case mp =>
    intro h hlength
    have hencrypt (o : OpenSsl) (hfails : ∀ call, o.fails call = false) :=
      h o _ ((encrypt_eq_ok_of_length hkey).2 ⟨hfails, hlength, rfl⟩)
    refine ⟨?_, fun iv hiv => ?_⟩
    · have hresult := ((hencrypt healthy fun _ => rfl).2 healthy).2 fun _ => rfl
      have hopened := ((hdecrypt healthy healthy plain).1 hresult).2.2.2.trans
        (opened_sealed A key healthy.random.toList plain)
      exact List.append_cancel_left ((List.take_append_drop _ plain).trans hopened)
    · let drawn : OpenSsl := { healthy with random := ⟨iv.toArray, hiv⟩ }
      exact (hencrypt drawn fun _ => rfl).1
  case mpr =>
    intro h o binding hbinding
    obtain ⟨-, hlength, rfl⟩ := (encrypt_eq_ok_of_length hkey).1 hbinding
    obtain ⟨hdrop, hciphertext⟩ := h hlength
    have hopened : opened A key o.random.toList
        (sealed A key o.random.toList plain).ciphertext = plain := by
      rw [opened_sealed, ← hdrop, List.take_append_drop]
    refine ⟨hciphertext _ o.random.length_toList, fun o' => ⟨fun plain' hplain' => ?_,
      fun hfails => ?_⟩⟩
    · exact ((hdecrypt o o' plain').1 hplain').2.2.2.trans hopened
    · refine (hdecrypt o o' plain).2 ⟨fun call _ => hfails call, ?_, ?_, hopened.symm⟩
      · rwa [length_sealed]
      · rw [length_sealed, take_sealed]
        rfl

theorem preserves_of_handled (h : Handled plain.length) : Preserves A key plain := by
  refine (preserves_iff_kept hkey).2 fun hlength => ?_
  have hmod := h.mod_eq hlength
  refine ⟨?_, fun iv _ => by rw [sealed_of_mod_eq hmod]⟩
  rw [hmod, List.drop_length, Nat.sub_self, List.replicate_zero]

/-- A plaintext of ones of a length that is cut down. -/
theorem not_preserves_ones {n : Nat} (h : ¬ Handled n) :
    ¬ Preserves A key (List.replicate n 1) := by
  obtain ⟨hlarge, hlength⟩ := not_handled.1 h
  intro hpreserves
  obtain ⟨hlost, -⟩ := (preserves_iff_kept hkey).1 hpreserves (by rwa [List.length_replicate])
  rw [List.length_replicate, List.drop_replicate, List.replicate_right_inj (by omega)] at hlost
  exact absurd hlost (by decide)

/-- No plaintext of a length is lost, not even in part, exactly when the length is below 2^32 or cut
down to a negative number.  A plaintext of another length survives exactly when what is cut off it
consists of zeros and would be encrypted to zeros. -/
theorem preserves_iff (n : Nat) :
    ((∀ plain, plain.length = n → Preserves A key plain) ↔ Handled n) ∧
      ∀ plain, plain.length = n → ¬ Handled n → (Preserves A key plain ↔
        plain.drop (n % 2 ^ 32) = List.replicate (n - n % 2 ^ 32) 0 ∧
          ∀ iv, iv.length = 12 → A.encrypt key iv (plain.take (n % 2 ^ 32)) ++
            List.replicate (n - n % 2 ^ 32) 0 = A.encrypt key iv plain) := by
  refine ⟨⟨fun hpreserves => ?_, ?_⟩, ?_⟩
  · by_contra h
    exact not_preserves_ones hkey h (hpreserves _ List.length_replicate)
  · rintro h plain rfl
    exact preserves_of_handled hkey h
  · rintro plain rfl h
    rw [preserves_iff_kept hkey, imp_iff_right (not_handled.1 h).2]
    rfl

end RoundTrip

/-- AES-256-GCM under a zero key and iv, for the first block: the keystream, and the tags of the
empty ciphertext and of that of a zero block. -/
def zeroKeyGcm : Aead 16 :=
  let block : Bytes := [0xCE, 0xA7, 0x40, 0x3D, 0x4D, 0x60, 0x6B, 0x6E,
    0x07, 0x4E, 0xC5, 0xD3, 0xBA, 0xF3, 0x9D, 0x18]
  let tagOfBlock : Bytes := [0xD0, 0xD1, 0xC8, 0xA7, 0x99, 0x99, 0x6B, 0xF0,
    0x26, 0x5B, 0x98, 0xB5, 0xD4, 0x8A, 0xB9, 0x19]
  let tagOfEmpty : Bytes := [0x53, 0x0F, 0x8A, 0xFB, 0xC7, 0x45, 0x36, 0xB9,
    0xA9, 0x63, 0xB4, 0xF1, 0xC4, 0xCB, 0x73, 0x8B]
  .ofStream (fun i => block.getD i 0)
    (fun ciphertext => if ciphertext = block then tagOfBlock else tagOfEmpty)
    fun ciphertext => by split <;> rfl

def zeroKey : Bytes := List.replicate 32 0

theorem preserves_iff_block :
    ((∀ plain, plain.length = 16 → Preserves zeroKeyGcm zeroKey plain) ↔ Handled 16) ∧
      ∀ plain, plain.length = 16 → ¬ Handled 16 → (Preserves zeroKeyGcm zeroKey plain ↔
        plain.drop (16 % 2 ^ 32) = List.replicate (16 - 16 % 2 ^ 32) 0 ∧
          ∀ iv, iv.length = 12 → zeroKeyGcm.encrypt zeroKey iv (plain.take (16 % 2 ^ 32)) ++
            List.replicate (16 - 16 % 2 ^ 32) 0 = zeroKeyGcm.encrypt zeroKey iv plain) :=
  preserves_iff List.length_replicate 16

/-- 2^32 bytes are encrypted as none. -/
theorem not_preserves_two_pow :
    ¬ Preserves zeroKeyGcm zeroKey (List.replicate (2 ^ 32) 1) :=
  not_preserves_ones List.length_replicate (not_handled.2 (by norm_num))

/-! ## Authenticity -/

section Authenticity

/-- Decryption fails, or the tag is that of the whole ciphertext and all of it is decrypted. -/
def Authenticates (A : Aead 16) (key iv tag ciphertext : Bytes) : Prop :=
  ∀ o plain, (decrypt A o ⟨iv, tag, ciphertext⟩ key).result = .ok plain →
    tag = A.tag key iv ciphertext ∧ plain = A.decrypt key iv ciphertext

/-- Of the binding of a plaintext no ciphertext but its own is accepted, if its tag is valid for one
ciphertext only. -/
def Rejects (A : Aead 16) (key plain ciphertext : Bytes) : Prop :=
  ∀ o binding, (encrypt A o plain key).result = .ok binding →
    A.Unforgeable key binding.iv binding.tag → ciphertext ≠ binding.ciphertext →
      ∀ o' plain', (decrypt A o' { binding with ciphertext } key).result ≠ .ok plain'

/-- The updates for a plaintext of `m` bytes and for a ciphertext of `n` bytes do not process the
same number of bytes, or one of them fails, or both process everything. -/
def Separated (m n : Nat) : Prop :=
  2 ^ 31 ≤ m % 2 ^ 32 ∨ 2 ^ 31 ≤ n % 2 ^ 32 ∨ m % 2 ^ 32 ≠ n % 2 ^ 32 ∨ m = n ∧ n < 2 ^ 32

theorem not_separated {m n : Nat} :
    ¬ Separated m n ↔ m % 2 ^ 32 < 2 ^ 31 ∧ m % 2 ^ 32 = n % 2 ^ 32 ∧ (m = n → 2 ^ 32 ≤ n) := by
  simp only [Separated, not_or, not_and, not_lt, not_le, not_not]
  refine and_congr_right fun hm => ⟨fun ⟨_, hmod, hn⟩ => ⟨hmod, hn⟩, fun ⟨hmod, hn⟩ =>
    ⟨hmod ▸ hm, hmod, hn⟩⟩

variable {key iv : Bytes} (hkey : key.length = 32)

include hkey

/-- What is returned is authentic unless the tag is that of the part that is processed only. -/
theorem authenticates_iff_part (hiv : iv.length = 12) {tag ciphertext : Bytes}
    (htag : tag.length = 16) : Authenticates A key iv tag ciphertext ↔
      (ciphertext.length % 2 ^ 32 < 2 ^ 31 →
        tag = A.tag key iv (ciphertext.take (ciphertext.length % 2 ^ 32)) →
          tag = A.tag key iv ciphertext ∧
            opened A key iv ciphertext = A.decrypt key iv ciphertext) := by
  constructor
  case mp =>
    intro h hlength hpart
    exact h healthy _ ((decrypt_eq_ok_of_length hkey hiv htag).2
      ⟨fun _ _ => rfl, hlength, hpart, rfl⟩)
  case mpr =>
    intro h o plain hplain
    obtain ⟨-, hlength, hpart, rfl⟩ := (decrypt_eq_ok_of_length hkey hiv htag).1 hplain
    exact h hlength hpart

theorem authenticates_of_handled (hiv : iv.length = 12) {tag ciphertext : Bytes}
    (htag : tag.length = 16) (h : Handled ciphertext.length) :
    Authenticates A key iv tag ciphertext := by
  refine (authenticates_iff_part hkey hiv htag).2 fun hlength hpart => ?_
  have hmod := h.mod_eq hlength
  rw [hmod, List.take_length] at hpart
  exact ⟨hpart, opened_of_mod_eq hmod⟩

/-- The encryption of ones of a length that is cut down, with the tag of what is left of it. -/
theorem not_authenticates_ones (hiv : iv.length = 12) {n : Nat} (h : ¬ Handled n) :
    let ciphertext := A.encrypt key iv (List.replicate n 1)
    ¬ Authenticates A key iv (A.tag key iv (ciphertext.take (n % 2 ^ 32))) ciphertext := by
  intro ciphertext hauthenticates
  obtain ⟨hlarge, hlength⟩ := not_handled.1 h
  have hn : ciphertext.length = n := by rw [A.length_encrypt, List.length_replicate]
  have hopened : opened A key iv ciphertext = List.replicate n 1 := by
    rw [((authenticates_iff_part hkey hiv (A.length_tag _ _ _)).1 hauthenticates (by rwa [hn])
      (by rw [hn])).2, A.decrypt_encrypt]
  have hdropped := drop_opened A key iv ciphertext
  rw [hn, hopened, List.drop_replicate, List.replicate_right_inj (by omega)] at hdropped
  exact absurd hdropped (by decide)

theorem rejects_of_separated {plain ciphertext : Bytes}
    (h : Separated plain.length ciphertext.length) : Rejects A key plain ciphertext := by
  intro o binding hbinding hunforgeable hne o' plain' hplain'
  obtain ⟨-, hplain, rfl⟩ := (encrypt_eq_ok_of_length hkey).1 hbinding
  obtain ⟨-, hciphertext, htag, -⟩ := (decrypt_eq_ok_of_length hkey o.random.length_toList
    (A.length_tag _ _ _)).1 hplain'
  have hpart := hunforgeable _ _ rfl htag.symm
  have hmod : plain.length % 2 ^ 32 = ciphertext.length % 2 ^ 32 := by
    have hlength := congrArg List.length hpart
    rwa [length_encrypt_take, List.length_take_of_le (Nat.mod_le _ _)] at hlength
  -- the processed parts agree, so both are whole, and the ciphertext is that of the binding
  rcases h with hlarge | hlarge | hmod' | ⟨heq, hlt⟩
  · exact absurd hplain hlarge.not_gt
  · exact absurd hciphertext hlarge.not_gt
  · exact hmod' hmod
  · have hwhole : ciphertext.length % 2 ^ 32 = ciphertext.length := Nat.mod_eq_of_lt hlt
    rw [hwhole, List.take_length] at hpart
    apply hne
    rw [sealed_of_mod_eq (by rw [heq, hwhole]), ← hpart, heq, hwhole, ← heq, List.take_length]

/-- With the same number of bytes processed, other bytes after these are accepted. -/
theorem exists_not_rejects {m n : Nat} (h : ¬ Separated m n) :
    ∃ (A : Aead 16) (plain ciphertext : Bytes), plain.length = m ∧ ciphertext.length = n ∧
      ¬ Rejects A key plain ciphertext := by
  obtain ⟨hlength, hmod, hlarge⟩ := not_separated.1 h
  let plain : Bytes := List.replicate m 1
  have hplain : plain.length = m := List.length_replicate
  obtain ⟨A, hunforgeable⟩ : ∃ A : Aead 16, A.Unforgeable key healthy.random.toList
      (A.tag key _ (A.encrypt key _ (plain.take (plain.length % 2 ^ 32)))) :=
    Aead.exists_unforgeable key healthy.random.toList _
  let written := A.encrypt key healthy.random.toList (plain.take (plain.length % 2 ^ 32))
  have hwritten : written.length = n % 2 ^ 32 := by rw [length_encrypt_take, hplain, hmod]
  let ciphertext := written ++ List.replicate (n - n % 2 ^ 32) 2
  have hciphertext : ciphertext.length = n := by
    rw [List.length_append, hwritten, List.length_replicate,
      Nat.add_sub_cancel' (Nat.mod_le n _)]
  refine ⟨A, plain, ciphertext, hplain, hciphertext, fun hrejects => ?_⟩
  have hencrypt : (encrypt A healthy plain key).result =
      .ok (sealed A key healthy.random.toList plain) :=
    (encrypt_eq_ok_of_length hkey).2 ⟨fun _ => rfl, by rwa [hplain], rfl⟩
  have hne : ciphertext ≠ (sealed A key healthy.random.toList plain).ciphertext := by
    intro heq
    have hrest : List.replicate (n - n % 2 ^ 32) (2 : UInt8) =
        List.replicate (plain.length - plain.length % 2 ^ 32) 0 := List.append_cancel_left heq
    have hle := Nat.mod_le n (2 ^ 32)
    have hle' := Nat.mod_le m (2 ^ 32)
    have hmn : m = n := by
      have hcount := congrArg List.length hrest
      rw [List.length_replicate, List.length_replicate, hplain] at hcount
      omega
    have hlt : n % 2 ^ 32 < 2 ^ 32 := Nat.mod_lt n (Nat.two_pow_pos 32)
    rw [hplain, hmn, List.replicate_right_inj (by have := hlarge hmn; omega)] at hrest
    exact absurd hrest (by decide)
  have htake : ciphertext.take (ciphertext.length % 2 ^ 32) = written := by
    rw [hciphertext, ← hwritten, List.take_left]
  refine hrejects healthy _ hencrypt hunforgeable hne healthy _
    ((decrypt_eq_ok_of_length hkey healthy.random.length_toList (A.length_tag _ _ _)).2
      ⟨fun _ _ => rfl, ?_, ?_, rfl⟩)
  · rw [hciphertext, ← hmod]
    exact hlength
  · rw [htake]
    rfl

end Authenticity

/-- For every length of the ciphertext: what is returned is authentic, all of it, exactly when the
length is below 2^32 or cut down to a negative number; at another length the tag of the part that is
processed is accepted.  And for all lengths of a plaintext and of a ciphertext in place of its own:
the latter is rejected, by every cipher whose tag cannot be forged, exactly when their lengths
separate them. -/
theorem authenticates_iff {key : Bytes} (hkey : key.length = 32) :
    (∀ (A : Aead 16) (iv : Bytes), iv.length = 12 → ∀ n,
      ((∀ tag ciphertext, tag.length = 16 → ciphertext.length = n →
        Authenticates A key iv tag ciphertext) ↔ Handled n) ∧
      ∀ tag ciphertext, tag.length = 16 → ciphertext.length = n → ¬ Handled n →
        (Authenticates A key iv tag ciphertext ↔
          (tag = A.tag key iv (ciphertext.take (n % 2 ^ 32)) → tag = A.tag key iv ciphertext ∧
            A.decrypt key iv (ciphertext.take (n % 2 ^ 32)) ++
              List.replicate (n - n % 2 ^ 32) 0 = A.decrypt key iv ciphertext))) ∧
    ∀ m n, (∀ (A : Aead 16) plain ciphertext, plain.length = m → ciphertext.length = n →
      Rejects A key plain ciphertext) ↔ Separated m n := by
  refine ⟨fun A iv hiv n => ⟨⟨fun hauthenticates => ?_, ?_⟩, ?_⟩,
    fun m n => ⟨fun hrejects => ?_, ?_⟩⟩
  · by_contra h
    refine not_authenticates_ones hkey hiv h (hauthenticates _ _ (A.length_tag _ _ _) ?_)
    rw [A.length_encrypt, List.length_replicate]
  · rintro h tag ciphertext htag rfl
    exact authenticates_of_handled hkey hiv htag h
  · rintro tag ciphertext htag rfl h
    rw [authenticates_iff_part hkey hiv htag, imp_iff_right (not_handled.1 h).2]
    rfl
  · by_contra h
    obtain ⟨A, plain, ciphertext, hplain, hciphertext, hnot⟩ := exists_not_rejects hkey h
    exact hnot (hrejects A plain ciphertext hplain hciphertext)
  · rintro h A plain ciphertext rfl rfl
    exact rejects_of_separated hkey h

theorem authenticates_iff_block :
    (∀ tag ciphertext, tag.length = 16 → ciphertext.length = 16 →
      Authenticates zeroKeyGcm zeroKey (List.replicate 12 0) tag ciphertext) ↔ Handled 16 :=
  have hkey : zeroKey.length = 32 := List.length_replicate
  ((authenticates_iff hkey).1 zeroKeyGcm _ List.length_replicate 16).1

/-- The tag of no byte passes for that of 2^32 bytes. -/
theorem not_authenticates_two_pow :
    let iv : Bytes := List.replicate 12 0
    let ciphertext := zeroKeyGcm.encrypt zeroKey iv (List.replicate (2 ^ 32) 1)
    ¬ Authenticates zeroKeyGcm zeroKey iv (zeroKeyGcm.tag zeroKey iv []) ciphertext := by
  have hkey : zeroKey.length = 32 := List.length_replicate
  have hiv : (List.replicate 12 0 : Bytes).length = 12 := List.length_replicate
  have hlarge : ¬ Handled (2 ^ 32) := not_handled.2 (by norm_num)
  have h := not_authenticates_ones (A := zeroKeyGcm) hkey hiv hlarge
  rwa [Nat.mod_self] at h

/-! ## Reads -/

section Reads

/-- The call fails, and does not read what it is given from this source. -/
structure Refuses {α : Type} (m : Evp α) (source : Source) : Prop where
  error : ∃ e, m.result = .error e
  unread : ∀ r ∈ m.reads, r.source ≠ source

/-- No read of the encryption goes past the end, and a key of another length is refused. -/
structure EncryptsWithin (A : Aead 16) (o : OpenSsl) (plain key : Bytes) : Prop where
  within : ∀ r ∈ (encrypt A o plain key).reads, r.Within
  refusesKey : key.length ≠ 32 → Refuses (encrypt A o plain key) .key

/-- No read of the decryption goes past the end, and a key of another length, a short iv and a short
tag are refused. -/
structure DecryptsWithin (A : Aead 16) (o : OpenSsl) (binding : Aes256GcmBinding) (key : Bytes) :
    Prop where
  within : ∀ r ∈ (decrypt A o binding key).reads, r.Within
  refusesKey : key.length ≠ 32 → Refuses (decrypt A o binding key) .key
  refusesIv : binding.iv.length < 12 → Refuses (decrypt A o binding key) .iv
  refusesTag : binding.tag.length < 16 → Refuses (decrypt A o binding key) .tag

theorem within_mk {source : Source} {size count : Nat} :
    Read.Within ⟨source, size, count⟩ ↔ count ≤ size :=
  Iff.rfl

/-- A result that is no value is an error. -/
theorem exists_error {α : Type} {m : Evp α} (h : ∀ a, m.result ≠ .ok a) :
    ∃ e, m.result = .error e := by
  cases hresult : m.result with
  | ok a => exact absurd hresult (h a)
  | error e => exact ⟨e, rfl⟩

theorem encrypt_ne_ok {plain key : Bytes} {call : EvpCall} (h : o.fails call = true)
    (binding : Aes256GcmBinding) : (encrypt A o plain key).result ≠ .ok binding := by
  intro hbinding
  rw [(encrypt_eq_ok.1 hbinding).1 call] at h
  cases h

theorem decrypt_ne_ok {binding : Aes256GcmBinding} {key : Bytes} {call : EvpCall}
    (hcall : call ≠ .randBytes) (h : o.fails call = true) (plain : Bytes) :
    (decrypt A o binding key).result ≠ .ok plain := by
  intro hplain
  rw [(decrypt_eq_ok.1 hplain).1 call hcall] at h
  cases h

/-- A null pointer is refused without a read. -/
theorem refuses_null_key_of_encrypt {plain key : Bytes} (h : o.Null .key key) :
    Refuses (encrypt A o plain key) .key := by
  refine ⟨exists_error fun binding hbinding => not_null_of_encrypt hbinding h, fun r hr => ?_⟩
  obtain ⟨-, -, ⟨hkey, -⟩ | rfl | ⟨-, -, rfl⟩⟩ := mem_reads_encrypt.1 hr
  · exact absurd h hkey
  · exact Source.noConfusion
  · exact Source.noConfusion

theorem refuses_null_key {binding : Aes256GcmBinding} {key : Bytes} (h : o.Null .key key) :
    Refuses (decrypt A o binding key) .key := by
  refine ⟨exists_error fun plain hplain => (not_null_of_decrypt hplain).1 h, fun r hr => ?_⟩
  obtain ⟨-, ⟨hkey, -⟩ | ⟨-, rfl⟩ | ⟨-, ⟨-, rfl⟩ | ⟨-, -, rfl⟩⟩⟩ := mem_reads_decrypt.1 hr
  · exact absurd h hkey
  · exact Source.noConfusion
  · exact Source.noConfusion
  · exact Source.noConfusion

theorem refuses_null_iv {binding : Aes256GcmBinding} {key : Bytes} (h : o.Null .iv binding.iv) :
    Refuses (decrypt A o binding key) .iv := by
  refine ⟨exists_error fun plain hplain => (not_null_of_decrypt hplain).2.1 h, fun r hr => ?_⟩
  obtain ⟨-, ⟨-, rfl⟩ | ⟨hiv, -⟩ | ⟨-, ⟨-, rfl⟩ | ⟨-, -, rfl⟩⟩⟩ := mem_reads_decrypt.1 hr
  · exact Source.noConfusion
  · exact absurd h hiv
  · exact Source.noConfusion
  · exact Source.noConfusion

/-- A null tag is refused, and without a successful update the tag is not set. -/
theorem refuses_tag {binding : Aes256GcmBinding} {key : Bytes}
    (h : o.Null .tag binding.tag ∨ ¬ (o.fails .init = false ∧ o.fails .update = false ∧
      Updates o binding key)) : Refuses (decrypt A o binding key) .tag := by
  constructor
  case error =>
    refine exists_error fun plain hplain => ?_
    obtain ⟨hfails, hlength, ⟨hkey, hiv, htag⟩, -⟩ := decrypt_eq_ok.1 hplain
    rcases h with hnull | h
    · exact htag hnull
    · exact h ⟨hfails _ (by decide), hfails _ (by decide), castInt_nonneg.2 hlength,
        .inr ⟨hkey, hiv⟩⟩
  case unread =>
    intro r hr
    obtain ⟨-, ⟨-, rfl⟩ | ⟨-, rfl⟩ | ⟨hinit, ⟨-, rfl⟩ | ⟨⟨hupdate, hruns⟩, htag, rfl⟩⟩⟩ :=
      mem_reads_decrypt.1 hr
    · exact Source.noConfusion
    · exact Source.noConfusion
    · exact Source.noConfusion
    · rcases h with hnull | h
      · exact absurd hnull htag
      · exact absurd ⟨hinit, hupdate, hruns⟩ h

/-- The encryption stays within its vectors exactly when it does not reach its initialisation, or
the key has the right length or a null pointer. -/
theorem encryptsWithin_iff (A : Aead 16) (o : OpenSsl) (plain key : Bytes) :
    EncryptsWithin A o plain key ↔
      o.fails .ctxNew = true ∨ o.fails .randBytes = true ∨ key.length = 32 ∨ o.Null .key key := by
  constructor
  case mp =>
    intro h
    by_contra hnot
    simp only [not_or, Bool.not_eq_true] at hnot
    obtain ⟨hctx, hrand, hkey, hnull⟩ := hnot
    exact (h.refusesKey hkey).unread _ (mem_reads_encrypt.2 ⟨hctx, hrand, .inl ⟨hnull, rfl⟩⟩) rfl
  case mpr =>
    intro h
    have hfails {call : EvpCall} (hcall : o.fails call = true)
        (hunread : o.fails call ≠ false → (encrypt A o plain key).reads = []) :
        EncryptsWithin A o plain key := by
      have hnone := hunread (by simp [hcall])
      exact ⟨by simp [hnone], fun _ => ⟨exists_error (encrypt_ne_ok hcall), by simp [hnone]⟩⟩
    rcases h with hctx | hrand | hkey
    · refine hfails hctx fun hne => List.eq_nil_iff_forall_not_mem.2 fun r hr => ?_
      exact hne (mem_reads_encrypt.1 hr).1
    · refine hfails hrand fun hne => List.eq_nil_iff_forall_not_mem.2 fun r hr => ?_
      exact hne (mem_reads_encrypt.1 hr).2.1
    · refine ⟨fun r hr => ?_, fun hne => refuses_null_key_of_encrypt (hkey.resolve_left hne)⟩
      obtain ⟨-, -, ⟨hnull, rfl⟩ | rfl | ⟨-, -, rfl⟩⟩ := mem_reads_encrypt.1 hr
      · exact within_mk.2 (hkey.resolve_right hnull).ge
      · exact within_mk.2 (Nat.le_refl 12)
      · exact within_mk.2 (toNat_castInt_le _)

/-- The decryption stays within its vectors exactly when it does not reach its initialisation, or
key, iv and tag are long enough or have null pointers, unless the tag is not reached. -/
theorem decryptsWithin_iff (A : Aead 16) (o : OpenSsl) (binding : Aes256GcmBinding)
    (key : Bytes) :
    DecryptsWithin A o binding key ↔
      o.fails .ctxNew = true ∨ (key.length = 32 ∨ o.Null .key key) ∧
        (12 ≤ binding.iv.length ∨ o.Null .iv binding.iv) ∧
        (16 ≤ binding.tag.length ∨ o.Null .tag binding.tag ∨ o.fails .init = true ∨
          o.fails .update = true ∨ ¬ Updates o binding key) := by
  constructor
  case mp =>
    intro h
    by_cases hctx : o.fails .ctxNew = true
    · exact .inl hctx
    rw [Bool.not_eq_true] at hctx
    refine .inr ⟨?_, ?_, ?_⟩
    · by_contra hnot
      obtain ⟨hkey, hnull⟩ := not_or.1 hnot
      exact (h.refusesKey hkey).unread _ (mem_reads_decrypt.2 ⟨hctx, .inl ⟨hnull, rfl⟩⟩) rfl
    · by_contra hnot
      obtain ⟨hiv, hnull⟩ := not_or.1 hnot
      exact (h.refusesIv (not_le.1 hiv)).unread _
        (mem_reads_decrypt.2 ⟨hctx, .inr (.inl ⟨hnull, rfl⟩)⟩) rfl
    · by_contra hnot
      simp only [not_or, Bool.not_eq_true, not_le, not_not] at hnot
      obtain ⟨htag, hnull, hinit, hupdate, hruns⟩ := hnot
      exact (h.refusesTag htag).unread _ (mem_reads_decrypt.2
        ⟨hctx, .inr (.inr ⟨hinit, .inr ⟨⟨hupdate, hruns⟩, hnull, rfl⟩⟩)⟩) rfl
  case mpr =>
    rintro (hctx | ⟨hkey, hiv, h⟩)
    · have hnone : (decrypt A o binding key).reads = [] := by
        refine List.eq_nil_iff_forall_not_mem.2 fun r hr => ?_
        rw [(mem_reads_decrypt.1 hr).1] at hctx
        cases hctx
      have herror : ∃ e, (decrypt A o binding key).result = .error e :=
        exists_error (decrypt_ne_ok (by decide) hctx)
      have hrefuses (source : Source) : Refuses (decrypt A o binding key) source :=
        ⟨herror, by simp [hnone]⟩
      exact ⟨by simp [hnone], fun _ => hrefuses _, fun _ => hrefuses _, fun _ => hrefuses _⟩
    · -- the tag is long enough, or its pointer is null, or it is not read
      have htag : 16 ≤ binding.tag.length ∨ Refuses (decrypt A o binding key) .tag := by
        refine h.imp_right fun h => refuses_tag (h.imp_right fun h => ?_)
        rintro ⟨hinit, hupdate, hruns⟩
        rw [hinit, hupdate] at h
        simp [hruns] at h
      refine ⟨fun r hr => ?_, fun hne => refuses_null_key (hkey.resolve_left hne),
        fun hlt => refuses_null_iv (hiv.resolve_left hlt.not_ge),
        fun hlt => htag.resolve_left hlt.not_ge⟩
      obtain ⟨-, ⟨hnull, rfl⟩ | ⟨hnull, rfl⟩ | ⟨-, ⟨-, rfl⟩ | ⟨-, -, rfl⟩⟩⟩ :=
        mem_reads_decrypt.1 hr
      · exact within_mk.2 (hkey.resolve_right hnull).ge
      · exact within_mk.2 (hiv.resolve_right hnull)
      · exact within_mk.2 (toNat_castInt_le _)
      · exact within_mk.2 (htag.resolve_right fun hrefuses => hrefuses.unread _ hr rfl)

end Reads

end Prapancha.Security.Crypter
