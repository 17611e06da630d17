import Prapancha.Server.Model

/-!
# Histories of patches

`UserIdentity`, `Author` and `Post` repeat one design: a base with the metadata, a state, a `patch`
that returns the model itself for its own state and counts the version up for another, and a
`rehydrate` that loses nothing.  What a history of patches does to a model follows from that.
-/

namespace Prapancha

/-- How often a history goes on to a state that is not the one before. -/
def changes {S : Type} [DecidableEq S] (s₀ : S) (states : List S) : Nat :=
  ((s₀ :: states).zip states).countP fun p => p.1 ≠ p.2

section Changes

variable {S : Type} [DecidableEq S]

theorem changes_cons (s₀ s : S) (states : List S) :
    changes s₀ (s :: states) = (if s₀ = s then 0 else 1) + changes s states := by
  unfold changes
  rw [List.zip_cons_cons, List.countP_cons, Nat.add_comm]
  by_cases h : s₀ = s <;> simp [h]

theorem changes_le (s₀ : S) (states : List S) : changes s₀ states ≤ states.length := by
  have hcount := List.countP_le_length (p := fun p : S × S => p.1 ≠ p.2)
    (l := (s₀ :: states).zip states)
  rw [List.length_zip, List.length_cons] at hcount
  unfold changes
  omega

end Changes

/-- What the model types have in common: a base and a state, which a constructor sets together, and
functions that are made from that constructor. -/
structure Patchable (S M : Type) [DecidableEq S] where
  base : M → BaseModel
  state : M → S
  make : BaseModel → S → M
  base_make : ∀ b s, base (make b s) = b
  state_make : ∀ b s, state (make b s) = s
  make_eta : ∀ m, make (base m) (state m) = m
  patch : M → S → M
  patch_eq : ∀ m s, patch m s = if state m = s then m else make (base m).incrementVersion s
  rehydrate : Metadata → S → M
  rehydrate_eq : ∀ metadata s, rehydrate metadata s = make (.ofMetadata metadata) s
  rehydrateFields : UUID → UInt64 → Int64 → S → M
  rehydrateFields_eq : ∀ id v ts s, rehydrateFields id v ts s = make (.ofFields id v ts) s

def UserIdentity.patchable (H : Security.HashAlgorithm) :
    Patchable (UserIdentity.State H) (UserIdentity H) where
  base := UserIdentity.toBaseModel
  state := UserIdentity.state
  make := UserIdentity.mk
  base_make _ _ := rfl
  state_make _ _ := rfl
  make_eta _ := rfl
  patch := UserIdentity.patch
  patch_eq _ _ := rfl
  rehydrate := UserIdentity.rehydrate
  rehydrate_eq _ _ := rfl
  rehydrateFields := UserIdentity.rehydrateFields
  rehydrateFields_eq _ _ _ _ := rfl

def Author.patchable : Patchable Author.State Author where
  base := Author.toBaseModel
  state := Author.state
  make := Author.mk
  base_make _ _ := rfl
  state_make _ _ := rfl
  make_eta _ := rfl
  patch := Author.patch
  patch_eq _ _ := rfl
  rehydrate := Author.rehydrate
  rehydrate_eq _ _ := rfl
  rehydrateFields := Author.rehydrateFields
  rehydrateFields_eq _ _ _ _ := rfl

def Post.patchable : Patchable Post.State Post where
  base := Post.toBaseModel
  state := Post.state
  make := Post.mk
  base_make _ _ := rfl
  state_make _ _ := rfl
  make_eta _ := rfl
  patch := Post.patch
  patch_eq _ _ := rfl
  rehydrate := Post.rehydrate
  rehydrate_eq _ _ := rfl
  rehydrateFields := Post.rehydrateFields
  rehydrateFields_eq _ _ _ _ := rfl

namespace Patchable

variable {S M : Type} [DecidableEq S] (P : Patchable S M)

/-- The model after a history of patches. -/
def patches (m : M) (states : List S) : M := states.foldl P.patch m

/-! ## One patch -/

@[simp] theorem patch_state (m : M) : P.patch m (P.state m) = m := by
  rw [P.patch_eq, if_pos rfl]

theorem patch_of_ne {m : M} {s : S} (h : P.state m ≠ s) :
    P.patch m s = P.make (P.base m).incrementVersion s := by
  rw [P.patch_eq, if_neg h]

@[simp] theorem state_patch (m : M) (s : S) : P.state (P.patch m s) = s := by
  by_cases h : P.state m = s
  · rw [← h, patch_state]
  · rw [P.patch_of_ne h, P.state_make]

theorem patch_patch (m : M) (s : S) : P.patch (P.patch m s) s = P.patch m s := by
  rw [P.patch_eq (P.patch m s) s, if_pos (P.state_patch m s)]

/-- The base after a patch: the same for the same state, and else one version on. -/
theorem base_patch (m : M) (s : S) : P.base (P.patch m s) =
    if P.state m = s then P.base m else (P.base m).incrementVersion := by
  by_cases h : P.state m = s
  · rw [if_pos h, ← h, patch_state]
  · rw [if_neg h, P.patch_of_ne h, P.base_make]

theorem id_patch (m : M) (s : S) : (P.base (P.patch m s)).id = (P.base m).id := by
  rw [base_patch]
  split <;> rfl

theorem createdAt_patch (m : M) (s : S) :
    (P.base (P.patch m s)).createdAt = (P.base m).createdAt := by
  rw [base_patch]
  split <;> rfl

theorem version_patch (m : M) (s : S) : (P.base (P.patch m s)).version =
    (P.base m).version + UInt64.ofNat (if P.state m = s then 0 else 1) := by
  rw [base_patch]
  split
  · exact (UInt64.add_zero _).symm
  · rfl

theorem rehydrate_metadata (m : M) : P.rehydrate (P.base m).metadata (P.state m) = m := by
  rw [P.rehydrate_eq]
  exact P.make_eta m

theorem rehydrateFields_metadata (m : M) : P.rehydrateFields (P.base m).id (P.base m).version
    (P.base m).createdAt (P.state m) = m := by
  rw [P.rehydrateFields_eq]
  exact P.make_eta m

/-! ## Histories -/

theorem patches_cons (m : M) (s : S) (states : List S) :
    P.patches m (s :: states) = P.patches (P.patch m s) states := rfl

theorem patches_append (m : M) (before after : List S) :
    P.patches m (before ++ after) = P.patches (P.patches m before) after := List.foldl_append

theorem state_patches (m : M) (states : List S) :
    P.state (P.patches m states) = states.getLastD (P.state m) := by
  induction states generalizing m with
  | nil => rfl
  | cons s states ih =>
    rw [patches_cons, ih, state_patch, List.getLastD_cons]

theorem id_patches (m : M) (states : List S) :
    (P.base (P.patches m states)).id = (P.base m).id := by
  induction states generalizing m with
  | nil => rfl
  | cons s states ih =>
    rw [patches_cons, ih, id_patch]

theorem createdAt_patches (m : M) (states : List S) :
    (P.base (P.patches m states)).createdAt = (P.base m).createdAt := by
  induction states generalizing m with
  | nil => rfl
  | cons s states ih =>
    rw [patches_cons, ih, createdAt_patch]

/-- The version counts the changes, modulo the width of the counter. -/
theorem version_patches (m : M) (states : List S) : (P.base (P.patches m states)).version =
    (P.base m).version + UInt64.ofNat (changes (P.state m) states) := by
  induction states generalizing m with
  | nil => exact (UInt64.add_zero _).symm
  | cons s states ih =>
    rw [patches_cons, ih, version_patch, state_patch, changes_cons, UInt64.ofNat_add,
      UInt64.add_assoc]

/-! ## What a history leaves -/

/-- The model after a history of patches, against the history. -/
structure Follows (m₀ : M) (s₀ : S) (states : List S) : Prop where
  state : P.state (P.patches m₀ states) = states.getLastD s₀
  id : (P.base (P.patches m₀ states)).id = (P.base m₀).id
  createdAt : (P.base (P.patches m₀ states)).createdAt = (P.base m₀).createdAt
  createdAt_id : (P.base (P.patches m₀ states)).createdAt.toInt =
    (P.base (P.patches m₀ states)).id.timestampMs.toNat
  version : (P.base (P.patches m₀ states)).version.toNat = 1 + changes s₀ states
  rehydrated : ∀ before after, states = before ++ after → ∀ m, m = P.patches m₀ before →
    P.patches (P.rehydrate (P.base m).metadata (P.state m)) after = P.patches m₀ states ∧
    P.patches (P.rehydrateFields (P.base m).id (P.base m).version (P.base m).createdAt
      (P.state m)) after = P.patches m₀ states

/-- What the model type promises for a model created with a state. -/
structure Keeps (m₀ : M) (s₀ : S) : Prop where
  patch_current : ∀ m, P.patch m (P.state m) = m
  patch_twice : ∀ m s, P.patch (P.patch m s) s = P.patch m s
  follows : ∀ states : List S, states.length < 2 ^ 64 - 1 → P.Follows m₀ s₀ states

variable {P}

theorem follows_of_created {uuid : UUID} {m₀ : M} {s₀ : S} (hbase : P.base m₀ = .ofUuid uuid)
    (hstate : P.state m₀ = s₀) {states : List S} (hlength : states.length < 2 ^ 64 - 1) :
    P.Follows m₀ s₀ states where
  state := by rw [P.state_patches, hstate]
  id := P.id_patches m₀ states
  createdAt := P.createdAt_patches m₀ states
  createdAt_id := by
    have hclock := uuid.timestampMs_lt
    rw [P.createdAt_patches, P.id_patches, hbase]
    show uuid.timestampMs.toBitVec.toInt = uuid.timestampMs.toBitVec.toNat
    exact BitVec.toInt_eq_toNat_of_lt (by rw [UInt64.toNat_toBitVec]; omega)
  version := by
    have hchanges := changes_le s₀ states
    rw [P.version_patches, hbase, hstate, UInt64.toNat_add, UInt64.toNat_ofNat']
    show (1 + changes s₀ states % 2 ^ 64) % 2 ^ 64 = _
    omega
  rehydrated := by
    rintro before after rfl m rfl
    rw [P.rehydrate_metadata, P.rehydrateFields_metadata, P.patches_append]
    exact ⟨rfl, rfl⟩

theorem keeps_of_created {uuid : UUID} {m₀ : M} {s₀ : S} (hbase : P.base m₀ = .ofUuid uuid)
    (hstate : P.state m₀ = s₀) : P.Keeps m₀ s₀ where
  patch_current := P.patch_state
  patch_twice := P.patch_patch
  follows _ hlength := follows_of_created hbase hstate hlength

end Patchable

/-- A model of any of the three types, created with a state and patched any number of times, has the
last state, the identifier and the time of its creation, and one version for every change. -/
theorem patch_history :
    (∀ (H : Security.HashAlgorithm) (draw : Draw) (s₀ : UserIdentity.State H),
      (UserIdentity.patchable H).Keeps (UserIdentity.create draw s₀) s₀) ∧
    (∀ {H : Security.HashAlgorithm} (attestation : UserIdentity.Attestation H)
      (s₀ : Author.State), Author.patchable.Keeps (Author.create attestation s₀) s₀) ∧
    ∀ (draw : Draw) (s₀ : Post.State), Post.patchable.Keeps (Post.create draw s₀) s₀ :=
  ⟨fun _ _ _ => Patchable.keeps_of_created rfl rfl,
    fun _ _ => Patchable.keeps_of_created rfl rfl,
    fun _ _ => Patchable.keeps_of_created rfl rfl⟩

/-- A post that gets a title, twice. -/
theorem patch_history_twice :
    (Post.patchable.base (Post.patchable.patches (Post.create default ⟨default, [], []⟩)
      [⟨default, [1], []⟩, ⟨default, [1], []⟩])).version.toNat = 1 + 1 :=
  ((patch_history.2.2 default ⟨default, [], []⟩).follows
    [⟨default, [1], []⟩, ⟨default, [1], []⟩] (by decide)).version

end Prapancha
