import Prapancha.Json.RoundTrip
import Prapancha.Server.Codec.JsonModel

/-!
# What survives storage

The encoder writes `version` and `created_at` as unsigned integers.  A parser gives an integer that
fits in 63 bits the signed kind, and the decoder insists on the unsigned one: only metadata beyond
that range comes back.  The password binding is written as a string and read back as an object.
-/

namespace Prapancha.JsonCodec

open Json Security

variable (J : Engine)

/-! ## Metadata -/

/-- Serialise an object, parse the text and read the metadata of what comes back. -/
def storedMetadata (object : Object) : Except Exn (Option Metadata) := do
  match (← parse J (J.serialize (.object object))).ifObject with
  | some object => decodeModelMetadata object
  | none => return none

/-- Both stored integers lie beyond the range of `int64`: a version from 2^63 on, a timestamp
before the epoch. -/
def HighMetadata (metadata : Metadata) : Prop :=
  2 ^ 63 ≤ metadata.version.toNat ∧ metadata.createdAt < 0

instance (metadata : Metadata) : Decidable (HighMetadata metadata) :=
  inferInstanceAs (Decidable (_ ∧ _))

theorem ofParsedUInt64_eq_uint64 {u v : UInt64} :
    Value.ofParsedUInt64 u = .uint64 v ↔ u = v ∧ 2 ^ 63 ≤ u.toNat := by
  by_cases h : u.toNat < 2 ^ 63
  · rw [Value.ofParsedUInt64_of_lt h]
    constructor
    · intro hkind
      cases hkind
    · intro hle
      omega
  · have hle := Nat.not_lt.1 h
    rw [Value.ofParsedUInt64_of_le hle]
    simp only [Value.uint64.injEq, hle, and_true]

/-- A timestamp is negative exactly when its unsigned image is beyond the signed range. -/
theorem createdAt_neg_iff (t : Int64) : t < 0 ↔ 2 ^ 63 ≤ t.toUInt64.toNat := by
  have h : t.toInt < 0 ↔ 2 ^ 64 ≤ 2 * t.toBitVec.toNat := BitVec.toInt_neg_iff
  rw [Int64.lt_iff_toInt_lt, Int64.toInt_zero, h]
  show _ ↔ 2 ^ 63 ≤ t.toBitVec.toNat
  omega

/-- Stored metadata reads back as itself when it is high, and not at all otherwise. -/
theorem hasMetadata_rereadMembers {object : Object} {metadata : Metadata}
    (hwritten : Written object metadata) (metadata' : Metadata) :
    HasMetadata (Value.rereadMembers object) metadata' ↔
      metadata' = metadata ∧ HighMetadata metadata := by
  have hid : Object.ifContains (Value.rereadMembers object) (text "id") =
      some (.string (HexCodec.encode metadata.id)) := by
    rw [Value.ifContains_rereadMembers, hwritten.id]; rfl
  have hversion : Object.ifContains (Value.rereadMembers object) (text "version") =
      some (Value.ofParsedUInt64 metadata.version) := by
    rw [Value.ifContains_rereadMembers, hwritten.version]; rfl
  have hcreated : Object.ifContains (Value.rereadMembers object) (text "created_at") =
      some (Value.ofParsedUInt64 metadata.createdAt.toUInt64) := by
    rw [Value.ifContains_rereadMembers, hwritten.createdAt]; rfl
  constructor
  · rintro ⟨⟨s, hs, huuid⟩, hv, hc⟩
    rw [hid, Option.some.injEq, Value.string.injEq] at hs
    rw [hversion, Option.some.injEq, ofParsedUInt64_eq_uint64] at hv
    rw [hcreated, Option.some.injEq, ofParsedUInt64_eq_uint64] at hc
    rw [← hs, HexCodec.decode_encode, Option.some.injEq] at huuid
    refine ⟨?_, hv.2, (createdAt_neg_iff _).2 hc.2⟩
    obtain ⟨id, version, createdAt⟩ := metadata
    obtain ⟨id', version', createdAt'⟩ := metadata'
    have hcreated' : createdAt = createdAt' := by simpa using congrArg UInt64.toInt64 hc.1
    simp only at huuid hv
    rw [huuid, hv.1, hcreated']
  · rintro ⟨rfl, hhigh⟩
    refine ⟨⟨_, hid, HexCodec.decode_encode _⟩, ?_, ?_⟩
    · rw [hversion, ofParsedUInt64_eq_uint64.2 ⟨rfl, hhigh.1⟩]
    · rw [hcreated, ofParsedUInt64_eq_uint64.2 ⟨rfl, (createdAt_neg_iff _).1 hhigh.2⟩]

theorem not_noMetadata_rereadMembers {object : Object} {metadata : Metadata}
    (hwritten : Written object metadata) : ¬ NoMetadata (Value.rereadMembers object) := by
  unfold NoMetadata
  simp only [Value.ifContains_rereadMembers, hwritten.id, hwritten.version, hwritten.createdAt,
    Option.map_some, Value.reread, reduceCtorEq, false_or, Option.some.injEq, Value.string.injEq,
    not_exists, not_and]
  rintro s rfl
  simp

theorem storedMetadata_eq {object : Object} (hstorable : Value.Storable (.object object)) :
    storedMetadata J object = decodeModelMetadata (Value.rereadMembers object) := by
  rw [storedMetadata, (parse_eq_ok J).2 (J.parse_serialize _ hstorable)]
  rfl

theorem storedMetadata_iff {object : Object} {metadata : Metadata}
    (hstorable : Value.Storable (.object object)) (hwritten : Written object metadata) :
    storedMetadata J object = .ok (some metadata) ↔ HighMetadata metadata := by
  rw [storedMetadata_eq J hstorable, decodeModelMetadata_eq_some,
    hasMetadata_rereadMembers hwritten]
  exact and_iff_right rfl

/-- A stored model whose state reads back is decoded exactly when its metadata is high. -/
theorem decodeRecord_stored_iff {M S : Type} {state : Object → Except Exn (Option S)}
    {rehydrate : Metadata → S → M} {fallback : S → Option M} {object : Object} {metadata : Metadata}
    {s : S} (hstorable : Value.Storable (.object object)) (hwritten : Written object metadata)
    (hstate : state (Value.rereadMembers object) = .ok (some s)) :
    decodeRecord J state rehydrate fallback (J.serialize (.object object)) =
        some (rehydrate metadata s) ↔ HighMetadata metadata := by
  have hparse : J.parse (J.serialize (.object object)) =
      some (.object (Value.rereadMembers object)) := J.parse_serialize _ hstorable
  rw [decodeRecord_eq_some]
  constructor
  · rintro ⟨object', s', hobject, -, h⟩
    rw [hparse, Option.some.injEq, Value.object.injEq] at hobject
    subst hobject
    rcases h with ⟨metadata', hmetadata, -⟩ | ⟨hno, -⟩
    · exact ((hasMetadata_rereadMembers hwritten metadata').1 hmetadata).2
    · exact (not_noMetadata_rereadMembers hwritten hno).elim
  · intro hhigh
    exact ⟨_, s, hparse, hstate,
      .inl ⟨metadata, (hasMetadata_rereadMembers hwritten metadata).2 ⟨rfl, hhigh⟩, rfl⟩⟩

theorem authorState_stored (a : Author) :
    authorState (Value.rereadMembers (authorObject a)) = .ok (some a.state) :=
  rfl

theorem postState_stored (p : Post) :
    postState (Value.rereadMembers (postObject p)) = .ok (some p.state) := by
  have hauthor : Object.ifContains (Value.rereadMembers (postObject p)) (text "author_id") =
    some (.string (HexCodec.encode p.state.authorId)) := rfl
  have htitle : Object.ifContains (Value.rereadMembers (postObject p)) (text "title") =
    some (.string p.state.title) := rfl
  have hcontent : Object.ifContains (Value.rereadMembers (postObject p)) (text "content") =
    some (.string p.state.content) := rfl
  simp [postState, hauthor, htitle, hcontent, Value.asString, pure, Except.pure]

/-- For all three model types the metadata survives storage exactly when it is high, and then so do
authors and posts as a whole. -/
theorem storage_keeps_high_metadata :
    (∀ (H : HashAlgorithm) (u : UserIdentity H), Utf8 u.state.username →
      (storedMetadata J (userIdentityObject J H u) = .ok (some u.metadata) ↔
        HighMetadata u.metadata)) ∧
    (∀ a : Author, Utf8 a.state.displayName → Utf8 a.state.bio →
      (storedMetadata J (authorObject a) = .ok (some a.metadata) ↔ HighMetadata a.metadata) ∧
      (decodeAuthor J (encodeAuthor J a) = some a ↔ HighMetadata a.metadata)) ∧
    (∀ (p : Post) (draw : Draw), Utf8 p.state.title → Utf8 p.state.content →
      (storedMetadata J (postObject p) = .ok (some p.metadata) ↔ HighMetadata p.metadata) ∧
      (decodePost J draw (encodePost J p) = some p ↔ HighMetadata p.metadata)) := by
  refine ⟨fun H u husername => ?_, fun a hname hbio => ?_, fun p draw htitle hcontent => ?_⟩
  · exact storedMetadata_iff J (storable_userIdentityObject J husername)
      (written_userIdentityObject J H u)
  · have hstorable := storable_authorObject hname hbio
    have hwritten := written_authorObject a
    exact ⟨storedMetadata_iff J hstorable hwritten,
      decodeRecord_stored_iff J hstorable hwritten (authorState_stored a)⟩
  · have hstorable := storable_postObject htitle hcontent
    have hwritten := written_postObject p
    exact ⟨storedMetadata_iff J hstorable hwritten,
      decodeRecord_stored_iff J hstorable hwritten (postState_stored p)⟩

def firstAuthor : Author := ⟨BaseModel.ofUuid default, { displayName := text "first", bio := [] }⟩

/-- An author with the largest version, created one millisecond before the epoch. -/
def ancientAuthor : Author :=
  Author.rehydrate ⟨default, -1, -1⟩ { displayName := text "ancient", bio := [] }

theorem storage_keeps_ancient :
    decodeAuthor compact (encodeAuthor compact ancientAuthor) = some ancientAuthor :=
  ((storage_keeps_high_metadata compact).2.1 ancientAuthor (by decide) (by decide)).2.2 (by decide)

/-- A newly created author is lost: its version is 1. -/
theorem storage_loses_first :
    Utf8 firstAuthor.state.displayName ∧ Utf8 firstAuthor.state.bio ∧
      firstAuthor.version = 1 ∧
      storedMetadata compact (authorObject firstAuthor) ≠ .ok (some firstAuthor.metadata) ∧
      decodeAuthor compact (encodeAuthor compact firstAuthor) = none := by
  decide +kernel

/-! ## The password binding -/

theorem decodeBinding_string (H : HashAlgorithm) {s : Bytes} (hs : Utf8 s) :
    decodeBinding J H (J.serialize (.string s)) = none :=
  decodeBinding_eq_none J (J.parse_serialize (.string s) hs) rfl H

/-- No binding comes back from its place in a stored user, and no stored user comes back. -/
theorem storage_loses_users (H : HashAlgorithm) :
    (∀ binding : H.Binding,
      decodeBinding J H (J.serialize (.string (encodeBinding J H binding))) = none) ∧
    ∀ (u : UserIdentity H) (draw : Draw), Utf8 u.state.username →
      decodeUserIdentity J H draw (encodeUserIdentity J H u) = none := by
  have hbinding : ∀ binding : H.Binding,
      decodeBinding J H (J.serialize (.string (encodeBinding J H binding))) = none :=
    fun binding => decodeBinding_string J H (utf8_encodeBinding J H binding)
  refine ⟨hbinding, fun u draw husername => ?_⟩
  have hparse : J.parse (encodeUserIdentity J H u) =
      some (.object (Value.rereadMembers (userIdentityObject J H u))) :=
    J.parse_serialize _ (storable_userIdentityObject J husername)
  have hstate :
      userIdentityState J H (Value.rereadMembers (userIdentityObject J H u)) = .ok none := by
    have husername : Object.ifContains (Value.rereadMembers (userIdentityObject J H u))
      (text "username") = some (.string u.state.username) := rfl
    have hpassword : Object.ifContains (Value.rereadMembers (userIdentityObject J H u))
      (text "password_binding") = some (.string (encodeBinding J H u.state.passwordBinding)) := rfl
    have hadmin : Object.ifContains (Value.rereadMembers (userIdentityObject J H u))
      (text "is_admin") = some (.bool u.state.isAdmin) := rfl
    simp only [userIdentityState, husername, hpassword, hadmin, hbinding, pure, Except.pure]
  rw [Option.eq_none_iff_forall_not_mem]
  intro u' hu'
  obtain ⟨object, s, hobject, hs, -⟩ := (decodeRecord_eq_some J).1 hu'
  rw [hparse, Option.some.injEq, Value.object.injEq] at hobject
  rw [← hobject, hstate] at hs
  cases hs

/-- A user whose metadata `decode_model_metadata` accepts. -/
def ancientUser : UserIdentity .sha256 :=
  UserIdentity.rehydrate ⟨default, -1, -1⟩
    { username := text "ancient", passwordBinding := (⟨[0xAB]⟩ : Sha256Binding), isAdmin := false }

theorem storage_loses_ancientUser :
    decodeUserIdentity compact .sha256 default
      (encodeUserIdentity compact .sha256 ancientUser) = none :=
  (storage_loses_users compact .sha256).2 ancientUser _ (by decide)

theorem storage_loses_accepted_user :
    Utf8 ancientUser.state.username ∧
      storedMetadata compact (userIdentityObject compact .sha256 ancientUser) =
        .ok (some ancientUser.metadata) ∧
      decodeUserIdentity compact .sha256 default
        (encodeUserIdentity compact .sha256 ancientUser) = none ∧
      decodeBinding compact .sha256 (compact.serialize
        (.string (encodeBinding compact .sha256 ancientUser.state.passwordBinding))) = none := by
  decide +kernel

/-! ## The identity of a decoded model -/

/-- The model has the identity that the object spells: its UUID, its version, and its timestamp
modulo 2^64, which is how the encoder writes a signed count. -/
structure Spells (object : Object) (model : BaseModel) : Prop where
  id : ∃ s, object.ifContains (text "id") = some (.string s) ∧ HexCodec.decode s = some model.id
  version : ∃ v, object.ifContains (text "version") = some v ∧
    v.toInt? = some model.version.toNat
  createdAt : ∃ v n, object.ifContains (text "created_at") = some v ∧ v.toInt? = some n ∧
    model.createdAt = Int64.ofInt n

/-- The model was created by the decoder: a generated UUID, version 1, the time of generation. -/
def Fresh (draw : Draw) (model : BaseModel) : Prop :=
  model = BaseModel.ofUuid (UUID.generate draw)

theorem spells_of_hasMetadata {object : Object} {metadata : Metadata}
    (h : HasMetadata object metadata) : Spells object (BaseModel.ofMetadata metadata) where
  id := h.id
  version := ⟨_, h.version, rfl⟩
  createdAt := by
    refine ⟨_, _, h.createdAt, rfl, ?_⟩
    show metadata.createdAt = Int64.ofInt ((metadata.createdAt.toUInt64.toNat : Nat) : Int)
    rw [Int64.ofInt_eq_ofNat, ← UInt64.toInt64_ofNat', UInt64.ofNat_toNat, Int64.toInt64_toUInt64]

/-- What a decoder returns, seen through `base`, when that forgets the state. -/
theorem decodeRecord_base {M S : Type} {state : Object → Except Exn (Option S)}
    {rehydrate : Metadata → S → M} {fallback : S → Option M} {data : Bytes} {m : M}
    (base : M → BaseModel)
    (hbase : ∀ metadata s, base (rehydrate metadata s) = .ofMetadata metadata)
    (h : decodeRecord J state rehydrate fallback data = some m) :
    ∃ object, J.parse data = some (.object object) ∧
      (Spells object (base m) ∨ (NoMetadata object ∧ ∃ s, fallback s = some m)) := by
  obtain ⟨object, s, hobject, -, hm⟩ := (decodeRecord_eq_some J).1 h
  refine ⟨object, hobject, ?_⟩
  rcases hm with ⟨metadata, hmetadata, rfl⟩ | ⟨hno, hfallback⟩
  · rw [hbase]
    exact .inl (spells_of_hasMetadata hmetadata)
  · exact .inr ⟨hno, s, hfallback⟩

theorem decodeUserIdentity_base {data : Bytes} {H : HashAlgorithm} {draw : Draw}
    {u : UserIdentity H} (h : decodeUserIdentity J H draw data = some u) :
    ∃ object, J.parse data = some (.object object) ∧
      (Spells object u.toBaseModel ∨ (NoMetadata object ∧ Fresh draw u.toBaseModel)) := by
  obtain ⟨object, hobject, hspells | ⟨hno, s, hs⟩⟩ :=
    decodeRecord_base J UserIdentity.toBaseModel (fun _ _ => rfl) h
  · exact ⟨object, hobject, .inl hspells⟩
  · cases hs
    exact ⟨object, hobject, .inr ⟨hno, rfl⟩⟩

theorem decodePost_base {data : Bytes} {draw : Draw} {p : Post}
    (h : decodePost J draw data = some p) :
    ∃ object, J.parse data = some (.object object) ∧
      (Spells object p.toBaseModel ∨ (NoMetadata object ∧ Fresh draw p.toBaseModel)) := by
  obtain ⟨object, hobject, hspells | ⟨hno, s, hs⟩⟩ :=
    decodeRecord_base J Post.toBaseModel (fun _ _ => rfl) h
  · exact ⟨object, hobject, .inl hspells⟩
  · cases hs
    exact ⟨object, hobject, .inr ⟨hno, rfl⟩⟩

theorem decodeAuthor_base {data : Bytes} {a : Author} (h : decodeAuthor J data = some a) :
    ∃ object, J.parse data = some (.object object) ∧ Spells object a.toBaseModel := by
  obtain ⟨object, hobject, hspells | ⟨-, s, hs⟩⟩ :=
    decodeRecord_base J Author.toBaseModel (fun _ _ => rfl) h
  · exact ⟨object, hobject, hspells⟩
  · cases hs

/-- A decoded model has the identity its text spells, or, for users and posts, it was created
because the text has no metadata. -/
theorem decode_keeps_identity {data : Bytes} {object : Object}
    (hdata : J.parse data = some (.object object)) :
    (∀ (H : HashAlgorithm) (draw : Draw) (u : UserIdentity H),
      decodeUserIdentity J H draw data = some u →
        Spells object u.toBaseModel ∨ (NoMetadata object ∧ Fresh draw u.toBaseModel)) ∧
    (∀ (draw : Draw) (p : Post), decodePost J draw data = some p →
        Spells object p.toBaseModel ∨ (NoMetadata object ∧ Fresh draw p.toBaseModel)) ∧
    (∀ a : Author, decodeAuthor J data = some a → Spells object a.toBaseModel) := by
  have hsame : ∀ {object'}, J.parse data = some (.object object') → object' = object := by
    intro object' hobject'
    rw [hdata, Option.some.injEq, Value.object.injEq] at hobject'
    exact hobject'.symm
  refine ⟨fun H draw u h => ?_, fun draw p h => ?_, fun a h => ?_⟩
  · obtain ⟨object', hobject', h⟩ := decodeUserIdentity_base J h
    rwa [hsame hobject'] at h
  · obtain ⟨object', hobject', h⟩ := decodePost_base J h
    rwa [hsame hobject'] at h
  · obtain ⟨object', hobject', h⟩ := decodeAuthor_base J h
    rwa [hsame hobject'] at h

theorem decode_keeps_ancient :
    Spells (Value.rereadMembers (authorObject ancientAuthor)) ancientAuthor.toBaseModel :=
  (decode_keeps_identity compact
    (compact.parse_serialize _ (storable_authorObject (by decide) (by decide)))).2.2 ancientAuthor
    (by decide +kernel)

def strayPost : Object :=
  [(text "id", .string (text "zz")), (text "version", .int64 7),
    (text "author_id", .string (HexCodec.encode default)), (text "title", .string []),
    (text "content", .string [])]

/-- A decoder does invent an identity, and a timestamp does change its number: `strayPost` decodes
to a post with a generated UUID, and a `created_at` of 2^64 - 1 to a timestamp of -1. -/
theorem decode_can_invent :
    compact.parse (compact.serialize (.object strayPost)) = some (.object strayPost) ∧
      HexCodec.decode (text "zz") = none ∧
      ((decodePost compact default (compact.serialize (.object strayPost))).map
        fun p => (p.id, p.version)) = some (UUID.generate default, 1) ∧
      (Object.ifContains (Value.rereadMembers (authorObject ancientAuthor))
        (text "created_at")).bind Value.toInt? = some (2 ^ 64 - 1) ∧
      ((decodeAuthor compact (encodeAuthor compact ancientAuthor)).map
        fun a => a.createdAt.toInt) = some (-1) := by
  have hstorable : Value.Storable (.object strayPost) :=
    ((((Value.storable_empty.setString (.text "id") (Utf8.text _)).set
      (.text "version") (.int64 _) rfl trivial).setString
      (.text "author_id") (HexCodec.utf8_encode _)).setString
      (.text "title") Utf8.nil).setString
      (.text "content") Utf8.nil
  exact ⟨compact.parse_serialize _ hstorable, by decide +kernel⟩

end Prapancha.JsonCodec
