import Prapancha.Server.Codec.JsonSecurity
import Prapancha.Server.Model

/-!
# JSON codecs of the models

`encode_model_metadata` and `decode_model_metadata`, and the codecs of the three model types built
on them.  The decoders share their shape: parse, take the object, read the state, read the
metadata.  They differ in what they do when there is no metadata.
-/

namespace Prapancha.JsonCodec

open Json Security

variable (J : Engine)

/-! ## Metadata -/

def encodeModelMetadata (object : Object) (model : BaseModel) : Object :=
  Object.set (Object.set (Object.set object
    (text "id") (.string (HexCodec.encode model.metadata.id)))
    (text "version") (.uint64 model.metadata.version))
    (text "created_at") (.uint64 model.metadata.createdAt.toUInt64)

def decodeModelMetadata (object : Object) : Except Exn (Option Metadata) := do
  match object.ifContains (text "id"), object.ifContains (text "version"),
      object.ifContains (text "created_at") with
  | some id, some version, some createdAt =>
    match HexCodec.decode (← id.asString) with
    | some id =>
      return some {
        id
        version := ← version.asUInt64
        -- `milliseconds` has a signed count: the conversion is modulo 2^64
        createdAt := (← createdAt.asUInt64).toInt64 }
    | none => return none
  | _, _, _ => return none

/-! ## The shared shape of the decoders -/

/-- A decoder of a stored model, given how it reads the state, how it builds the model from
metadata and state, and what it does without metadata. -/
def decodeRecord {M S : Type} (state : Object → Except Exn (Option S))
    (rehydrate : Metadata → S → M) (fallback : S → Option M) (data : Bytes) : Option M := caught do
  match (← parse J data).ifObject with
  | none => return none
  | some object =>
    match ← state object with
    | none => return none
    | some s =>
      match ← decodeModelMetadata object with
      | some metadata => return some (rehydrate metadata s)
      | none => return fallback s

/-! ## UserIdentity -/

def userIdentityObject (H : HashAlgorithm) (u : UserIdentity H) : Object :=
  Object.set (Object.set (Object.set (encodeModelMetadata [] u.toBaseModel)
    (text "username") (.string u.state.username))
    (text "is_admin") (.bool u.state.isAdmin))
    (text "password_binding") (.string (encodeBinding J H u.state.passwordBinding))

def encodeUserIdentity (H : HashAlgorithm) (u : UserIdentity H) : Bytes :=
  J.serialize (.object (userIdentityObject J H u))

def userIdentityState (H : HashAlgorithm) (object : Object) :
    Except Exn (Option (UserIdentity.State H)) := do
  match object.ifContains (text "username"), object.ifContains (text "password_binding"),
      object.ifContains (text "is_admin") with
  | some username, some passwordBinding, some isAdmin =>
    match decodeBinding J H (J.serialize passwordBinding) with
    | some passwordBinding =>
      return some { username := ← username.asString, passwordBinding, isAdmin := ← isAdmin.asBool }
    | none => return none
  | _, _, _ => return none

/-- `JsonCodec<UserIdentity>::decode`: without metadata it creates a user. -/
def decodeUserIdentity (H : HashAlgorithm) (draw : Draw) : Bytes → Option (UserIdentity H) :=
  decodeRecord J (userIdentityState J H) UserIdentity.rehydrate
    fun s => some (UserIdentity.create draw s)

def userIdentityCodec (H : HashAlgorithm) : Codec (UserIdentity H) where
  encode := encodeUserIdentity J H
  decode := decodeUserIdentity J H

/-! ## Author -/

def authorObject (a : Author) : Object :=
  Object.set (Object.set (encodeModelMetadata [] a.toBaseModel)
    (text "display_name") (.string a.state.displayName))
    (text "bio") (.string a.state.bio)

def encodeAuthor (a : Author) : Bytes := J.serialize (.object (authorObject a))

def authorState (object : Object) : Except Exn (Option Author.State) := do
  match object.ifContains (text "display_name"), object.ifContains (text "bio") with
  | some displayName, some bio =>
    return some { displayName := ← displayName.asString, bio := ← bio.asString }
  | _, _ => return none

/-- `JsonCodec<Author>::decode`: without metadata it refuses. -/
def decodeAuthor : Bytes → Option Author :=
  decodeRecord J authorState Author.rehydrate fun _ => none

def authorCodec : Codec Author where
  encode := encodeAuthor J
  decode := fun _ => decodeAuthor J

/-! ## Post -/

def postObject (p : Post) : Object :=
  Object.set (Object.set (Object.set (encodeModelMetadata [] p.toBaseModel)
    (text "author_id") (.string (HexCodec.encode p.state.authorId)))
    (text "title") (.string p.state.title))
    (text "content") (.string p.state.content)

def encodePost (p : Post) : Bytes := J.serialize (.object (postObject p))

def postState (object : Object) : Except Exn (Option Post.State) := do
  match object.ifContains (text "author_id"), object.ifContains (text "title"),
      object.ifContains (text "content") with
  | some authorId, some title, some content =>
    match HexCodec.decode (← authorId.asString) with
    | some authorId =>
      return some { authorId, title := ← title.asString, content := ← content.asString }
    | none => return none
  | _, _, _ => return none

/-- `JsonCodec<Post>::decode`: without metadata it creates a post. -/
def decodePost (draw : Draw) : Bytes → Option Post :=
  decodeRecord J postState Post.rehydrate fun s => some (Post.create draw s)

def postCodec : Codec Post where
  encode := encodePost J
  decode := decodePost J

/-! ## What the decoders accept -/

/-- The three members hold `metadata`, in the kinds that `decode_model_metadata` asks for. -/
structure HasMetadata (object : Object) (metadata : Metadata) : Prop where
  id : ∃ s, object.ifContains (text "id") = some (.string s) ∧ HexCodec.decode s = some metadata.id
  version : object.ifContains (text "version") = some (.uint64 metadata.version)
  createdAt : object.ifContains (text "created_at") = some (.uint64 metadata.createdAt.toUInt64)

/-- A member of the metadata is missing, or the identifier spells no UUID. -/
def NoMetadata (object : Object) : Prop :=
  object.ifContains (text "id") = none ∨ object.ifContains (text "version") = none ∨
    object.ifContains (text "created_at") = none ∨
    ∃ s, object.ifContains (text "id") = some (.string s) ∧ HexCodec.decode s = none

theorem decodeModelMetadata_eq_some {object : Object} {metadata : Metadata} :
    decodeModelMetadata object = .ok (some metadata) ↔ HasMetadata object metadata := by
  constructor
  · intro h
    unfold decodeModelMetadata at h
    split at h
    · next id version createdAt hid hversion hcreated =>
      obtain ⟨s, hs, h⟩ := bind_eq_ok.1 h
      rw [Value.asString_eq_ok] at hs
      split at h
      · next uuid huuid =>
        obtain ⟨v, hv, h⟩ := bind_eq_ok.1 h
        obtain ⟨c, hc, h⟩ := bind_eq_ok.1 h
        rw [Value.asUInt64_eq_ok] at hv hc
        cases h
        exact ⟨⟨s, by rw [hid, hs], huuid⟩, by rw [hversion, hv], by simp [hcreated, hc]⟩
      · cases h
    · cases h
  · rintro ⟨⟨s, hid, huuid⟩, hversion, hcreated⟩
    simp [decodeModelMetadata, hid, hversion, hcreated, huuid, Value.asString, Value.asUInt64, pure,
      Except.pure]

theorem decodeModelMetadata_eq_none {object : Object} :
    decodeModelMetadata object = .ok none ↔ NoMetadata object := by
  constructor
  · intro h
    unfold decodeModelMetadata at h
    split at h
    · next id version createdAt hid hversion hcreated =>
      obtain ⟨s, hs, h⟩ := bind_eq_ok.1 h
      rw [Value.asString_eq_ok] at hs
      split at h
      · next uuid huuid =>
        obtain ⟨v, -, h⟩ := bind_eq_ok.1 h
        obtain ⟨c, -, h⟩ := bind_eq_ok.1 h
        cases h
      · next huuid => exact .inr (.inr (.inr ⟨s, by rw [hid, hs], huuid⟩))
    · next hmissing =>
      unfold NoMetadata
      cases hid : object.ifContains (text "id") with
      | none => exact .inl rfl
      | some id =>
        cases hversion : object.ifContains (text "version") with
        | none => exact .inr (.inl rfl)
        | some version =>
          cases hcreated : object.ifContains (text "created_at") with
          | none => exact .inr (.inr (.inl rfl))
          | some createdAt => exact (hmissing _ _ _ hid hversion hcreated).elim
  · rintro (h | h | h | ⟨s, hid, huuid⟩)
    · simp [decodeModelMetadata, h, pure, Except.pure]
    · simp [decodeModelMetadata, h, pure, Except.pure]
    · simp [decodeModelMetadata, h, pure, Except.pure]
    · unfold decodeModelMetadata
      split
      · next id version createdAt hid' hversion hcreated =>
        rw [hid, Option.some.injEq] at hid'
        subst hid'
        simp [Value.asString, huuid, pure, Except.pure]
      · rfl

/-- What a decoder returns: a model rehydrated from the metadata, or its fallback without any. -/
theorem decodeRecord_eq_some {M S : Type} {state : Object → Except Exn (Option S)}
    {rehydrate : Metadata → S → M} {fallback : S → Option M} {data : Bytes} {m : M} :
    decodeRecord J state rehydrate fallback data = some m ↔
      ∃ object s, J.parse data = some (.object object) ∧ state object = .ok (some s) ∧
        ((∃ metadata, HasMetadata object metadata ∧ m = rehydrate metadata s) ∨
          (NoMetadata object ∧ fallback s = some m)) := by
  rw [decodeRecord, caught_eq_some]
  constructor
  · intro h
    obtain ⟨v, hv, h⟩ := bind_eq_ok.1 h
    rw [parse_eq_ok] at hv
    split at h
    · cases h
    · next object hobject =>
      rw [Value.ifObject_eq_some] at hobject
      subst hobject
      obtain ⟨o, ho, h⟩ := bind_eq_ok.1 h
      cases o with
      | none => cases h
      | some s =>
        refine ⟨object, s, hv, ho, ?_⟩
        obtain ⟨o, hmetadata, h⟩ := bind_eq_ok.1 h
        cases o with
        | some metadata =>
          cases h
          exact .inl ⟨metadata, decodeModelMetadata_eq_some.1 hmetadata, rfl⟩
        | none =>
          refine .inr ⟨decodeModelMetadata_eq_none.1 hmetadata, ?_⟩
          simpa [pure, Except.pure] using h
  · rintro ⟨object, s, hdata, hstate, hmetadata⟩
    rw [(parse_eq_ok J).2 hdata]
    simp only [bind_ok, Value.ifObject, hstate]
    rcases hmetadata with ⟨metadata, hmetadata, rfl⟩ | ⟨hmetadata, hfallback⟩
    · rw [decodeModelMetadata_eq_some.2 hmetadata]
      rfl
    · rw [decodeModelMetadata_eq_none.2 hmetadata, ← hfallback]
      rfl

/-! ## Stored objects -/

/-- The object carries what `encode_model_metadata` wrote. -/
structure Written (object : Object) (metadata : Metadata) : Prop where
  id : object.ifContains (text "id") = some (.string (HexCodec.encode metadata.id))
  version : object.ifContains (text "version") = some (.uint64 metadata.version)
  createdAt : object.ifContains (text "created_at") = some (.uint64 metadata.createdAt.toUInt64)

theorem written_encodeModelMetadata (object : Object) (model : BaseModel) :
    Written (encodeModelMetadata object model) model.metadata where
  id := by
    rw [encodeModelMetadata, Object.ifContains_set_ne (by decide),
      Object.ifContains_set_ne (by decide), Object.ifContains_set_self]
  version := by
    rw [encodeModelMetadata, Object.ifContains_set_ne (by decide), Object.ifContains_set_self]
  createdAt := Object.ifContains_set_self ..

/-- Assigning another member leaves the metadata alone. -/
theorem Written.set {object : Object} {metadata : Metadata} (h : Written object metadata)
    {key : Bytes} (hkey : key ∉ [text "id", text "version", text "created_at"]) (v : Value) :
    Written (object.set key v) metadata := by
  simp only [List.mem_cons, List.not_mem_nil, or_false, not_or] at hkey
  obtain ⟨hid, hversion, hcreated⟩ := hkey
  refine ⟨?_, ?_, ?_⟩
  · rw [Object.ifContains_set_ne hid, h.id]
  · rw [Object.ifContains_set_ne hversion, h.version]
  · rw [Object.ifContains_set_ne hcreated, h.createdAt]

theorem written_userIdentityObject (H : HashAlgorithm) (u : UserIdentity H) :
    Written (userIdentityObject J H u) u.metadata :=
  (((written_encodeModelMetadata [] u.toBaseModel).set (by decide) _).set (by decide) _).set
    (by decide) _

theorem written_authorObject (a : Author) : Written (authorObject a) a.metadata :=
  ((written_encodeModelMetadata [] a.toBaseModel).set (by decide) _).set (by decide) _

theorem written_postObject (p : Post) : Written (postObject p) p.metadata :=
  (((written_encodeModelMetadata [] p.toBaseModel).set (by decide) _).set (by decide) _).set
    (by decide) _

theorem storable_encodeModelMetadata (model : BaseModel) :
    Value.Storable (.object (encodeModelMetadata [] model)) :=
  ((Value.storable_empty.setString (.text "id") (HexCodec.utf8_encode model.metadata.id)).set
    (.text "version") (.uint64 _) rfl trivial).set
    (.text "created_at") (.uint64 _) rfl trivial

theorem storable_userIdentityObject {H : HashAlgorithm} {u : UserIdentity H}
    (husername : Utf8 u.state.username) : Value.Storable (.object (userIdentityObject J H u)) :=
  (((storable_encodeModelMetadata u.toBaseModel).setString (.text "username") husername).set
    (.text "is_admin") (.bool _) rfl trivial).setString
    (.text "password_binding") (utf8_encodeBinding J H u.state.passwordBinding)

theorem storable_authorObject {a : Author} (hname : Utf8 a.state.displayName)
    (hbio : Utf8 a.state.bio) : Value.Storable (.object (authorObject a)) :=
  ((storable_encodeModelMetadata a.toBaseModel).setString (.text "display_name") hname).setString
    (.text "bio") hbio

theorem storable_postObject {p : Post} (htitle : Utf8 p.state.title)
    (hcontent : Utf8 p.state.content) : Value.Storable (.object (postObject p)) :=
  (((storable_encodeModelMetadata p.toBaseModel).setString
    (.text "author_id") (HexCodec.utf8_encode p.state.authorId)).setString
    (.text "title") htitle).setString
    (.text "content") hcontent

end Prapancha.JsonCodec
