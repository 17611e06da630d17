import Mathlib.Tactic.NormNum
import Prapancha.Json.RoundTrip
import Prapancha.Server.Codec.JsonSecurity
import Prapancha.Verify.HexGrammar

/-!
# Stored password bindings

What the decoders of the bindings accept.  A parameter is read as a signed 64-bit integer and
narrowed to 32 bits, so a text that states a parameter out of range is accepted with another one.
What the encoders write states its parameters in range: every binding comes back.
-/

namespace Prapancha.JsonCodec

open Json Security

variable (J : Engine)

/-! ## What a text states -/

/-- The member is an integer, and the parameter equals it. -/
def StatesParameter (object : Object) (key : Bytes) (parameter : UInt32) : Prop :=
  ∃ v, object.ifContains key = some v ∧ v.toInt? = some parameter.toNat

/-- The member is a string that spells the bytes. -/
def StatesBytes (object : Object) (key bytes : Bytes) : Prop :=
  ∃ s, object.ifContains key = some (.string s) ∧ HexCodec.Denotes s bytes

structure StatesBinding (object : Object) (binding : Argon2idBinding) : Prop where
  version : StatesParameter object (text "v") binding.version
  m : StatesParameter object (text "m") binding.m
  t : StatesParameter object (text "t") binding.t
  p : StatesParameter object (text "p") binding.p
  salt : StatesBytes object (text "salt") binding.salt
  hash : StatesBytes object (text "hash") binding.hash

/-- The decoder returns the binding that a text states, and nothing for any other text. -/
def DecodesAsStated (data : Bytes) : Prop :=
  ∀ binding, decodeArgon2id J data = some binding ↔
    ∃ object, J.parse data = some (.object object) ∧ StatesBinding object binding

/-! ## What the decoder reads -/

def ReadsParameter (object : Object) (key : Bytes) (parameter : UInt32) : Prop :=
  ∃ i : Int64, object.ifContains key = some (.int64 i) ∧ toUInt32 i = parameter

structure ReadsBinding (object : Object) (binding : Argon2idBinding) : Prop where
  version : ReadsParameter object (text "v") binding.version
  m : ReadsParameter object (text "m") binding.m
  t : ReadsParameter object (text "t") binding.t
  p : ReadsParameter object (text "p") binding.p
  salt : StatesBytes object (text "salt") binding.salt
  hash : StatesBytes object (text "hash") binding.hash

theorem decodeArgon2id_eq_some {data : Bytes} {binding : Argon2idBinding} :
    decodeArgon2id J data = some binding ↔
      ∃ object, J.parse data = some (.object object) ∧ ReadsBinding object binding := by
  rw [decodeArgon2id, caught_eq_some]
  constructor
  · intro h
    simp only [bind_eq_ok, Object.at?_eq_ok, Value.asObject_eq_ok, Value.asString_eq_ok,
      parse_eq_ok] at h
    obtain ⟨_, hparse, object, rfl, _, hsalt, salt, rfl, _, hhash, hash, rfl, h⟩ := h
    split at h
    · next saltBytes hashBytes hsaltBytes hhashBytes =>
      simp only [bind_eq_ok, Object.at?_eq_ok, Value.asInt64_eq_ok] at h
      obtain ⟨_, hv, v, rfl, _, hm, m, rfl, _, ht, t, rfl, _, hp, p, rfl, h⟩ := h
      cases h
      exact ⟨object, hparse, ⟨v, hv, rfl⟩, ⟨m, hm, rfl⟩, ⟨t, ht, rfl⟩, ⟨p, hp, rfl⟩,
        ⟨salt, hsalt, HexCodec.decodeVector_eq_some.1 hsaltBytes⟩,
        ⟨hash, hhash, HexCodec.decodeVector_eq_some.1 hhashBytes⟩⟩
    · cases h
  · rintro ⟨object, hparse, ⟨v, hv, hversion⟩, ⟨m, hm, hmemory⟩, ⟨t, ht, htime⟩, ⟨p, hp, hlanes⟩,
      ⟨salt, hsalt, hsaltBytes⟩, ⟨hash, hhash, hhashBytes⟩⟩
    rw [← HexCodec.decodeVector_eq_some] at hsaltBytes hhashBytes
    simp [(parse_eq_ok J).2 hparse, Object.at?, Value.asObject, Value.asString, Value.asInt64,
      hsalt, hhash, hsaltBytes, hhashBytes, hv, hm, ht, hp, hversion, hmemory, htime, hlanes, pure,
      Except.pure]

/-! ## Narrowed parameters -/

theorem toNat_toUInt32 (i : Int64) : ((toUInt32 i).toNat : Int) = i.toInt % 2 ^ 32 := by
  have hnat : (toUInt32 i).toNat = i.toBitVec.toNat % 2 ^ 32 := rfl
  have hint : i.toInt = i.toBitVec.toInt := rfl
  rw [hnat, hint, BitVec.toInt_eq_toNat_cond]
  split <;> omega

theorem toUInt32_eq_iff {i : Int64} (hi : 0 ≤ i.toInt ∧ i.toInt < 2 ^ 32) {parameter : UInt32} :
    toUInt32 i = parameter ↔ i.toInt = parameter.toNat := by
  have hmod := toNat_toUInt32 i
  rw [Int.emod_eq_of_lt hi.1 hi.2] at hmod
  rw [← UInt32.toNat_inj]
  omega

def InRange (i : Int64) : Prop := 0 ≤ i.toInt ∧ i.toInt < 2 ^ 32

/-- A parsed member states a parameter if it has the kind that is read and is in range. -/
theorem statesParameter_iff {object : Object} (hobject : Value.Parsed (.object object))
    {key : Bytes} {parameter : UInt32} : StatesParameter object key parameter ↔
      ∃ i : Int64, object.ifContains key = some (.int64 i) ∧ InRange i ∧
        toUInt32 i = parameter := by
  have hlt := parameter.toNat_lt
  constructor
  · rintro ⟨v, hv, hvalue⟩
    cases v with
    | int64 i =>
      have hi : i.toInt = parameter.toNat := Option.some.inj hvalue
      have hrange : InRange i := ⟨by omega, by omega⟩
      exact ⟨i, hv, hrange, (toUInt32_eq_iff hrange).2 hi⟩
    | uint64 u =>
      have hu : 2 ^ 63 ≤ u.toNat := (hobject.2 _ (Object.mem_of_ifContains hv)).2
      have hparameter : (u.toNat : Int) = parameter.toNat := Option.some.inj hvalue
      omega
    | _ => cases hvalue
  · rintro ⟨i, hi, hrange, hparameter⟩
    exact ⟨_, hi, congrArg some ((toUInt32_eq_iff hrange).1 hparameter)⟩

/-! ## Which texts are decoded as they state -/

def parameterKeys : List Bytes := [text "v", text "m", text "t", text "p"]

/-- The six members are there, in the kinds that the decoder asks for. -/
structure Readable (object : Object) : Prop where
  parameter : ∀ key ∈ parameterKeys, ∃ i : Int64, object.ifContains key = some (.int64 i)
  bytes : ∀ key ∈ [text "salt", text "hash"],
    ∃ s, object.ifContains key = some (.string s) ∧ HexCodec.IsHex s

/-- If the text is an object with the six members in the right kinds, then its parameters fit into
32 bits. -/
def ParametersFit (data : Bytes) : Prop :=
  ∀ object : Object, J.parse data = some (.object object) → Readable object →
    ∀ key ∈ parameterKeys, ∀ i, object.ifContains key = some (.int64 i) → InRange i

theorem ReadsBinding.readable {object : Object} {binding : Argon2idBinding}
    (h : ReadsBinding object binding) : Readable object where
  parameter := by
    have some_of {key : Bytes} {parameter : UInt32} (hread : ReadsParameter object key parameter) :
        ∃ i : Int64, object.ifContains key = some (.int64 i) :=
      ⟨hread.choose, hread.choose_spec.1⟩
    simp only [parameterKeys, List.forall_mem_cons, List.not_mem_nil, false_imp_iff,
      implies_true, and_true]
    exact ⟨some_of h.version, some_of h.m, some_of h.t, some_of h.p⟩
  bytes := by
    have some_of {key bytes : Bytes} (hstates : StatesBytes object key bytes) :
        ∃ s, object.ifContains key = some (.string s) ∧ HexCodec.IsHex s :=
      ⟨hstates.choose, hstates.choose_spec.1, hstates.choose_spec.2.isHex⟩
    simp only [List.forall_mem_cons, List.not_mem_nil, false_imp_iff, implies_true, and_true]
    exact ⟨some_of h.salt, some_of h.hash⟩

theorem Readable.exists_readsBinding {object : Object} (h : Readable object) :
    ∃ binding, ReadsBinding object binding := by
  obtain ⟨hparameter, hbytes⟩ := h
  simp only [parameterKeys, List.forall_mem_cons, List.not_mem_nil, false_imp_iff, implies_true,
    and_true] at hparameter hbytes
  obtain ⟨⟨v, hv⟩, ⟨m, hm⟩, ⟨t, ht⟩, ⟨p, hp⟩⟩ := hparameter
  obtain ⟨⟨salt, hsalt, hsaltHex⟩, ⟨hash, hhash, hhashHex⟩⟩ := hbytes
  obtain ⟨saltBytes, hsaltBytes⟩ := HexCodec.exists_denotes hsaltHex
  obtain ⟨hashBytes, hhashBytes⟩ := HexCodec.exists_denotes hhashHex
  exact ⟨⟨toUInt32 v, toUInt32 m, toUInt32 t, toUInt32 p, saltBytes, hashBytes⟩, ⟨v, hv, rfl⟩,
    ⟨m, hm, rfl⟩, ⟨t, ht, rfl⟩, ⟨p, hp, rfl⟩, ⟨salt, hsalt, hsaltBytes⟩, ⟨hash, hhash, hhashBytes⟩⟩

theorem statesBinding_iff {object : Object} (hobject : Value.Parsed (.object object))
    {binding : Argon2idBinding} : StatesBinding object binding ↔ ReadsBinding object binding ∧
      ∀ key ∈ parameterKeys, ∀ i, object.ifContains key = some (.int64 i) → InRange i := by
  have parameter {key : Bytes} {parameter : UInt32} : StatesParameter object key parameter ↔
      ReadsParameter object key parameter ∧
        ∀ i, object.ifContains key = some (.int64 i) → InRange i := by
    rw [statesParameter_iff hobject]
    constructor
    · rintro ⟨i, hi, hrange, hparameter⟩
      refine ⟨⟨i, hi, hparameter⟩, fun i' hi' => ?_⟩
      rw [hi, Option.some.injEq, Value.int64.injEq] at hi'
      rwa [← hi']
    · rintro ⟨⟨i, hi, hparameter⟩, hrange⟩
      exact ⟨i, hi, hrange i hi, hparameter⟩
  simp only [parameterKeys, List.forall_mem_cons, List.not_mem_nil, false_imp_iff, implies_true,
    and_true]
  constructor
  · intro h
    obtain ⟨hv, hvRange⟩ := parameter.1 h.version
    obtain ⟨hm, hmRange⟩ := parameter.1 h.m
    obtain ⟨ht, htRange⟩ := parameter.1 h.t
    obtain ⟨hp, hpRange⟩ := parameter.1 h.p
    exact ⟨⟨hv, hm, ht, hp, h.salt, h.hash⟩, hvRange, hmRange, htRange, hpRange⟩
  · rintro ⟨h, hv, hm, ht, hp⟩
    exact ⟨parameter.2 ⟨h.version, hv⟩, parameter.2 ⟨h.m, hm⟩, parameter.2 ⟨h.t, ht⟩,
      parameter.2 ⟨h.p, hp⟩, h.salt, h.hash⟩

theorem decodesAsStated_iff {data : Bytes} : DecodesAsStated J data ↔ ParametersFit J data := by
  constructor
  · intro h object hparse hreadable
    obtain ⟨binding, hbinding⟩ := hreadable.exists_readsBinding
    obtain ⟨object', hparse', hstates⟩ :=
      (h binding).1 ((decodeArgon2id_eq_some J).2 ⟨object, hparse, hbinding⟩)
    rw [hparse, Option.some.injEq, Value.object.injEq] at hparse'
    subst hparse'
    exact ((statesBinding_iff (J.parsed_parse hparse)).1 hstates).2
  · intro h binding
    rw [decodeArgon2id_eq_some]
    refine exists_congr fun object => and_congr_right fun hparse => ?_
    rw [statesBinding_iff (J.parsed_parse hparse)]
    exact ⟨fun hreads => ⟨hreads, h object hparse hreads.readable⟩, And.left⟩

/-- A text that states a memory cost of 2^32 + 8. -/
def costlyText : Bytes :=
  text "\x7b\"v\":19,\"m\":4294967304,\"t\":3,\"p\":4,\"salt\":\"\",\"hash\":\"ab\"\x7d"

/-- It is read as a binding with a memory cost of 8. -/
theorem costlyText_not_decodesAsStated : ¬ DecodesAsStated compact costlyText ∧
    ((compact.parse costlyText).bind Value.ifObject).bind
      (fun object => (object.ifContains (text "m")).bind Value.toInt?) = some 4294967304 ∧
    decodeArgon2id compact costlyText = some ⟨19, 8, 3, 4, [], [0xAB]⟩ := by
  have hstated : ((compact.parse costlyText).bind Value.ifObject).bind
      (fun object => (object.ifContains (text "m")).bind Value.toInt?) = some 4294967304 := by
    decide +kernel
  have hdecode : decodeArgon2id compact costlyText = some ⟨19, 8, 3, 4, [], [0xAB]⟩ := by
    decide +kernel
  refine ⟨fun h => ?_, hstated, hdecode⟩
  obtain ⟨object, hparse, hobject⟩ := (h _).1 hdecode
  obtain ⟨v, hv, hvalue⟩ := hobject.m
  rw [hparse, Option.bind_some, Value.ifObject, Option.bind_some, hv, Option.bind_some,
    hvalue] at hstated
  revert hstated
  decide

/-! ## Round trips -/

theorem toUInt32_toInt64 (u : UInt32) : toUInt32 u.toUInt64.toInt64 = u := by
  simp [toUInt32]

theorem readsBinding_stored (binding : Argon2idBinding) :
    ReadsBinding (Value.rereadMembers (argon2idObject binding)) binding := by
  have parameter {key : Bytes} {u : UInt32}
      (h : Object.ifContains (argon2idObject binding) key = some (.uint64 u.toUInt64)) :
      ReadsParameter (Value.rereadMembers (argon2idObject binding)) key u := by
    have hlt : u.toUInt64.toNat < 2 ^ 63 := lt_trans u.toNat_lt (by norm_num)
    refine ⟨u.toUInt64.toInt64, ?_, toUInt32_toInt64 u⟩
    rw [Value.ifContains_rereadMembers, h, Option.map_some, Value.reread,
      Value.ofParsedUInt64_of_lt hlt]
  have bytes {key bytes : Bytes} (h : Object.ifContains (argon2idObject binding) key =
      some (.string (HexCodec.encodeVector bytes))) :
      StatesBytes (Value.rereadMembers (argon2idObject binding)) key bytes :=
    ⟨HexCodec.encodeVector bytes, by rw [Value.ifContains_rereadMembers, h]; rfl,
      HexCodec.decodeVector_eq_some.1 (HexCodec.decodeVector_encodeVector bytes)⟩
  exact ⟨parameter rfl, parameter rfl, parameter rfl, parameter rfl, bytes rfl, bytes rfl⟩

def bindingObject : (H : HashAlgorithm) → H.Binding → Object
  | .argon2id => argon2idObject
  | .sha256 => sha256Object

theorem encodeBinding_eq (H : HashAlgorithm) (binding : H.Binding) :
    encodeBinding J H binding = J.serialize (.object (bindingObject H binding)) := by
  cases H <;> rfl

theorem storable_bindingObject (H : HashAlgorithm) (binding : H.Binding) :
    Value.Storable (.object (bindingObject H binding)) := by
  cases H with
  | argon2id => exact storable_argon2idObject binding
  | sha256 => exact storable_sha256Object binding

theorem decodeBinding_of_parse {H : HashAlgorithm} {binding : H.Binding} {data : Bytes}
    (hdata : J.parse data = some (.object (Value.rereadMembers (bindingObject H binding)))) :
    decodeBinding J H data = some binding := by
  cases H with
  | argon2id => exact (decodeArgon2id_eq_some J).2 ⟨_, hdata, readsBinding_stored binding⟩
  | sha256 =>
    have hhash : Object.at? (Value.rereadMembers (bindingObject .sha256 binding)) (text "hash") =
        .ok (.string (HexCodec.encodeVector (binding : Sha256Binding).hash)) := rfl
    show decodeSha256 J data = some ⟨(binding : Sha256Binding).hash⟩
    simp [decodeSha256, (parse_eq_ok J).2 hdata, Value.asObject, hhash, Value.asString, pure,
      Except.pure]

/-- Every binding comes back from its text, so that two bindings never share one. -/
theorem bindings_come_back (H : HashAlgorithm) :
    (∀ binding : H.Binding, decodeBinding J H (encodeBinding J H binding) = some binding) ∧
      Function.Injective (encodeBinding J H) := by
  have hback (binding : H.Binding) :
      decodeBinding J H (encodeBinding J H binding) = some binding := by
    rw [encodeBinding_eq]
    exact decodeBinding_of_parse J (J.parse_serialize _ (storable_bindingObject H binding))
  refine ⟨hback, fun b b' h => ?_⟩
  have hb := hback b
  rwa [h, hback b', Option.some.injEq, eq_comm] at hb

end Prapancha.JsonCodec
