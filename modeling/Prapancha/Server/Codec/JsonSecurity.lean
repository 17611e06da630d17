import Prapancha.Json.Value
import Prapancha.Security.Hasher
import Prapancha.Server.Codec.Hex

/-!
# JSON codecs of the password bindings

`JsonCodec<Argon2idBinding>` and `JsonCodec<Sha256Binding>`, over any JSON engine, and the text
that they write: an ASCII-only object one level deep.
-/

namespace Prapancha.JsonCodec

open Json Security

variable (J : Engine)

/-- `boost::json::parse`, which throws on a text that is not JSON. -/
def parse (data : Bytes) : Except Exn Value :=
  match J.parse data with
  | some v => .ok v
  | none => .error .malformed

def argon2idObject (binding : Argon2idBinding) : Object :=
  Object.set (Object.set (Object.set (Object.set (Object.set (Object.set []
    (text "v") (.uint64 binding.version.toUInt64))
    (text "m") (.uint64 binding.m.toUInt64))
    (text "t") (.uint64 binding.t.toUInt64))
    (text "p") (.uint64 binding.p.toUInt64))
    (text "salt") (.string (HexCodec.encodeVector binding.salt)))
    (text "hash") (.string (HexCodec.encodeVector binding.hash))

def encodeArgon2id (binding : Argon2idBinding) : Bytes :=
  J.serialize (.object (argon2idObject binding))

/-- `static_cast<std::uint32_t>` of a signed 64-bit integer. -/
def toUInt32 (i : Int64) : UInt32 := i.toUInt64.toUInt32

def decodeArgon2id (data : Bytes) : Option Argon2idBinding := caught do
  let object ← (← parse J data).asObject
  let salt := HexCodec.decodeVector (← (← object.at? (text "salt")).asString)
  let hash := HexCodec.decodeVector (← (← object.at? (text "hash")).asString)
  match salt, hash with
  | some salt, some hash =>
    return some {
      version := toUInt32 (← (← object.at? (text "v")).asInt64)
      m := toUInt32 (← (← object.at? (text "m")).asInt64)
      t := toUInt32 (← (← object.at? (text "t")).asInt64)
      p := toUInt32 (← (← object.at? (text "p")).asInt64)
      salt
      hash }
  | _, _ => return none

def sha256Object (binding : Sha256Binding) : Object :=
  Object.set [] (text "hash") (.string (HexCodec.encodeVector binding.hash))

def encodeSha256 (binding : Sha256Binding) : Bytes := J.serialize (.object (sha256Object binding))

def decodeSha256 (data : Bytes) : Option Sha256Binding := caught do
  let object ← (← parse J data).asObject
  match HexCodec.decodeVector (← (← object.at? (text "hash")).asString) with
  | some hash => return some { hash }
  | none => return none

def encodeBinding : (H : HashAlgorithm) → H.Binding → Bytes
  | .argon2id => encodeArgon2id J
  | .sha256 => encodeSha256 J

def decodeBinding : (H : HashAlgorithm) → Bytes → Option H.Binding
  | .argon2id => decodeArgon2id J
  | .sha256 => decodeSha256 J

/-! ## The encoded text -/

theorem parse_eq_ok {data : Bytes} {v : Value} : parse J data = .ok v ↔ J.parse data = some v := by
  unfold parse
  cases J.parse data <;> simp

theorem storable_argon2idObject (binding : Argon2idBinding) :
    Value.Storable (.object (argon2idObject binding)) :=
  (((((Value.storable_empty.set (.text "v") (.uint64 _) rfl trivial).set
    (.text "m") (.uint64 _) rfl trivial).set
    (.text "t") (.uint64 _) rfl trivial).set
    (.text "p") (.uint64 _) rfl trivial).setString
    (.text "salt") (HexCodec.utf8_encodeVector binding.salt)).setString
    (.text "hash") (HexCodec.utf8_encodeVector binding.hash)

theorem storable_sha256Object (binding : Sha256Binding) :
    Value.Storable (.object (sha256Object binding)) :=
  Value.storable_empty.setString (.text "hash") (HexCodec.utf8_encodeVector binding.hash)

/-- The text of a binding is UTF-8, so that it can be stored as a JSON string. -/
theorem utf8_encodeBinding (H : HashAlgorithm) (binding : H.Binding) :
    Utf8 (encodeBinding J H binding) := by
  cases H with
  | argon2id => exact J.utf8_serialize _ (storable_argon2idObject binding)
  | sha256 => exact J.utf8_serialize _ (storable_sha256Object binding)

/-- A text that parses to anything but an object holds no binding. -/
theorem decodeBinding_eq_none {data : Bytes} {v : Value} (hdata : J.parse data = some v)
    (hv : v.ifObject = none) (H : HashAlgorithm) : decodeBinding J H data = none := by
  have hobject : v.asObject = .error .kind := by
    cases v <;> first | rfl | cases hv
  cases H with
  | argon2id =>
    show decodeArgon2id J data = none
    simp [decodeArgon2id, parse, hdata, hobject]
  | sha256 =>
    show decodeSha256 J data = none
    simp [decodeSha256, parse, hdata, hobject]

end Prapancha.JsonCodec
