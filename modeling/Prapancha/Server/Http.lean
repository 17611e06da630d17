import Prapancha.Base.CString
import Prapancha.Json.Value

/-!
# Requests and responses

The HTTP data that handlers see, and the decoder that they use for JSON bodies.
-/

namespace Prapancha

namespace Http

inductive Method
  | delete
  | get
  | head
  | options
  | patch
  | post
  | put
  | unknown
  deriving DecidableEq, Repr

structure MethodTraits where
  name : Bytes
  isSafe : Bool
  isIdempotent : Bool
  deriving DecidableEq

def Method.getTraits : Method → MethodTraits
  | .delete => ⟨text "DELETE", false, true⟩
  | .get => ⟨text "GET", true, true⟩
  | .head => ⟨text "HEAD", true, true⟩
  | .options => ⟨text "OPTIONS", true, true⟩
  | .patch => ⟨text "PATCH", false, false⟩
  | .post => ⟨text "POST", false, false⟩
  | .put => ⟨text "PUT", false, true⟩
  | .unknown => ⟨text "UNKNOWN", false, false⟩

inductive Status
  | ok
  | created
  | badRequest
  | unauthorized
  | forbidden
  | notFound
  | conflict
  | unprocessableEntity
  | internalServerError
  | notImplemented
  deriving DecidableEq, Repr

def Status.code : Status → Nat
  | .ok => 200
  | .created => 201
  | .badRequest => 400
  | .unauthorized => 401
  | .forbidden => 403
  | .notFound => 404
  | .conflict => 409
  | .unprocessableEntity => 422
  | .internalServerError => 500
  | .notImplemented => 501

def Status.IsError (status : Status) : Prop := 400 ≤ status.code

instance (status : Status) : Decidable status.IsError := inferInstanceAs (Decidable (_ ≤ _))

structure Header where
  name : Bytes
  value : Bytes
  deriving DecidableEq

structure Request where
  method : Method
  target : Bytes
  headers : List Header
  body : Bytes
  deriving DecidableEq

/-- `Request::header`. -/
def Request.header (request : Request) (name : StringView) : Option Bytes :=
  let (combined, found) := request.headers.foldl (fun (combined, found) h =>
    if h.name.length = name.size ∧ strcasecmp h.name name.data = 0 then
      ((if combined ≠ [] then combined ++ text ", " else combined) ++ h.value, true)
    else (combined, found)) ([], false)
  if found then some combined else none

structure Response where
  status : Status := .ok
  headers : List Header := []
  body : Bytes := []
  deriving DecidableEq

def Response.setHeader (response : Response) (name value : Bytes) : Response :=
  { response with headers := response.headers ++ [⟨name, value⟩] }

/-- The function that a handler answers through, as it acts on a state. -/
abbrev Sender (σ : Type) := Response → σ → σ

end Http

namespace BinaryCodec

open Json

def encode (J : Engine) (jsonObject : Object) : Bytes := J.serialize (.object jsonObject)

def decode (J : Engine) (data : Bytes) : Option Object :=
  if data = [] then none
  else match J.parse data with
    | some value => if value.isObject then value.ifObject else none
    | none => none

theorem parse_of_decode {J : Engine} {data : Bytes} {object : Object}
    (h : decode J data = some object) : J.parse data = some (.object object) := by
  unfold decode at h
  split at h
  · cases h
  · split at h
    · next value hparse =>
      split at h
      · rw [Value.ifObject_eq_some] at h
        rw [hparse, h]
      · cases h
    · cases h

/-- What was encoded is read back, with its numbers as the parser reads them. -/
theorem decode_encode {J : Engine} (hempty : J.parse [] = none) {o : Object}
    (ho : Value.Storable (.object o)) : decode J (encode J o) = some (Value.rereadMembers o) := by
  have hparse : J.parse (encode J o) = some (.object (Value.rereadMembers o)) :=
    J.parse_serialize _ ho
  have hne : encode J o ≠ [] := by
    intro hnil
    rw [hnil, hempty] at hparse
    cases hparse
  rw [decode, if_neg hne, hparse]
  rfl

end BinaryCodec

end Prapancha
