import Prapancha.Json.Print
import Prapancha.Server.Http

/-!
# The adapter to Beast

`from_beast`, which builds the request of a handler from the message that came in, and `to_beast`,
which builds the message that goes out from its response.  The fields of a message that goes out and
`prepare_payload` are those of the library: a parameter, `Beast`, with what its documentation says
of them.
-/

namespace Prapancha.Http

/-! ## Requests -/

/-- `boost::beast::http::verb`: the verbs that the adapter names, and any other. -/
inductive Verb
  | delete
  | get
  | head
  | options
  | patch
  | post
  | put
  | other (value : Nat)
  deriving DecidableEq

/-- `request<vector_body<uint8_t>>`, its fields in the order in which iterating gives them. -/
structure BeastRequest where
  verb : Verb
  target : Bytes
  version : Nat
  fields : List Header
  body : Bytes
  deriving DecidableEq

def Verb.fromBeast : Verb → Method
  | .delete => .delete
  | .get => .get
  | .head => .head
  | .options => .options
  | .patch => .patch
  | .post => .post
  | .put => .put
  | .other _ => .unknown

def fromBeast (beastRequest : BeastRequest) : Request where
  target := beastRequest.target
  method := beastRequest.verb.fromBeast
  headers := beastRequest.fields.map fun field => ⟨field.name, field.value⟩
  body := beastRequest.body

/-! ## Responses -/

/-- `response<string_body>`, over the container of its fields. -/
structure Message (Fields : Type) where
  version : Nat
  result : Nat
  fields : Fields
  body : Bytes
  deriving DecidableEq

/-- Neither informational, nor 204, nor 304: a message of such a status must have no body. -/
def AllowsBody (result : Nat) : Prop := 200 ≤ result ∧ result ≠ 204 ∧ result ≠ 304

instance (result : Nat) : Decidable (AllowsBody result) := inferInstanceAs (Decidable (_ ∧ _))

theorem Status.allowsBody (status : Status) : AllowsBody status.code := by
  cases status <;> decide

def contentLength : Bytes := text "Content-Length"

def transferEncoding : Bytes := text "Transfer-Encoding"

/-- One of the names that `prepare_payload` writes. -/
def PayloadName (name : Bytes) : Prop :=
  EqualIgnoringCase name contentLength ∨ EqualIgnoringCase name transferEncoding

instance (name : Bytes) : Decidable (PayloadName name) := inferInstanceAs (Decidable (_ ∨ _))

/-- The fields with a name, in any case. -/
def fieldsNamed (name : Bytes) (fields : List Header) : List Header :=
  fields.filter fun h => EqualIgnoringCase h.name name

/-- What the adapter uses of the library; `list` is what iterating over the fields gives. -/
structure Beast where
  Fields : Type
  list : Fields → List Header
  empty : Fields
  list_empty : list empty = []
  set : Bytes → Bytes → Fields → Fields
  /-- All fields with the name are removed, and the new one is inserted. -/
  list_set : ∀ name value fields, (list (set name value fields)).Perm
    (⟨name, value⟩ :: (list fields).filter fun h => ¬EqualIgnoringCase h.name name)
  preparePayload : Message Fields → Message Fields
  /-- The length of the body is added to fields that say nothing about it. -/
  list_preparePayload : ∀ message, AllowsBody message.result →
    (∀ h ∈ list message.fields, ¬PayloadName h.name) →
    ∃ value, (list (preparePayload message).fields).Perm
      (⟨contentLength, value⟩ :: list message.fields)

/-- The loop over the headers of the response. -/
def setAll (B : Beast) (headers : List Header) (fields : B.Fields) : B.Fields :=
  headers.foldl (fun fields h => B.set h.name h.value fields) fields

def toBeast (B : Beast) (response : Response) : Message B.Fields :=
  B.preparePayload {
    version := 11
    result := response.status.code
    fields := setAll B response.headers B.empty
    body := response.body }

/-! ## A library that behaves so -/

/-- `fields::set`, on the list of fields in their order. -/
def setField (name value : Bytes) (fields : List Header) : List Header :=
  (fields.filter fun h => ¬EqualIgnoringCase h.name name) ++ [⟨name, value⟩]

theorem setField_contentLength {fields : List Header}
    (hfields : ∀ h ∈ fields, ¬PayloadName h.name) (value : Bytes) :
    setField contentLength value
      (fields.filter fun h => ¬EqualIgnoringCase h.name transferEncoding) =
        fields ++ [⟨contentLength, value⟩] := by
  rw [setField, List.filter_filter, List.filter_eq_self.2]
  intro h hmem
  have hname := hfields h hmem
  rw [PayloadName, not_or] at hname
  simp [hname]

/-- Fields in a list; a payload of known size is described by its length, and is not chunked. -/
def Beast.ofLists : Beast where
  Fields := List Header
  list fields := fields
  empty := []
  list_empty := rfl
  set := setField
  list_set _ _ _ := List.perm_append_singleton _ _
  preparePayload message :=
    { message with
      fields := setField contentLength (Json.decimal message.body.length)
        (message.fields.filter fun h => ¬EqualIgnoringCase h.name transferEncoding) }
  list_preparePayload message _ hnames :=
    ⟨Json.decimal message.body.length, by
      rw [setField_contentLength hnames]
      exact List.perm_append_singleton _ _⟩

end Prapancha.Http
