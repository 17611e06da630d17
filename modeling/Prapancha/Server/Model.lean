import Prapancha.Security.Hasher
import Prapancha.Server.Uuid

/-!
# Models

`BaseModel` with its four constructors, and the three model types `UserIdentity`, `Author` and
`Post` with `create`, `patch` and `rehydrate`.  A timestamp is a signed count of milliseconds.
-/

namespace Prapancha

open Security (HashAlgorithm)

structure Metadata where
  id : UUID
  version : UInt64
  createdAt : Int64
  deriving DecidableEq

structure BaseModel where
  metadata : Metadata
  deriving DecidableEq

namespace BaseModel

def id (m : BaseModel) : UUID := m.metadata.id

def version (m : BaseModel) : UInt64 := m.metadata.version

def createdAt (m : BaseModel) : Int64 := m.metadata.createdAt

/-- `BaseModel(uuid)`: version 1, created when the identifier was. -/
def ofUuid (uuid : UUID) : BaseModel := ⟨⟨uuid, 1, uuid.timestampMs.toInt64⟩⟩

def incrementVersion (other : BaseModel) : BaseModel :=
  ⟨⟨other.metadata.id, other.metadata.version + 1, other.metadata.createdAt⟩⟩

def ofMetadata (metadata : Metadata) : BaseModel := ⟨metadata⟩

def ofFields (uuid : UUID) (version : UInt64) (createdAt : Int64) : BaseModel :=
  ⟨⟨uuid, version, createdAt⟩⟩

end BaseModel

/-- The `Model` concept: a type derived from `BaseModel`. -/
class Model (M : Type) where
  base : M → BaseModel

def Model.id {M : Type} [Model M] (m : M) : UUID := (Model.base m).id

/-- The `Codec` concept, over byte strings.  A decoder may create a model of its own, and then
calls `UUID::generate`: `decode` takes what that call would read. -/
structure Codec (M : Type) where
  encode : M → Bytes
  decode : Draw → Bytes → Option M

/-! ## UserIdentity -/

structure UserIdentity.State (H : HashAlgorithm) where
  username : Bytes
  passwordBinding : H.Binding
  isAdmin : Bool
  deriving DecidableEq

structure UserIdentity (H : HashAlgorithm) extends BaseModel where
  state : UserIdentity.State H
  deriving DecidableEq

namespace UserIdentity

variable {H : HashAlgorithm}

instance : Model (UserIdentity H) := ⟨UserIdentity.toBaseModel⟩

def create (draw : Draw) (s : State H) : UserIdentity H :=
  ⟨BaseModel.ofUuid (UUID.generate draw), s⟩

def patch (u : UserIdentity H) (nextState : State H) : UserIdentity H :=
  if u.state = nextState then u else ⟨u.toBaseModel.incrementVersion, nextState⟩

def rehydrate (metadata : Metadata) (s : State H) : UserIdentity H :=
  ⟨BaseModel.ofMetadata metadata, s⟩

/-- The overload of `rehydrate` that takes the metadata one by one. -/
def rehydrateFields (id : UUID) (v : UInt64) (ts : Int64) (s : State H) : UserIdentity H :=
  ⟨BaseModel.ofFields id v ts, s⟩

structure Attestation (H : HashAlgorithm) where
  id : UUID

def certify (u : UserIdentity H) : Attestation H := ⟨u.toBaseModel.id⟩

end UserIdentity

/-! ## Author -/

structure Author.State where
  displayName : Bytes
  bio : Bytes
  deriving DecidableEq

structure Author extends BaseModel where
  state : Author.State
  deriving DecidableEq

namespace Author

instance : Model Author := ⟨Author.toBaseModel⟩

/-- `Author::create`: an author has the identifier of the attested user. -/
def create {H : HashAlgorithm} (attestation : UserIdentity.Attestation H) (s : State) : Author :=
  ⟨BaseModel.ofUuid attestation.id, s⟩

def patch (a : Author) (nextState : State) : Author :=
  if a.state = nextState then a else ⟨a.toBaseModel.incrementVersion, nextState⟩

def rehydrate (metadata : Metadata) (s : State) : Author := ⟨BaseModel.ofMetadata metadata, s⟩

def rehydrateFields (id : UUID) (v : UInt64) (ts : Int64) (s : State) : Author :=
  ⟨BaseModel.ofFields id v ts, s⟩

end Author

/-! ## Post -/

structure Post.State where
  authorId : UUID
  title : Bytes
  content : Bytes
  deriving DecidableEq

structure Post extends BaseModel where
  state : Post.State
  deriving DecidableEq

namespace Post

instance : Model Post := ⟨Post.toBaseModel⟩

def create (draw : Draw) (s : State) : Post := ⟨BaseModel.ofUuid (UUID.generate draw), s⟩

def patch (p : Post) (nextState : State) : Post :=
  if p.state = nextState then p else ⟨p.toBaseModel.incrementVersion, nextState⟩

def rehydrate (metadata : Metadata) (s : State) : Post := ⟨BaseModel.ofMetadata metadata, s⟩

def rehydrateFields (id : UUID) (v : UInt64) (ts : Int64) (s : State) : Post :=
  ⟨BaseModel.ofFields id v ts, s⟩

end Post

end Prapancha
