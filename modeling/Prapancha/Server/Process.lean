import Prapancha.Base.Runs
import Prapancha.Fs.Tree
import Prapancha.Server.Router

/-!
# The process

`PersistenceRegistry`, the static instances of the identity controllers, and the directories of the
file system: what `run` initialises, and what requests find afterwards.  `none` stands for what
follows a null pointer.  Nobody else changes the directories, and no permission is missing.
-/

namespace Prapancha

open Http Security Json Fs

/-- `UserIdentityPersistence`: the alternative of the variant, and the `directory_` in it. -/
structure UserIdentityPersistence where
  algorithm : HashAlgorithm
  directory : Path
  deriving DecidableEq

/-- The controllers that have a static instance for each type of persistence. -/
inductive IdentityController
  | registration
  | deregistration
  | login
  | logout
  deriving DecidableEq

structure Process where
  registry : Option UserIdentityPersistence
  /-- The `directory_` in the persistence of each static instance made so far. -/
  instances : IdentityController → HashAlgorithm → Option Path
  working : Place
  tree : Tree
  sent : List Response

namespace Process

def start (working : Place) (tree : Tree) : Process := ⟨none, fun _ _ => none, working, tree, []⟩

def send : Sender (Option Process) := fun response p =>
  p.map fun p => { p with sent := p.sent ++ [response] }

/-- `PersistenceRegistry::initialize_user_identity`, with the constructor of `FilePersistence`.
When a directory cannot be made that constructor throws, and the registry stays as it is. -/
def initializeUserIdentity (H : HashAlgorithm) (filePath : Path) (p : Process) : Process :=
  let (made, tree) :=
    if p.tree.pathExists p.working filePath then (true, p.tree)
    else p.tree.createDirectories p.working filePath
  { p with
    tree
    registry := if made then some ⟨H, filePath⟩ else p.registry }

/-- The static instance for the alternative in the registry, made of a copy of it the first time. -/
def visit (c : IdentityController) (p : Process) : Option (UserIdentityPersistence × Process) :=
  p.registry.map fun persistence =>
    let H := persistence.algorithm
    let directory := (p.instances c H).getD persistence.directory
    let instances := Function.update (p.instances c) H (some directory)
    (⟨H, directory⟩, { p with instances := Function.update p.instances c instances })

/-! ## Controllers -/

section Controllers

variable (J : Engine) (env : (H : HashAlgorithm) → Environment H)

/-- `ControllerProvider::Identity::registration_controller`.  Where the path does not lead to a
directory no file can be opened. -/
def registrationController (request : Request) (send : Sender (Option Process))
    (p : Option Process) : Option Process :=
  p.bind fun p => (p.visit .registration).bind fun (persistence, p) =>
    let env := env persistence.algorithm
    let handle env store :=
      ControllerProvider.Identity.registrationController J env request World.send ⟨store, [], []⟩
    match p.tree.find p.working persistence.directory with
    | some (place, store) =>
      let w := handle env store
      let tree := Function.update p.tree place (some w.store)
      w.sent.foldl (fun p response => send response p) (some { p with tree })
    | none =>
      let w := handle { env with io := .openFails } ∅
      w.sent.foldl (fun p response => send response p) (some p)

/-- A controller whose handler leaves its persistence alone. -/
def identityController (c : IdentityController)
    (dispatch : Request → Sender (Option Process) → Option Process → Option Process)
    (request : Request) (send : Sender (Option Process)) (p : Option Process) : Option Process :=
  dispatch request send (p.bind fun p => (p.visit c).map (·.2))

def routes : List (Route (Option Process)) := [
  ⟨text "/", .get, ControllerProvider.rootController⟩,
  ⟨text "/api/v1/status", .get, ControllerProvider.statusController⟩,
  ⟨text "/api/v1/register", .post, registrationController J env⟩,
  ⟨text "/api/v1/deregister", .delete,
    identityController .deregistration ControllerProvider.Identity.deregistrationController⟩,
  ⟨text "/api/v1/login", .post,
    identityController .login ControllerProvider.Identity.loginController⟩,
  ⟨text "/api/v1/logout", .post,
    identityController .logout ControllerProvider.Identity.logoutController⟩]

def dispatch (request : Request) (p : Process) : Option Process :=
  Router.dispatch ControllerProvider.voidController (routes J env) request send (some p)

end Controllers

/-! ## Steps -/

inductive Event
  | initializes (H : HashAlgorithm) (filePath : Path)
  | dispatches (request : Request) (env : (H : HashAlgorithm) → Environment H)

inductive Step (J : Engine) : Process → Event → Process → Prop
  | initializes {p : Process} (H : HashAlgorithm) (filePath : Path) :
    Step J p (.initializes H filePath) (p.initializeUserIdentity H filePath)
  | dispatches {p p' : Process} {request : Request} {env : (H : HashAlgorithm) → Environment H} :
    dispatch J env request p = some p' → Step J p (.dispatches request env) p'

end Process

end Prapancha
