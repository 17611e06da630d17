import Prapancha.Server.Codec.JsonModel
import Prapancha.Server.Http
import Prapancha.Server.Persistence

/-!
# Controllers

`BaseController::dispatch`, which runs the policies of a controller before its handler, and the
controllers of the server.  A handler acts on a state, through the sender and, when it registers a
user, through the store.
-/

namespace Prapancha

open Http Security Json

/-! ## Policies -/

namespace Policy

/-- The policies of `RequiredTraits`, each refining the context that the one before it made. -/
inductive Pipeline : Type → Type → Type 1
  | done {α : Type} : Pipeline α α
  | step {α β γ : Type} (execute : α → Except Status β) (rest : Pipeline β γ) : Pipeline α γ

/-- `policy::WithRequest`, which is also the environment with this one capability. -/
structure WithRequest where
  request : Request

def withRequest (request : Request) : Except Status WithRequest := .ok ⟨request⟩

end Policy

open Policy

namespace BaseController

variable {σ : Type}

/-- The recursive lambda of `BaseController::dispatch`. -/
def runner {α γ : Type} (traits : Pipeline α γ) (ctx : α) (handle : γ → Sender σ → σ → σ)
    (sender : Sender σ) : σ → σ :=
  match traits with
  | .done => handle ctx sender
  | .step execute rest =>
    match execute ctx with
    | .error status => sender { status, body := text "Policy Violation!" }
    | .ok next => runner rest next handle sender

def dispatch {γ : Type} (traits : Pipeline Request γ) (handle : γ → Sender σ → σ → σ)
    (request : Request) (sender : Sender σ) : σ → σ :=
  runner traits request handle sender

end BaseController

/-- `std::tuple<policy::WithRequest>`, the `RequiredTraits` of every controller. -/
def requiredTraits : Pipeline Request WithRequest := .step withRequest .done

/-! ## Controllers with a fixed answer -/

section Pages

variable {σ : Type}

/-- A handler that answers every request with one page. -/
def page (status : Status) (body : Bytes) (_ctx : WithRequest) (sender : Sender σ) : σ → σ :=
  let res : Response := { status }
  let res := res.setHeader (text "Content-Type") (text "text/html; charset=utf-8")
  sender { res with body }

def RootController.handle : WithRequest → Sender σ → σ → σ := page .ok (text "प्रपञ्च — Prapancha!")

def StatusController.handle : WithRequest → Sender σ → σ → σ :=
  page .ok (text "प्रपञ्च — Prapancha: अनवरत। Alea iacta est!")

def VoidController.handle : WithRequest → Sender σ → σ → σ :=
  page .notFound (text "प्रपञ्च — Prapancha: शून्यम्। Nihil!")

def DeregistrationController.handle : WithRequest → Sender σ → σ → σ :=
  page .notImplemented (text "प्रपञ्च — Prapancha: 501 NotImplemented!")

def LoginController.handle : WithRequest → Sender σ → σ → σ :=
  page .notImplemented (text "प्रपञ्च — Prapancha: 501 NotImplemented!")

def LogoutController.handle : WithRequest → Sender σ → σ → σ :=
  page .notImplemented (text "प्रपञ्च — Prapancha: 501 NotImplemented!")

end Pages

/-! ## Registration -/

/-- What the handlers act on: the directory of the user store, and the identifiers generated and
the responses sent so far. -/
structure World where
  store : Fs.Directory
  generated : List UUID
  sent : List Response

namespace World

def init : World := ⟨∅, [], []⟩

def send : Sender World := fun response w => { w with sent := w.sent ++ [response] }

end World

/-- What the surroundings of one request do: the hash function, what `UUID::generate` reads, and
the file system during the save. -/
structure Environment (H : HashAlgorithm) where
  hash : Bytes → HashResult H
  draw : Draw
  io : SaveIo

namespace RegistrationController

variable (J : Engine) {H : HashAlgorithm}

def handle (env : Environment H) (ctx : WithRequest) (sender : Sender World) (w : World) : World :=
  let response : Response := {}
  let response := response.setHeader (text "Content-Type") (text "text/html; charset=utf-8")
  match BinaryCodec.decode J ctx.request.body with
  | none =>
    sender { response with
      status := .badRequest, body := text "प्रपञ्च — Prapancha: Invalid Input!" } w
  | some object =>
    match object.ifContains (text "username"), object.ifContains (text "password") with
    | some (.string username), some (.string password) =>
      match env.hash password with
      | .error _ =>
        sender { response with
          status := .internalServerError,
          body := text "प्रपञ्च — Prapancha: Internal Server Error!" } w
      | .ok passwordBinding =>
        let userIdentity :=
          UserIdentity.create env.draw { username, passwordBinding, isAdmin := false }
        let w := { w with
          generated := w.generated ++ [userIdentity.id]
          store := FilePersistence.save (JsonCodec.userIdentityCodec J H) w.store userIdentity env.io }
        sender { response with
          status := .created, body := text "प्रपञ्च — Prapancha: Registration Successful!" } w
    | _, _ =>
      sender { response with
        status := .unprocessableEntity, body := text "प्रपञ्च — Prapancha: Invalid Input!" } w

/-- The request is one that makes the user `u`: its body is an object with two strings, and the
password can be hashed. -/
def Accepts (env : Environment H) (request : Request) (u : UserIdentity H) : Prop :=
  ∃ object username password passwordBinding, BinaryCodec.decode J request.body = some object ∧
    object.ifContains (text "username") = some (.string username) ∧
    object.ifContains (text "password") = some (.string password) ∧
    env.hash password = .ok passwordBinding ∧
    u = UserIdentity.create env.draw { username, passwordBinding, isAdmin := false }

/-- The state after a user has been made and saved. -/
def register (env : Environment H) (u : UserIdentity H) (w : World) : World :=
  { w with
    generated := w.generated ++ [u.id]
    store := FilePersistence.save (JsonCodec.userIdentityCodec J H) w.store u env.io }

/-- What the handler does: it makes and saves a user and answers 201, or answers with an error. -/
theorem handle_cases (env : Environment H) (ctx : WithRequest) (sender : Sender World) (w : World) :
    (∃ response u, response.status = .created ∧ Accepts J env ctx.request u ∧
      handle J env ctx sender w = sender response (register J env u w)) ∨
    ∃ response : Response, response.status.IsError ∧ (∀ u, ¬ Accepts J env ctx.request u) ∧
      handle J env ctx sender w = sender response w := by
  unfold handle
  split
  · next hdecode =>
    refine .inr ⟨_, ?_, ?_, rfl⟩
    · decide
    · rintro u ⟨object, _, _, _, hobject, -⟩
      rw [hdecode] at hobject
      cases hobject
  · next object hdecode =>
    split
    · next username password husername hpassword =>
      split
      · next e hhash =>
        refine .inr ⟨_, ?_, ?_, rfl⟩
        · decide
        · rintro u ⟨object', username', password', binding, hobject, -, hpassword', hhash', -⟩
          rw [hdecode, Option.some.injEq] at hobject
          subst hobject
          rw [hpassword, Option.some.injEq, Value.string.injEq] at hpassword'
          rw [← hpassword', hhash] at hhash'
          cases hhash'
      · next binding hhash =>
        exact .inl ⟨_, _, rfl, ⟨object, username, password, binding, hdecode, husername, hpassword,
          hhash, rfl⟩, rfl⟩
    · next hmembers =>
      refine .inr ⟨_, ?_, ?_, rfl⟩
      · decide
      · rintro u ⟨object', username, password, _, hobject, husername, hpassword, -⟩
        rw [hdecode, Option.some.injEq] at hobject
        subst hobject
        exact hmembers username password husername hpassword

end RegistrationController

end Prapancha
