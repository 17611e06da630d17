import Prapancha.Json.Print
import Prapancha.Logging.LogLevel
import Prapancha.Server.Router

/-!
# The effects of a request

The handlers once more, with all that they do to their surroundings: the lines that they log, the
users that they save and the responses that they send, in order.  Performing the effects on a state
is what `AppRouter::dispatch` does to it.
-/

namespace Prapancha

open Http Security Json Policy Logging

inductive Effect (H : HashAlgorithm)
  | log (level : LogLevel) (msg : Bytes)
  | save (u : UserIdentity H)
  | send (response : Response)
  deriving DecidableEq

abbrev Effects (H : HashAlgorithm) := List (Effect H)

namespace Effects

variable {H : HashAlgorithm}

def log (level : LogLevel) (msg : Bytes) (es : Effects H) : Effects H := es ++ [.log level msg]

def save (u : UserIdentity H) (es : Effects H) : Effects H := es ++ [.save u]

def send : Sender (Effects H) := fun response es => es ++ [.send response]

/-- A handler, as it adds to the effects so far. -/
abbrev Handler (H : HashAlgorithm) :=
  WithRequest → Sender (Effects H) → Effects H → Effects H

/-! ## Controllers -/

/-- `BaseController::dispatch`, which logs before it runs the policies. -/
def dispatch (controllerName : Bytes) (handle : Handler H) (request : Request)
    (sender : Sender (Effects H)) (es : Effects H) : Effects H :=
  let es := es.log .info (text "Dispatch [" ++ controllerName ++ text "] " ++
    request.method.getTraits.name ++ text " " ++ request.target ++ text " (" ++
    decimal request.body.length ++ text " bytes).")
  BaseController.dispatch requiredTraits handle request sender es

def VoidController.handle : Handler H := fun ctx sender es =>
  let es := es.log .warn (text "प्रपञ्च — Prapancha: Void → [" ++
    ctx.request.method.getTraits.name ++ text " " ++ ctx.request.target ++ text "]")
  Prapancha.VoidController.handle ctx sender es

/-- A handler that logs that the controller is not implemented, and answers so. -/
def notImplemented (controllerName : Bytes) (handle : Handler H) : Handler H :=
  fun ctx sender es =>
    handle ctx sender (es.log .warn (controllerName ++ text ". 501 NotImplemented!"))

def DeregistrationController.handle : Handler H :=
  notImplemented (text "deregistration") Prapancha.DeregistrationController.handle

def LoginController.handle : Handler H :=
  notImplemented (text "login") Prapancha.LoginController.handle

def LogoutController.handle : Handler H :=
  notImplemented (text "logout") Prapancha.LogoutController.handle

/-- What `Error::description` returns for an error. -/
abbrev Describe := Security.Error → Option Bytes

/-- The line about a password that could not be hashed. -/
def hashFailure (describe : Describe) (error : Security.Error) : Bytes :=
  match describe error with
  | some description =>
    text "Failed to generate PasswordBinding. ErrorCode(" ++ decimal error.code.toNat ++
      text "): " ++ description
  | none =>
    text "Failed to generate PasswordBinding. ErrorCode(" ++ decimal error.code.toNat ++ text ")"

variable (J : Engine) (env : Environment H) (describe : Describe)

def RegistrationController.handle : Handler H := fun ctx sender es =>
  let response : Response := {}
  let response := response.setHeader (text "Content-Type") (text "text/html; charset=utf-8")
  match BinaryCodec.decode J ctx.request.body with
  | none =>
    sender { response with
      status := .badRequest, body := text "प्रपञ्च — Prapancha: Invalid Input!" } es
  | some object =>
    match object.ifContains (text "username"), object.ifContains (text "password") with
    | some (.string username), some (.string password) =>
      match env.hash password with
      | .error error =>
        let es := es.log .error (hashFailure describe error)
        sender { response with
          status := .internalServerError,
          body := text "प्रपञ्च — Prapancha: Internal Server Error!" } es
      | .ok passwordBinding =>
        let userIdentity :=
          UserIdentity.create env.draw { username, passwordBinding, isAdmin := false }
        let es := es.save userIdentity
        let es := es.log .info (text "Registration Successful! Username=" ++ username)
        sender { response with
          status := .created, body := text "प्रपञ्च — Prapancha: Registration Successful!" } es
    | _, _ =>
      sender { response with
        status := .unprocessableEntity, body := text "प्रपञ्च — Prapancha: Invalid Input!" } es

/-- The user name and the password of a body that is an object with both. -/
def credentials (body : Bytes) : Option (Option (Bytes × Bytes)) :=
  (BinaryCodec.decode J body).map fun object =>
    match object.ifContains (text "username"), object.ifContains (text "password") with
    | some (.string username), some (.string password) => some (username, password)
    | _, _ => none

/-- The answers of `RegistrationController::handle`. -/
def registrationPage (status : Status) (body : Bytes) : Response :=
  { ({} : Response).setHeader (text "Content-Type") (text "text/html; charset=utf-8") with
    status, body }

/-- What `RegistrationController::handle` does, by the credentials of the body. -/
theorem registration_eq (request : Request) (es : Effects H) :
    RegistrationController.handle J env describe ⟨request⟩ send es =
      match credentials J request.body with
      | none =>
        send (registrationPage .badRequest (text "प्रपञ्च — Prapancha: Invalid Input!")) es
      | some none =>
        send (registrationPage .unprocessableEntity (text "प्रपञ्च — Prapancha: Invalid Input!")) es
      | some (some (username, password)) =>
        match env.hash password with
        | .error error =>
          send (registrationPage .internalServerError
            (text "प्रपञ्च — Prapancha: Internal Server Error!"))
            (log .error (hashFailure describe error) es)
        | .ok passwordBinding =>
          send (registrationPage .created (text "प्रपञ्च — Prapancha: Registration Successful!"))
            (log .info (text "Registration Successful! Username=" ++ username)
              (save (UserIdentity.create env.draw { username, passwordBinding, isAdmin := false })
                es)) := by
  unfold RegistrationController.handle credentials
  cases BinaryCodec.decode J request.body with
  | none => rfl
  | some object =>
    simp only [Option.map_some]
    cases object.ifContains (text "username") with
    | none => rfl
    | some username =>
      cases object.ifContains (text "password") with
      | none => cases username <;> rfl
      | some password => cases username <;> cases password <;> rfl

/-! ## Routing -/

def voidController : Request → Sender (Effects H) → Effects H → Effects H :=
  dispatch (text "void") VoidController.handle

def routes : List (Route (Effects H)) := [
  ⟨text "/", .get, dispatch (text "root") RootController.handle⟩,
  ⟨text "/api/v1/status", .get, dispatch (text "status") StatusController.handle⟩,
  ⟨text "/api/v1/register", .post,
    dispatch (text "registration") (RegistrationController.handle J env describe)⟩,
  ⟨text "/api/v1/deregister", .delete,
    dispatch (text "deregistration") DeregistrationController.handle⟩,
  ⟨text "/api/v1/login", .post, dispatch (text "login") LoginController.handle⟩,
  ⟨text "/api/v1/logout", .post, dispatch (text "logout") LogoutController.handle⟩]

/-- The effects of one request. -/
def ofRequest (request : Request) : Effects H :=
  Router.dispatch voidController (routes J env describe) request send []

/-- A registration is handled by its controller. -/
theorem ofRequest_register {request : Request} (hmethod : request.method = .post)
    (htarget : Router.targetPath request.target = text "/api/v1/register") :
    ofRequest J env describe request =
      dispatch (text "registration") (RegistrationController.handle J env describe) request send
        [] := by
  unfold ofRequest Router.dispatch
  rw [hmethod, htarget]
  have hroot : ¬ (text "/api/v1/register" = text "/" ∧ Method.post = Method.get) := nofun
  have hstatus : ¬ (text "/api/v1/register" = text "/api/v1/status" ∧ Method.post = Method.get) :=
    nofun
  rw [routes, Router.execute, if_neg hroot, Router.execute, if_neg hstatus, Router.execute,
    if_pos ⟨rfl, rfl⟩]

end Effects

/-! ## Performing the effects -/

namespace Effect

variable {H : HashAlgorithm}

def IsLog : Effect H → Prop
  | .log _ _ => True
  | _ => False

def perform (J : Engine) (env : Environment H) : Effect H → World → World
  | .log _ _, w => w
  | .save u, w => RegistrationController.register J env u w
  | .send response, w => World.send response w

end Effect

namespace Effects

variable {H : HashAlgorithm} (J : Engine) (env : Environment H) (describe : Describe)

def perform (es : Effects H) (w : World) : World := es.foldl (fun w e => e.perform J env w) w

/-- What a function does to the effects so far, starting from none, is what the other does to the
state. -/
def Performs (f : Effects H → Effects H) (g : World → World) : Prop :=
  ∀ w, perform J env (f []) w = g w

theorem performs_registration (request : Request) :
    Performs J env (dispatch (text "registration") (RegistrationController.handle J env describe)
        request send)
      (ControllerProvider.Identity.registrationController J env request World.send) := by
  intro w
  show perform J env (RegistrationController.handle J env describe ⟨request⟩ send _) w =
    Prapancha.RegistrationController.handle J env ⟨request⟩ World.send w
  unfold RegistrationController.handle Prapancha.RegistrationController.handle
  cases BinaryCodec.decode J request.body with
  | none => rfl
  | some object =>
    simp only
    cases object.ifContains (text "username") with
    | none => rfl
    | some username =>
      cases object.ifContains (text "password") with
      | none => cases username <;> rfl
      | some password =>
        cases username with
        | string username =>
          cases password with
          | string password =>
            simp only
            cases env.hash password with
            | error error => rfl
            | ok binding => rfl
          | _ => rfl
        | _ => rfl

/-- Performing the effects of a request is what the router does to the state. -/
theorem perform_ofRequest (request : Request) (w : World) :
    perform J env (ofRequest J env describe request) w =
      AppRouter.dispatch J env request World.send w := by
  have hroutes : List.Forall₂ (fun (route : Route (Effects H)) (route' : Route World) =>
      route.path = route'.path ∧ route.method = route'.method ∧
        Performs J env (route.execute request send) (route'.execute request World.send))
      (routes J env describe) (AppRouter.routes J env) := by
    refine .cons ⟨rfl, rfl, fun _ => rfl⟩ (.cons ⟨rfl, rfl, fun _ => rfl⟩
      (.cons ⟨rfl, rfl, performs_registration J env describe request⟩
        (.cons ⟨rfl, rfl, fun _ => rfl⟩ (.cons ⟨rfl, rfl, fun _ => rfl⟩
          (.cons ⟨rfl, rfl, fun _ => rfl⟩ .nil)))))
  have hvoid : Performs J env (voidController request send)
      (ControllerProvider.voidController request World.send) := fun _ => rfl
  exact Router.dispatch_rel rfl rfl hroutes hvoid w

/-- The responses that the effects send. -/
def responses (es : Effects H) : List Response :=
  es.filterMap fun
    | .send response => some response
    | _ => none

/-- The users that the effects save. -/
def saves (es : Effects H) : List (UserIdentity H) :=
  es.filterMap fun
    | .save u => some u
    | _ => none

section

variable (es es' : Effects H) (level : LogLevel) (msg : Bytes) (u : UserIdentity H)
  (response : Response)

@[simp] theorem responses_nil : responses ([] : Effects H) = [] := rfl

@[simp] theorem responses_append : responses (es ++ es') = responses es ++ responses es' :=
  List.filterMap_append

@[simp] theorem responses_log : responses (.log level msg :: es) = responses es := rfl

@[simp] theorem responses_save : responses (.save u :: es) = responses es := rfl

@[simp] theorem responses_send : responses (.send response :: es) = response :: responses es := rfl

@[simp] theorem saves_nil : saves ([] : Effects H) = [] := rfl

@[simp] theorem saves_append : saves (es ++ es') = saves es ++ saves es' := List.filterMap_append

@[simp] theorem saves_log : saves (.log level msg :: es) = saves es := rfl

@[simp] theorem saves_save : saves (.save u :: es) = u :: saves es := rfl

@[simp] theorem saves_send : saves (.send response :: es) = saves es := rfl

end

theorem mem_saves {es : Effects H} {u : UserIdentity H} : u ∈ saves es ↔ .save u ∈ es := by
  rw [saves, List.mem_filterMap]
  constructor
  · rintro ⟨e, he, heq⟩
    cases e with
    | save v =>
      cases heq
      exact he
    | _ => cases heq
  · exact fun h => ⟨_, h, rfl⟩

theorem perform_append (es es' : Effects H) (w : World) :
    perform J env (es ++ es') w = perform J env es' (perform J env es w) :=
  List.foldl_append

/-- Effects without a user to save only send. -/
theorem perform_of_saves_nil {es : Effects H} (hes : saves es = []) (w : World) :
    perform J env es w = { w with sent := w.sent ++ responses es } := by
  induction es generalizing w with
  | nil => simp [perform]
  | cons e es ih =>
    cases e with
    | log level msg => exact ih hes w
    | save u => simp at hes
    | send response =>
      refine (ih hes (World.send response w)).trans ?_
      simp [World.send]

/-! ## Their order -/

/-- Lines around the one user that the request makes, if it makes one, and a response at the end,
which is 201 exactly then. -/
def Ordered (request : Request) (es : Effects H) : Prop :=
  (∃ before after response u, (∀ e ∈ before ++ after, Effect.IsLog e) ∧
    response.status = .created ∧ RegistrationController.Accepts J env request u ∧
    es = before ++ .save u :: (after ++ [.send response])) ∨
  ∃ before response, (∀ e ∈ before, Effect.IsLog e) ∧ response.status ≠ .created ∧
    es = before ++ [.send response]

theorem saves_of_isLog {es : Effects H} (hes : ∀ e ∈ es, e.IsLog) : saves es = [] := by
  refine List.filterMap_eq_nil_iff.2 fun e he => ?_
  cases e with
  | log level msg => rfl
  | _ => exact (hes _ he).elim

theorem responses_of_isLog {es : Effects H} (hes : ∀ e ∈ es, e.IsLog) : responses es = [] := by
  refine List.filterMap_eq_nil_iff.2 fun e he => ?_
  cases e with
  | log level msg => rfl
  | _ => exact (hes _ he).elim

theorem isLog_log {level : LogLevel} {msg : Bytes} {es : Effects H} (hes : ∀ e ∈ es, e.IsLog) :
    ∀ e ∈ es.log level msg, Effect.IsLog e := by
  intro e he
  rcases List.mem_append.1 he with he | he
  · exact hes e he
  · rw [List.mem_singleton.1 he]
    trivial

theorem ordered_registration (request : Request) {es : Effects H} (hes : ∀ e ∈ es, e.IsLog) :
    Ordered J env request
      (RegistrationController.handle J env describe ⟨request⟩ send es) := by
  unfold RegistrationController.handle
  cases hdecode : BinaryCodec.decode J request.body with
  | none => exact .inr ⟨es, _, hes, by decide, rfl⟩
  | some object =>
    simp only
    split
    · next username password husername hpassword =>
      cases hhash : env.hash password with
      | error error => exact .inr ⟨_, _, isLog_log hes, by decide, rfl⟩
      | ok binding =>
        have hu : RegistrationController.Accepts J env request _ :=
          ⟨object, username, password, binding, hdecode, husername, hpassword, hhash, rfl⟩
        refine .inl ⟨es, [.log .info (text "Registration Successful! Username=" ++ username)],
          { ({} : Response).setHeader (text "Content-Type") (text "text/html; charset=utf-8") with
            status := .created, body := text "प्रपञ्च — Prapancha: Registration Successful!" }, _,
          isLog_log hes, rfl, hu, ?_⟩
        simp [save, log, send]
    · exact .inr ⟨es, _, hes, by decide, rfl⟩

theorem ordered_ofRequest (request : Request) :
    Ordered J env request (ofRequest J env describe request) := by
  have hnil : ∀ e ∈ ([] : Effects H), e.IsLog := fun _ he => (List.not_mem_nil he).elim
  unfold ofRequest
  rcases Router.dispatch_cases voidController (routes J env describe) request send with
    ⟨route, hroute, hdispatch⟩ | hdispatch
  · rw [hdispatch]
    simp only [routes, List.mem_cons, List.not_mem_nil, or_false] at hroute
    rcases hroute with rfl | rfl | rfl | rfl | rfl | rfl
    · exact .inr ⟨_, _, isLog_log hnil, by decide, rfl⟩
    · exact .inr ⟨_, _, isLog_log hnil, by decide, rfl⟩
    · exact ordered_registration J env describe request (isLog_log hnil)
    · exact .inr ⟨_, _, isLog_log (isLog_log hnil), by decide, rfl⟩
    · exact .inr ⟨_, _, isLog_log (isLog_log hnil), by decide, rfl⟩
    · exact .inr ⟨_, _, isLog_log (isLog_log hnil), by decide, rfl⟩
  · rw [hdispatch]
    exact .inr ⟨_, _, isLog_log (isLog_log hnil), by decide, rfl⟩

namespace Ordered

variable {J env} {request : Request} {es done pending : Effects H}

theorem send_last (h : Ordered J env request es) :
    ∃ init response, es = init ++ [.send response] ∧ responses init = [] := by
  rcases h with ⟨before, after, response, u, hlogs, -, -, rfl⟩ | ⟨before, response, hlogs, -, rfl⟩
  · refine ⟨before ++ .save u :: after, response, by simp, ?_⟩
    have hbefore := responses_of_isLog fun e he => hlogs e (List.mem_append_left _ he)
    have hafter := responses_of_isLog fun e he => hlogs e (List.mem_append_right _ he)
    simp [hbefore, hafter]
  · exact ⟨before, response, rfl, responses_of_isLog hlogs⟩

theorem responses_eq (h : Ordered J env request es) : ∃ response, responses es = [response] := by
  obtain ⟨init, response, rfl, hinit⟩ := h.send_last
  exact ⟨response, by simp [hinit]⟩

/-- Once the response is sent there is nothing left to do. -/
theorem pending_eq_nil (h : Ordered J env request (done ++ pending)) (hdone : responses done ≠ []) :
    pending = [] := by
  obtain ⟨init, response, heq, hinit⟩ := h.send_last
  rcases List.eq_nil_or_concat pending with rfl | ⟨pending, e, rfl⟩
  · rfl
  · rw [List.concat_eq_append, ← List.append_assoc] at heq
    obtain ⟨rfl, -⟩ := List.append_inj' heq rfl
    rw [responses_append, List.append_eq_nil_iff] at hinit
    exact (hdone hinit.1).elim

/-- A save is of the user that the request makes, and it is the only one. -/
theorem save_unique {u : UserIdentity H} {rest : Effects H}
    (h : Ordered J env request (done ++ .save u :: rest)) :
    saves done = [] ∧ saves rest = [] ∧ RegistrationController.Accepts J env request u := by
  have hsaves : saves (done ++ .save u :: rest) = saves done ++ u :: saves rest := by simp
  rcases h with ⟨before, after, response, u', hlogs, -, haccepts, heq⟩ |
    ⟨before, response, hlogs, -, heq⟩
  · have hbefore := saves_of_isLog fun e he => hlogs e (List.mem_append_left _ he)
    have hafter := saves_of_isLog fun e he => hlogs e (List.mem_append_right _ he)
    have hone : saves (before ++ .save u' :: (after ++ [.send response])) = [u'] := by
      simp [hbefore, hafter]
    rw [heq, hone] at hsaves
    cases hd : saves done with
    | nil =>
      rw [hd, List.nil_append, List.cons.injEq] at hsaves
      obtain ⟨rfl, hrest⟩ := hsaves
      exact ⟨rfl, hrest.symm, haccepts⟩
    | cons v vs =>
      have hlen := congrArg List.length hsaves
      simp [hd] at hlen
  · have hnone : saves (before ++ [.send response]) = [] := by simp [saves_of_isLog hlogs]
    rw [heq, hnone] at hsaves
    exact absurd hsaves.symm (List.append_ne_nil_of_right_ne_nil _ (List.cons_ne_nil _ _))

/-- The response is 201 only after a user was saved. -/
theorem save_of_created (h : Ordered J env request es) {response : Response}
    (hresponse : response ∈ responses es) (hcreated : response.status = .created) :
    ∃ done u rest, es = done ++ .save u :: rest := by
  rcases h with ⟨before, after, response', u, -, -, -, rfl⟩ |
    ⟨before, response', hlogs, hstatus, rfl⟩
  · exact ⟨before, u, _, rfl⟩
  · have heq : response = response' := by simpa [responses_of_isLog hlogs] using hresponse
    exact absurd (heq ▸ hcreated) hstatus

end Ordered

end Effects

end Prapancha
