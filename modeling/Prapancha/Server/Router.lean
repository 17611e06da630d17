import Prapancha.Server.Controller

/-!
# Routing

`Router::dispatch` over a list of routes, `ControllerProvider`, and the routes of the server.
-/

namespace Prapancha

open Http Security Json

variable {σ : Type}

structure Route (σ : Type) where
  path : Bytes
  method : Method
  execute : Request → Sender σ → σ → σ

namespace Router

/-- The target up to its first `?`. -/
def targetPath (target : Bytes) : Bytes := target.takeWhile (· != 0x3F)

/-- The fold over `Routes`: the first route that matches executes; `none` when none does. -/
def execute (target : Bytes) (method : Method) (request : Request) (send : Sender σ) :
    List (Route σ) → Option (σ → σ)
  | [] => none
  | route :: routes =>
    if target = route.path ∧ method = route.method then some (route.execute request send)
    else execute target method request send routes

def dispatch (voidController : Request → Sender σ → σ → σ) (routes : List (Route σ))
    (request : Request) (send : Sender σ) : σ → σ :=
  match execute (targetPath request.target) request.method request send routes with
  | some run => run
  | none => voidController request send

theorem execute_eq_some {target : Bytes} {method : Method} {request : Request} {send : Sender σ}
    {run : σ → σ} : ∀ {routes : List (Route σ)},
    execute target method request send routes = some run →
      ∃ route ∈ routes, run = route.execute request send
  | [], h => by cases h
  | route :: routes, h => by
    rw [execute] at h
    split at h
    · cases h
      exact ⟨route, List.mem_cons_self, rfl⟩
    · obtain ⟨route', hroute', hrun⟩ := execute_eq_some h
      exact ⟨route', List.mem_cons_of_mem _ hroute', hrun⟩

/-- The route that executes has the target and the method. -/
theorem execute_matches {target : Bytes} {method : Method} {request : Request} {send : Sender σ}
    {run : σ → σ} : ∀ {routes : List (Route σ)},
    execute target method request send routes = some run →
      ∃ route ∈ routes, target = route.path ∧ method = route.method ∧
        run = route.execute request send
  | [], h => by cases h
  | route :: routes, h => by
    rw [execute] at h
    split at h
    · next hmatch =>
      cases h
      exact ⟨route, List.mem_cons_self, hmatch.1, hmatch.2, rfl⟩
    · obtain ⟨route', hroute', hrest⟩ := execute_matches h
      exact ⟨route', List.mem_cons_of_mem _ hroute', hrest⟩

theorem dispatch_cases (voidController : Request → Sender σ → σ → σ) (routes : List (Route σ))
    (request : Request) (send : Sender σ) :
    (∃ route ∈ routes, dispatch voidController routes request send = route.execute request send) ∨
      dispatch voidController routes request send = voidController request send := by
  unfold dispatch
  cases hrun : execute (targetPath request.target) request.method request send routes with
  | some run => exact .inl (execute_eq_some hrun)
  | none => exact .inr rfl

/-- Two routers whose routes have the same paths and methods, and two requests with the same target
and method: what relates the handlers of the routes, and the void controllers, relates what the
routers do. -/
theorem dispatch_rel {τ : Type} {R : (σ → σ) → (τ → τ) → Prop} {request request' : Request}
    {send : Sender σ} {send' : Sender τ} {voidController : Request → Sender σ → σ → σ}
    {voidController' : Request → Sender τ → τ → τ} {routes : List (Route σ)}
    {routes' : List (Route τ)} (htarget : request'.target = request.target)
    (hmethod : request'.method = request.method)
    (hroutes : List.Forall₂ (fun route route' => route.path = route'.path ∧
      route.method = route'.method ∧
        R (route.execute request send) (route'.execute request' send')) routes routes')
    (hvoid : R (voidController request send) (voidController' request' send')) :
    R (dispatch voidController routes request send)
      (dispatch voidController' routes' request' send') := by
  unfold dispatch
  rw [htarget, hmethod]
  induction hroutes with
  | nil => exact hvoid
  | @cons route route' _ _ hroute _ ih =>
    obtain ⟨hpath, hmethod', hexecute⟩ := hroute
    simp only [execute, ← hpath, ← hmethod']
    by_cases hmatch : targetPath request.target = route.path ∧ request.method = route.method
    · simpa only [if_pos hmatch] using hexecute
    · simpa only [if_neg hmatch] using ih

end Router

/-! ## The controllers of the server -/

namespace ControllerProvider

open BaseController

def rootController : Request → Sender σ → σ → σ := dispatch requiredTraits RootController.handle

def statusController : Request → Sender σ → σ → σ := dispatch requiredTraits StatusController.handle

def voidController : Request → Sender σ → σ → σ := dispatch requiredTraits VoidController.handle

namespace Identity

def registrationController (J : Engine) {H : HashAlgorithm} (env : Environment H) :
    Request → Sender World → World → World :=
  dispatch requiredTraits (RegistrationController.handle J env)

def deregistrationController : Request → Sender σ → σ → σ :=
  dispatch requiredTraits DeregistrationController.handle

def loginController : Request → Sender σ → σ → σ := dispatch requiredTraits LoginController.handle

def logoutController : Request → Sender σ → σ → σ := dispatch requiredTraits LogoutController.handle

end Identity

end ControllerProvider

namespace AppRouter

open ControllerProvider

/-- The routes of `AppRouter`. -/
def routes (J : Engine) {H : HashAlgorithm} (env : Environment H) : List (Route World) := [
  ⟨text "/", .get, rootController⟩,
  ⟨text "/api/v1/status", .get, statusController⟩,
  ⟨text "/api/v1/register", .post, Identity.registrationController J env⟩,
  ⟨text "/api/v1/deregister", .delete, Identity.deregistrationController⟩,
  ⟨text "/api/v1/login", .post, Identity.loginController⟩,
  ⟨text "/api/v1/logout", .post, Identity.logoutController⟩]

def dispatch (J : Engine) {H : HashAlgorithm} (env : Environment H) :
    Request → Sender World → World → World :=
  Router.dispatch voidController (routes J env)

/-- A request is handled as a registration, or it is answered once and changes nothing else. -/
theorem dispatch_cases (J : Engine) {H : HashAlgorithm} (env : Environment H) (request : Request)
    (send : Sender World) (w : World) :
    dispatch J env request send w = RegistrationController.handle J env ⟨request⟩ send w ∨
      ∃ response : Response, response.status ≠ .created ∧
        dispatch J env request send w = send response w := by
  unfold dispatch
  rcases Router.dispatch_cases voidController (routes J env) request send with
    ⟨route, hroute, hdispatch⟩ | hdispatch
  · rw [hdispatch]
    simp only [routes, List.mem_cons, List.not_mem_nil, or_false] at hroute
    rcases hroute with rfl | rfl | rfl | rfl | rfl | rfl
    · exact .inr ⟨_, by decide, rfl⟩
    · exact .inr ⟨_, by decide, rfl⟩
    · exact .inl rfl
    · exact .inr ⟨_, by decide, rfl⟩
    · exact .inr ⟨_, by decide, rfl⟩
    · exact .inr ⟨_, by decide, rfl⟩
  · rw [hdispatch]
    exact .inr ⟨_, by decide, rfl⟩

end AppRouter

end Prapancha
