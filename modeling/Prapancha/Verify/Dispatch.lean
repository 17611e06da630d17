import Mathlib.Data.List.TakeWhile
import Prapancha.Server.Router

/-!
# What dispatching calls

`BaseController::dispatch` runs policies until one fails and then answers, or else hands over to
its handler; `Router::dispatch` hands over to the first route that matches.  Both make each call
once.
-/

namespace Prapancha

open Http Policy

/-! ## Policies -/

namespace BaseController

/-- A call that a dispatch makes. -/
inductive Call (γ : Type) : Type 1
  | policy {α β : Type} (execute : α → Except Status β) (ctx : α)
  | handle (ctx : γ)
  | send (response : Response)

def Call.isPolicy {γ : Type} : Call γ → Bool
  | .policy _ _ => true
  | _ => false

/-- The answer to a request that a policy refuses. -/
def violation (status : Status) : Response := { status, body := text "Policy Violation!" }

/-- The calls of `runner`, in order. -/
def calls {α γ : Type} (traits : Pipeline α γ) (ctx : α) : List (Call γ) :=
  match traits with
  | .done => [.handle ctx]
  | .step execute rest =>
    .policy execute ctx ::
      match execute ctx with
      | .error status => [.send (violation status)]
      | .ok next => calls rest next

section Effects

variable {σ γ : Type} (handle : γ → Sender σ → σ → σ) (sender : Sender σ)

/-- What a call does to the state. -/
def perform : σ → Call γ → σ
  | w, .policy _ _ => w
  | w, .handle ctx => handle ctx sender w
  | w, .send response => sender response w

/-- The runner does what its calls do, one after the other. -/
theorem runner_eq_perform {α : Type} (traits : Pipeline α γ) (ctx : α) (w : σ) :
    runner traits ctx handle sender w = (calls traits ctx).foldl (perform handle sender) w := by
  induction traits with
  | done => rfl
  | step execute rest ih =>
    rw [runner, calls, List.foldl_cons]
    cases execute ctx with
    | error status => rfl
    | ok next => exact ih handle next

end Effects

/-- The calls `cs` are policies that succeed one after the other, each on the context that the one
before it made; `traits'` is left to run on `ctx'`. -/
inductive Passes {γ : Type} :
    {α δ : Type} → Pipeline α γ → α → List (Call γ) → Pipeline δ γ → δ → Prop
  | refl {α : Type} (traits : Pipeline α γ) (ctx : α) : Passes traits ctx [] traits ctx
  | step {α β δ : Type} {execute : α → Except Status β} {rest : Pipeline β γ} {ctx : α} {next : β}
    {cs : List (Call γ)} {traits' : Pipeline δ γ} {ctx' : δ} :
    execute ctx = .ok next → Passes rest next cs traits' ctx' →
      Passes (.step execute rest) ctx (.policy execute ctx :: cs) traits' ctx'

namespace Passes

variable {γ α δ : Type} {traits : Pipeline α γ} {ctx : α} {cs : List (Call γ)}
  {traits' : Pipeline δ γ} {ctx' : δ}

theorem calls_eq (h : Passes traits ctx cs traits' ctx') :
    calls traits ctx = cs ++ calls traits' ctx' := by
  induction h with
  | refl => rfl
  | step hok _ ih =>
    rw [calls, hok, List.cons_append, ← ih]

theorem isPolicy (h : Passes traits ctx cs traits' ctx') : ∀ c ∈ cs, c.isPolicy = true := by
  induction h with
  | refl => simp
  | step _ _ ih => exact List.forall_mem_cons.2 ⟨rfl, ih⟩

end Passes

/-- After the policies `cs` the policy `c` fails with `status`. -/
def Fails {α γ : Type} (traits : Pipeline α γ) (ctx : α) (cs : List (Call γ)) (c : Call γ)
    (status : Status) : Prop :=
  ∃ (δ β : Type) (execute : δ → Except Status β) (rest : Pipeline β γ) (failed : δ),
    Passes traits ctx cs (.step execute rest) failed ∧ execute failed = .error status ∧
      c = .policy execute failed

theorem passes_or_fails {α γ : Type} (traits : Pipeline α γ) (ctx : α) :
    (∃ cs last, Passes traits ctx cs .done last) ∨ ∃ cs c status, Fails traits ctx cs c status := by
  induction traits with
  | done => exact .inl ⟨[], ctx, .refl _ _⟩
  | step execute rest ih =>
    cases hexecute : execute ctx with
    | error status => exact .inr ⟨[], _, status, _, _, execute, rest, ctx, .refl _ _, hexecute, rfl⟩
    | ok next =>
      rcases ih next with
        ⟨cs, last, hpass⟩ | ⟨cs, c, status, _, _, execute', rest', failed, hpass, hfail⟩
      · exact .inl ⟨_, last, .step hexecute hpass⟩
      · exact .inr ⟨_, c, status, _, _, execute', rest', failed, .step hexecute hpass, hfail⟩

theorem calls_of_passes {α γ : Type} {traits : Pipeline α γ} {ctx : α} {cs : List (Call γ)}
    {last : γ} (h : Passes traits ctx cs .done last) : calls traits ctx = cs ++ [.handle last] :=
  h.calls_eq

theorem calls_of_fails {α γ : Type} {traits : Pipeline α γ} {ctx : α} {cs : List (Call γ)}
    {c : Call γ} {status : Status} (h : Fails traits ctx cs c status) :
    calls traits ctx = cs ++ [c, .send (violation status)] := by
  obtain ⟨_, _, execute, rest, failed, hpass, hfail, rfl⟩ := h
  rw [hpass.calls_eq, calls, hfail]

theorem Fails.isPolicy {α γ : Type} {traits : Pipeline α γ} {ctx : α} {cs : List (Call γ)}
    {c : Call γ} {status : Status} (h : Fails traits ctx cs c status) :
    ∀ c' ∈ cs ++ [c], c'.isPolicy = true := by
  obtain ⟨_, _, execute, rest, failed, hpass, -, rfl⟩ := h
  intro c' hc'
  rcases List.mem_append.1 hc' with hc' | hc'
  · exact hpass.isPolicy c' hc'
  · rw [List.mem_singleton.1 hc']
    rfl

/-- Policies do not act on the state. -/
theorem foldl_perform_policies {σ γ : Type} (handle : γ → Sender σ → σ → σ) (sender : Sender σ)
    {cs : List (Call γ)} (h : ∀ c ∈ cs, c.isPolicy = true) (w : σ) :
    cs.foldl (perform handle sender) w = w := by
  induction cs with
  | nil => rfl
  | cons c cs ih =>
    cases c with
    | policy execute ctx => exact ih fun c hc => h c (List.mem_cons_of_mem _ hc)
    | _ => exact absurd (h _ List.mem_cons_self) (by simp [Call.isPolicy])

section Outcomes

variable {σ γ : Type} {traits : Pipeline Request γ} {request : Request} {cs : List (Call γ)}
  (handle : γ → Sender σ → σ → σ) (sender : Sender σ) (w : σ)

theorem dispatch_of_passes {last : γ} (h : Passes traits request cs .done last) :
    dispatch traits handle request sender w = handle last sender w := by
  rw [dispatch, runner_eq_perform, calls_of_passes h, List.foldl_append,
    foldl_perform_policies handle sender h.isPolicy]
  rfl

/-- Whatever policies follow the one that fails, and whatever the handler does. -/
theorem dispatch_of_fails {c : Call γ} {status : Status} (h : Fails traits request cs c status) :
    dispatch traits handle request sender w = sender (violation status) w := by
  have hcalls : calls traits request = (cs ++ [c]) ++ [.send (violation status)] := by
    rw [calls_of_fails h, List.append_assoc]
    rfl
  rw [dispatch, runner_eq_perform, hcalls, List.foldl_append,
    foldl_perform_policies handle sender h.isPolicy]
  rfl

end Outcomes

/-- A handler that always answers once makes every dispatch answer once. -/
theorem dispatch_answers_once {σ γ : Type} (traits : Pipeline Request γ) (request : Request)
    {sent : σ → List Response} {handle : γ → Sender σ → σ → σ} {sender : Sender σ}
    (hsender : ∀ response w, sent (sender response w) = sent w ++ [response])
    (hhandle : ∀ ctx w, ∃ response, sent (handle ctx sender w) = sent w ++ [response]) (w : σ) :
    ∃ response, sent (dispatch traits handle request sender w) = sent w ++ [response] := by
  rcases passes_or_fails traits request with ⟨cs, last, hpass⟩ | ⟨cs, c, status, hfail⟩
  · rw [dispatch_of_passes handle sender w hpass]
    exact hhandle last w
  · rw [dispatch_of_fails handle sender w hfail]
    exact ⟨_, hsender _ w⟩

/-- A dispatch runs its policies in order up to the first that fails; then it answers once and does
not call the handler, and otherwise it calls the handler once and does not answer.  Nothing depends
on the policies behind the one that fails.  So a handler that always answers once makes every
dispatch answer once. -/
theorem dispatch_calls {γ : Type} (traits : Pipeline Request γ) (request : Request) :
    ((∃ cs last, Passes traits request cs .done last) ∨
      ∃ cs c status, Fails traits request cs c status) ∧
    (∀ cs last, Passes traits request cs .done last →
      calls traits request = cs ++ [.handle last] ∧ (∀ c ∈ cs, c.isPolicy = true) ∧
        ∀ (σ : Type) (handle : γ → Sender σ → σ → σ) (sender : Sender σ) (w : σ),
          dispatch traits handle request sender w = handle last sender w) ∧
    (∀ cs c status, Fails traits request cs c status →
      calls traits request = cs ++ [c, .send (violation status)] ∧
        (∀ c' ∈ cs ++ [c], c'.isPolicy = true) ∧
        ∀ traits', Fails traits' request cs c status →
          ∀ (σ : Type) (handle : γ → Sender σ → σ → σ) (sender : Sender σ) (w : σ),
            dispatch traits' handle request sender w = sender (violation status) w) ∧
    (∀ (σ : Type) (handle : γ → Sender σ → σ → σ) (sender : Sender σ) (w : σ),
      dispatch traits handle request sender w =
        (calls traits request).foldl (perform handle sender) w) ∧
    ∀ (σ : Type) (sent : σ → List Response) (handle : γ → Sender σ → σ → σ) (sender : Sender σ),
      (∀ response w, sent (sender response w) = sent w ++ [response]) →
      (∀ ctx w, ∃ response, sent (handle ctx sender w) = sent w ++ [response]) →
        ∀ w, ∃ response, sent (dispatch traits handle request sender w) = sent w ++ [response] :=
  ⟨passes_or_fails traits request,
    fun _ _ h => ⟨calls_of_passes h, h.isPolicy,
      fun _ handle sender w => dispatch_of_passes handle sender w h⟩,
    fun _ _ _ h => ⟨calls_of_fails h, h.isPolicy,
      fun _ h' _ handle sender w => dispatch_of_fails handle sender w h'⟩,
    fun _ handle sender w => runner_eq_perform handle sender traits request w,
    fun _ _ _ _ hsender hhandle => dispatch_answers_once traits request hsender hhandle⟩

def getRoot : Request := { method := .get, target := text "/", headers := [], body := [] }

/-- `WithRequest` and a policy that refuses everybody. -/
def refusing : Pipeline Request WithRequest :=
  .step withRequest (.step (fun _ => .error .forbidden) .done)

theorem dispatch_calls_refusing : (calls refusing getRoot).length = 3 := by
  have hfail : Fails refusing getRoot [.policy withRequest getRoot]
      (.policy (fun _ : WithRequest => (.error .forbidden : Except Status WithRequest)) ⟨getRoot⟩)
      .forbidden :=
    ⟨_, _, _, .done, _, .step rfl (.refl _ _), rfl, rfl⟩
  rw [((dispatch_calls refusing getRoot).2.2.1 _ _ _ hfail).1]
  rfl

end BaseController

/-! ## Routes -/

namespace Router

variable {σ : Type}

abbrev Route.key (route : Route σ) : Bytes × Method := (route.path, route.method)

/-- The route's path is the target up to its first `?`, and its method that of the request. -/
def Matches (request : Request) (key : Bytes × Method) : Prop :=
  targetPath request.target = key.1 ∧ request.method = key.2

instance (request : Request) (key : Bytes × Method) : Decidable (Matches request key) :=
  inferInstanceAs (Decidable (_ ∧ _))

/-- The first route that matches. -/
def selected (routes : List (Route σ)) (request : Request) : Option (Route σ) :=
  routes.find? fun route => Matches request (Route.key route)

theorem execute_eq_selected (routes : List (Route σ)) (request : Request) (send : Sender σ) :
    execute (targetPath request.target) request.method request send routes =
      (selected routes request).map fun route => route.execute request send := by
  induction routes with
  | nil => rfl
  | cons route routes ih =>
    rw [execute, selected, List.find?_cons]
    by_cases h : targetPath request.target = route.path ∧ request.method = route.method
    · have hmatch : Matches request (Route.key route) := h
      rw [if_pos h, decide_eq_true hmatch]
      rfl
    · have hmatch : ¬ Matches request (Route.key route) := h
      rw [if_neg h, decide_eq_false hmatch, ih]
      rfl

theorem dispatch_eq_selected (voidController : Request → Sender σ → σ → σ)
    (routes : List (Route σ)) (request : Request) (send : Sender σ) :
    dispatch voidController routes request send =
      match selected routes request with
      | some route => route.execute request send
      | none => voidController request send := by
  rw [dispatch, execute_eq_selected]
  cases selected routes request <;> rfl

theorem selected_eq_none {routes : List (Route σ)} {request : Request} :
    selected routes request = none ↔ ∀ route ∈ routes, ¬ Matches request (Route.key route) := by
  simp [selected]

theorem selected_eq_some {routes : List (Route σ)} {request : Request} {route : Route σ} :
    selected routes request = some route ↔ Matches request (Route.key route) ∧
      ∃ pre post, routes = pre ++ route :: post ∧
        ∀ route' ∈ pre, ¬ Matches request (Route.key route') := by
  simp [selected, List.find?_eq_some_iff_append]

theorem bne_question {path : Bytes} (hpath : 0x3F ∉ path) : ∀ b ∈ path, (b != 0x3F) = true := by
  intro b hb
  rw [bne_iff_ne]
  rintro rfl
  exact hpath hb

theorem targetPath_self {path : Bytes} (hpath : 0x3F ∉ path) : targetPath path = path :=
  List.takeWhile_eq_self_iff.2 (bne_question hpath)

/-- The path of a target ends at the first `?`, whatever follows. -/
theorem targetPath_query {path : Bytes} (hpath : 0x3F ∉ path) (query : Bytes) :
    targetPath (path ++ 0x3F :: query) = path := by
  rw [targetPath, List.takeWhile_append_of_pos (bne_question hpath)]
  simp

/-- Routes with distinct keys are selected whatever their order. -/
theorem selected_perm {routes routes' : List (Route σ)} (h : routes.Perm routes')
    (hnodup : (routes.map Route.key).Nodup) (request : Request) :
    selected routes request = selected routes' request := by
  induction h with
  | nil => rfl
  | cons route h ih =>
    rw [List.map_cons, List.nodup_cons] at hnodup
    rw [selected, selected, List.find?_cons, List.find?_cons]
    split
    · rfl
    · exact ih hnodup.2
  | swap a b l =>
    have hne : Route.key a ≠ Route.key b := by
      intro hab
      simp [hab] at hnodup
    have hboth : ¬ (Matches request (Route.key a) ∧ Matches request (Route.key b)) := by
      rintro ⟨⟨ha, ha'⟩, hb, hb'⟩
      exact hne (Prod.ext (ha.symm.trans hb) (ha'.symm.trans hb'))
    simp only [selected, List.find?_cons]
    by_cases ha : Matches request (Route.key a)
    · have hb : ¬ Matches request (Route.key b) := fun hb => hboth ⟨ha, hb⟩
      simp [ha, hb]
    · simp [ha]
  | trans h₁ h₂ ih₁ ih₂ =>
    rw [ih₁ hnodup, ih₂ ((h₁.map Route.key).nodup_iff.1 hnodup)]

/-- A handler that records that it was called, and with which request. -/
def recorder (handler : Option Nat) (request : Request)
    (_send : Sender (List (Option Nat × Request))) (log : List (Option Nat × Request)) :
    List (Option Nat × Request) :=
  log ++ [(handler, request)]

/-- Routes with the given keys, each recording its place among them. -/
def recording (keys : List (Bytes × Method)) (start : Nat) :
    List (Route (List (Option Nat × Request))) :=
  match keys with
  | [] => []
  | key :: keys => ⟨key.1, key.2, recorder (some start)⟩ :: recording keys (start + 1)

theorem selected_recording (keys : List (Bytes × Method)) (start : Nat) (request : Request)
    (send : Sender (List (Option Nat × Request))) (log : List (Option Nat × Request)) :
    dispatch (recorder none) (recording keys start) request send log =
      log ++ [((keys.findIdx? (Matches request ·)).map (· + start), request)] := by
  rw [dispatch_eq_selected]
  induction keys generalizing start with
  | nil => rfl
  | cons key keys ih =>
    rw [recording, selected, List.find?_cons, List.findIdx?_cons]
    by_cases h : Matches request key
    · rw [decide_eq_true h]
      simp [recorder]
    · rw [decide_eq_false h]
      refine (ih (start + 1)).trans ?_
      cases keys.findIdx? (Matches request ·) with
      | none => rfl
      | some i => simp [Nat.add_comm, Nat.add_left_comm]

/-- A query does not change which route is selected. -/
theorem selected_query (routes : List (Route σ)) (request : Request) {path : Bytes}
    (hpath : 0x3F ∉ path) (query : Bytes) :
    selected routes { request with target := path ++ 0x3F :: query } =
      selected routes { request with target := path } := by
  have htarget : targetPath (path ++ 0x3F :: query) = targetPath path := by
    rw [targetPath_query hpath, targetPath_self hpath]
  simp only [selected, Matches, htarget]
  rfl

/-- The first route that matches is called, once and with the whole request, and the void controller
exactly when none matches.  So the query of the target does not matter, nor does the order of
routes with distinct keys. -/
theorem dispatch_selects (routes : List (Route σ)) (request : Request) :
    (∀ (voidController : Request → Sender σ → σ → σ) (send : Sender σ),
      dispatch voidController routes request send =
        match selected routes request with
        | some route => route.execute request send
        | none => voidController request send) ∧
    (∀ route, selected routes request = some route ↔ Matches request (Route.key route) ∧
      ∃ pre post, routes = pre ++ route :: post ∧
        ∀ route' ∈ pre, ¬ Matches request (Route.key route')) ∧
    (selected routes request = none ↔ ∀ route ∈ routes, ¬ Matches request (Route.key route)) ∧
    (∀ send log,
      dispatch (recorder none) (recording (routes.map Route.key) 0) request send log =
        log ++ [((routes.map Route.key).findIdx? (Matches request ·), request)]) ∧
    (∀ path query, 0x3F ∉ path → request.target = path ++ 0x3F :: query →
      targetPath request.target = path ∧
        selected routes { request with target := path } = selected routes request ∧
        ∀ query', selected routes { request with target := path ++ 0x3F :: query' } =
          selected routes request) ∧
    ∀ routes', routes.Perm routes' → (routes.map Route.key).Nodup →
      selected routes' request = selected routes request := by
  refine ⟨fun voidController send => dispatch_eq_selected voidController routes request send,
    fun route => selected_eq_some, selected_eq_none, fun send log => ?_, ?_,
    fun routes' hperm hnodup => (selected_perm hperm hnodup request).symm⟩
  · rw [selected_recording]
    simp
  · intro path query hpath htarget
    have hrequest : request = { request with target := path ++ 0x3F :: query } := by
      rw [← htarget]
    have hselected : selected routes { request with target := path } = selected routes request := by
      rw [hrequest, selected_query routes _ hpath]
    refine ⟨by rw [htarget, targetPath_query hpath], hselected, fun query' => ?_⟩
    rw [selected_query routes _ hpath, hselected]

/-- The root's target with a query is still the root's. -/
theorem dispatch_selects_root :
    selected [(⟨text "/", .get, fun _ _ w => w⟩ : Route Unit)]
        { BaseController.getRoot with target := text "/" ++ 0x3F :: text "q?r" } =
      selected [(⟨text "/", .get, fun _ _ w => w⟩ : Route Unit)] BaseController.getRoot :=
  ((dispatch_selects _ { BaseController.getRoot with target := text "/" ++ 0x3F :: text "q?r" }
    ).2.2.2.2.1 (text "/") (text "q?r") (by decide) rfl).2.1.symm

end Router

end Prapancha
