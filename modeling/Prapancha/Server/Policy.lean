import Prapancha.Env.Env
import Prapancha.Server.Controller

/-!
# Policies

The traits that a controller may require, the policies that produce them, and the pipeline that
`BaseController::dispatch` makes of a list of traits.  Which contexts can be built is a question of
types: `none` stands for a list of traits that does not compile.  `authenticate` is a parameter.
-/

namespace Prapancha

open Http

namespace Policy

structure WithIdentity where
  id : UUID
  username : Bytes
  role : Bytes

structure WithValidation where

structure WithAdminAttestation where

structure WithStaffAttestation where

/-- The types that a list of required traits may name. -/
inductive Trait
  | withRequest
  | withIdentity
  | withValidation
  | withAdminAttestation
  | withStaffAttestation
  deriving DecidableEq, Repr

namespace Trait

def Value : Trait → Type
  | withRequest => WithRequest
  | withIdentity => WithIdentity
  | withValidation => WithValidation
  | withAdminAttestation => WithAdminAttestation
  | withStaffAttestation => WithStaffAttestation

def IsAuthorizationAttestation (t : Trait) : Prop :=
  t = withAdminAttestation ∨ t = withStaffAttestation

end Trait

/-- `Context<Traits...>`. -/
abbrev Context (cs : List Trait) : Type := Env Trait.Value cs

/-- `Context<WithRequest>{WithRequest{...}}`. -/
def contextOf (withRequest : WithRequest) : Context [.withRequest] where
  unique := by decide
  base := Env.Bases.cons withRequest .nil

/-- `internal::authorize`; `attestation` is `Attestation{}`. -/
def authorize {α : Type} (attestation : α) (userRole requiredRole : Bytes) : Except Status α :=
  if userRole = requiredRole then .ok attestation else .error .forbidden

/-- The context that the policy of a trait makes: `Refined<T, Trait>`, but that of `WithRequest` is
always a `Context<WithRequest>`. -/
def after (cs : List Trait) : Trait → List Trait
  | .withRequest => [.withRequest]
  | .withIdentity => cs ++ [.withIdentity]
  | .withValidation => cs ++ [.withValidation]
  | .withAdminAttestation => cs ++ [.withAdminAttestation]
  | .withStaffAttestation => cs ++ [.withStaffAttestation]

section Policies

variable (refine : Env.Refinement Trait.Value)
  (authenticate : Request → Except Status WithIdentity)

/-- `RolePolicy<Attestation>::execute`, for a context that satisfies `HasRole`. -/
def rolePolicy? (cs : List Trait) (trait : Trait) (attestation : trait.Value) (role : Bytes) :
    Option (Context cs → Except Status (Context (cs ++ [trait]))) :=
  if h : .withIdentity ∈ cs then
    match refine cs trait with
    | some refined => some fun ctx =>
      (authorize attestation (ctx.base .withIdentity h).role role).map fun att => refined ctx att
    | none => none
  else none

/-- `PolicyFor<Trait>::execute` on a context, with the concepts that constrain it. -/
def policyFor? (cs : List Trait) :
    (trait : Trait) → Option (Context cs → Except Status (Context (after cs trait)))
  -- an environment that has the base is sliced to it: everything else is dropped
  | .withRequest =>
    if h : .withRequest ∈ cs then some fun ctx => .ok (contextOf (ctx.base .withRequest h))
    else none
  | .withIdentity =>
    if h : .withRequest ∈ cs then
      match refine cs .withIdentity with
      | some refined => some fun ctx =>
        (authenticate (ctx.base .withRequest h).request).map fun id => refined ctx id
      | none => none
    else none
  | .withValidation =>
    match refine cs .withValidation with
    | some refined => some fun ctx => .ok (refined ctx (⟨⟩ : WithValidation))
    | none => none
  | .withAdminAttestation =>
    rolePolicy? refine cs .withAdminAttestation (⟨⟩ : WithAdminAttestation) (text "admin")
  | .withStaffAttestation =>
    rolePolicy? refine cs .withStaffAttestation (⟨⟩ : WithStaffAttestation) (text "staff")

/-- The context that the handler gets. -/
def final (cs ts : List Trait) : List Trait := ts.foldl after cs

/-- The instances of the recursive lambda in `BaseController::dispatch` that are left once the
context is a `Context<cs...>`. -/
def runner? (cs : List Trait) :
    (ts : List Trait) → Option (Pipeline (Context cs) (Context (final cs ts)))
  | [] => some .done
  | t :: ts =>
    match policyFor? refine authenticate cs t, runner? (after cs t) ts with
    | some execute, some rest => some (.step execute rest)
    | _, _ => none

/-- The pipeline of the required traits `WithRequest, ts...`. -/
def pipeline? (ts : List Trait) :
    Option (Pipeline Request (Context (final [.withRequest] ts))) :=
  match runner? refine authenticate [.withRequest] ts with
  | some rest => some (.step (fun request => (withRequest request).map contextOf) rest)
  | none => none

end Policies

/-! ## The contexts of a list -/

theorem after_eq_append {cs : List Trait} {t : Trait} (h : t ≠ .withRequest) :
    after cs t = cs ++ [t] := by
  cases t with
  | withRequest => exact absurd rfl h
  | _ => rfl

theorem final_eq_append {cs ts : List Trait} (h : .withRequest ∉ ts) : final cs ts = cs ++ ts := by
  induction ts generalizing cs with
  | nil => rw [final, List.foldl_nil, List.append_nil]
  | cons t ts ih =>
    rw [List.mem_cons, not_or] at h
    have hafter : after cs t = cs ++ [t] := after_eq_append (Ne.symm h.1)
    rw [final, List.foldl_cons, hafter, ← final, ih h.2, List.append_assoc, List.singleton_append]

/-- The controllers that require a request only are dispatched as before. -/
theorem dispatch_pipeline?_nil {σ : Type} (refine : Env.Refinement Trait.Value)
    (authenticate : Request → Except Status WithIdentity)
    (handle : WithRequest → Sender σ → σ → σ) (request : Request) (sender : Sender σ) :
    ∃ p, pipeline? refine authenticate [] = some p ∧
      BaseController.dispatch p (fun ctx => handle (ctx.base .withRequest List.mem_cons_self))
          request sender =
        BaseController.dispatch requiredTraits handle request sender :=
  ⟨_, rfl, rfl⟩

end Policy

end Prapancha
