import Prapancha.Server.Policy
import Prapancha.Verify.Dispatch

/-!
# What a handler may rely on in its context

The policies of a list of required traits, over any way to refine an environment.  If every context
of the list can be built, then a handler that is reached holds what every policy produced, and an
attestation only with the role that it attests.  The constructors of `Env` build these contexts for
lists of at most two traits.
-/

namespace Prapancha

open Http BaseController

namespace Policy

/-- The required traits `WithRequest, ts...` are distinct, and attestations come after the
identity. -/
structure WellOrdered (ts : List Trait) : Prop where
  nodup : (.withRequest :: ts).Nodup
  identified : ∀ pre t post, .withRequest :: ts = pre ++ t :: post →
    t.IsAuthorizationAttestation → .withIdentity ∈ pre

/-- The values of the context are those that the policies produced for the request, and every
attestation is that of the role of the identity. -/
structure Holds (authenticate : Request → Except Status WithIdentity) (request : Request)
    {cs : List Trait} (ctx : Context cs) : Prop where
  requested : ∀ h, (ctx.base .withRequest h).request = request
  authenticated : ∀ h, authenticate request = .ok (ctx.base .withIdentity h)
  admin : .withAdminAttestation ∈ cs → ∃ h, (ctx.base .withIdentity h).role = text "admin"
  staff : .withStaffAttestation ∈ cs → ∃ h, (ctx.base .withIdentity h).role = text "staff"

/-- Every context of the list can be built from the one before it, and keeps what that held. -/
def Buildable (refine : Env.Refinement Trait.Value) (ts : List Trait) : Prop :=
  ∀ cs d, cs ++ [d] <+: .withRequest :: ts → ∃ f, refine cs d = some f ∧ Env.Keeps f

/-- The contract of a list of required traits: what its handler may rely on for a request. -/
def Sound (refine : Env.Refinement Trait.Value)
    (authenticate : Request → Except Status WithIdentity) (ts : List Trait) (request : Request) :
    Prop :=
  Buildable refine ts ∧
    ∃ p, pipeline? refine authenticate ts = some p ∧
      ∀ ctx, .handle ctx ∈ calls p request →
        final [.withRequest] ts = .withRequest :: ts ∧ Holds authenticate request ctx ∧
          ¬ (.withAdminAttestation ∈ ts ∧ .withStaffAttestation ∈ ts)

theorem handle_mem_calls_done {γ : Type} {ctx last : γ} :
    .handle last ∈ calls (.done : Pipeline γ γ) ctx ↔ last = ctx := by
  simp [calls]

/-- The handler is reached through a policy if that succeeds and the handler is reached from the
context that it made. -/
theorem handle_mem_calls_step {α β γ : Type} {execute : α → Except Status β} {rest : Pipeline β γ}
    {ctx : α} {last : γ} :
    .handle last ∈ calls (.step execute rest) ctx ↔
      ∃ next, execute ctx = .ok next ∧ .handle last ∈ calls rest next := by
  rw [calls]
  cases execute ctx with
  | error status => simp
  | ok next => simp

section Steps

variable {refine : Env.Refinement Trait.Value}
  {authenticate : Request → Except Status WithIdentity} {request : Request} {cs : List Trait}

theorem authorize_eq_ok {α : Type} {attestation att : α} {userRole requiredRole : Bytes}
    (h : authorize attestation userRole requiredRole = .ok att) : userRole = requiredRole := by
  rw [authorize] at h
  split at h
  · assumption
  · cases h

theorem map_eq_ok {ε α β : Type} {f : α → β} {x : Except ε α} {b : β} (h : x.map f = .ok b) :
    ∃ a, x = .ok a ∧ f a = b := by
  cases x with
  | error e => cases h
  | ok a => exact ⟨a, rfl, Except.ok.inj h⟩

/-- What a refined context holds: what it did before, and what there is to say of the new trait. -/
theorem Holds.refined {t : Trait} {f : Context cs → t.Value → Context (cs ++ [t])}
    {ctx : Context cs} {v : t.Value} (hctx : Holds authenticate request ctx)
    (hkeeps : Env.Keeps f) (hrequest : t ≠ .withRequest)
    (hidentity : t = .withIdentity →
      ∀ h, authenticate request = .ok ((f ctx v).base .withIdentity h))
    (hadmin : t = .withAdminAttestation → ∃ h, (ctx.base .withIdentity h).role = text "admin")
    (hstaff : t = .withStaffAttestation → ∃ h, (ctx.base .withIdentity h).role = text "staff") :
    Holds authenticate request (f ctx v) := by
  have hkept := (hkeeps ctx v).2
  have hmem {c : Trait} (h : c ∈ cs ++ [t]) : c ∈ cs ∨ t = c :=
    (List.mem_append.1 h).imp_right fun h => (List.mem_singleton.1 h).symm
  have hrole {role : Bytes} (h : ∃ h, (ctx.base .withIdentity h).role = role) :
      ∃ h, ((f ctx v).base .withIdentity h).role = role := by
    obtain ⟨h, hrole⟩ := h
    exact ⟨List.mem_append_left _ h, by rw [hkept _ h, hrole]⟩
  constructor
  case requested =>
    intro h
    rw [hkept _ ((hmem h).resolve_right hrequest)]
    exact hctx.requested _
  case authenticated =>
    intro h
    rcases hmem h with hcs | heq
    · rw [hkept _ hcs]
      exact hctx.authenticated hcs
    · exact hidentity heq h
  case admin => exact fun h => hrole ((hmem h).elim hctx.admin hadmin)
  case staff => exact fun h => hrole ((hmem h).elim hctx.staff hstaff)

theorem Holds.contextOf (withRequest : WithRequest) (h : withRequest.request = request) :
    Holds authenticate request (contextOf withRequest) where
  requested _ := h
  authenticated h := absurd h (by decide)
  admin h := absurd h (by decide)
  staff h := absurd h (by decide)

/-- A role policy that succeeds has seen the role. -/
theorem rolePolicy?_holds (hlawful : refine.Lawful) {t : Trait} {attestation : t.Value}
    {role : Bytes} {execute : Context cs → Except Status (Context (cs ++ [t]))}
    (hexecute : rolePolicy? refine cs t attestation role = some execute)
    {ctx : Context cs} {next : Context (cs ++ [t])} (hnext : execute ctx = .ok next) :
    ∃ f v h, next = f ctx v ∧ Env.Keeps f ∧ (ctx.base .withIdentity h).role = role := by
  rw [rolePolicy?] at hexecute
  split at hexecute
  · next h =>
    split at hexecute
    · next refined hrefined =>
      cases hexecute
      obtain ⟨att, hatt, rfl⟩ := map_eq_ok hnext
      exact ⟨refined, att, h, rfl, hlawful hrefined, authorize_eq_ok hatt⟩
    · cases hexecute
  · cases hexecute

/-- One policy: the context that it makes holds what it should, if the one before did. -/
theorem policyFor?_holds (hlawful : refine.Lawful) {t : Trait}
    {execute : Context cs → Except Status (Context (after cs t))}
    (hexecute : policyFor? refine authenticate cs t = some execute)
    {ctx : Context cs} {next : Context (after cs t)} (hctx : Holds authenticate request ctx)
    (hnext : execute ctx = .ok next) : Holds authenticate request next := by
  cases t with
  | withRequest =>
    rw [policyFor?] at hexecute
    split at hexecute
    · next h =>
      cases hexecute
      cases hnext
      exact .contextOf _ (hctx.requested h)
    · cases hexecute
  | withIdentity =>
    rw [policyFor?] at hexecute
    split at hexecute
    · next h =>
      split at hexecute
      · next refined hrefined =>
        cases hexecute
        obtain ⟨id, hid, rfl⟩ := map_eq_ok hnext
        have hkeeps := hlawful hrefined
        refine hctx.refined hkeeps (by decide) (fun _ h' => ?_) (by simp) (by simp)
        rw [(hkeeps ctx id).1, ← hctx.requested h]
        exact hid
      · cases hexecute
    · cases hexecute
  | withValidation =>
    rw [policyFor?] at hexecute
    split at hexecute
    · next refined hrefined =>
      cases hexecute
      cases hnext
      exact hctx.refined (hlawful hrefined) (by decide) (by simp) (by simp) (by simp)
    · cases hexecute
  | withAdminAttestation =>
    obtain ⟨f, v, h, rfl, hkeeps, hrole⟩ := rolePolicy?_holds hlawful hexecute hnext
    exact hctx.refined hkeeps (by decide) (by simp) (fun _ => ⟨h, hrole⟩) (by simp)
  | withStaffAttestation =>
    obtain ⟨f, v, h, rfl, hkeeps, hrole⟩ := rolePolicy?_holds hlawful hexecute hnext
    exact hctx.refined hkeeps (by decide) (by simp) (by simp) (fun _ => ⟨h, hrole⟩)

/-- All policies of a list. -/
theorem runner?_holds (hlawful : refine.Lawful) {ts : List Trait}
    {p : Pipeline (Context cs) (Context (final cs ts))}
    (hp : runner? refine authenticate cs ts = some p) {ctx : Context cs}
    {last : Context (final cs ts)} (hctx : Holds authenticate request ctx)
    (hlast : .handle last ∈ calls p ctx) : Holds authenticate request last := by
  induction ts generalizing cs with
  | nil =>
    cases hp
    obtain rfl := handle_mem_calls_done.1 hlast
    exact hctx
  | cons t ts ih =>
    rw [runner?] at hp
    split at hp
    · next execute rest hexecute hrest =>
      cases hp
      obtain ⟨next, hnext, hlast⟩ := handle_mem_calls_step.1 hlast
      exact ih hrest (policyFor?_holds hlawful hexecute hctx hnext) hlast
    · cases hp

theorem exists_rolePolicy? {t : Trait} {f : Context cs → t.Value → Context (cs ++ [t])}
    (hf : refine cs t = some f) (h : .withIdentity ∈ cs) (attestation : t.Value) (role : Bytes) :
    ∃ execute, rolePolicy? refine cs t attestation role = some execute := by
  rw [rolePolicy?, dif_pos h, hf]
  exact ⟨_, rfl⟩

/-- The policies of a list exist if its contexts can be built, its traits are distinct and its
attestations come after the identity. -/
theorem exists_runner? (ts : List Trait)
    (hbuild : ∀ ds d, cs <+: ds → ds ++ [d] <+: cs ++ ts → ∃ f, refine ds d = some f)
    (hrequest : .withRequest ∈ cs) (hnodup : (cs ++ ts).Nodup)
    (hidentified : ∀ pre t post, cs ++ ts = pre ++ t :: post →
      t.IsAuthorizationAttestation → .withIdentity ∈ pre) :
    ∃ p, runner? refine authenticate cs ts = some p := by
  induction ts generalizing cs with
  | nil => exact ⟨_, rfl⟩
  | cons t ts ih =>
    have happend : cs ++ t :: ts = cs ++ [t] ++ ts := by simp
    have ht : t ≠ .withRequest := by
      rintro rfl
      exact (List.nodup_append.1 hnodup).2.2 _ hrequest _ List.mem_cons_self rfl
    obtain ⟨f, hf⟩ : ∃ f, refine cs t = some f :=
      hbuild cs t (List.prefix_refl cs) (happend ▸ List.prefix_append _ _)
    have hrole (h : t.IsAuthorizationAttestation) : .withIdentity ∈ cs :=
      hidentified cs t ts rfl h
    obtain ⟨execute, hexecute⟩ : ∃ execute, policyFor? refine authenticate cs t = some execute := by
      cases t with
      | withRequest => exact absurd rfl ht
      | withIdentity => exact ⟨_, by rw [policyFor?, dif_pos hrequest, hf]⟩
      | withValidation => exact ⟨_, by rw [policyFor?, hf]⟩
      | withAdminAttestation => exact exists_rolePolicy? hf (hrole (.inl rfl)) _ _
      | withStaffAttestation => exact exists_rolePolicy? hf (hrole (.inr rfl)) _ _
    have hafter : after cs t = cs ++ [t] := after_eq_append ht
    obtain ⟨rest, hrest⟩ : ∃ rest, runner? refine authenticate (after cs t) ts = some rest := by
      rw [hafter]
      refine ih (fun ds d hds hpre => ?_) (List.mem_append_left _ hrequest) (happend ▸ hnodup)
        (happend ▸ hidentified)
      exact hbuild ds d ((List.prefix_append cs [t]).trans hds) (happend ▸ hpre)
    exact ⟨.step execute rest, by rw [runner?, hexecute, hrest]⟩

end Steps

/-- A list is sound as soon as its contexts can be built. -/
theorem sound_iff_buildable {refine : Env.Refinement Trait.Value} (hlawful : refine.Lawful)
    (authenticate : Request → Except Status WithIdentity) {ts : List Trait} (hts : WellOrdered ts)
    (request : Request) : Sound refine authenticate ts request ↔ Buildable refine ts := by
  refine ⟨And.left, fun hbuild => ⟨hbuild, ?_⟩⟩
  obtain ⟨rest, hrest⟩ : ∃ rest, runner? refine authenticate [.withRequest] ts = some rest := by
    refine exists_runner? ts (fun ds d _ hpre => ?_) List.mem_cons_self hts.nodup hts.identified
    obtain ⟨f, hf, -⟩ := hbuild _ d hpre
    exact ⟨f, hf⟩
  have hpipeline : pipeline? refine authenticate ts =
      some (.step (fun request => (withRequest request).map contextOf) rest) := by
    rw [pipeline?, hrest]
  have hfinal : final [.withRequest] ts = .withRequest :: ts :=
    final_eq_append (List.nodup_cons.1 hts.nodup).1
  refine ⟨_, hpipeline, fun ctx hctx => ⟨hfinal, ?_⟩⟩
  obtain ⟨next, hnext, hlast⟩ := handle_mem_calls_step.1 hctx
  cases hnext
  have hholds : Holds authenticate request ctx :=
    runner?_holds hlawful hrest (.contextOf _ rfl) hlast
  refine ⟨hholds, ?_⟩
  -- one role cannot be both
  rintro ⟨hadmin, hstaff⟩
  obtain ⟨_, hrole⟩ := hholds.admin (hfinal ▸ List.mem_cons_of_mem _ hadmin)
  obtain ⟨_, hrole'⟩ := hholds.staff (hfinal ▸ List.mem_cons_of_mem _ hstaff)
  rw [hrole] at hrole'
  exact absurd hrole' (by decide)

/-- The constructors of `Env` build all contexts of a list exactly when it has at most one trait
after `WithRequest`. -/
theorem buildable_augment?_iff {ts : List Trait} (hnodup : (.withRequest :: ts).Nodup) :
    Buildable Env.augment? ts ↔ ts.length ≤ 1 := by
  constructor
  case mp =>
    intro hbuild
    by_contra hlength
    obtain ⟨t, t', ts', rfl⟩ : ∃ t t' ts', ts = t :: t' :: ts' := by
      match ts with
      | [] | [_] => simp at hlength
      | t :: t' :: ts' => exact ⟨t, t', ts', rfl⟩
    obtain ⟨f, hf, -⟩ := hbuild [.withRequest, t] t' (by simp)
    rw [Env.augment?_eq_none (by simp) t'] at hf
    cases hf
  case mpr =>
    intro hlength cs d hpre
    have hcs : cs.length ≤ 1 := by
      have := hpre.length_le
      simp only [List.length_append, List.length_cons, List.length_nil] at this
      omega
    obtain ⟨f, hf⟩ := (Env.augment?_eq_some_iff (hpre.nodup hnodup)).2 hcs
    exact ⟨f, hf, Env.lawful_augment? hf⟩

/-- With the constructors of `Env`, a list is sound exactly when it has at most one trait after
`WithRequest`. -/
theorem sound_iff (authenticate : Request → Except Status WithIdentity) {ts : List Trait}
    (hts : WellOrdered ts) (request : Request) :
    Sound Env.augment? authenticate ts request ↔ ts.length ≤ 1 :=
  (sound_iff_buildable Env.lawful_augment? authenticate hts request).trans
    (buildable_augment?_iff hts.nodup)

/-- An identity for everybody. -/
def administrator : WithIdentity := ⟨default, text "root", text "admin"⟩

/-- Without attestations nothing has to be identified. -/
theorem sound_iff_identity :
    Sound Env.augment? (fun _ => .ok administrator) [.withIdentity] getRoot ↔
      [Trait.withIdentity].length ≤ 1 := by
  refine sound_iff _ ⟨by decide, fun pre t post heq ht => ?_⟩ _
  have hmem : t ∈ [Trait.withRequest, .withIdentity] := heq ▸ by simp
  rcases ht with rfl | rfl <;> simp at hmem

theorem wellOrdered_admin : WellOrdered [.withIdentity, .withAdminAttestation] := by
  refine ⟨by decide, fun pre t post heq ht => ?_⟩
  match pre with
  | [] | [_] =>
    simp only [List.nil_append, List.cons_append, List.cons.injEq] at heq
    rcases ht with rfl | rfl <;> simp at heq
  | a :: b :: pre =>
    simp only [List.cons_append, List.cons.injEq] at heq
    exact heq.2.1 ▸ by simp

/-- No constructor builds the context of an attested identity. -/
theorem attested_not_sound :
    WellOrdered [.withIdentity, .withAdminAttestation] ∧
      ¬ Sound Env.augment? (fun _ => .ok administrator) [.withIdentity, .withAdminAttestation]
        getRoot := by
  refine ⟨wellOrdered_admin, fun hsound => ?_⟩
  obtain ⟨f, hf, -⟩ := hsound.1 [.withRequest, .withIdentity] .withAdminAttestation (by simp)
  rw [Env.augment?_eq_none (by decide)] at hf
  cases hf

end Policy

end Prapancha
