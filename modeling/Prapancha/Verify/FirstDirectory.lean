import Prapancha.Server.Process
import Prapancha.Verify.Registration

/-!
# The first directory

The static instance of a controller keeps the persistence of the first request for its algorithm, so
that the registry may be initialised again to no effect: users are stored where the first of them
was.
-/

namespace Prapancha

open Http Security Json Fs

namespace Process

variable {J : Engine} {env : (H : HashAlgorithm) → Environment H} {request : Request}
  {p p' : Process} {H : HashAlgorithm} {home : Path}

/-! ## One request -/

theorem send_eq_some {response : Response} {q : Option Process} (h : send response q = some p') :
    ∃ p, q = some p ∧ p' = { p with sent := p.sent ++ [response] } := by
  obtain ⟨p, hq, hp⟩ := Option.map_eq_some_iff.1 h
  exact ⟨p, hq, hp.symm⟩

theorem foldl_send (responses : List Response) (p : Process) :
    responses.foldl (fun p response => send response p) (some p) =
      some { p with sent := p.sent ++ responses } := by
  induction responses generalizing p with
  | nil => simp
  | cons response responses ih =>
    rw [List.foldl_cons]
    refine (ih { p with sent := p.sent ++ [response] }).trans ?_
    simp

/-- A step that leaves the registry, the directories and the static instances of the registration
alone. -/
structure Calm (p p' : Process) : Prop where
  registry : p'.registry = p.registry
  working : p'.working = p.working
  tree : p'.tree = p.tree
  registration : p'.instances .registration = p.instances .registration

theorem calm_visit {c : IdentityController} (hc : c ≠ .registration)
    (h : (p.visit c).map (·.2) = some p') : Calm p p' := by
  unfold visit at h
  rw [Option.map_map] at h
  obtain ⟨persistence, -, rfl⟩ := Option.map_eq_some_iff.1 h
  exact ⟨rfl, rfl, rfl, Function.update_of_ne hc.symm _ _⟩

/-- What a request does: it is a registration, or leaves alone what registrations read. -/
theorem dispatch_cases (h : dispatch J env request p = some p') :
    Calm p p' ∨ registrationController J env request send (some p) = some p' := by
  have hpage : ∀ response : Response, send response (some p) = some p' → Calm p p' := by
    intro response hsend
    obtain ⟨q, hq, rfl⟩ := send_eq_some hsend
    cases hq
    exact ⟨rfl, rfl, rfl, rfl⟩
  have hidentity : ∀ (c : IdentityController) (response : Response), c ≠ .registration →
      send response ((p.visit c).map (·.2)) = some p' → Calm p p' := by
    intro c response hc hsend
    obtain ⟨q, hq, rfl⟩ := send_eq_some hsend
    obtain ⟨hregistry, hworking, htree, hregistration⟩ := calm_visit hc hq
    exact ⟨hregistry, hworking, htree, hregistration⟩
  unfold dispatch at h
  rcases Router.dispatch_cases ControllerProvider.voidController (routes J env) request send with
    ⟨route, hroute, hdispatch⟩ | hdispatch
  · rw [hdispatch] at h
    simp only [routes, List.mem_cons, List.not_mem_nil, or_false] at hroute
    rcases hroute with rfl | rfl | rfl | rfl | rfl | rfl
    · exact .inl (hpage _ h)
    · exact .inl (hpage _ h)
    · exact .inr h
    · exact .inl (hidentity .deregistration _ nofun h)
    · exact .inl (hidentity .login _ nofun h)
    · exact .inl (hidentity .logout _ nofun h)
  · rw [hdispatch] at h
    exact .inl (hpage _ h)

/-- What a registration does to a store. -/
def registered (J : Engine) (env : (H : HashAlgorithm) → Environment H) (request : Request)
    (H : HashAlgorithm) (store : Fs.Directory) : Fs.Directory :=
  (RegistrationController.handle J (env H) ⟨request⟩ World.send ⟨store, [], []⟩).store

/-- A registration in the directory that a path leads to. -/
structure Registers (J : Engine) (env : (H : HashAlgorithm) → Environment H) (request : Request)
    (H : HashAlgorithm) (home : Path) (p p' : Process) : Prop where
  registry : p'.registry = p.registry
  working : p'.working = p.working
  instances : p'.instances .registration H = some home
  elsewhere : ∀ place, place ≠ home.target p.working → p'.tree place = p.tree place
  grown : Tree.Grown (· ≠ home.target p.working) p.tree p'.tree
  stored : p.tree.isDirectory p.working home = true → p'.tree (home.target p.working) =
    (p.tree (home.target p.working)).map (registered J env request H)

/-- A registration goes where the path of the static instance leads, or that of the registry if
there is no instance yet. -/
theorem registration_spec {path : Path} (hregistry : p.registry = some ⟨H, path⟩)
    (hhome : (p.instances .registration H).getD path = home)
    (h : registrationController J env request send (some p) = some p') :
    Registers J env request H home p p' := by
  have hvisit : p.visit .registration = some (⟨H, home⟩, { p with
      instances := Function.update p.instances .registration
        (Function.update (p.instances .registration) H (some home)) }) := by
    rw [visit, hregistry, ← hhome]
    rfl
  unfold registrationController at h
  rw [Option.bind_some, hvisit, Option.bind_some] at h
  simp only at h
  split at h
  · next place store hfind =>
    simp only [foldl_send] at h
    cases h
    unfold Tree.find at hfind
    split at hfind
    · obtain ⟨d, hd, hplace⟩ := Option.map_eq_some_iff.1 hfind
      cases hplace
      refine ⟨rfl, rfl, by simp, fun place hplace => Function.update_of_ne hplace .., ?_,
        fun _ => ?_⟩
      · exact Tree.grown_update (fun hne => hne rfl) _
      · rw [hd]
        exact Function.update_self ..
    · cases hfind
  · next hfind =>
    simp only [foldl_send] at h
    cases h
    refine ⟨rfl, rfl, by simp, fun _ _ => rfl, .refl _, fun hdirectory => ?_⟩
    rw [Tree.find, if_pos hdirectory, Option.map_eq_none_iff] at hfind
    simp only [hfind, Option.map_none]

/-- A registration is handled by its controller. -/
theorem dispatch_register (hmethod : request.method = .post)
    (htarget : Router.targetPath request.target = text "/api/v1/register") :
    dispatch J env request p = registrationController J env request send (some p) := by
  unfold dispatch Router.dispatch
  rw [hmethod, htarget]
  have hroot : ¬ (text "/api/v1/register" = text "/" ∧ Method.post = Method.get) := nofun
  have hstatus : ¬ (text "/api/v1/register" = text "/api/v1/status" ∧ Method.post = Method.get) :=
    nofun
  rw [routes, Router.execute, if_neg hroot, Router.execute, if_neg hstatus, Router.execute,
    if_pos ⟨rfl, rfl⟩]

/-! ## Runs -/

/-- The registry makes its directory if there is none. -/
theorem grown_initialized {kept : Place → Prop} (H : HashAlgorithm) (filePath : Path)
    (p : Process) : Tree.Grown kept p.tree (p.initializeUserIdentity H filePath).tree := by
  unfold initializeUserIdentity
  by_cases hexists : p.tree.pathExists p.working filePath = true
  · simp only [if_pos hexists]
    exact .refl p.tree
  · simp only [if_neg hexists]
    exact Tree.grown_makeDirectories p.tree _

/-- The registration has its static instance for the algorithm of the registry, and apart from where
that stores users nothing has happened but that directories were made. -/
structure Settled (H : HashAlgorithm) (home : Path) (before p : Process) : Prop where
  registry : ∃ path, p.registry = some ⟨H, path⟩
  working : p.working = before.working
  instances : p.instances .registration H = some home
  grown : Tree.Grown (· ≠ home.target before.working) before.tree p.tree

namespace Settled

variable {before : Process}

theorem initialized (hs : Settled H home before p) (filePath : Path) :
    Settled H home before (p.initializeUserIdentity H filePath) := by
  refine ⟨?_, hs.working, hs.instances, hs.grown.trans (grown_initialized H filePath p)⟩
  unfold initializeUserIdentity
  by_cases hexists : p.tree.pathExists p.working filePath = true
  · simp only [if_pos hexists]
    exact ⟨filePath, rfl⟩
  · simp only [if_neg hexists]
    split
    · exact ⟨filePath, rfl⟩
    · exact hs.registry

theorem calm (hs : Settled H home before p) (hcalm : Calm p p') : Settled H home before p' := by
  refine ⟨?_, hcalm.working.trans hs.working, ?_, ?_⟩
  · rw [hcalm.registry]
    exact hs.registry
  · rw [hcalm.registration]
    exact hs.instances
  · rw [hcalm.tree]
    exact hs.grown

/-- A registration finds the static instance. -/
theorem registers (hs : Settled H home before p)
    (h : registrationController J env request send (some p) = some p') :
    Registers J env request H home p p' := by
  obtain ⟨path, hregistry⟩ := hs.registry
  exact registration_spec hregistry (by rw [hs.instances]; rfl) h

theorem register (hs : Settled H home before p)
    (h : registrationController J env request send (some p) = some p') :
    Settled H home before p' := by
  have hregisters := hs.registers h
  have hgrown := hregisters.grown
  rw [hs.working] at hgrown
  refine ⟨?_, hregisters.working.trans hs.working, hregisters.instances, hs.grown.trans hgrown⟩
  rw [hregisters.registry]
  exact hs.registry

end Settled

/-- With a registry there is a controller for a registration. -/
theorem exists_register (J : Engine) (env : (H : HashAlgorithm) → Environment H)
    (request : Request) (hmethod : request.method = .post)
    (htarget : Router.targetPath request.target = text "/api/v1/register")
    (hregistry : p.registry = some ⟨H, home⟩) :
    ∃ p', Step J p (.dispatches request env) p' ∧
      Registers J env request H ((p.instances .registration H).getD home) p p' := by
  have hsome : ∃ p', registrationController J env request send (some p) = some p' := by
    simp only [registrationController, visit, Option.bind_some, hregistry, Option.map_some]
    split
    · exact ⟨_, foldl_send _ _⟩
    · exact ⟨_, foldl_send _ _⟩
  obtain ⟨p', hp'⟩ := hsome
  exact ⟨p', .dispatches ((dispatch_register hmethod htarget).trans hp'),
    registration_spec hregistry rfl hp'⟩

def anySurroundings : (H : HashAlgorithm) → Environment H
  | .argon2id => { hash := fun _ => .error ⟨1⟩, draw := default, io := .succeeds }
  | .sha256 => RegistrationController.surroundings .succeeds

/-- A file system with a root directory only. -/
def bare : Tree := fun place => if place = [] then some ∅ else none

end Process

end Prapancha
