import Prapancha.Base.Runs
import Prapancha.Json.RoundTrip
import Prapancha.Server.Router

/-!
# Registrations

A registration is answered 201 whatever the save did.  When every file-system call succeeds, a run
of requests from an empty store leaves exactly the records of the requests answered 201, none of
them an administrator's.
-/

namespace Prapancha

open Fs Http Json Security FilePersistence

namespace RegistrationController

variable (J : Engine) {H : HashAlgorithm}

theorem Accepts.unique {env : Environment H} {request : Request} {u u' : UserIdentity H}
    (h : Accepts J env request u) (h' : Accepts J env request u') : u = u' := by
  obtain ⟨object, username, password, binding, hobject, husername, hpassword, hhash, rfl⟩ := h
  obtain ⟨object', username', password', binding', hobject', husername', hpassword', hhash', rfl⟩ :=
    h'
  rw [hobject, Option.some.injEq] at hobject'
  subst hobject'
  rw [husername, Option.some.injEq, Value.string.injEq] at husername'
  rw [hpassword, Option.some.injEq, Value.string.injEq] at hpassword'
  subst husername' hpassword'
  rw [hhash, Except.ok.injEq] at hhash'
  rw [hhash']

/-- The file of the user holds its complete encoding. -/
def Stored (d : Directory) (u : UserIdentity H) : Prop :=
  d.lookup (getPath u.id) = some (.regular (JsonCodec.encodeUserIdentity J H u))

/-- The law of acknowledgement: one response; 201 only if the new user is stored; an error if no
user could be stored. -/
def Acknowledges (env : Environment H) (request : Request) (w : World) : Prop :=
  ∃ response, (handle J env ⟨request⟩ World.send w).sent = w.sent ++ [response] ∧
    (response.status = .created → ∃ u, Accepts J env request u ∧
      Stored J (handle J env ⟨request⟩ World.send w).store u) ∧
    ((∀ u, Accepts J env request u → ¬ Stored J (handle J env ⟨request⟩ World.send w).store u) →
      response.status.IsError)

/-- The law holds exactly when the user that the request makes, if any, can be written completely,
or is already in the file that cannot be opened. -/
theorem acknowledges_iff (env : Environment H) (request : Request) (w : World) :
    Acknowledges J env request w ↔ ∀ u, Accepts J env request u →
      (w.store.Writable (getPath u.id) ∧
        env.io.Completes (JsonCodec.encodeUserIdentity J H u)) ∨
      (env.io = .openFails ∧ Stored J w.store u) := by
  rcases handle_cases J env ⟨request⟩ World.send w with
    ⟨response, u, hcreated, haccepts, hhandle⟩ | ⟨response, herror, hrejects, hhandle⟩
  · have hsave : Stored J (register J env u w).store u ↔ _ :=
      lookup_save_iff (JsonCodec.userIdentityCodec J H)
    have hnot : ¬ response.status.IsError := by rw [hcreated]; decide
    unfold Acknowledges
    rw [hhandle]
    constructor
    · rintro ⟨response', hsent, hstored, -⟩ u' haccepts'
      cases haccepts.unique J haccepts'
      have hresponse : response = response' := by
        simpa [World.send, register] using hsent
      subst hresponse
      obtain ⟨u', haccepts', hu'⟩ := hstored hcreated
      cases haccepts.unique J haccepts'
      exact hsave.1 hu'
    · intro h
      have hu := hsave.2 (h u haccepts)
      exact ⟨response, rfl, fun _ => ⟨u, haccepts, hu⟩, fun hno => (hno u haccepts hu).elim⟩
  · refine iff_of_true ?_ fun u haccepts => (hrejects u haccepts).elim
    unfold Acknowledges
    rw [hhandle]
    refine ⟨response, rfl, fun hcreated => ?_, fun _ => herror⟩
    rw [hcreated] at herror
    exact absurd herror (by decide)

def signUp (username password : Bytes) : Request where
  method := .post
  target := text "/api/v1/register"
  headers := []
  body := compact.serialize (.object [(text "username", .string username),
    (text "password", .string password), (text "is_admin", .bool true)])

def surroundings (io : SaveIo) : Environment .sha256 where
  hash _ := .ok (⟨[0xAB]⟩ : Sha256Binding)
  draw := default
  io := io

/-- With a file system that refuses to open the file, the answer is 201 and nothing is stored. -/
theorem acknowledged_unstored :
    (handle compact (surroundings .openFails) ⟨signUp (text "user") (text "secret")⟩ World.send
        World.init).sent.map Response.status = [.created] ∧
      (handle compact (surroundings .openFails) ⟨signUp (text "user") (text "secret")⟩ World.send
        World.init).generated = [UUID.generate default] ∧
      (handle compact (surroundings .openFails) ⟨signUp (text "user") (text "secret")⟩ World.send
        World.init).store = ∅ := by
  decide +kernel

end RegistrationController

/-! ## Runs of requests -/

namespace AppRouter

open RegistrationController

variable (J : Engine) (H : HashAlgorithm)

structure Exchange where
  request : Request
  env : Environment H

variable {H}

/-- The server handles one request, every file-system call succeeding. -/
def Serves (w : World) (x : Exchange H) (w' : World) : Prop :=
  x.env.io = .succeeds ∧ w' = dispatch J x.env x.request World.send w

theorem Serves.cases {w w' : World} {x : Exchange H} (h : Serves J w x w') :
    (∃ response u, response.status = .created ∧ Accepts J x.env x.request u ∧
      w' = World.send response (register J x.env u w)) ∨
    ∃ response : Response, response.status ≠ .created ∧ w' = World.send response w := by
  obtain ⟨-, rfl⟩ := h
  rcases dispatch_cases J x.env x.request World.send w with hdispatch | hdispatch
  · rw [hdispatch]
    rcases handle_cases J x.env ⟨x.request⟩ World.send w with
      ⟨response, u, hcreated, haccepts, hhandle⟩ | ⟨response, herror, -, hhandle⟩
    · exact .inl ⟨response, u, hcreated, haccepts, hhandle⟩
    · refine .inr ⟨response, fun hcreated => ?_, hhandle⟩
      rw [hcreated] at herror
      exact absurd herror (by decide)
  · obtain ⟨response, hstatus, hdispatch⟩ := hdispatch
    exact .inr ⟨response, hstatus, hdispatch⟩

theorem Serves.generated_prefix {w w' : World} {x : Exchange H} (h : Serves J w x w') :
    w.generated <+: w'.generated := by
  rcases h.cases J with ⟨response, u, -, -, rfl⟩ | ⟨response, -, rfl⟩
  · exact List.prefix_append _ _
  · exact List.prefix_rfl

/-- Every record of the store is the user that some request made, under a generated identifier. -/
def Registered (xs : List (Exchange H)) (w : World) : Prop :=
  ∀ name entry, w.store.lookup name = some entry → ∃ x ∈ xs, ∃ u, Accepts J x.env x.request u ∧
    u.id ∈ w.generated ∧ name = getPath u.id ∧
    entry = .regular (JsonCodec.encodeUserIdentity J H u)

theorem Registered.save {xs : List (Exchange H)} {w : World} (h : Registered J xs w)
    {env : Environment H} (hio : env.io = .succeeds) {u : UserIdentity H}
    (hu : u.id ∉ w.generated) :
    getPath u.id ∉ w.store ∧ (register J env u w).store =
      w.store.insert (getPath u.id) (.regular (JsonCodec.encodeUserIdentity J H u)) := by
  have hfresh : getPath u.id ∉ w.store := by
    intro hmem
    obtain ⟨entry, hentry⟩ := Finmap.mem_iff.1 hmem
    obtain ⟨x, -, u', -, hgenerated, hname, -⟩ := h _ entry hentry
    exact hu (getPath_injective hname ▸ hgenerated)
  have hw : w.store.Writable (getPath u.id) := by
    intro kind opened hopened
    exact hfresh (Finmap.mem_of_lookup_eq_some hopened)
  refine ⟨hfresh, ?_⟩
  have hsave : FilePersistence.save _ w.store u .succeeds = _ :=
    save_of_writable (JsonCodec.userIdentityCodec J H) (by decide) hw
  rw [register, hio]
  exact hsave

theorem Registered.step {xs : List (Exchange H)} {w w' : World} (h : Registered J xs w)
    {x : Exchange H} (hserves : Serves J w x w') (hnodup : w'.generated.Nodup) :
    Registered J (xs ++ [x]) w' := by
  rcases hserves.cases J with ⟨response, u, -, haccepts, rfl⟩ | ⟨response, -, rfl⟩
  · have hu : u.id ∉ w.generated := by
      intro hmem
      exact (List.nodup_append.1 hnodup).2.2 _ hmem _ List.mem_cons_self rfl
    obtain ⟨-, hstore⟩ := h.save J hserves.1 hu
    intro name entry hentry
    rw [World.send, hstore] at hentry
    by_cases hname : name = getPath u.id
    · subst hname
      rw [Finmap.lookup_insert, Option.some.injEq] at hentry
      exact ⟨x, by simp, u, haccepts, List.mem_append_right _ List.mem_cons_self, rfl, hentry.symm⟩
    · rw [Finmap.lookup_insert_of_ne _ hname] at hentry
      obtain ⟨x', hx', u', haccepts', hgenerated, hname', hentry'⟩ := h name entry hentry
      exact ⟨x', List.mem_append_left _ hx', u', haccepts', List.mem_append_left _ hgenerated,
        hname', hentry'⟩
  · intro name entry hentry
    obtain ⟨x', hx', u', haccepts', hgenerated, hname', hentry'⟩ := h name entry hentry
    exact ⟨x', List.mem_append_left _ hx', u', haccepts', hgenerated, hname', hentry'⟩

theorem registered_run {xs : List (Exchange H)} {w : World} (h : Run (Serves J) World.init xs w)
    (hnodup : w.generated.Nodup) : Registered J xs w := by
  refine h.induct_on (I := fun xs w => w.generated.Nodup → Registered J xs w) ?_ ?_ hnodup
  · intro _ name entry hentry
    cases hentry
  · intro xs x w w' _ ih hserves hnodup'
    exact (ih (hnodup'.sublist (hserves.generated_prefix J).sublist)).step J hserves hnodup'

/-- The text is the record of a user who is no administrator, at version 1, with the user name and
the binding of `u`. -/
def Records (content : Bytes) (u : UserIdentity H) : Prop :=
  ∃ object : Object, J.parse content = some (.object object) ∧
    object.ifContains (text "is_admin") = some (.bool false) ∧
    object.ifContains (text "version") = some (.int64 1) ∧
    object.ifContains (text "username") = some (.string u.state.username) ∧
    object.ifContains (text "password_binding") =
      some (.string (JsonCodec.encodeBinding J H u.state.passwordBinding))

/-- Whatever else the body says, the text stored for a user is such a record. -/
theorem records_of_accepts {env : Environment H} {request : Request} {u : UserIdentity H}
    (h : Accepts J env request u) : Records J (JsonCodec.encodeUserIdentity J H u) u := by
  obtain ⟨body, username, password, binding, hbody, husername, -, -, rfl⟩ := h
  have hutf8 : Utf8 username :=
    (J.parsed_parse (BinaryCodec.parse_of_decode hbody)).utf8_string husername
  exact ⟨_, J.parse_serialize _ (JsonCodec.storable_userIdentityObject J hutf8), rfl, rfl, rfl, rfl⟩

/-- In a run of requests with distinct generated identifiers every request gets one response, only
a request answered 201 changes the store, by one new record, and every record is a non-administrator
of version 1 with the name and the binding of a request. -/
theorem registrations {xs : List (Exchange H)} {w : World} (h : Run (Serves J) World.init xs w)
    (hnodup : w.generated.Nodup) :
    (∀ pre x post, xs = pre ++ x :: post → ∃ w₁ w₂ response, Run (Serves J) World.init pre w₁ ∧
      Serves J w₁ x w₂ ∧ w₂.sent = w₁.sent ++ [response] ∧
      (response.status ≠ .created → w₂.store = w₁.store) ∧
      (response.status = .created → ∃ u, Accepts J x.env x.request u ∧ getPath u.id ∉ w₁.store ∧
        w₂.store = w₁.store.insert (getPath u.id)
          (.regular (JsonCodec.encodeUserIdentity J H u)))) ∧
    w.sent.length = xs.length ∧
    ∀ name entry, w.store.lookup name = some entry → ∃ x ∈ xs, ∃ u,
      Accepts J x.env x.request u ∧ name = getPath u.id ∧ u.state.isAdmin = false ∧ u.version = 1 ∧
      ∃ content, entry = .regular content ∧ Records J content u := by
  refine ⟨fun pre x post hxs => ?_, ?_, fun name entry hentry => ?_⟩
  · obtain ⟨w₁, w₂, hpre, hserves, hpost⟩ := h.step_at hxs
    have hprefix : w₂.generated <+: w.generated :=
      hpost.invariant (I := fun w' => w₂.generated <+: w'.generated) List.prefix_rfl
        fun _ _ _ hI hs => hI.trans (hs.generated_prefix J)
    have hnodup₂ := hnodup.sublist hprefix.sublist
    have hnodup₁ := hnodup₂.sublist (hserves.generated_prefix J).sublist
    rcases hserves.cases J with ⟨response, u, hcreated, haccepts, hw₂⟩ | ⟨response, hstatus, hw₂⟩
    · refine ⟨w₁, w₂, response, hpre, hserves, by rw [hw₂]; rfl,
        fun hne => (hne hcreated).elim, fun _ => ⟨u, haccepts, ?_⟩⟩
      rw [hw₂] at hnodup₂ ⊢
      have hu : u.id ∉ w₁.generated := by
        intro hmem
        exact (List.nodup_append.1 hnodup₂).2.2 _ hmem _ List.mem_cons_self rfl
      exact (registered_run J hpre hnodup₁).save J hserves.1 hu
    · exact ⟨w₁, w₂, response, hpre, hserves, by rw [hw₂]; rfl, fun _ => by rw [hw₂]; rfl,
        fun hcreated => (hstatus hcreated).elim⟩
  · refine h.induct_on (I := fun xs w => w.sent.length = xs.length) rfl ?_
    intro xs x w₁ w₂ _ ih hserves
    rcases hserves.cases J with ⟨response, u, -, -, rfl⟩ | ⟨response, -, rfl⟩
    · simp [World.send, register, ih]
    · simp [World.send, ih]
  · obtain ⟨x, hx, u, haccepts, -, hname, hentry⟩ := registered_run J h hnodup name entry hentry
    have hrecords := records_of_accepts J haccepts
    have hfields : u.state.isAdmin = false ∧ u.version = 1 := by
      obtain ⟨_, _, _, _, -, -, -, -, rfl⟩ := haccepts
      exact ⟨rfl, rfl⟩
    exact ⟨x, hx, u, haccepts, hname, hfields.1, hfields.2, _, hentry, hrecords⟩

/-- Two registrations, and a request without a JSON body between them. -/
def exchanges : List (Exchange .sha256) := [
  ⟨signUp (text "user") (text "secret"), surroundings .succeeds⟩,
  ⟨{ signUp [] [] with body := text "user" }, surroundings .succeeds⟩,
  ⟨signUp (text "other") (text "secret"),
    { surroundings .succeeds with draw := ⟨1, Vector.replicate 10 7⟩ }⟩]

theorem registrations_exchanges : ∃ w : World,
    w.sent.map Response.status = [.created, .badRequest, .created] ∧ w.generated.length = 2 ∧
      w.sent.length = 3 ∧ ∀ name entry, w.store.lookup name = some entry → ∃ x ∈ exchanges, ∃ u,
        Accepts compact x.env x.request u ∧ name = getPath u.id ∧ u.state.isAdmin = false ∧
          u.version = 1 ∧ ∃ content, entry = .regular content ∧ Records compact content u := by
  let w := exchanges.foldl (fun w x => dispatch compact x.env x.request World.send w) World.init
  have hrun : Run (Serves compact) World.init exchanges w :=
    Run.nil.snoc ⟨rfl, rfl⟩ |>.snoc ⟨rfl, rfl⟩ |>.snoc ⟨rfl, rfl⟩
  exact ⟨w, by decide +kernel, by decide +kernel,
    (registrations compact hrun (by decide +kernel)).2⟩

end AppRouter

end Prapancha
