import Prapancha.Verify.Sessions

/-!
# Passwords stay secret

Two servers whose clients differ in their passwords only, passwords that can be hashed alike, take
the same steps: they log the same lines, send the same responses and make the same files, which
differ in the bindings stored in them.
-/

namespace Prapancha

open Fs Http Security Json Logging Effects

/-! ## Effects -/

/-- Two users that differ in the bindings of their passwords at most. -/
structure UserIdentity.Alike {H : HashAlgorithm} (u v : UserIdentity H) : Prop where
  base : v.toBaseModel = u.toBaseModel
  username : v.state.username = u.state.username
  isAdmin : v.state.isAdmin = u.state.isAdmin

theorem UserIdentity.Alike.id {H : HashAlgorithm} {u v : UserIdentity H} (h : u.Alike v) :
    v.id = u.id :=
  congrArg BaseModel.id h.base

inductive Effect.Alike {H : HashAlgorithm} : Effect H → Effect H → Prop
  | log (level : LogLevel) (msg : Bytes) : Alike (.log level msg) (.log level msg)
  | save {u v : UserIdentity H} : u.Alike v → Alike (.save u) (.save v)
  | send (response : Response) : Alike (.send response) (.send response)

namespace Effects

variable {H : HashAlgorithm}

/-- Effects that differ in the bindings of passwords at most. -/
def Alike (es es' : Effects H) : Prop := List.Forall₂ Effect.Alike es es'

theorem Alike.snoc {es es' : Effects H} {e e' : Effect H} (h : Alike es es') (he : e.Alike e') :
    Alike (es ++ [e]) (es' ++ [e']) :=
  List.rel_append h (.cons he .nil)

theorem Alike.refl_of_isLog {es : Effects H} (hes : ∀ e ∈ es, e.IsLog) : Alike es es := by
  refine List.forall₂_same.2 fun e he => ?_
  cases e with
  | log level msg => exact .log level msg
  | _ => exact (hes _ he).elim

/-- Two bodies that differ in their passwords at most, which are both hashed or fail alike. -/
inductive BodiesAlike (J : Engine) (env env' : Environment H) (body body' : Bytes) : Prop
  | invalid : credentials J body = none → credentials J body' = none →
    BodiesAlike J env env' body body'
  | incomplete : credentials J body = some none → credentials J body' = some none →
    BodiesAlike J env env' body body'
  | hashed {username password password' : Bytes} {binding binding' : H.Binding} :
    credentials J body = some (some (username, password)) →
    credentials J body' = some (some (username, password')) →
    env.hash password = .ok binding → env'.hash password' = .ok binding' →
    BodiesAlike J env env' body body'
  | failed {username password password' : Bytes} {error : Security.Error} :
    credentials J body = some (some (username, password)) →
    credentials J body' = some (some (username, password')) →
    env.hash password = .error error → env'.hash password' = .error error →
    BodiesAlike J env env' body body'

/-- Two requests that differ in their passwords only. -/
structure RequestsAlike (J : Engine) (env env' : Environment H) (request request' : Request) :
    Prop where
  method : request'.method = request.method
  target : request'.target = request.target
  length : request'.body.length = request.body.length
  bodies : BodiesAlike J env env' request.body request'.body

variable {J : Engine} {env env' : Environment H} {request request' : Request}

theorem alike_registration (describe : Describe) (hdraw : env'.draw = env.draw)
    (h : BodiesAlike J env env' request.body request'.body) {es : Effects H}
    (hes : ∀ e ∈ es, e.IsLog) :
    Alike (RegistrationController.handle J env describe ⟨request⟩ send es)
      (RegistrationController.handle J env' describe ⟨request'⟩ send es) := by
  have hrefl := Alike.refl_of_isLog hes
  rw [registration_eq, registration_eq, hdraw]
  cases h with
  | invalid h h' =>
    rw [h, h']
    exact hrefl.snoc (.send _)
  | incomplete h h' =>
    rw [h, h']
    exact hrefl.snoc (.send _)
  | @hashed username _ _ binding binding' h h' hhash hhash' =>
    have hsave : Effect.Alike
        (.save (UserIdentity.create env.draw ⟨username, binding, false⟩) : Effect H)
        (.save (UserIdentity.create env.draw ⟨username, binding', false⟩)) :=
      .save ⟨rfl, rfl, rfl⟩
    simp only [h, h', hhash, hhash']
    exact ((hrefl.snoc hsave).snoc (.log _ _)).snoc (.send _)
  | failed h h' hhash hhash' =>
    simp only [h, h', hhash, hhash']
    exact (hrefl.snoc (.log _ _)).snoc (.send _)

/-- A controller whose handler does alike with two requests. -/
theorem alike_dispatch (controllerName : Bytes) {handle handle' : Handler H}
    (h : RequestsAlike J env env' request request')
    (hhandle : ∀ es : Effects H, (∀ e ∈ es, e.IsLog) →
      Alike (handle ⟨request⟩ send es) (handle' ⟨request'⟩ send es)) :
    Alike (dispatch controllerName handle request send [])
      (dispatch controllerName handle' request' send []) := by
  unfold dispatch
  rw [h.method, h.target, h.length]
  exact hhandle _ (isLog_log fun _ he => (List.not_mem_nil he).elim)

theorem alike_ofRequest (describe : Describe) (hdraw : env'.draw = env.draw)
    (h : RequestsAlike J env env' request request') :
    Alike (ofRequest J env describe request) (ofRequest J env' describe request') := by
  have hpage : ∀ (status : Status) (body : Bytes) (es : Effects H), (∀ e ∈ es, e.IsLog) →
      Alike (page status body ⟨request⟩ send es) (page status body ⟨request'⟩ send es) :=
    fun status body es hes => (Alike.refl_of_isLog hes).snoc (.send _)
  have hlogged : ∀ (controllerName : Bytes) (es : Effects H), (∀ e ∈ es, e.IsLog) →
      Alike (notImplemented controllerName Prapancha.LoginController.handle ⟨request⟩ send es)
        (notImplemented controllerName Prapancha.LoginController.handle ⟨request'⟩ send es) :=
    fun controllerName es hes => hpage _ _ _ (isLog_log hes)
  have hroutes : List.Forall₂ (fun (route route' : Route (Effects H)) =>
      route.path = route'.path ∧ route.method = route'.method ∧
        Alike (route.execute request send []) (route'.execute request' send []))
      (routes J env describe) (routes J env' describe) := by
    refine .cons ⟨rfl, rfl, alike_dispatch _ h (hpage _ _)⟩
      (.cons ⟨rfl, rfl, alike_dispatch _ h (hpage _ _)⟩
        (.cons ⟨rfl, rfl, alike_dispatch _ h fun es => alike_registration describe hdraw h.bodies⟩
          (.cons ⟨rfl, rfl, alike_dispatch _ h (hlogged _)⟩
            (.cons ⟨rfl, rfl, alike_dispatch _ h (hlogged _)⟩
              (.cons ⟨rfl, rfl, alike_dispatch _ h (hlogged _)⟩ .nil)))))
  have hvoid : Alike (H := H) (voidController request send [])
      (voidController request' send []) := by
    refine alike_dispatch _ h fun es hes => ?_
    unfold VoidController.handle
    rw [h.method, h.target]
    exact hpage _ _ _ (isLog_log hes)
  exact Router.dispatch_rel (R := fun f g => Alike (f []) (g [])) h.target h.method hroutes hvoid

end Effects

/-! ## Connections and files -/

/-- Two connections whose requests differ in their passwords and fields at most. -/
structure Connection.Alike (J : Engine) {H : HashAlgorithm} (c c' : Connection H) : Prop where
  draw : c'.env.draw = c.env.draw
  io : c'.env.io = c.env.io
  describe : c'.describe = c.describe
  incoming : Option.Rel (fun req req' : BeastRequest => req'.version = req.version ∧
    RequestsAlike J c.env c'.env (fromBeast req) (fromBeast req')) c.incoming c'.incoming

namespace Fs.Directory

/-- An entry without the content of a regular file. -/
def blank : Entry → Entry
  | .regular _ => .regular []
  | .special kind opened => .special kind opened

/-- The same files, with other contents perhaps. -/
def Alike (d d' : Directory) : Prop :=
  ∀ name, (d'.lookup name).map blank = (d.lookup name).map blank

namespace Alike

variable {d d' : Directory}

theorem insert (h : Alike d d') (name : FileName) (content content' : Bytes) :
    Alike (d.insert name (.regular content)) (d'.insert name (.regular content')) := by
  intro name'
  by_cases hname : name' = name
  · subst hname
    rw [Finmap.lookup_insert, Finmap.lookup_insert]
    rfl
  · rw [Finmap.lookup_insert_of_ne _ hname, Finmap.lookup_insert_of_ne _ hname]
    exact h name'

theorem lookup_special (h : Alike d d') {name : FileName} {kind : Except Exn Bool}
    {opened : Option Fs.Stream} (hd : d.lookup name = some (.special kind opened)) :
    d'.lookup name = some (.special kind opened) := by
  have hname := h name
  rw [hd] at hname
  cases hd' : d'.lookup name with
  | none =>
    rw [hd'] at hname
    cases hname
  | some entry =>
    cases entry with
    | regular content =>
      rw [hd'] at hname
      cases hname
    | special kind' opened' =>
      rw [hd'] at hname
      cases hname
      rfl

theorem symm (h : Alike d d') : Alike d' d := fun name => (h name).symm

theorem openTrunc_none (h : Alike d d') {name : FileName} (hopen : d.openTrunc name = none) :
    d'.openTrunc name = none := by
  obtain ⟨kind, opened, hd⟩ := openTrunc_eq_none.1 hopen
  exact openTrunc_eq_none.2 ⟨kind, opened, h.lookup_special hd⟩

theorem openTrunc_some (h : Alike d d') {name : FileName} {e : Directory}
    (hopen : d.openTrunc name = some e) : ∃ e', d'.openTrunc name = some e' ∧ Alike e e' := by
  cases hopen' : d'.openTrunc name with
  | none =>
    rw [h.symm.openTrunc_none hopen'] at hopen
    cases hopen
  | some e' =>
    refine ⟨e', rfl, ?_⟩
    rw [openTrunc_eq_some hopen, openTrunc_eq_some hopen']
    exact h.insert name [] []

theorem write_self (d : Directory) (name : FileName) (offset : Nat) (data : Bytes) :
    Alike d (d.write name offset data) := by
  unfold Directory.write
  split
  · next content hd =>
    intro name'
    by_cases hname : name' = name
    · subst hname
      rw [Finmap.lookup_insert, hd]
      rfl
    · rw [Finmap.lookup_insert_of_ne _ hname]
  · exact fun _ => rfl

theorem trans {d'' : Directory} (h : Alike d d') (h' : Alike d' d'') : Alike d d'' :=
  fun name => (h' name).trans (h name)

theorem write (h : Alike d d') (name : FileName) (offset offset' : Nat) (data data' : Bytes) :
    Alike (d.write name offset data) (d'.write name offset' data') :=
  ((write_self d name offset data).symm.trans h).trans (write_self d' name offset' data')

end Alike

end Fs.Directory

/-! ## Servers -/

namespace Serving

variable {H : HashAlgorithm}

structure Handling.Alike (h h' : Handling H) : Prop where
  executor : h'.executor = h.executor
  outgoing : h'.outgoing = h.outgoing
  file : Option.Rel UserIdentity.Alike h.file h'.file
  rest : Effects.Alike h.rest h'.rest

namespace Handling.Alike

variable {h h' : Handling H} {rest : Effects H}

theorem file_none (hh : h.Alike h') (hfile : h.file = none) : h'.file = none := by
  have hrel := hh.file
  rw [hfile] at hrel
  cases hfile' : h'.file with
  | none => rfl
  | some v =>
    rw [hfile'] at hrel
    cases hrel

theorem file_some (hh : h.Alike h') {u : UserIdentity H} (hfile : h.file = some u) :
    ∃ v, h'.file = some v ∧ u.Alike v := by
  have hrel := hh.file
  rw [hfile] at hrel
  cases hfile' : h'.file with
  | none =>
    rw [hfile'] at hrel
    cases hrel
  | some v =>
    rw [hfile'] at hrel
    cases hrel with
    | some huv => exact ⟨v, rfl, huv⟩

theorem rest_nil (hh : h.Alike h') (hrest : h.rest = []) : h'.rest = [] := by
  have hrel := hh.rest
  rw [hrest] at hrel
  exact List.forall₂_nil_left_iff.1 hrel

theorem rest_cons (hh : h.Alike h') {e : Effect H} (hrest : h.rest = e :: rest) :
    ∃ e' rest', e.Alike e' ∧ h'.rest = e' :: rest' ∧ Effects.Alike rest rest' := by
  have hrel := hh.rest
  rw [hrest] at hrel
  obtain ⟨e', rest', he, hrest', heq⟩ := List.forall₂_cons_left_iff.1 hrel
  exact ⟨e', rest', he, heq, hrest'⟩

end Handling.Alike

/-- Two sessions that differ in the bindings of passwords at most. -/
inductive Session.Alike : Session H → Session H → Prop
  | absent : Alike .absent .absent
  | reading : Alike .reading .reading
  | handling {h h' : Handling H} : h.Alike h' → Alike (.handling h) (.handling h')
  | responding (outgoing : List Response) : Alike (.responding outgoing) (.responding outgoing)
  | closed (outgoing : List Response) (shut : Bool) :
    Alike (.closed outgoing shut) (.closed outgoing shut)

theorem Session.Alike.outgoing_eq {session session' : Session H} (h : session.Alike session') :
    session'.outgoing = session.outgoing := by
  cases h with
  | handling hh => exact hh.outgoing
  | _ => rfl

def SessionsAlike (sessions sessions' : Nat → Session H) : Prop :=
  ∀ i, (sessions i).Alike (sessions' i)

theorem SessionsAlike.update {sessions sessions' : Nat → Session H}
    (h : SessionsAlike sessions sessions') (i : Nat) {session session' : Session H}
    (hsession : session.Alike session') : SessionsAlike (Function.update sessions i session)
      (Function.update sessions' i session') := by
  intro j
  by_cases hj : j = i
  · subst hj
    rwa [Function.update_self, Function.update_self]
  · rw [Function.update_of_ne hj, Function.update_of_ne hj]
    exact h j

/-- The other server: with a store and sessions of its own. -/
def Server.twin (s : Server H) (d : Directory) (sessions : Nat → Session H) : Server H :=
  { s with store := d, sessions := sessions }

section Step

variable {s : Server H} {d : Directory} {sessions : Nat → Session H} {k i : Nat}

theorem Server.Idle.twin (h : s.Idle k) (hsessions : SessionsAlike s.sessions sessions) :
    (s.twin d sessions).Idle k := by
  refine ⟨h.1, fun i h' hi => ?_, h.2.2⟩
  have hi' : sessions i = .handling h' := hi
  have halike := hsessions i
  rw [hi'] at halike
  generalize hsession : s.sessions i = session at halike
  cases halike with
  | @handling h'' _ hh =>
    rw [hh.executor]
    exact h.2.1 i h'' hsession

theorem Server.Available.twin (h : s.Available k) (hsessions : SessionsAlike s.sessions sessions) :
    (s.twin d sessions).Available k :=
  ⟨h.1.twin hsessions, h.2⟩

theorem SessionsAlike.reading (hsessions : SessionsAlike s.sessions sessions)
    (hreading : s.sessions i = .reading) : sessions i = .reading := by
  have halike := hsessions i
  rw [hreading] at halike
  generalize sessions i = session at halike
  cases halike
  rfl

theorem SessionsAlike.responding (hsessions : SessionsAlike s.sessions sessions)
    {outgoing : List Response} (hresponding : s.sessions i = .responding outgoing) :
    sessions i = .responding outgoing := by
  have halike := hsessions i
  rw [hresponding] at halike
  generalize sessions i = session at halike
  cases halike
  rfl

theorem SessionsAlike.handling (hsessions : SessionsAlike s.sessions sessions) {h : Handling H}
    (hhandling : s.sessions i = .handling h) : ∃ h', sessions i = .handling h' ∧ h.Alike h' := by
  have halike := hsessions i
  rw [hhandling] at halike
  generalize sessions i = session at halike
  cases halike with
  | handling hh => exact ⟨_, rfl, hh⟩

variable {J : Engine}

theorem alike_onRead {c c' : Connection H} (h : Connection.Alike J c c') (k : Nat) :
    (onRead J c k).1.Alike (onRead J c' k).1 ∧ (onRead J c' k).2 = (onRead J c k).2 := by
  have hincoming := h.incoming
  unfold onRead
  cases hc : c.incoming with
  | none =>
    cases hc' : c'.incoming with
    | none => exact ⟨.closed [] false, rfl⟩
    | some req' =>
      rw [hc, hc'] at hincoming
      cases hincoming
  | some req =>
    cases hc' : c'.incoming with
    | none =>
      rw [hc, hc'] at hincoming
      cases hincoming
    | some req' =>
      rw [hc, hc'] at hincoming
      cases hincoming with
      | some hreq =>
        obtain ⟨hversion, hrequests⟩ := hreq
        simp only [hversion]
        split
        · exact ⟨.closed [] false, rfl⟩
        · refine ⟨.handling ⟨rfl, rfl, .none, ?_⟩, rfl⟩
          rw [h.describe]
          exact alike_ofRequest c.describe h.draw hrequests

variable {conns conns' : Nat → Connection H} {n : Nat} {s' : Server H} {e : Event}

/-- A step of one server is a step of the other. -/
theorem alike_step (hconns : ∀ i, Connection.Alike J (conns i) (conns' i))
    (hstore : Directory.Alike s.store d) (hsessions : SessionsAlike s.sessions sessions)
    (h : Step J conns n s e s') : ∃ d' sessions',
      Step J conns' n (s.twin d sessions) e (s'.twin d' sessions') ∧
        Directory.Alike s'.store d' ∧ SessionsAlike s'.sessions sessions' := by
  cases h with
  | accepts remote haccepting havailable =>
    exact ⟨d, _, .accepts remote haccepting (havailable.twin hsessions), hstore,
      hsessions.update _ .reading⟩
  | failsAccept value message haccepting havailable =>
    exact ⟨d, sessions, .failsAccept value message haccepting (havailable.twin hsessions), hstore,
      hsessions⟩
  | abortsAccept haccepting havailable =>
    exact ⟨d, sessions, .abortsAccept haccepting (havailable.twin hsessions), hstore, hsessions⟩
  | @reads i k hreading havailable =>
    obtain ⟨hread, hlines⟩ := alike_onRead (hconns i) k
    have hstep : Step J conns' n (s.twin d sessions) (.reads i k) _ :=
      .reads (hsessions.reading hreading) (havailable.twin hsessions)
    rw [hlines] at hstep
    exact ⟨d, _, hstep, hstore, hsessions.update i hread⟩
  | @logs i h level msg rest hhandling hfile hrest =>
    obtain ⟨h', hhandling', hh⟩ := hsessions.handling hhandling
    obtain ⟨_, rest', ⟨⟩, hrest', halike⟩ := hh.rest_cons hrest
    exact ⟨d, _, .logs hhandling' (hh.file_none hfile) hrest', hstore,
      hsessions.update i (.handling ⟨hh.executor, hh.outgoing, hh.file, halike⟩)⟩
  | @opens i h u rest e hhandling hfile hrest hio hopen =>
    obtain ⟨h', hhandling', hh⟩ := hsessions.handling hhandling
    obtain ⟨_, rest', hsave, hrest', halike⟩ := hh.rest_cons hrest
    cases hsave with
    | @save _ v huv =>
      obtain ⟨e', hopen', he⟩ := hstore.openTrunc_some hopen
      rw [← huv.id] at hopen'
      rw [← (hconns i).io] at hio
      exact ⟨e', _, .opens hhandling' (hh.file_none hfile) hrest' hio hopen', he,
        hsessions.update i (.handling ⟨hh.executor, hh.outgoing, .some huv, halike⟩)⟩
  | @refused i h u rest hhandling hfile hrest hrefused =>
    obtain ⟨h', hhandling', hh⟩ := hsessions.handling hhandling
    obtain ⟨_, rest', hsave, hrest', halike⟩ := hh.rest_cons hrest
    cases hsave with
    | @save _ v huv =>
      have hrefused' : (conns' i).env.io = .openFails ∨
          d.openTrunc (FilePersistence.getPath v.id) = none := by
        rw [(hconns i).io, huv.id]
        exact hrefused.imp_right hstore.openTrunc_none
      exact ⟨d, _, .refused hhandling' (hh.file_none hfile) hrest' hrefused', hstore,
        hsessions.update i (.handling ⟨hh.executor, hh.outgoing, hh.file, halike⟩)⟩
  | @writes i h u hhandling hfile =>
    obtain ⟨h', hhandling', hh⟩ := hsessions.handling hhandling
    obtain ⟨v, hfile', huv⟩ := hh.file_some hfile
    refine ⟨_, _, .writes hhandling' hfile', ?_,
      hsessions.update i (.handling ⟨hh.executor, hh.outgoing, .none, hh.rest⟩)⟩
    rw [huv.id]
    exact hstore.write _ _ _ _ _
  | @sends i h response rest hhandling hfile hrest =>
    obtain ⟨h', hhandling', hh⟩ := hsessions.handling hhandling
    obtain ⟨_, rest', ⟨⟩, hrest', halike⟩ := hh.rest_cons hrest
    have houtgoing : h'.outgoing ++ [response] = h.outgoing ++ [response] := by rw [hh.outgoing]
    exact ⟨d, _, .sends hhandling' (hh.file_none hfile) hrest', hstore,
      hsessions.update i (.handling ⟨hh.executor, houtgoing, hh.file, halike⟩)⟩
  | @returns i h hhandling hfile hrest =>
    obtain ⟨h', hhandling', hh⟩ := hsessions.handling hhandling
    refine ⟨d, _, .returns hhandling' (hh.file_none hfile) (hh.rest_nil hrest), hstore,
      hsessions.update i ?_⟩
    rw [hh.outgoing]
    split
    · exact .closed [] false
    · exact .responding h.outgoing
  | @responds i k outgoing ok hresponding havailable =>
    exact ⟨d, _, .responds ok (hsessions.responding hresponding) (havailable.twin hsessions),
      hstore, hsessions.update i (.closed outgoing ok)⟩
  | signals number hpending havailable =>
    exact ⟨d, sessions, .signals number hpending (havailable.twin hsessions), hstore, hsessions⟩
  | promises hhandling => exact ⟨d, sessions, .promises hhandling, hstore, hsessions⟩
  | launches hmain hlt => exact ⟨d, sessions, .launches hmain hlt, hstore, hsessions⟩
  | launched hmain hlt => exact ⟨d, sessions, .launched hmain hlt, hstore, hsessions⟩
  | exits hidle hstopped =>
    exact ⟨d, sessions, .exits (hidle.twin hsessions) hstopped, hstore, hsessions⟩
  | acknowledges hmain hpromised =>
    exact ⟨d, sessions, .acknowledges hmain hpromised, hstore, hsessions⟩
  | joins hmain hexecutor => exact ⟨d, sessions, .joins hmain hexecutor, hstore, hsessions⟩
  | stops hmain hle => exact ⟨d, sessions, .stops hmain hle, hstore, hsessions⟩

end Step

/-- Two servers whose clients differ in their passwords, and in the fields of their requests, take
the same steps: all that the second shows and logs is what the first does, and its store has the
same files. -/
theorem passwords_stay_secret {J : Engine} {conns conns' : Nat → Connection H} {n : Nat}
    {config : Configuration} {d : Directory} {signaled : Bool} {es : List Event} {s : Server H}
    (hconns : ∀ i, Connection.Alike J (conns i) (conns' i))
    (h : Run (Step J conns n) (start config n d signaled) es s) : ∃ d' sessions,
      Run (Step J conns' n) (start config n d signaled) es (s.twin d' sessions) ∧
        Directory.Alike s.store d' ∧
        ∀ i, (sessions i).outgoing = (s.sessions i).outgoing := by
  let R (s t : Server H) : Prop := ∃ d' sessions, t = s.twin d' sessions ∧
    Directory.Alike s.store d' ∧ SessionsAlike s.sessions sessions
  have hinit : R (start config n d signaled) (start config n d signaled) :=
    ⟨d, _, rfl, fun _ => rfl, fun _ => .absent⟩
  have hstep : ∀ (s : Server H) (e : Event) (s' t : Server H), R s t → Step J conns n s e s' →
      ∃ t', Step J conns' n t e t' ∧ R s' t' := by
    rintro s e s' _ ⟨d', sessions, rfl, hstore, hsessions⟩ hstep
    obtain ⟨d'', sessions', hstep', halike⟩ := alike_step hconns hstore hsessions hstep
    exact ⟨_, hstep', d'', sessions', rfl, halike⟩
  obtain ⟨_, hrun, d', sessions, rfl, hstore, hsessions⟩ := h.lockstep hinit hstep
  exact ⟨d', sessions, hrun, hstore, fun i => (hsessions i).outgoing_eq⟩

/-- The client with another password. -/
def otherClient : Nat → Connection .sha256
  | 0 =>
    { oneClient 0 with
      incoming := some
        { verb := .post, target := text "/api/v1/register", version := 11, fields := []
          body := (RegistrationController.signUp (text "user") (text "hidden")).body } }
  | i => oneClient i

theorem alike_otherClient (i : Nat) : Connection.Alike compact (oneClient i) (otherClient i) := by
  match i with
  | 0 =>
    refine ⟨rfl, rfl, rfl, .some ⟨rfl, rfl, rfl, ?_, ?_⟩⟩
    · decide +kernel
    · have h : ∀ password ∈ [text "secret", text "hidden"],
          credentials compact (RegistrationController.signUp (text "user") password).body =
            some (some (text "user", password)) := by decide +kernel
      exact .hashed (h _ (.head _)) (h _ (.tail _ (.head _))) rfl rfl
  | i + 1 => exact ⟨rfl, rfl, rfl, .none⟩

theorem passwords_stay_secret_oneClient : ∃ es response, ∃ s : Server .sha256,
    Run (Step compact otherClient 1) (start {} 1 ∅ false) es s ∧
      (s.sessions 0).outgoing = [response] := by
  obtain ⟨es, s, response, hrun, -, hs⟩ := answered_oneClient {}
  obtain ⟨d, sessions, hrun', -, hsessions⟩ := passwords_stay_secret alike_otherClient hrun
  refine ⟨es, response, _, hrun', (hsessions 0).trans ?_⟩
  rw [hs, Function.update_self]
  rfl

end Serving

end Prapancha
