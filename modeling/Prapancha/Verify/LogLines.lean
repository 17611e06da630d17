import Prapancha.Logging.Sinks
import Prapancha.Verify.Sessions

/-!
# The lines of the log

The lines of a request are in the log before its response is sent.  A line is what the logger makes
of a message only as long as the message has no line break, and a client can put one into the
message about its registration.
-/

namespace Prapancha

open Fs Http Security Json Logging Effects

/-! ## The lines of requests -/

namespace Effects

variable {H : HashAlgorithm}

/-- The lines that effects log. -/
def lines (es : Effects H) : List (LogLevel × Bytes) :=
  es.filterMap fun
    | .log level msg => some (level, msg)
    | _ => none

theorem lines_append (es es' : Effects H) : lines (es ++ es') = lines es ++ lines es' :=
  List.filterMap_append

theorem mem_lines {es : Effects H} {level : LogLevel} {msg : Bytes} :
    (level, msg) ∈ lines es ↔ .log level msg ∈ es := by
  rw [lines, List.mem_filterMap]
  constructor
  · rintro ⟨e, he, heq⟩
    cases e with
    | log level' msg' =>
      cases heq
      exact he
    | _ => cases heq
  · exact fun h => ⟨_, h, rfl⟩

end Effects

namespace Serving

variable {H : HashAlgorithm} (J : Engine)

/-- What a session has not done yet for its request. -/
def Session.pending (c : Connection H) : Session H → Effects H
  | .absent => c.effects J
  | .reading => c.effects J
  | .handling h => h.pending
  | .responding _ => []
  | .closed _ _ => []

/-- The lines of what a session has done are in the log, in their order. -/
def Told (conns : Nat → Connection H) (s : Server H) : Prop :=
  ∀ i, ∃ done, (conns i).effects J = done ++ (s.sessions i).pending J (conns i) ∧
    (lines done).Sublist s.logged

variable {J} {conns : Nat → Connection H} {n : Nat} {s s' : Server H}

namespace Told

theorem frame (ht : Told J conns s) (hsessions : s'.sessions = s.sessions)
    {more : List (LogLevel × Bytes)} (hlogged : s'.logged = s.logged ++ more) :
    Told J conns s' := by
  intro i
  obtain ⟨done, heffects, hlines⟩ := ht i
  refine ⟨done, by rw [hsessions]; exact heffects, ?_⟩
  rw [hlogged]
  exact hlines.trans (List.sublist_append_left _ _)

/-- A session that does some of its effects, and logs their lines. -/
theorem update (ht : Told J conns s) {i : Nat} {session : Session H} (es : Effects H)
    {more : List (LogLevel × Bytes)}
    (hsessions : s'.sessions = Function.update s.sessions i session)
    (hlogged : s'.logged = s.logged ++ more) (hmore : (lines es).Sublist more)
    (hpending : (s.sessions i).pending J (conns i) = es ++ session.pending J (conns i)) :
    Told J conns s' := by
  intro j
  obtain ⟨done, heffects, hlines⟩ := ht j
  rw [hsessions, hlogged]
  by_cases hj : j = i
  · subst hj
    rw [Function.update_self]
    refine ⟨done ++ es, by rw [heffects, hpending, List.append_assoc], ?_⟩
    rw [lines_append]
    exact hlines.append hmore
  · rw [Function.update_of_ne hj]
    exact ⟨done, heffects, hlines.trans (List.sublist_append_left _ _)⟩

theorem step {e : Event} (ht : Told J conns s) (hs : Sound J conns s)
    (hstep : Step J conns n s e s') : Told J conns s' := by
  cases hstep with
  | accepts remote haccepting havailable =>
    refine ht.update [] rfl rfl (List.nil_sublist _) ?_
    rw [hs.fresh _ (Nat.le_refl _)]
    rfl
  | @reads i k hreading havailable =>
    refine ht.update [] rfl rfl (List.nil_sublist _) ?_
    rw [hreading]
    rcases onRead_cases (J := J) (conns i) k with ⟨hnone, hread⟩ | ⟨_, -, hread⟩
    · rw [hread]
      exact (by simp [Session.pending, Connection.effects, hnone])
    · rw [hread]
      rfl
  | @logs i h level msg rest hhandling hfile hrest =>
    refine ht.update [.log level msg] rfl rfl (List.Sublist.refl _) ?_
    rw [hhandling]
    simp [Session.pending, Handling.pending, hfile, hrest]
  | @opens i h u rest d hhandling hfile hrest hio hopen =>
    refine ht.update [] rfl (List.append_nil _).symm (List.nil_sublist _) ?_
    rw [hhandling]
    simp [Session.pending, Handling.pending, hfile, hrest]
  | @refused i h u rest hhandling hfile hrest hrefused =>
    refine ht.update [.save u] rfl (List.append_nil _).symm (List.nil_sublist _) ?_
    rw [hhandling]
    simp [Session.pending, Handling.pending, hfile, hrest]
  | @writes i h u hhandling hfile =>
    refine ht.update [.save u] rfl (List.append_nil _).symm (List.nil_sublist _) ?_
    rw [hhandling]
    simp [Session.pending, Handling.pending, hfile]
  | @sends i h response rest hhandling hfile hrest =>
    refine ht.update [.send response] rfl (List.append_nil _).symm (List.nil_sublist _) ?_
    rw [hhandling]
    simp [Session.pending, Handling.pending, hfile, hrest]
  | @returns i h hhandling hfile hrest =>
    refine ht.update [] rfl (List.append_nil _).symm (List.nil_sublist _) ?_
    rw [hhandling]
    split <;> simp [Session.pending, Handling.pending, hfile, hrest]
  | @responds i k outgoing ok hresponding havailable =>
    refine ht.update [] rfl (List.append_nil _).symm (List.nil_sublist _) ?_
    rw [hresponding]
    rfl
  | failsAccept value message haccepting havailable => exact ht.frame rfl rfl
  | signals number hpending havailable => exact ht.frame rfl rfl
  | acknowledges hmain hpromised => exact ht.frame rfl rfl
  | stops hmain hle => exact ht.frame rfl rfl
  | _ => exact ht.frame rfl (List.append_nil _).symm

end Told

theorem told_run {config : Configuration} {d : Directory} {signaled : Bool} {es : List Event}
    {s : Server H} (h : Run (Step J conns n) (start config n d signaled) es s) :
    Told J conns s := by
  have hinit : Told J conns (start config n d signaled) := fun i => ⟨[], rfl, List.nil_sublist _⟩
  have hsound : Sound J conns (start config n d signaled) := ⟨fun _ => .absent, fun _ _ => rfl⟩
  exact (h.invariant (I := fun s => Told J conns s ∧ Sound J conns s) ⟨hinit, hsound⟩
    fun _ _ _ hI hstep => ⟨hI.1.step hI.2 hstep, hI.2.step hstep⟩).1

/-- A session has an answer only once all lines of its request are in the log, in their order. -/
theorem logged_before_answered {config : Configuration} {d : Directory} {signaled : Bool}
    {es : List Event} {s : Server H} (h : Run (Step J conns n) (start config n d signaled) es s)
    {i : Nat} (houtgoing : (s.sessions i).outgoing ≠ []) : ∃ request,
      (conns i).request = some request ∧
      (lines (ofRequest J (conns i).env (conns i).describe request)).Sublist s.logged := by
  obtain ⟨done, heffects, hlines⟩ := told_run h i
  have hfollows := (sound_run h).follows i
  generalize s.sessions i = session at houtgoing heffects hfollows
  cases hfollows with
  | absent => exact (houtgoing rfl).elim
  | reading => exact (houtgoing rfl).elim
  | dropped hrequest => exact (houtgoing rfl).elim
  | @handling h request done' hrequest hfollows hresponses =>
    have hordered := Connection.ordered (J := J) hrequest
    rw [hfollows] at hordered
    have hpending := hordered.pending_eq_nil (hresponses ▸ houtgoing)
    refine ⟨request, hrequest, ?_⟩
    rw [← Connection.effects_of_request hrequest, heffects]
    simpa [Session.pending, hpending] using hlines
  | @responding request hrequest =>
    refine ⟨request, hrequest, ?_⟩
    rw [← Connection.effects_of_request hrequest, heffects]
    simpa [Session.pending] using hlines
  | @closed request shut hrequest =>
    refine ⟨request, hrequest, ?_⟩
    rw [← Connection.effects_of_request hrequest, heffects]
    simpa [Session.pending] using hlines

theorem logged_before_answered_oneClient : ∃ s : Server .sha256,
    (LogLevel.info, text "Registration Successful! Username=user") ∈ s.logged := by
  obtain ⟨es, s, response, hrun, -, hs⟩ := answered_oneClient {}
  have houtgoing : (s.sessions 0).outgoing ≠ [] := by
    rw [hs, Function.update_self]
    exact List.cons_ne_nil _ _
  obtain ⟨request, hrequest, hlines⟩ := logged_before_answered hrun houtgoing
  cases hrequest
  exact ⟨s, hlines.subset (by decide +kernel)⟩

/-! ## Forged lines -/

/-- What the application appends to its file for a call. -/
def appended (sink : FileSink) (call : Logging.Call) : Bytes :=
  (Loggers.app.log call {}).dispatched.flatMap fun d => sink.write d.1 d.2

/-- A registration with a user name of its own line. -/
def forgery (J : Engine) (line password : Bytes) : BeastRequest where
  verb := .post
  target := text "/api/v1/register"
  version := 11
  fields := []
  body := BinaryCodec.encode J [(text "username", .string (newline :: line)),
    (text "password", .string password)]

theorem credentials_forgery (hempty : J.parse [] = none) {line password : Bytes}
    (hline : Utf8 line) (hpassword : Utf8 password) :
    credentials J (forgery J line password).body = some (some (newline :: line, password)) := by
  have husername : Utf8 (newline :: line) := Utf8.append (Utf8.singleton (by decide)) hline
  have hstorable : Value.Storable (.object [(text "username", .string (newline :: line)),
      (text "password", .string password)]) :=
    (Value.storable_empty.setString (Utf8.text "username") husername).setString
      (Utf8.text "password") hpassword
  rw [credentials, forgery, BinaryCodec.decode_encode hempty hstorable]
  rfl

/-- The line about a registration that succeeds. -/
theorem log_mem_ofRequest {request : Request} {env : Environment H} {describe : Describe}
    {username password : Bytes} {binding : H.Binding} (hmethod : request.method = .post)
    (htarget : Router.targetPath request.target = text "/api/v1/register")
    (hcredentials : credentials J request.body = some (some (username, password)))
    (hhash : env.hash password = .ok binding) :
    .log .info (text "Registration Successful! Username=" ++ username) ∈
      ofRequest J env describe request := by
  rw [ofRequest_register J env describe hmethod htarget]
  show _ ∈ Effects.RegistrationController.handle J env describe ⟨request⟩ send _
  rw [registration_eq, hcredentials]
  simp only [hhash]
  exact List.mem_append_left _ (List.mem_append_right _ List.mem_cons_self)

theorem mem_splitOn {line : Bytes} (hbreak : newline ∉ line) (before after : Bytes) :
    line ∈ (before ++ newline :: (line ++ newline :: after)).splitOn newline := by
  rw [List.splitOn_append_cons_self, List.splitOn_append_cons_self,
    List.splitOn_eq_singleton hbreak]
  exact List.mem_append_right _ List.mem_cons_self

/-- A client can have any line of text stand in the file of the application, as a line of its
own. -/
theorem log_lines_can_be_forged (hempty : J.parse [] = none) {line password : Bytes}
    (hline : Utf8 line) (hbreak : newline ∉ line) (hpassword : Utf8 password)
    (conns : Nat → Connection H) {binding : H.Binding}
    (hhash : (conns 0).env.hash password = .ok binding) (config : Configuration) (d : Directory) :
    ∃ req es s msg,
      Run (Step J (Function.update conns 0 { conns 0 with incoming := some req }) 1)
        (start config 1 d false) es s ∧
      (LogLevel.info, msg) ∈ s.logged ∧
      ∀ call : Logging.Call, call.level = .info → call.msg = msg → ∀ before after : Bytes,
        line ∈ (before ++ appended (.ofPath true) call ++ after).splitOn newline := by
  generalize hconns : Function.update conns 0
    { conns 0 with incoming := some (forgery J line password) } = conns'
  have hclient : conns' 0 = { conns 0 with incoming := some (forgery J line password) } := by
    rw [← hconns, Function.update_self]
  have hrequest : (conns' 0).request = some (fromBeast (forgery J line password)) := by
    rw [hclient]
    rfl
  obtain ⟨es, s, hrun, hsessions⟩ := handling_run J conns' hrequest config d
  have hhandling := congrFun hsessions 0
  rw [Function.update_self] at hhandling
  obtain ⟨es', s', hrun', -, -, hs'⟩ := reaches_of_pending J conns' 1 hhandling
  have hwhole := hrun.trans hrun'
  -- the handler has done all its effects, so their lines are in the log
  obtain ⟨done, heffects, hlines⟩ := told_run hwhole 0
  rw [hs', Function.update_self] at heffects
  have hdone : done = (conns' 0).effects J := by
    rw [heffects]
    exact (List.append_nil _).symm
  have hmem : (LogLevel.info, text "Registration Successful! Username=" ++ newline :: line) ∈
      lines ((conns' 0).effects J) := by
    rw [Connection.effects_of_request hrequest, mem_lines]
    exact log_mem_ofRequest rfl rfl (credentials_forgery hempty hline hpassword)
      (by rw [hclient]; exact hhash)
  refine ⟨_, _, s', _, hconns ▸ hwhole, (hdone ▸ hlines).subset hmem, ?_⟩
  intro call hlevel hmsg before after
  have happended : appended (.ofPath true) call = Loggers.app.formattedMsg call ++ [newline] := by
    rw [appended, Loggers.app_log (by rw [hlevel]; decide)]
    exact List.append_nil _
  have hparts : before ++ appended (.ofPath true) call ++ after =
      before ++ (call.now ++ text "Z [" ++ call.threadId ++ text "] [" ++ call.level.name ++
        text "] [" ++ Loggers.app.category ++ text "] - " ++
        text "Registration Successful! Username=") ++ newline :: (line ++ newline :: after) := by
    rw [happended, Logger.formattedMsg, hmsg]
    simp
  rw [hparts]
  exact mem_splitOn hbreak _ _

theorem log_lines_can_be_forged_oneClient : ∃ (s : Server .sha256) (msg : Bytes),
    (LogLevel.info, msg) ∈ s.logged ∧ ∀ call : Logging.Call, call.level = .info → call.msg = msg →
      text "INFO Registration Successful! Username=admin" ∈
        (appended (.ofPath true) call).splitOn newline := by
  obtain ⟨-, -, s, msg, -, hlogged, hforged⟩ := log_lines_can_be_forged (J := compact) (by decide)
    (Utf8.text "INFO Registration Successful! Username=admin") (by decide +kernel)
    (Utf8.text "secret") oneClient rfl {} ∅
  refine ⟨s, msg, hlogged, fun call hlevel hmsg => ?_⟩
  have hline := hforged call hlevel hmsg [] []
  rwa [List.append_nil, List.nil_append] at hline

end Serving

end Prapancha
