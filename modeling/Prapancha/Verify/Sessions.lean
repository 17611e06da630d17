import Prapancha.Server.Serving
import Prapancha.Verify.Registration

/-!
# Sessions

Each session goes through the effects of its request in their order.  A handler that has begun can
always finish, whatever the other threads do.
-/

namespace Prapancha

open Fs Http Security Json FilePersistence Effects

/-! ## Connections -/

namespace Connection

variable {H : HashAlgorithm} (J : Engine)

/-- The request that reaches the router. -/
def request (c : Connection H) : Option Request :=
  c.incoming.bind fun req => if req.version = 11 then some (fromBeast req) else none

def effects (c : Connection H) : Effects H :=
  match c.request with
  | some request => ofRequest J c.env c.describe request
  | none => []

def exchange (c : Connection H) : Option (AppRouter.Exchange H) := c.request.map (⟨·, c.env⟩)

variable {J}

theorem effects_of_request {c : Connection H} {request : Request} (h : c.request = some request) :
    c.effects J = ofRequest J c.env c.describe request := by
  rw [effects, h]

theorem ordered {c : Connection H} {request : Request} (h : c.request = some request) :
    Ordered J c.env request (c.effects J) := by
  rw [effects_of_request h]
  exact ordered_ofRequest J c.env c.describe request

theorem request_isSome_of_mem {c : Connection H} {e : Effect H} (h : e ∈ c.effects J) :
    ∃ request, c.request = some request := by
  cases hrequest : c.request with
  | some request => exact ⟨request, rfl⟩
  | none =>
    rw [effects, hrequest] at h
    exact (List.not_mem_nil h).elim

/-- A user that is saved is the one that the request makes. -/
theorem accepts_of_save {c : Connection H} {u : UserIdentity H} (hu : .save u ∈ c.effects J) :
    ∃ request, c.request = some request ∧
      RegistrationController.Accepts J c.env request u := by
  obtain ⟨request, hrequest⟩ := request_isSome_of_mem hu
  have hordered := ordered (J := J) hrequest
  obtain ⟨done, rest, heffects⟩ := List.append_of_mem hu
  rw [heffects] at hordered
  exact ⟨request, hrequest, hordered.save_unique.2.2⟩

/-- A request saves one user at most. -/
theorem save_eq {c : Connection H} {u v : UserIdentity H} (hu : .save u ∈ c.effects J)
    (hv : .save v ∈ c.effects J) : u = v := by
  obtain ⟨request, hrequest⟩ := request_isSome_of_mem hu
  have hordered := ordered (J := J) hrequest
  obtain ⟨done, rest, heffects⟩ := List.append_of_mem hu
  rw [heffects] at hordered
  obtain ⟨hdone, hrest, -⟩ := hordered.save_unique
  have hmem := mem_saves.2 hv
  rw [heffects, saves_append, saves_save, hdone, hrest] at hmem
  exact (List.mem_singleton.1 hmem).symm

end Connection

namespace Serving

variable {H : HashAlgorithm} (J : Engine)

/-! ## Sessions -/

/-- What the handler has not done yet; a save is not done while its file is open. -/
def Handling.pending (h : Handling H) : Effects H :=
  match h.file with
  | some u => .save u :: h.rest
  | none => h.rest

namespace Session

def outgoing : Session H → List Response
  | .handling h => h.outgoing
  | .responding outgoing => outgoing
  | .closed outgoing _ => outgoing
  | _ => []

/-- The user whose file the session has open. -/
def file : Session H → Option (UserIdentity H)
  | .handling h => h.file
  | _ => none

/-- The session is somewhere in the effects of its request. -/
inductive Follows (c : Connection H) : Session H → Prop
  | absent : Follows c .absent
  | reading : Follows c .reading
  | dropped {shut : Bool} : c.request = none → Follows c (.closed [] shut)
  | handling {h : Handling H} {request : Request} {done : Effects H} :
    c.request = some request → c.effects J = done ++ h.pending → h.outgoing = responses done →
    Follows c (.handling h)
  | responding {request : Request} : c.request = some request →
    Follows c (.responding (responses (c.effects J)))
  | closed {request : Request} {shut : Bool} : c.request = some request →
    Follows c (.closed (responses (c.effects J)) shut)

/-- The request is handled, but for its response. -/
def Committed (c : Connection H) : Session H → Prop
  | .handling h => saves h.pending = []
  | .responding _ => True
  | .closed _ _ => c.request.isSome
  | _ => False

end Session

open Session

variable {J}

/-- What `on_read` starts. -/
theorem onRead_cases (c : Connection H) (k : Nat) :
    (c.request = none ∧ (onRead J c k).1 = .closed [] false) ∨
      ∃ request, c.request = some request ∧
        (onRead J c k).1 = .handling ⟨k, [], none, c.effects J⟩ := by
  unfold onRead Connection.effects Connection.request
  cases c.incoming with
  | none => exact .inl ⟨rfl, rfl⟩
  | some req =>
    by_cases hversion : req.version = 11
    · exact .inr ⟨fromBeast req, by simp [hversion], by simp [hversion]⟩
    · exact .inl ⟨by simp [hversion], by simp [hversion]⟩

variable {conns : Nat → Connection H} {n : Nat}

/-- Sessions beyond the accepted ones do not exist, and the others follow their requests. -/
structure Sound (J : Engine) (conns : Nat → Connection H) (s : Server H) : Prop where
  follows : ∀ i, Follows J (conns i) (s.sessions i)
  fresh : ∀ i, s.accepted ≤ i → s.sessions i = .absent

namespace Sound

variable {s s' : Server H}

theorem update (hs : Sound J conns s) {i : Nat} {old session : Session H}
    (hold : s.sessions i = old) (hne : old ≠ .absent) (hsession : Follows J (conns i) session)
    (hsessions : s'.sessions = Function.update s.sessions i session)
    (haccepted : s'.accepted = s.accepted) : Sound J conns s' := by
  refine ⟨fun j => ?_, fun j hj => ?_⟩
  · rw [hsessions]
    by_cases hji : j = i
    · subst hji
      rwa [Function.update_self]
    · rw [Function.update_of_ne hji]
      exact hs.follows j
  · have habsent := hs.fresh j (haccepted ▸ hj)
    have hji : j ≠ i := by
      rintro rfl
      exact hne (hold.symm.trans habsent)
    rw [hsessions, Function.update_of_ne hji, habsent]

theorem frame (hs : Sound J conns s) (hsessions : s'.sessions = s.sessions)
    (haccepted : s'.accepted = s.accepted) : Sound J conns s' :=
  ⟨by rw [hsessions]; exact hs.follows, by rw [hsessions, haccepted]; exact hs.fresh⟩

/-- A handler that does the next of its effects. -/
theorem follows_next {h h' : Handling H} {c : Connection H} (e : Effect H)
    (hfollows : Follows J c (.handling h)) (hpending : h.pending = e :: h'.pending)
    (houtgoing : h'.outgoing = h.outgoing ++ responses [e]) : Follows J c (.handling h') := by
  cases hfollows with
  | @handling _ request done hrequest heffects hdone =>
    have hnext : c.effects J = (done ++ [e]) ++ h'.pending := by
      rw [heffects, hpending, List.append_assoc, List.singleton_append]
    exact .handling hrequest hnext (by rw [houtgoing, hdone, responses_append])

theorem step {e : Event} (hs : Sound J conns s) (hstep : Step J conns n s e s') :
    Sound J conns s' := by
  cases hstep with
  | accepts remote haccepting havailable =>
    refine ⟨fun j => ?_, fun j hj => ?_⟩
    · show Follows J (conns j) (Function.update s.sessions s.accepted .reading j)
      by_cases hj : j = s.accepted
      · subst hj
        rw [Function.update_self]
        exact .reading
      · rw [Function.update_of_ne hj]
        exact hs.follows j
    · have hlt : s.accepted < j := hj
      show Function.update s.sessions s.accepted .reading j = .absent
      rw [Function.update_of_ne (Nat.ne_of_gt hlt)]
      exact hs.fresh j (Nat.le_of_lt hlt)
  | @reads i k hreading havailable =>
    refine hs.update hreading nofun ?_ rfl rfl
    rcases onRead_cases (J := J) (conns i) k with ⟨hrequest, hread⟩ | ⟨request, hrequest, hread⟩
    · rw [hread]
      exact .dropped hrequest
    · rw [hread]
      exact .handling hrequest (List.nil_append _).symm rfl
  | @logs i h level msg rest hhandling hfile hrest =>
    refine hs.update hhandling nofun ?_ rfl rfl
    have hfollows := hs.follows i
    rw [hhandling] at hfollows
    exact follows_next (.log level msg) hfollows (by simp [Handling.pending, hfile, hrest])
      (by simp)
  | @opens i h u rest d hhandling hfile hrest hio hopen =>
    refine hs.update hhandling nofun ?_ rfl rfl
    have hfollows := hs.follows i
    rw [hhandling] at hfollows
    cases hfollows with
    | handling hrequest heffects houtgoing =>
      exact .handling hrequest (by rw [heffects]; simp [Handling.pending, hfile, hrest]) houtgoing
  | @refused i h u rest hhandling hfile hrest hrefused =>
    refine hs.update hhandling nofun ?_ rfl rfl
    have hfollows := hs.follows i
    rw [hhandling] at hfollows
    exact follows_next (.save u) hfollows (by simp [Handling.pending, hfile, hrest]) (by simp)
  | @writes i h u hhandling hfile =>
    refine hs.update hhandling nofun ?_ rfl rfl
    have hfollows := hs.follows i
    rw [hhandling] at hfollows
    exact follows_next (.save u) hfollows (by simp [Handling.pending, hfile]) (by simp)
  | @sends i h response rest hhandling hfile hrest =>
    refine hs.update hhandling nofun ?_ rfl rfl
    have hfollows := hs.follows i
    rw [hhandling] at hfollows
    exact follows_next (.send response) hfollows (by simp [Handling.pending, hfile, hrest])
      (by simp)
  | @returns i h hhandling hfile hrest =>
    refine hs.update hhandling nofun ?_ rfl rfl
    have hfollows := hs.follows i
    rw [hhandling] at hfollows
    cases hfollows with
    | @handling _ request done hrequest heffects houtgoing =>
      have hdone : h.outgoing = responses ((conns i).effects J) := by
        rw [houtgoing, heffects]
        simp [Handling.pending, hfile, hrest]
      obtain ⟨response, hresponse⟩ := (Connection.ordered (J := J) hrequest).responses_eq
      rw [if_neg (by rw [hdone, hresponse]; exact List.cons_ne_nil _ _), hdone]
      exact .responding hrequest
  | @responds i k outgoing ok hresponding havailable =>
    refine hs.update hresponding nofun ?_ rfl rfl
    have hfollows := hs.follows i
    rw [hresponding] at hfollows
    cases hfollows with
    | responding hrequest => exact .closed hrequest
  | _ => exact hs.frame rfl rfl

end Sound

theorem Sound.run {s s' : Server H} {es : List Event} (hs : Sound J conns s)
    (h : Run (Step J conns n) s es s') : Sound J conns s' :=
  h.invariant hs fun _ _ _ hs hstep => hs.step hstep

theorem sound_run {config : Configuration} {d : Directory} {signaled : Bool} {es : List Event}
    {s : Server H} (h : Run (Step J conns n) (start config n d signaled) es s) :
    Sound J conns s :=
  Sound.run ⟨fun _ => .absent, fun _ _ => rfl⟩ h

/-- A handler that has a user to save. -/
theorem Sound.save_mem {s : Server H} (hs : Sound J conns s) {i : Nat} {h : Handling H}
    (hhandling : s.sessions i = .handling h) {u : UserIdentity H} {rest : Effects H}
    (hpending : h.pending = .save u :: rest) : ∃ request done,
      (conns i).request = some request ∧ (conns i).effects J = done ++ .save u :: rest := by
  have hfollows := hs.follows i
  rw [hhandling] at hfollows
  cases hfollows with
  | @handling _ request done hrequest heffects houtgoing =>
    exact ⟨request, done, hrequest, by rw [heffects, hpending]⟩

theorem Session.file_eq_some {session : Session H} {u : UserIdentity H}
    (h : session.file = some u) : ∃ h, session = .handling h ∧ h.pending = .save u :: h.rest := by
  cases session with
  | handling h' => exact ⟨h', rfl, by rw [Handling.pending, show h'.file = some u from h]⟩
  | _ => cases h

theorem Session.not_committed {c : Connection H} {session : Session H} {u : UserIdentity H}
    (h : session.file = some u) : ¬ Committed c session := by
  obtain ⟨h', rfl, hpending⟩ := Session.file_eq_some h
  simp [Committed, hpending]

/-- What a session has handed to `async_write` is nothing, or the one response of its request, and
then the request is committed and its file closed. -/
theorem Sound.outgoing {s : Server H} (hs : Sound J conns s) (i : Nat) :
    (s.sessions i).outgoing = [] ∨ Committed (conns i) (s.sessions i) ∧
      (s.sessions i).file = none ∧ ∃ response, responses ((conns i).effects J) = [response] ∧
        (s.sessions i).outgoing = [response] := by
  have hfollows := hs.follows i
  cases hsession : s.sessions i with
  | absent => exact .inl rfl
  | reading => exact .inl rfl
  | handling h =>
    rw [hsession] at hfollows
    cases hfollows with
    | @handling _ request done hrequest heffects houtgoing =>
      by_cases hnil : h.outgoing = []
      · exact .inl hnil
      · have hordered := Connection.ordered (J := J) hrequest
        rw [heffects] at hordered
        have hpending := hordered.pending_eq_nil (houtgoing ▸ hnil)
        have hfile : h.file = none := by
          cases hfile : h.file with
          | none => rfl
          | some u => simp [Handling.pending, hfile] at hpending
        obtain ⟨response, hresponse⟩ := hordered.responses_eq
        refine .inr ⟨by simp [Committed, hpending], hfile, response, heffects ▸ hresponse, ?_⟩
        rw [hpending, List.append_nil] at hresponse
        exact houtgoing.trans hresponse
  | responding out =>
    rw [hsession] at hfollows
    cases hfollows with
    | responding hrequest =>
      obtain ⟨response, hresponse⟩ := (Connection.ordered (J := J) hrequest).responses_eq
      exact .inr ⟨trivial, rfl, response, hresponse, hresponse⟩
  | closed out shut =>
    rw [hsession] at hfollows
    cases hfollows with
    | dropped hrequest => exact .inl rfl
    | closed hrequest =>
      obtain ⟨response, hresponse⟩ := (Connection.ordered (J := J) hrequest).responses_eq
      exact .inr ⟨by simp [Committed, hrequest], rfl, response, hresponse, hresponse⟩

/-! ## A handler alone -/

/-- The session whose handler takes the step. -/
def Event.session : Event → Option Nat
  | .logs i => some i
  | .opens i => some i
  | .refused i => some i
  | .writes i => some i
  | .sends i => some i
  | .returns i => some i
  | _ => none

/-- The steps of one session, as few as `bound`, that make its handler `h`. -/
def Reaches (J : Engine) (conns : Nat → Connection H) (n i bound : Nat) (s : Server H)
    (h : Handling H) : Prop :=
  ∃ es s', Run (Step J conns n) s es s' ∧ (∀ e ∈ es, Event.session e = some i) ∧
    es.length ≤ bound ∧ s'.sessions = Function.update s.sessions i (.handling h)

namespace Reaches

variable {i bound : Nat} {s s' : Server H} {h h' : Handling H}

theorem refl (hhandling : s.sessions i = .handling h) : Reaches J conns n i bound s h :=
  ⟨[], s, .nil, fun _ he => (List.not_mem_nil he).elim, Nat.zero_le _,
    by rw [← hhandling, Function.update_eq_self]⟩

/-- One step, and then the others. -/
theorem head {e : Event} (hstep : Step J conns n s e s') (he : e.session = some i)
    (hsessions : s'.sessions = Function.update s.sessions i (.handling h'))
    (htail : Reaches J conns n i bound s' h) : Reaches J conns n i (bound + 1) s h := by
  obtain ⟨es, s'', hrun, hes, hlen, hs''⟩ := htail
  refine ⟨e :: es, s'', (Run.single hstep).trans hrun, List.forall_mem_cons.2 ⟨he, hes⟩,
    Nat.succ_le_succ hlen, ?_⟩
  rw [hs'', hsessions, Function.update_idem]

theorem mono {bound' : Nat} (hle : bound ≤ bound') (h : Reaches J conns n i bound s h') :
    Reaches J conns n i bound' s h' := by
  obtain ⟨es, s', hrun, hes, hlen, hs'⟩ := h
  exact ⟨es, s', hrun, hes, Nat.le_trans hlen hle, hs'⟩

end Reaches

/-- A handler between two effects can do all the others, two steps for each at most. -/
theorem reaches_of_rest (J : Engine) (conns : Nat → Connection H) (n : Nat) {i : Nat}
    {rest : Effects H} : ∀ {s : Server H} {h : Handling H},
    s.sessions i = .handling h → h.file = none → h.rest = rest →
    Reaches J conns n i (2 * rest.length) s
      ⟨h.executor, h.outgoing ++ responses rest, none, []⟩ := by
  induction rest with
  | nil =>
    intro s h hhandling hfile hrest
    rw [responses_nil, List.append_nil, ← hrest, ← hfile]
    exact .refl hhandling
  | cons e rest ih =>
    intro s h hhandling hfile hrest
    cases e with
    | log level msg =>
      have hrun := Reaches.head (.logs hhandling hfile hrest) rfl rfl
        (ih (Function.update_self ..) hfile rfl)
      exact hrun.mono (Nat.le_succ _)
    | save u =>
      by_cases hopen : (conns i).env.io ≠ .openFails ∧
        ∃ d, s.store.openTrunc (getPath u.id) = some d
      · obtain ⟨hio, d, hopen⟩ := hopen
        refine Reaches.head (.opens hhandling hfile hrest hio hopen) rfl rfl ?_
        exact Reaches.head (.writes (Function.update_self ..) rfl) rfl rfl
          (ih (h := { h with file := none, rest }) (Function.update_self ..) rfl rfl)
      · have hrefused : (conns i).env.io = .openFails ∨
            s.store.openTrunc (getPath u.id) = none := by
          rwa [not_and_or, not_not, ← Option.isSome_iff_exists, Option.not_isSome_iff_eq_none]
            at hopen
        have hrun := Reaches.head (.refused hhandling hfile hrest hrefused) rfl rfl
          (ih (Function.update_self ..) hfile rfl)
        exact hrun.mono (Nat.le_succ _)
    | send response =>
      have hrun := Reaches.head (.sends hhandling hfile hrest) rfl rfl
        (ih (Function.update_self ..) hfile rfl)
      rw [List.append_assoc] at hrun
      exact hrun.mono (Nat.le_succ _)

theorem reaches_of_pending (J : Engine) (conns : Nat → Connection H) (n : Nat) {i : Nat}
    {s : Server H} {h : Handling H} (hhandling : s.sessions i = .handling h) :
    Reaches J conns n i (2 * h.rest.length + 1) s
      ⟨h.executor, h.outgoing ++ responses h.pending, none, []⟩ := by
  cases hfile : h.file with
  | none =>
    have hpending : h.pending = h.rest := by rw [Handling.pending, hfile]
    rw [hpending]
    exact (reaches_of_rest J conns n hhandling hfile rfl).mono (Nat.le_succ _)
  | some u =>
    have hpending : h.pending = .save u :: h.rest := by rw [Handling.pending, hfile]
    rw [hpending, responses_save]
    exact Reaches.head (.writes hhandling hfile) rfl rfl
      (reaches_of_rest J conns n (h := { h with file := none }) (Function.update_self ..) rfl rfl)

theorem Sound.finishes {s : Server H} (hs : Sound J conns s) (n : Nat) {i : Nat} {h : Handling H}
    (hhandling : s.sessions i = .handling h) :
    ∃ es s' response, Run (Step J conns n) s es s' ∧ (∀ e ∈ es, Event.session e = some i) ∧
      es.length ≤ 2 * h.rest.length + 2 ∧ responses ((conns i).effects J) = [response] ∧
      s'.sessions = Function.update s.sessions i (.responding [response]) := by
  obtain ⟨es, s', hrun, hes, hlen, hs'⟩ := reaches_of_pending J conns n hhandling
  have hfollows := hs.follows i
  rw [hhandling] at hfollows
  cases hfollows with
  | @handling _ request done hrequest heffects houtgoing =>
    obtain ⟨response, hresponse⟩ := (Connection.ordered (J := J) hrequest).responses_eq
    have hall : h.outgoing ++ responses h.pending = [response] := by
      rw [houtgoing, ← responses_append, ← heffects, hresponse]
    rw [hall] at hs'
    have hself : s'.sessions i = .handling ⟨h.executor, [response], none, []⟩ := by
      rw [hs', Function.update_self]
    refine ⟨es ++ [.returns i], _, response, hrun.snoc (.returns hself rfl rfl), ?_, ?_,
      hresponse, ?_⟩
    · intro e he
      rcases List.mem_append.1 he with he | he
      · exact hes e he
      · rw [List.mem_singleton.1 he]
        rfl
    · rw [List.length_append, List.length_singleton]
      omega
    · show Function.update s'.sessions i (if [response] = [] then _ else _) = _
      rw [if_neg (List.cons_ne_nil _ _), hs', Function.update_idem]

/-- A handler that has begun can finish by its own steps, in a bounded number of them and whatever
the other threads have come to, and then its one response is on its way. -/
theorem handler_finishes {config : Configuration} {d : Directory} {signaled : Bool}
    {es : List Event} {s : Server H}
    (hrun : Run (Step J conns n) (start config n d signaled) es s) {i : Nat} {h : Handling H}
    (hhandling : s.sessions i = .handling h) :
    ∃ es' s' response, Run (Step J conns n) s es' s' ∧ (∀ e ∈ es', Event.session e = some i) ∧
      es'.length ≤ 2 * h.rest.length + 2 ∧ responses ((conns i).effects J) = [response] ∧
      s'.sessions = Function.update s.sessions i (.responding [response]) :=
  (sound_run hrun).finishes n hhandling

/-! ## Handlers that begin -/

/-- The steps between leave the executors, the signals and the listener alone. -/
structure Server.Frames (s s' : Server H) : Prop where
  executors : s'.executors = s.executors
  signals : s'.signals = s.signals
  stopped : s'.stopped = s.stopped
  accepting : s'.accepting = s.accepting

theorem Server.Frames.trans {s s' s'' : Server H} (h : s.Frames s') (h' : s'.Frames s'') :
    s.Frames s'' :=
  ⟨h'.executors.trans h.executors, h'.signals.trans h.signals, h'.stopped.trans h.stopped,
    h'.accepting.trans h.accepting⟩

/-- A running executor is available while nothing is being handled. -/
theorem available_of_not_handling {s : Server H} {k : Nat} (hexecutor : s.executors[k]? = some true)
    (hsignals : s.signals = .pending) (hstopped : s.stopped = false)
    (hsessions : ∀ i h, s.sessions i ≠ .handling h) : s.Available k := by
  refine ⟨⟨hexecutor, fun i h hi => (hsessions i h hi).elim, fun number => ?_⟩, hstopped⟩
  rw [hsignals]
  exact nofun

/-- An executor stays available while a session goes on elsewhere. -/
theorem Server.Available.update {s s' : Server H} {k : Nat} (hs : s.Available k)
    (hframe : s.Frames s') {i : Nat} {session : Session H}
    (hsessions : s'.sessions = Function.update s.sessions i session)
    (hsession : ∀ h, session = .handling h → h.executor ≠ k) : s'.Available k := by
  refine ⟨⟨hframe.executors ▸ hs.1.1, fun j h hj => ?_, fun number => ?_⟩, hframe.stopped ▸ hs.2⟩
  · rw [hsessions] at hj
    by_cases hji : j = i
    · subst hji
      rw [Function.update_self] at hj
      exact hsession h hj
    · rw [Function.update_of_ne hji] at hj
      exact hs.1.2.1 j h hj
  · rw [hframe.signals]
    exact hs.1.2.2 number

theorem frames_of_step {s s' : Server H} {e : Event} {i : Nat} (hstep : Step J conns n s e s')
    (he : e.session = some i) : s.Frames s' ∧ s'.accepted = s.accepted := by
  cases hstep with
  | logs | opens | refused | writes | sends | returns => exact ⟨⟨rfl, rfl, rfl, rfl⟩, rfl⟩
  | _ => cases he

/-- The steps of one session. -/
theorem frames_of_run {s s' : Server H} {es : List Event} {i : Nat}
    (hrun : Run (Step J conns n) s es s') (hes : ∀ e ∈ es, Event.session e = some i) :
    s.Frames s' ∧ s'.accepted = s.accepted := by
  refine (hrun.restrict hes).invariant (I := fun s' => s.Frames s' ∧ s'.accepted = s.accepted)
    ⟨⟨rfl, rfl, rfl, rfl⟩, rfl⟩ fun s₁ e s₂ hI hstep => ?_
  obtain ⟨hframe, haccepted⟩ := frames_of_step hstep.1 hstep.2
  exact ⟨hI.1.trans hframe, haccepted.trans hI.2⟩

/-- A server comes to handle a request on the next connection that it accepts. -/
theorem Server.Available.begins (J : Engine) (conns : Nat → Connection H) (n : Nat) {s : Server H}
    {k : Nat} (hs : s.Available k) (haccepting : s.accepting = true) {request : Request}
    (hrequest : (conns s.accepted).request = some request) :
    ∃ es s', Run (Step J conns n) s es s' ∧ s.Frames s' ∧ s'.accepted = s.accepted + 1 ∧
      s'.sessions = Function.update s.sessions s.accepted
        (.handling ⟨k, [], none, (conns s.accepted).effects J⟩) := by
  have haccept : Step J conns n s (.accepts k (.error [])) _ :=
    .accepts (.error []) haccepting hs
  generalize hs₁ : ({ s.setSession s.accepted .reading with
    accepted := s.accepted + 1
    logged := s.logged ++ [connectionLine (.error [])] } : Server H) = s₁ at haccept
  have hframe : s.Frames s₁ := by
    rw [← hs₁]
    exact ⟨rfl, rfl, rfl, rfl⟩
  have hsessions : s₁.sessions = Function.update s.sessions s.accepted .reading := by
    rw [← hs₁]
    rfl
  have hreading : s₁.sessions s.accepted = .reading := by rw [hsessions, Function.update_self]
  have havailable : s₁.Available k := hs.update hframe hsessions nofun
  have hread : Step J conns n s₁ (.reads s.accepted k) _ := .reads hreading havailable
  refine ⟨_, _, (Run.single haccept).snoc hread, ⟨hframe.1, hframe.2, hframe.3, hframe.4⟩, ?_, ?_⟩
  · rw [← hs₁]
    rfl
  · rcases onRead_cases (J := J) (conns s.accepted) k with ⟨hnone, -⟩ | ⟨_, -, hhandling⟩
    · rw [hrequest] at hnone
      cases hnone
    · show Function.update s₁.sessions s.accepted (onRead J (conns s.accepted) k).1 = _
      rw [hhandling, hsessions, Function.update_idem]

/-- An available executor can answer the next connection, and is available again. -/
theorem Sound.answers {s : Server H} (hs : Sound J conns s) (n : Nat) {k : Nat}
    (havailable : s.Available k) (haccepting : s.accepting = true) {request : Request}
    (hrequest : (conns s.accepted).request = some request) :
    ∃ es s' response, Run (Step J conns n) s es s' ∧ s'.Available k ∧ s'.accepting = true ∧
      s'.accepted = s.accepted + 1 ∧ responses ((conns s.accepted).effects J) = [response] ∧
      s'.sessions = Function.update s.sessions s.accepted (.responding [response]) := by
  obtain ⟨es₁, s₁, hrun₁, hframe₁, haccepted₁, hsessions₁⟩ :=
    havailable.begins J conns n haccepting hrequest
  obtain ⟨es₂, s₂, response, hrun₂, hes₂, -, hresponse, hsessions₂⟩ :=
    (hs.run hrun₁).finishes n (i := s.accepted) (by rw [hsessions₁, Function.update_self])
  obtain ⟨hframe₂, haccepted₂⟩ := frames_of_run hrun₂ hes₂
  have hframe := hframe₁.trans hframe₂
  rw [hsessions₁, Function.update_idem] at hsessions₂
  exact ⟨_, s₂, response, hrun₁.trans hrun₂, havailable.update hframe hsessions₂ nofun,
    hframe.accepting.trans haccepting, haccepted₂.trans haccepted₁, hresponse, hsessions₂⟩

/-- The main thread has started the first `m` executors, and nothing else has happened. -/
structure Server.Launched (m : Nat) (s : Server H) : Prop where
  main : s.main = .starting
  executors : s.executors = List.replicate m true
  signals : s.signals = .pending
  stopped : s.stopped = false
  accepting : s.accepting = true
  accepted : s.accepted = 0
  sessions : s.sessions = fun _ => .absent

theorem Server.Launched.available {m k : Nat} {s : Server H} (hs : s.Launched m) (hk : k < m) :
    s.Available k := by
  refine available_of_not_handling ?_ hs.signals hs.stopped fun i h => ?_
  · rw [hs.executors, List.getElem?_replicate, if_pos hk]
  · rw [hs.sessions]
    exact nofun

theorem launched_run (J : Engine) (conns : Nat → Connection H) (n : Nat) (config : Configuration)
    (d : Directory) (before : Bool) {m : Nat} (hm : m ≤ n) :
    ∃ es s, Run (Step J conns n) (start config n d before) es s ∧ s.Launched m := by
  induction m with
  | zero => exact ⟨[], _, .nil, rfl, rfl, rfl, rfl, rfl, rfl, rfl⟩
  | succ m ih =>
    obtain ⟨es, s, hrun, hs⟩ := ih (Nat.le_of_succ_le hm)
    have hlt : s.executors.length < n := by rwa [hs.executors, List.length_replicate]
    refine ⟨_, _, hrun.snoc (.launches hs.main hlt), hs.main, ?_, hs.signals, hs.stopped,
      hs.accepting, hs.accepted, hs.sessions⟩
    rw [hs.executors, ← List.replicate_succ']

/-- A server with one executor comes to handle its first request. -/
theorem handling_run (J : Engine) (conns : Nat → Connection H) {request : Request}
    (hrequest : (conns 0).request = some request) (config : Configuration) (d : Directory) :
    ∃ es s, Run (Step J conns 1) (start config 1 d false) es s ∧ s.sessions =
      Function.update (fun _ => .absent) 0 (.handling ⟨0, [], none, (conns 0).effects J⟩) := by
  obtain ⟨es, s, hlaunch, hs⟩ := launched_run J conns 1 config d false (Nat.le_refl 1)
  obtain ⟨es', s', hrun, -, -, hhandling⟩ :=
    (hs.available Nat.one_pos).begins J conns 1 hs.accepting (by rwa [hs.accepted])
  rw [hs.sessions, hs.accepted] at hhandling
  exact ⟨_, s', hlaunch.trans hrun, hhandling⟩

/-- Its client can be answered while the handler has not returned yet. -/
theorem answered_run (J : Engine) (conns : Nat → Connection H) {request : Request}
    (hrequest : (conns 0).request = some request) (config : Configuration) (d : Directory) :
    ∃ es s response, Run (Step J conns 1) (start config 1 d false) es s ∧
      responses ((conns 0).effects J) = [response] ∧ s.sessions =
        Function.update (fun _ => .absent) 0 (.handling ⟨0, [response], none, []⟩) := by
  obtain ⟨es, s, hrun, hsessions⟩ := handling_run J conns hrequest config d
  have hhandling := congrFun hsessions 0
  rw [Function.update_self] at hhandling
  obtain ⟨es', s', hrun', -, -, hs'⟩ := reaches_of_pending J conns 1 hhandling
  obtain ⟨response, hresponses⟩ := (Connection.ordered (J := J) hrequest).responses_eq
  refine ⟨_, s', response, hrun.trans hrun', hresponses, ?_⟩
  rw [hs', hsessions, Function.update_idem, ← hresponses]
  rfl

/-! ## Two connections -/

/-- The sessions of the first two connections, where no other was accepted. -/
def Session.pair (session session' : Session H) : Nat → Session H
  | 0 => session
  | 1 => session'
  | _ => .absent

theorem update_pair_zero (a b c : Session H) :
    Function.update (Session.pair a b) 0 c = Session.pair c b := by
  funext i
  match i with
  | 0 | 1 | _ + 2 => rfl

theorem update_pair_one (a b c : Session H) :
    Function.update (Session.pair a b) 1 c = Session.pair a c := by
  funext i
  match i with
  | 0 | 1 | _ + 2 => rfl

theorem pair_absent : Session.pair (H := H) .absent .absent = fun _ => .absent := by
  funext i
  match i with
  | 0 | 1 | _ + 2 => rfl

section Two

variable (J) {request request' : Request} (hrequest : (conns 0).request = some request)
  (hrequest' : (conns 1).request = some request') (config : Configuration) (d : Directory)

include hrequest hrequest'

/-- Two executors can handle two requests at once. -/
theorem both_begin : ∃ es s, Run (Step J conns 2) (start config 2 d false) es s ∧
    s.executors = [true, true] ∧ s.signals = .pending ∧ s.stopped = false ∧
    s.sessions = Session.pair (.handling ⟨0, [], none, (conns 0).effects J⟩)
      (.handling ⟨1, [], none, (conns 1).effects J⟩) := by
  obtain ⟨es, s, hlaunch, hs⟩ := launched_run J conns 2 config d false (Nat.le_refl 2)
  obtain ⟨es₁, s₁, hrun₁, hframe₁, haccepted₁, hsessions₁⟩ :=
    (hs.available Nat.two_pos).begins J conns 2 hs.accepting (by rwa [hs.accepted])
  have havailable : s₁.Available 1 := by
    refine (hs.available Nat.one_lt_two).update hframe₁ hsessions₁ ?_
    rintro h ⟨⟩
    exact Nat.zero_ne_one
  rw [hs.accepted] at haccepted₁ hsessions₁
  obtain ⟨es₂, s₂, hrun₂, hframe₂, -, hsessions₂⟩ :=
    havailable.begins J conns 2 (hframe₁.accepting.trans hs.accepting) (by rwa [haccepted₁])
  have hframe := hframe₁.trans hframe₂
  refine ⟨_, s₂, (hlaunch.trans hrun₁).trans hrun₂, hframe.executors.trans hs.executors,
    hframe.signals.trans hs.signals, hframe.stopped.trans hs.stopped, ?_⟩
  rw [hsessions₂, hsessions₁, haccepted₁, hs.sessions, ← pair_absent, update_pair_zero]
  exact update_pair_one ..

/-- The client that was accepted first can be the one that is answered last. -/
theorem overtaken_run : ∃ es s es' s' response response',
    Run (Step J conns 2) (start config 2 d false) es s ∧ Run (Step J conns 2) s es' s' ∧
      responses ((conns 0).effects J) = [response] ∧
      responses ((conns 1).effects J) = [response'] ∧
      s.sessions = Session.pair (.handling ⟨0, [], none, (conns 0).effects J⟩)
        (.responding [response']) ∧
      s'.sessions = Session.pair (.responding [response]) (.responding [response']) ∧
      s'.Available 0 := by
  obtain ⟨es₀, s₀, hrun₀, hexecutors, hsignals, hstopped, hsessions₀⟩ :=
    both_begin J hrequest hrequest' config d
  obtain ⟨es₁, s₁, response', hrun₁, hes₁, -, hresponse', hsessions₁⟩ :=
    (sound_run hrun₀).finishes 2 (i := 1) (by rw [hsessions₀]; rfl)
  rw [hsessions₀, update_pair_one] at hsessions₁
  obtain ⟨es₂, s₂, response, hrun₂, hes₂, -, hresponse, hsessions₂⟩ :=
    (sound_run (hrun₀.trans hrun₁)).finishes 2 (i := 0) (by rw [hsessions₁]; rfl)
  rw [hsessions₁, update_pair_zero] at hsessions₂
  have hframe := (frames_of_run hrun₁ hes₁).1.trans (frames_of_run hrun₂ hes₂).1
  refine ⟨_, s₁, es₂, s₂, response, response', hrun₀.trans hrun₁, hrun₂, hresponse, hresponse',
    hsessions₁, hsessions₂, available_of_not_handling ?_ (hframe.signals.trans hsignals)
      (hframe.stopped.trans hstopped) fun i h hi => ?_⟩
  · rw [hframe.executors, hexecutors]
    rfl
  · rw [hsessions₂] at hi
    match i with
    | 0 | 1 | _ + 2 => cases hi

/-- One executor can answer them in their order. -/
theorem in_turn_run : ∃ es s response response',
    Run (Step J conns 1) (start config 1 d false) es s ∧
      responses ((conns 0).effects J) = [response] ∧
      responses ((conns 1).effects J) = [response'] ∧
      s.sessions = Session.pair (.responding [response]) (.responding [response']) := by
  obtain ⟨es₀, s₀, hrun₀, hs⟩ := launched_run J conns 1 config d false (Nat.le_refl 1)
  obtain ⟨es₁, s₁, response, hrun₁, havailable, haccepting, haccepted, hresponse, hsessions₁⟩ :=
    (sound_run hrun₀).answers 1 (hs.available Nat.one_pos) hs.accepting (by rwa [hs.accepted])
  rw [hs.accepted] at haccepted hresponse hsessions₁
  obtain ⟨es₂, s₂, response', hrun₂, -, -, -, hresponse', hsessions₂⟩ :=
    (sound_run (hrun₀.trans hrun₁)).answers 1 havailable haccepting (by rwa [haccepted])
  rw [haccepted] at hresponse' hsessions₂
  refine ⟨_, s₂, response, response', (hrun₀.trans hrun₁).trans hrun₂, hresponse, hresponse', ?_⟩
  rw [hsessions₂, hsessions₁, hs.sessions, ← pair_absent, update_pair_zero]
  exact update_pair_one ..

end Two

/-- One client, who registers. -/
def oneClient : Nat → Connection .sha256
  | 0 =>
    { incoming := some
        { verb := .post, target := text "/api/v1/register", version := 11, fields := []
          body := (RegistrationController.signUp (text "user") (text "secret")).body }
      env := RegistrationController.surroundings .succeeds
      describe := fun _ => none }
  | _ =>
    { incoming := none, env := RegistrationController.surroundings .succeeds
      describe := fun _ => none }

theorem created_oneClient :
    (responses ((oneClient 0).effects compact)).map Response.status = [.created] := by
  decide +kernel

theorem handler_finishes_oneClient : ∃ es s response,
    Run (Step compact oneClient 1) (start {} 1 ∅ false) es s ∧
      s.sessions 0 = .responding [response] ∧ response.status = .created := by
  obtain ⟨es, s, hrun, hsessions⟩ := handling_run compact oneClient rfl {} ∅
  have hhandling := congrFun hsessions 0
  rw [Function.update_self] at hhandling
  obtain ⟨es', s', response, hrun', -, -, hresponses, hs'⟩ := handler_finishes hrun hhandling
  refine ⟨_, s', response, hrun.trans hrun', by rw [hs', Function.update_self], ?_⟩
  have hcreated := created_oneClient
  rw [hresponses, List.map_singleton, List.cons.injEq] at hcreated
  exact hcreated.1

theorem answered_oneClient (config : Configuration) : ∃ es s response,
    Run (Step compact oneClient 1) (start config 1 ∅ false) es s ∧ response.status = .created ∧
      s.sessions = Function.update (fun _ => .absent) 0 (.handling ⟨0, [response], none, []⟩) := by
  obtain ⟨es, s, response, hrun, hresponses, hs⟩ :=
    answered_run compact oneClient rfl config ∅
  have hcreated := created_oneClient
  rw [hresponses, List.map_singleton, List.cons.injEq] at hcreated
  exact ⟨es, s, response, hrun, hcreated.1, hs⟩

/-- Two clients, who register with different draws. -/
def twoClients : Nat → Connection .sha256
  | 1 =>
    { incoming := some
        { verb := .post, target := text "/api/v1/register", version := 11, fields := []
          body := (RegistrationController.signUp (text "other") (text "secret")).body }
      env :=
        { RegistrationController.surroundings .succeeds with draw := ⟨1, Vector.replicate 10 7⟩ }
      describe := fun _ => none }
  | i => oneClient i

theorem created_twoClients : ∀ i < 2,
    (responses ((twoClients i).effects compact)).map Response.status = [.created] := by
  decide +kernel

theorem created_of_responses {i : Nat} (hi : i < 2) {response : Response}
    (h : responses ((twoClients i).effects compact) = [response]) : response.status = .created := by
  have hcreated := created_twoClients i hi
  rw [h, List.map_singleton, List.cons.injEq] at hcreated
  exact hcreated.1

theorem overtaken_twoClients : ∃ es s es' s' response response',
    Run (Step compact twoClients 2) (start {} 2 ∅ false) es s ∧
      Run (Step compact twoClients 2) s es' s' ∧
      response.status = .created ∧ response'.status = .created ∧
      s.sessions = Session.pair (.handling ⟨0, [], none, (twoClients 0).effects compact⟩)
        (.responding [response']) ∧
      s'.sessions = Session.pair (.responding [response]) (.responding [response']) ∧
      s'.Available 0 := by
  obtain ⟨es, s, es', s', response, response', hrun, hrun', hresponse, hresponse', hsessions⟩ :=
    overtaken_run compact (show (twoClients 0).request = _ from rfl) rfl {} ∅
  exact ⟨es, s, es', s', response, response', hrun, hrun',
    created_of_responses Nat.zero_lt_two hresponse,
    created_of_responses Nat.one_lt_two hresponse', hsessions⟩

end Serving

end Prapancha
