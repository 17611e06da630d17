import Prapancha.Verify.Sessions

/-!
# Requests served together

The executors serve any number of connections at once, without a lock around the store.  Whatever
the order of their steps, the server is where it would be had the router handled the requests one
after another, but for the files that are open and still empty.
-/

namespace Prapancha

open Fs Http Security Json FilePersistence Effects

/-! ## One request after another -/

namespace AppRouter

variable {H : HashAlgorithm} (J : Engine)

/-- The router handles a request. -/
def Handles (w : World) (x : Exchange H) (w' : World) : Prop :=
  w' = dispatch J x.env x.request World.send w

/-- The requests one after another. -/
def handleAll (xs : List (Exchange H)) (w : World) : World :=
  xs.foldl (fun w x => dispatch J x.env x.request World.send w) w

variable {J}

theorem eq_handleAll {w w' : World} {xs : List (Exchange H)} (h : Run (Handles J) w xs w') :
    w' = handleAll J xs w :=
  h.eq_foldl fun _ _ _ hstep => hstep

end AppRouter

namespace Connection

variable {H : HashAlgorithm} {J : Engine} {c : Connection H} {request : Request}

theorem dispatch_eq (h : c.request = some request) (w : World) :
    AppRouter.dispatch J c.env request World.send w = perform J c.env (c.effects J) w := by
  rw [effects_of_request h, perform_ofRequest]

/-- The router handles a request that saves nobody. -/
theorem dispatch_of_saves_nil (h : c.request = some request) (hsaves : saves (c.effects J) = [])
    (w : World) : AppRouter.dispatch J c.env request World.send w =
      { w with sent := w.sent ++ responses (c.effects J) } := by
  rw [dispatch_eq h, perform_of_saves_nil J c.env hsaves]

/-- The router handles a request that saves a user. -/
theorem dispatch_of_save (h : c.request = some request) {done rest : Effects H}
    {u : UserIdentity H} (heffects : c.effects J = done ++ .save u :: rest) (w : World) :
    AppRouter.dispatch J c.env request World.send w =
      ⟨save (JsonCodec.userIdentityCodec J H) w.store u c.env.io, w.generated ++ [u.id],
        w.sent ++ responses (c.effects J)⟩ := by
  have hunique := ordered (J := J) h
  rw [heffects] at hunique
  obtain ⟨hdone, hrest, -⟩ := hunique.save_unique
  rw [dispatch_eq h, heffects, perform_append, perform_of_saves_nil J c.env hdone]
  show perform J c.env rest (RegistrationController.register J c.env u _) = _
  rw [perform_of_saves_nil J c.env hrest]
  simp [RegistrationController.register]

/-- What one request does to the files. -/
theorem lookup_dispatch (h : c.request = some request) (w : World) :
    (∀ u, .save u ∈ c.effects J →
      (AppRouter.dispatch J c.env request World.send w).store.lookup (getPath u.id) =
        (save (JsonCodec.userIdentityCodec J H) w.store u c.env.io).lookup (getPath u.id)) ∧
    ∀ name, (∀ u, .save u ∈ c.effects J → getPath u.id ≠ name) →
      (AppRouter.dispatch J c.env request World.send w).store.lookup name =
        w.store.lookup name := by
  refine ⟨fun u hu => ?_, fun name hname => ?_⟩
  · obtain ⟨done, rest, heffects⟩ := List.append_of_mem hu
    rw [dispatch_of_save h heffects]
  · by_cases hsaves : saves (c.effects J) = []
    · rw [dispatch_of_saves_nil h hsaves]
    · obtain ⟨u, hu⟩ := List.exists_mem_of_ne_nil _ hsaves
      obtain ⟨done, rest, heffects⟩ := List.append_of_mem (mem_saves.1 hu)
      rw [dispatch_of_save h heffects]
      exact lookup_save_ne _ (hname u (mem_saves.1 hu)).symm

end Connection

namespace Serving

open Session

variable {H : HashAlgorithm} (J : Engine) (conns : Nat → Connection H)

/-- No two requests save users with one identifier. -/
def DistinctIds : Prop :=
  ∀ i j u v, .save u ∈ (conns i).effects J → .save v ∈ (conns j).effects J → u.id = v.id → i = j

/-- A session has the file open. -/
def Server.Opened (s : Server H) (name : FileName) : Prop :=
  ∃ i u, (s.sessions i).file = some u ∧ getPath u.id = name

/-- The router could have handled the committed requests in the order `is` and be in the state
`w`. -/
structure Linearizes (d : Directory) (s : Server H) (is : List Nat) (w : World) : Prop where
  nodup : is.Nodup
  mem_iff : ∀ i, i ∈ is ↔ Committed (conns i) (s.sessions i)
  run : Run (AppRouter.Handles J) ⟨d, [], []⟩ (is.filterMap fun i => (conns i).exchange) w
  sent : w.sent = is.flatMap fun i => responses ((conns i).effects J)
  opened : ∀ i u, (s.sessions i).file = some u → (conns i).env.io ≠ .openFails ∧
    s.store.lookup (getPath u.id) = some (.regular []) ∧ w.store.Writable (getPath u.id)
  lookup_eq : ∀ name, ¬ s.Opened name → s.store.lookup name = w.store.lookup name

variable {J conns} {d : Directory} {n : Nat}

/-- A file that another session has open is not the one of this session. -/
theorem Sound.path_ne {s : Server H} (hs : Sound J conns s) (hids : DistinctIds J conns) {i : Nat}
    {h : Handling H} (hhandling : s.sessions i = .handling h) {u : UserIdentity H}
    {rest : Effects H} (hpending : h.pending = .save u :: rest) {j : Nat} {v : UserIdentity H}
    (hj : j ≠ i) (hv : (s.sessions j).file = some v) : getPath v.id ≠ getPath u.id := by
  obtain ⟨h', hhandling', hpending'⟩ := Session.file_eq_some hv
  obtain ⟨_, done, -, heffects⟩ := hs.save_mem hhandling hpending
  obtain ⟨_, done', -, heffects'⟩ := hs.save_mem hhandling' hpending'
  refine fun hpath => hj (hids j i v u ?_ ?_ (getPath_injective hpath))
  · rw [heffects']
    exact List.mem_append_right _ List.mem_cons_self
  · rw [heffects]
    exact List.mem_append_right _ List.mem_cons_self

namespace Linearizes

variable {s s' : Server H} {is : List Nat} {w : World}

/-- A step of one session that leaves the store alone and its file, and commits nothing. -/
theorem stutter (hl : Linearizes J conns d s is w) {i : Nat} {old session : Session H}
    (hold : s.sessions i = old) (hsessions : s'.sessions = Function.update s.sessions i session)
    (hstore : s'.store = s.store) (hfile : session.file = old.file)
    (hcommitted : Committed (conns i) session ↔ Committed (conns i) old) :
    Linearizes J conns d s' is w := by
  have hfiles : ∀ j, (s'.sessions j).file = (s.sessions j).file := by
    intro j
    rw [hsessions]
    by_cases hj : j = i
    · subst hj
      rw [Function.update_self, hfile, hold]
    · rw [Function.update_of_ne hj]
  refine ⟨hl.nodup, fun j => ?_, hl.run, hl.sent, fun j u hu => ?_, fun name hname => ?_⟩
  · rw [hl.mem_iff, hsessions]
    by_cases hj : j = i
    · subst hj
      rw [Function.update_self, hcommitted, hold]
    · rw [Function.update_of_ne hj]
  · rw [hstore]
    exact hl.opened j u (hfiles j ▸ hu)
  · rw [hstore]
    refine hl.lookup_eq name fun hopened => hname ?_
    obtain ⟨j, u, hu, hpath⟩ := hopened
    exact ⟨j, u, (hfiles j).trans hu, hpath⟩

/-- A step of one session that does the last of its request that concerns the store.  `P` are the
names of the file that the session has open or writes. -/
theorem commit (hl : Linearizes J conns d s is w) {i : Nat} {session : Session H}
    {request : Request} (hrequest : (conns i).request = some request)
    (hold : ¬ Committed (conns i) (s.sessions i)) (hcommitted : Committed (conns i) session)
    (hfile : session.file = none) (hsessions : s'.sessions = Function.update s.sessions i session)
    {w' : World} (hw' : w' = AppRouter.dispatch J (conns i).env request World.send w)
    (hsent : w'.sent = w.sent ++ responses ((conns i).effects J)) {P : FileName → Prop}
    (hframe : ∀ name, ¬ P name → s'.store.lookup name = s.store.lookup name ∧
      w'.store.lookup name = w.store.lookup name)
    (hwritten : ∀ name, P name → s'.store.lookup name = w'.store.lookup name)
    (howned : ∀ u, (s.sessions i).file = some u → P (getPath u.id))
    (hothers : ∀ j u, j ≠ i → (s.sessions j).file = some u → ¬ P (getPath u.id)) :
    Linearizes J conns d s' (is ++ [i]) w' := by
  have hself : s'.sessions i = session := by rw [hsessions, Function.update_self]
  have hne : ∀ j, j ≠ i → s'.sessions j = s.sessions j := by
    intro j hj
    rw [hsessions, Function.update_of_ne hj]
  refine ⟨?_, fun j => ?_, ?_, ?_, fun j u hu => ?_, fun name hname => ?_⟩
  · have hnotin : i ∉ is := fun hi => hold ((hl.mem_iff i).1 hi)
    exact List.nodup_append.2 ⟨hl.nodup, List.nodup_singleton i, fun a ha b hb hab =>
      hnotin (List.mem_singleton.1 hb ▸ hab ▸ ha)⟩
  · rw [List.mem_append, List.mem_singleton]
    by_cases hj : j = i
    · subst hj
      rw [hself]
      exact iff_of_true (.inr rfl) hcommitted
    · rw [hne j hj, hl.mem_iff]
      exact ⟨fun h => h.resolve_right hj, .inl⟩
  · have hexchange : (conns i).exchange = some ⟨request, (conns i).env⟩ := by
      rw [Connection.exchange, hrequest, Option.map_some]
    have hone : [i].filterMap (fun i => (conns i).exchange) = [⟨request, (conns i).env⟩] := by
      simp [hexchange]
    rw [List.filterMap_append, hone]
    exact hl.run.snoc hw'
  · rw [hsent, hl.sent, List.flatMap_append, List.flatMap_singleton]
  · by_cases hj : j = i
    · subst hj
      rw [hself, hfile] at hu
      cases hu
    · rw [hne j hj] at hu
      obtain ⟨hio, hlookup, hwritable⟩ := hl.opened j u hu
      obtain ⟨hs, hw⟩ := hframe _ (hothers j u hj hu)
      exact ⟨hio, hs.trans hlookup, hwritable.congr hw⟩
  · by_cases hp : P name
    · exact hwritten name hp
    · obtain ⟨hs, hw⟩ := hframe name hp
      rw [hs, hw]
      refine hl.lookup_eq name fun hopened => ?_
      obtain ⟨j, u, hu, rfl⟩ := hopened
      by_cases hj : j = i
      · subst hj
        exact hp (howned u hu)
      · exact hname ⟨j, u, (by rw [hne j hj]; exact hu), rfl⟩

/-- A step that touches neither the sessions nor the store. -/
theorem frame (hl : Linearizes J conns d s is w) (hsessions : s'.sessions = s.sessions)
    (hstore : s'.store = s.store) : Linearizes J conns d s' is w :=
  hl.stutter (i := 0) rfl (by rw [hsessions, Function.update_eq_self]) hstore rfl Iff.rfl

/-- The handler opens its file. -/
theorem opening (hl : Linearizes J conns d s is w) (hids : DistinctIds J conns)
    (hsound : Sound J conns s) {i : Nat} {h : Handling H} {u : UserIdentity H} {rest : Effects H}
    {opened : Directory} (hhandling : s.sessions i = .handling h) (hfile : h.file = none)
    (hrest : h.rest = .save u :: rest) (hio : (conns i).env.io ≠ .openFails)
    (hopen : s.store.openTrunc (getPath u.id) = some opened)
    (hsessions : s'.sessions =
      Function.update s.sessions i (.handling { h with file := some u, rest }))
    (hstore : s'.store = opened) : Linearizes J conns d s' is w := by
  have hpending : h.pending = .save u :: rest := by rw [Handling.pending, hfile, hrest]
  have hself : s'.sessions i = .handling { h with file := some u, rest } := by
    rw [hsessions, Function.update_self]
  have hne : ∀ j, j ≠ i → s'.sessions j = s.sessions j := by
    intro j hj
    rw [hsessions, Function.update_of_ne hj]
  have hothers : ∀ j v, j ≠ i → (s.sessions j).file = some v → getPath v.id ≠ getPath u.id :=
    fun j v hj hv => hsound.path_ne hids hhandling hpending hj hv
  have hclosed : ¬ s.Opened (getPath u.id) := by
    rintro ⟨j, v, hv, hpath⟩
    by_cases hj : j = i
    · subst hj
      rw [hhandling] at hv
      cases hfile.symm.trans hv
    · exact hothers j v hj hv hpath
  have hwritable : s.store.Writable (getPath u.id) := by
    intro kind opened hspecial
    simp [Directory.openTrunc, hspecial] at hopen
  have hopened := Directory.openTrunc_eq_some hopen
  refine ⟨hl.nodup, fun j => ?_, hl.run, hl.sent, fun j v hv => ?_, fun name hname => ?_⟩
  · rw [hl.mem_iff]
    by_cases hj : j = i
    · subst hj
      rw [hself, hhandling]
      simp [Committed, Handling.pending, hfile, hrest]
    · rw [hne j hj]
  · by_cases hj : j = i
    · subst hj
      rw [hself] at hv
      cases hv
      refine ⟨hio, ?_, hwritable.congr (hl.lookup_eq _ hclosed).symm⟩
      rw [hstore, hopened, Finmap.lookup_insert]
    · rw [hne j hj] at hv
      obtain ⟨hio', hlookup, hw⟩ := hl.opened j v hv
      refine ⟨hio', ?_, hw⟩
      rw [hstore, Directory.lookup_openTrunc_ne hopen (hothers j v hj hv), hlookup]
  · have hname' : name ≠ getPath u.id := by
      rintro rfl
      exact hname ⟨i, u, by rw [hself]; rfl, rfl⟩
    rw [hstore, Directory.lookup_openTrunc_ne hopen hname']
    refine hl.lookup_eq name fun hold => hname ?_
    obtain ⟨j, v, hv, hpath⟩ := hold
    have hj : j ≠ i := by
      rintro rfl
      rw [hhandling] at hv
      cases hfile.symm.trans hv
    exact ⟨j, v, by rw [hne j hj]; exact hv, hpath⟩

/-- The handler is done with the file of its user, and the file is as `save` leaves it. -/
theorem saved (hl : Linearizes J conns d s is w) (hids : DistinctIds J conns)
    (hsound : Sound J conns s) {i : Nat} {h h' : Handling H} {u : UserIdentity H}
    (hhandling : s.sessions i = .handling h) (hpending : h.pending = .save u :: h'.pending)
    (hfile : h'.file = none)
    (hsessions : s'.sessions = Function.update s.sessions i (.handling h'))
    (hframe : ∀ name, name ≠ getPath u.id → s'.store.lookup name = s.store.lookup name)
    (hwritten : s'.store.lookup (getPath u.id) =
      (save (JsonCodec.userIdentityCodec J H) w.store u (conns i).env.io).lookup (getPath u.id)) :
    ∃ w', Linearizes J conns d s' (is ++ [i]) w' := by
  obtain ⟨request, done, hrequest, heffects⟩ := hsound.save_mem hhandling hpending
  have hunique := Connection.ordered (J := J) hrequest
  rw [heffects] at hunique
  have hcommitted : Committed (conns i) (.handling h') := hunique.save_unique.2.1
  have hdispatch := Connection.dispatch_of_save hrequest heffects w
  refine ⟨_, hl.commit (P := (· = getPath u.id)) hrequest ?_ hcommitted hfile hsessions rfl ?_
    (fun name hname => ⟨hframe name hname, ?_⟩) ?_ ?_ ?_⟩
  · rw [hhandling]
    simp [Committed, hpending]
  · rw [hdispatch]
  · rw [hdispatch]
    exact lookup_save_ne _ hname
  · rintro name rfl
    rw [hwritten, hdispatch]
  · intro v hv
    rw [hhandling] at hv
    have hpending' : h.pending = .save v :: h.rest := by
      rw [Handling.pending, show h.file = some v from hv]
    rw [hpending, List.cons.injEq, Effect.save.injEq] at hpending'
    rw [hpending'.1]
  · exact fun j v hj hv => hsound.path_ne hids hhandling hpending hj hv

theorem step (hl : Linearizes J conns d s is w) (hids : DistinctIds J conns)
    (hsound : Sound J conns s) {e : Event} (hstep : Step J conns n s e s') :
    ∃ more w', Linearizes J conns d s' (is ++ more) w' := by
  have same : Linearizes J conns d s' is w → ∃ more w', Linearizes J conns d s' (is ++ more) w' :=
    fun h => ⟨[], w, by rwa [List.append_nil]⟩
  cases hstep with
  | accepts remote haccepting havailable =>
    exact same (hl.stutter (hsound.fresh _ (Nat.le_refl _)) rfl rfl rfl Iff.rfl)
  | @reads i k hreading havailable =>
    rcases onRead_cases (J := J) (conns i) k with ⟨hrequest, hread⟩ | ⟨request, hrequest, hread⟩
    · refine same (hl.stutter hreading rfl rfl (by rw [hread]; rfl) ?_)
      rw [hread]
      simp [Committed, hrequest]
    · by_cases hsaves : saves ((conns i).effects J) = []
      · have hcommitted : Committed (conns i) (onRead J (conns i) k).1 := by
          rw [hread]
          exact hsaves
        have hdispatch := Connection.dispatch_of_saves_nil hrequest hsaves w
        refine ⟨[i], _, hl.commit (P := fun _ => False) hrequest ?_ hcommitted (by rw [hread]; rfl)
          rfl rfl ?_ (fun name _ => ⟨rfl, ?_⟩) (fun _ h => False.elim h) ?_ fun _ _ _ _ h => h⟩
        · rw [hreading]
          exact not_false
        · rw [hdispatch]
        · rw [hdispatch]
        · intro u hu
          rw [hreading] at hu
          cases hu
      · refine same (hl.stutter hreading rfl rfl (by rw [hread]; rfl) ?_)
        rw [hread]
        exact iff_of_false hsaves not_false
  | @logs i h level msg rest hhandling hfile hrest =>
    refine same (hl.stutter hhandling rfl rfl rfl ?_)
    simp [Committed, Handling.pending, hfile, hrest]
  | @opens i h u rest opened hhandling hfile hrest hio hopen =>
    exact same (hl.opening hids hsound hhandling hfile hrest hio hopen rfl rfl)
  | @refused i h u rest hhandling hfile hrest hrefused =>
    have hpending : h.pending = .save u :: rest := by rw [Handling.pending, hfile, hrest]
    have hclosed : ¬ s.Opened (getPath u.id) := by
      rintro ⟨j, v, hv, hpath⟩
      by_cases hj : j = i
      · subst hj
        rw [hhandling] at hv
        cases hfile.symm.trans hv
      · exact hsound.path_ne hids hhandling hpending hj hv hpath
    have hnext : h.pending = .save u :: Handling.pending { h with rest } := by
      simp [Handling.pending, hfile, hrest]
    refine ⟨[i], hl.saved hids hsound hhandling hnext hfile rfl (fun _ _ => rfl) ?_⟩
    · rcases hrefused with hio | hopen
      · rw [hio, save_openFails]
        exact hl.lookup_eq _ hclosed
      · rw [Directory.openTrunc_eq_none, hl.lookup_eq _ hclosed,
          ← Directory.openTrunc_eq_none] at hopen
        have hsave : save (JsonCodec.userIdentityCodec J H) w.store u (conns i).env.io = w.store :=
          save_of_openTrunc (JsonCodec.userIdentityCodec J H)
            (show w.store.openTrunc (getPath (Model.id u)) = none from hopen) _
        rw [hsave]
        exact hl.lookup_eq _ hclosed
  | @writes i h u hhandling hfile =>
    obtain ⟨hio, hlookup, hwritable⟩ := hl.opened i u (by rw [hhandling]; exact hfile)
    have hnext : h.pending = .save u :: Handling.pending { h with file := none } := by
      simp [Handling.pending, hfile]
    refine ⟨[i], hl.saved hids hsound hhandling hnext rfl rfl
      (fun name hname => Directory.lookup_write_ne hname _ _) ?_⟩
    · have hsave : save (JsonCodec.userIdentityCodec J H) w.store u (conns i).env.io =
          w.store.insert (getPath u.id)
            (.regular (written (conns i).env.io (JsonCodec.encodeUserIdentity J H u))) :=
        save_of_writable (JsonCodec.userIdentityCodec J H) hio hwritable
      rw [hsave, Finmap.lookup_insert]
      refine (Directory.lookup_write hlookup _ _).trans ?_
      rw [Directory.overwrite_nil]
  | @sends i h response rest hhandling hfile hrest =>
    refine same (hl.stutter hhandling rfl rfl rfl ?_)
    simp [Committed, Handling.pending, hfile, hrest]
  | @returns i h hhandling hfile hrest =>
    have hfollows := hsound.follows i
    rw [hhandling] at hfollows
    cases hfollows with
    | handling hrequest =>
      refine same (hl.stutter hhandling rfl rfl ?_ ?_)
      · split <;> exact hfile.symm
      · split <;> simp [Committed, Handling.pending, hfile, hrest, hrequest]
  | @responds i k outgoing ok hresponding havailable =>
    have hfollows := hsound.follows i
    rw [hresponding] at hfollows
    cases hfollows with
    | responding hrequest =>
      refine same (hl.stutter hresponding rfl rfl rfl ?_)
      simp [Committed, hrequest]
  | _ => exact same (hl.frame rfl rfl)

/-- The order only grows at its end. -/
theorem extend (hl : Linearizes J conns d s is w) (hids : DistinctIds J conns)
    (hsound : Sound J conns s) {es : List Event} (h : Run (Step J conns n) s es s') :
    ∃ more w', Linearizes J conns d s' (is ++ more) w' := by
  have hboth := h.invariant
    (I := fun s' => Sound J conns s' ∧ ∃ more w', Linearizes J conns d s' (is ++ more) w')
    ⟨hsound, [], w, by rwa [List.append_nil]⟩ ?_
  · exact hboth.2
  · intro s₁ e s₂ hI hstep
    obtain ⟨hsound, more, w₁, hl₁⟩ := hI
    obtain ⟨more', w₂, hl₂⟩ := hl₁.step hids hsound hstep
    exact ⟨hsound.step hstep, more ++ more', w₂, by rwa [← List.append_assoc]⟩

theorem start_empty (config : Configuration) (n : Nat) (signaled : Bool) :
    Linearizes J conns d (start config n d signaled) [] ⟨d, [], []⟩ where
  nodup := List.nodup_nil
  mem_iff _ := iff_of_false List.not_mem_nil not_false
  run := .nil
  sent := rfl
  opened _ _ hu := nomatch hu
  lookup_eq _ _ := rfl

end Linearizes

theorem linearizes_run {config : Configuration} {signaled : Bool} {es : List Event} {s : Server H}
    (hids : DistinctIds J conns) (h : Run (Step J conns n) (start config n d signaled) es s) :
    ∃ is w, Linearizes J conns d s is w := by
  obtain ⟨is, w, hl⟩ :=
    (Linearizes.start_empty config n signaled).extend hids ⟨fun _ => .absent, fun _ _ => rfl⟩ h
  exact ⟨_, w, hl⟩

/-- In every reachable state the router could have handled the committed requests in some order that
only grows, and a session hands out nothing but the response of its request in that order. -/
theorem served_in_order {config : Configuration} {signaled : Bool} {es es' : List Event}
    {s s' : Server H} (hids : DistinctIds J conns)
    (h : Run (Step J conns n) (start config n d signaled) es s)
    (h' : Run (Step J conns n) s es' s') :
    ∃ is w more w', Linearizes J conns d s is w ∧ Linearizes J conns d s' (is ++ more) w' ∧
      ∀ i, (s'.sessions i).outgoing = [] ∨ i ∈ is ++ more ∧ ∃ response,
        responses ((conns i).effects J) = [response] ∧ (s'.sessions i).outgoing = [response] := by
  have hsound : Sound J conns s := sound_run h
  obtain ⟨is, w, hl⟩ := linearizes_run hids h
  obtain ⟨more, w', hl'⟩ := hl.extend hids hsound h'
  refine ⟨is, w, more, w', hl, hl', fun i => ?_⟩
  rcases (sound_run (h.trans h')).outgoing i with hnil | ⟨hcommitted, -, hresponse⟩
  · exact .inl hnil
  · exact .inr ⟨(hl'.mem_iff i).2 hcommitted, hresponse⟩

/-- No two requests share an identifier where no two draw the same one. -/
theorem distinctIds_of_draws (J : Engine) {conns : Nat → Connection H}
    (h : ∀ i j, (conns i).request ≠ none → (conns j).request ≠ none →
      UUID.generate (conns i).env.draw = UUID.generate (conns j).env.draw → i = j) :
    DistinctIds J conns := by
  have hid : ∀ i u, .save u ∈ (conns i).effects J →
      (conns i).request ≠ none ∧ u.id = UUID.generate (conns i).env.draw := by
    intro i u hu
    obtain ⟨request, hrequest, -, -, -, -, -, -, -, -, rfl⟩ := Connection.accepts_of_save hu
    exact ⟨hrequest ▸ nofun, rfl⟩
  intro i j u v hu hv huv
  obtain ⟨hi, hui⟩ := hid i u hu
  obtain ⟨hj, hvj⟩ := hid j v hv
  exact h i j hi hj (hui.symm.trans (huv.trans hvj))

theorem draws_twoClients : ∀ i j, (twoClients i).request ≠ none → (twoClients j).request ≠ none →
    UUID.generate (twoClients i).env.draw = UUID.generate (twoClients j).env.draw → i = j := by
  intro i j hi hj hsame
  match i, j with
  | 0, 0 | 1, 1 => rfl
  | 0, 1 | 1, 0 => exact absurd hsame (by decide +kernel)
  | _ + 2, _ => exact (hi rfl).elim
  | _, _ + 2 => exact (hj rfl).elim

theorem distinctIds_twoClients : DistinctIds compact twoClients :=
  distinctIds_of_draws compact draws_twoClients

theorem save_mem_of_created {c : Connection H} {request : Request}
    (hrequest : c.request = some request)
    (hcreated : (responses (c.effects J)).map Response.status = [.created]) :
    ∃ u, .save u ∈ c.effects J := by
  obtain ⟨response, hresponse, hstatus⟩ := List.mem_map.1 (hcreated ▸ List.mem_singleton_self _)
  obtain ⟨done, u, rest, heffects⟩ :=
    (Connection.ordered (J := J) hrequest).save_of_created hresponse hstatus
  exact ⟨u, heffects ▸ List.mem_append_right _ List.mem_cons_self⟩

/-- A handler that has just begun to serve a user is not committed. -/
theorem not_committed_of_begun {c : Connection H} {u : UserIdentity H} {k : Nat}
    (hu : .save u ∈ c.effects J) : ¬ Committed c (.handling ⟨k, [], none, c.effects J⟩) :=
  List.ne_nil_of_mem (mem_saves.2 hu)

theorem save_twoClients {i : Nat} (hi : i < 2) :
    ∃ u, .save u ∈ (twoClients i).effects compact := by
  match i with
  | 0 => exact save_mem_of_created rfl (created_twoClients 0 hi)
  | 1 => exact save_mem_of_created rfl (created_twoClients 1 hi)

/-- The second client overtakes the first. -/
theorem served_in_order_twoClients : ∃ s s' is w more w',
    Linearizes compact twoClients ∅ s is w ∧ Linearizes compact twoClients ∅ s' (is ++ more) w' ∧
      1 ∈ is ∧ 0 ∉ is ∧ 0 ∈ more ∧ ∀ i < 2, ∃ response, (s'.sessions i).outgoing = [response] := by
  obtain ⟨es, s, es', s', response, response', hrun, hrun', -, -, hs, hs', -⟩ :=
    overtaken_twoClients
  obtain ⟨is, w, more, w', hl, hl', -⟩ := served_in_order distinctIds_twoClients hrun hrun'
  obtain ⟨u, hu⟩ := save_twoClients Nat.zero_lt_two
  have hzero : 0 ∉ is := by
    rw [hl.mem_iff, hs]
    exact not_committed_of_begun hu
  have hmem : 0 ∈ is ++ more := by
    rw [hl'.mem_iff, hs']
    trivial
  refine ⟨s, s', is, w, more, w', hl, hl', ?_, hzero, ?_, fun i hi => ?_⟩
  · rw [hl.mem_iff, hs]
    trivial
  · exact (List.mem_append.1 hmem).resolve_left hzero
  · rw [hs']
    match i with
    | 0 => exact ⟨response, rfl⟩
    | 1 => exact ⟨response', rfl⟩

/-! ## The store -/

/-- The store after requests with distinct users, one after another: the file of each user is as its
save alone would leave it, and the other files are as before. -/
theorem store_handleAll (hids : DistinctIds J conns) {is : List Nat} (hnodup : is.Nodup)
    (hrequests : ∀ i ∈ is, ∃ request, (conns i).request = some request) :
    let w := AppRouter.handleAll J (is.filterMap fun i => (conns i).exchange) ⟨d, [], []⟩
    (∀ i ∈ is, ∀ u, .save u ∈ (conns i).effects J → w.store.lookup (getPath u.id) =
      (save (JsonCodec.userIdentityCodec J H) d u (conns i).env.io).lookup (getPath u.id)) ∧
    ∀ name, (∀ i ∈ is, ∀ u, .save u ∈ (conns i).effects J → getPath u.id ≠ name) →
      w.store.lookup name = d.lookup name := by
  induction is using List.reverseRecOn with
  | nil => exact ⟨fun i hi => (List.not_mem_nil hi).elim, fun _ _ => rfl⟩
  | append_singleton is i ih =>
    rw [List.nodup_append] at hnodup
    have hi : ∀ j ∈ is, j ≠ i := fun j hj => hnodup.2.2 j hj i (List.mem_singleton_self i)
    obtain ⟨hfiles, hothers⟩ := ih hnodup.1 fun j hj => hrequests j (List.mem_append_left _ hj)
    obtain ⟨request, hrequest⟩ := hrequests i (List.mem_append_right _ (List.mem_singleton_self i))
    have hone : [i].filterMap (fun i => (conns i).exchange) = [⟨request, (conns i).env⟩] := by
      simp [Connection.exchange, hrequest]
    obtain ⟨hself, hframe⟩ := Connection.lookup_dispatch (J := J) hrequest
      (AppRouter.handleAll J (is.filterMap fun i => (conns i).exchange) ⟨d, [], []⟩)
    simp only [List.filterMap_append, hone, AppRouter.handleAll, List.foldl_append, List.foldl_cons,
      List.foldl_nil] at hself hframe ⊢
    refine ⟨fun j hj u hu => ?_, fun name hname => ?_⟩
    · rcases List.mem_append.1 hj with hj | hj
      · refine (hframe _ fun v hv hpath => hi j hj ?_).trans (hfiles j hj u hu)
        exact (hids i j v u hv hu (getPath_injective hpath)).symm
      · obtain rfl := List.mem_singleton.1 hj
        refine (hself u hu).trans (lookup_save_congr _ ?_ _)
        refine hothers _ fun k hk v hv hpath => hi k hk ?_
        exact hids k j v u hv hu (getPath_injective hpath)
    · refine (hframe name fun u hu => hname i ?_ u hu).trans (hothers name fun j hj => hname j ?_)
      · exact List.mem_append_right _ (List.mem_singleton_self i)
      · exact List.mem_append_left _ hj

theorem Linearizes.requests {s : Server H} {is : List Nat} {w : World}
    (hl : Linearizes J conns d s is w) (hsound : Sound J conns s) {i : Nat} (hi : i ∈ is) :
    ∃ request, (conns i).request = some request := by
  have hcommitted := (hl.mem_iff i).1 hi
  have hfollows := hsound.follows i
  revert hcommitted hfollows
  cases s.sessions i with
  | absent => exact fun hcommitted => hcommitted.elim
  | reading => exact fun hcommitted => hcommitted.elim
  | closed outgoing shut => exact fun hcommitted _ => Option.isSome_iff_exists.1 hcommitted
  | handling h =>
    intro _ hfollows
    cases hfollows with
    | handling hrequest => exact ⟨_, hrequest⟩
  | responding outgoing =>
    intro _ hfollows
    cases hfollows with
    | responding hrequest => exact ⟨_, hrequest⟩

section Files

variable {s : Server H} {is : List Nat} {w : World} {i : Nat} {u : UserIdentity H}

theorem Sound.save_mem_of_file (hs : Sound J conns s) (hu : (s.sessions i).file = some u) :
    .save u ∈ (conns i).effects J := by
  obtain ⟨h, hhandling, hpending⟩ := Session.file_eq_some hu
  obtain ⟨_, done, -, heffects⟩ := hs.save_mem hhandling hpending
  rw [heffects]
  exact List.mem_append_right _ List.mem_cons_self

/-- Only the session of a user has the user's file open. -/
theorem Sound.file_of_opened (hs : Sound J conns s) (hids : DistinctIds J conns)
    (hu : .save u ∈ (conns i).effects J) (hopened : s.Opened (getPath u.id)) :
    ∃ v, (s.sessions i).file = some v := by
  obtain ⟨j, v, hv, hpath⟩ := hopened
  rw [hids i j u v hu (hs.save_mem_of_file hv) (getPath_injective hpath).symm]
  exact ⟨v, hv⟩

namespace Linearizes

theorem lookup_of_committed (hl : Linearizes J conns d s is w) (hs : Sound J conns s)
    (hids : DistinctIds J conns) (hu : .save u ∈ (conns i).effects J)
    (hcommitted : Committed (conns i) (s.sessions i)) : s.store.lookup (getPath u.id) =
      (save (JsonCodec.userIdentityCodec J H) d u (conns i).env.io).lookup (getPath u.id) := by
  have hclosed : ¬ s.Opened (getPath u.id) := by
    intro hopened
    obtain ⟨v, hv⟩ := hs.file_of_opened hids hu hopened
    exact Session.not_committed hv hcommitted
  rw [hl.lookup_eq _ hclosed, AppRouter.eq_handleAll hl.run]
  exact (store_handleAll hids hl.nodup fun i hi => hl.requests hs hi).1 i
    ((hl.mem_iff i).2 hcommitted) u hu

theorem lookup_of_uncommitted (hl : Linearizes J conns d s is w) (hs : Sound J conns s)
    (hids : DistinctIds J conns) (hu : .save u ∈ (conns i).effects J)
    (hcommitted : ¬ Committed (conns i) (s.sessions i)) (hfile : (s.sessions i).file = none) :
    s.store.lookup (getPath u.id) = d.lookup (getPath u.id) := by
  have hclosed : ¬ s.Opened (getPath u.id) := by
    intro hopened
    obtain ⟨v, hv⟩ := hs.file_of_opened hids hu hopened
    cases hfile.symm.trans hv
  rw [hl.lookup_eq _ hclosed, AppRouter.eq_handleAll hl.run]
  refine (store_handleAll hids hl.nodup fun i hi => hl.requests hs hi).2 _ fun j hj v hv hpath => ?_
  obtain rfl := hids j i v u hv hu (getPath_injective hpath)
  exact hcommitted ((hl.mem_iff j).1 hj)

theorem lookup_of_unsaved (hl : Linearizes J conns d s is w) (hs : Sound J conns s)
    (hids : DistinctIds J conns) {name : FileName}
    (hname : ∀ i u, .save u ∈ (conns i).effects J → getPath u.id ≠ name) :
    s.store.lookup name = d.lookup name := by
  have hclosed : ¬ s.Opened name := by
    rintro ⟨i, u, hfile, hpath⟩
    exact hname i u (hs.save_mem_of_file hfile) hpath
  rw [hl.lookup_eq _ hclosed, AppRouter.eq_handleAll hl.run]
  exact (store_handleAll hids hl.nodup fun i hi => hl.requests hs hi).2 _
    fun i _ u hu => hname i u hu

end Linearizes

end Files

/-- What the store holds at any moment: the file of a user is empty while it is open, as the save
alone leaves it once that is done, and as it was before; every other file is as it was. -/
theorem store_of_sessions {config : Configuration} {signaled : Bool} {es : List Event}
    {s : Server H} (hids : DistinctIds J conns)
    (h : Run (Step J conns n) (start config n d signaled) es s) :
    (∀ i u, .save u ∈ (conns i).effects J →
      ((s.sessions i).file = some u → s.store.lookup (getPath u.id) = some (.regular [])) ∧
      (Committed (conns i) (s.sessions i) → s.store.lookup (getPath u.id) =
        (save (JsonCodec.userIdentityCodec J H) d u (conns i).env.io).lookup (getPath u.id)) ∧
      (¬ Committed (conns i) (s.sessions i) → (s.sessions i).file = none →
        s.store.lookup (getPath u.id) = d.lookup (getPath u.id))) ∧
    ∀ name, (∀ i u, .save u ∈ (conns i).effects J → getPath u.id ≠ name) →
      s.store.lookup name = d.lookup name := by
  have hsound : Sound J conns s := sound_run h
  obtain ⟨is, w, hl⟩ := linearizes_run hids h
  refine ⟨fun i u hu => ⟨fun hfile => (hl.opened i u hfile).2.1, ?_, ?_⟩, fun name hname => ?_⟩
  · exact hl.lookup_of_committed hsound hids hu
  · exact hl.lookup_of_uncommitted hsound hids hu
  · exact hl.lookup_of_unsaved hsound hids hname

/-- The user of the second client is stored while the first one's is not yet. -/
theorem store_of_sessions_twoClients : ∃ (s : Server .sha256) (u v : UserIdentity .sha256),
    .save u ∈ (twoClients 0).effects compact ∧ s.store.lookup (getPath u.id) = none ∧
      s.store.lookup (getPath v.id) =
        some (.regular (JsonCodec.encodeUserIdentity compact .sha256 v)) := by
  obtain ⟨es, s, -, -, response, response', hrun, -, -, -, hs, -, -⟩ := overtaken_twoClients
  obtain ⟨u, hu⟩ := save_twoClients Nat.zero_lt_two
  obtain ⟨v, hv⟩ := save_twoClients Nat.one_lt_two
  have hstore := (store_of_sessions distinctIds_twoClients hrun).1
  refine ⟨s, u, v, hu, (hstore 0 u hu).2.2 ?_ ?_, ((hstore 1 v hv).2.1 ?_).trans ?_⟩
  · rw [hs]
    exact not_committed_of_begun hu
  · rw [hs]
    rfl
  · rw [hs]
    trivial
  · exact (lookup_save_iff _).2 (.inl ⟨fun _ => nofun, trivial⟩)

/-- A session that has been given a 201 has committed the save of the user of its request. -/
theorem committed_of_created {config : Configuration} {signaled : Bool} {es : List Event}
    {s : Server H} (h : Run (Step J conns n) (start config n d signaled) es s) {i : Nat}
    {response : Response} (hresponse : response ∈ (s.sessions i).outgoing)
    (hcreated : response.status = .created) :
    Committed (conns i) (s.sessions i) ∧ ∃ request u, (conns i).request = some request ∧
      .save u ∈ (conns i).effects J ∧
        RegistrationController.Accepts J (conns i).env request u := by
  have hsound : Sound J conns s := sound_run h
  rcases hsound.outgoing i with hnil | ⟨hcommitted, -, response', hresponses, houtgoing⟩
  · rw [hnil] at hresponse
    exact (List.not_mem_nil hresponse).elim
  · have hmem : response ∈ responses ((conns i).effects J) := by rwa [hresponses, ← houtgoing]
    obtain ⟨e, he, -⟩ := List.mem_filterMap.1 hmem
    obtain ⟨request, hrequest⟩ := Connection.request_isSome_of_mem he
    have hordered := Connection.ordered (J := J) hrequest
    obtain ⟨done, u, rest, heffects⟩ := hordered.save_of_created hmem hcreated
    have hu : .save u ∈ (conns i).effects J := by simp [heffects]
    obtain ⟨request, hrequest, haccepts⟩ := Connection.accepts_of_save hu
    exact ⟨hcommitted, request, u, hrequest, hu, haccepts⟩

/-- A user whose save is committed is stored, if the save could be completed, from then on. -/
theorem stored_of_committed {config : Configuration} {signaled : Bool} {es es' : List Event}
    {s s' : Server H} (hids : DistinctIds J conns)
    (h : Run (Step J conns n) (start config n d signaled) es s)
    (h' : Run (Step J conns n) s es' s') {i : Nat} (hcommitted : Committed (conns i) (s.sessions i))
    {u : UserIdentity H} (hu : .save u ∈ (conns i).effects J)
    (hwritable : d.Writable (getPath u.id))
    (hcompletes : (conns i).env.io.Completes (JsonCodec.encodeUserIdentity J H u)) :
    s'.store.lookup (getPath u.id) = some (.regular (JsonCodec.encodeUserIdentity J H u)) := by
  obtain ⟨is, w, hl⟩ := linearizes_run hids h
  obtain ⟨more, w', hl'⟩ := hl.extend hids (sound_run h) h'
  have hi := (hl.mem_iff i).2 hcommitted
  have hcommitted' := (hl'.mem_iff i).1 (List.mem_append_left _ hi)
  rw [hl'.lookup_of_committed (sound_run (h.trans h')) hids hu hcommitted']
  exact (lookup_save_iff _).2 (.inl ⟨hwritable, hcompletes⟩)

/-- Once a session has been given a 201, the user of its request is stored, if its save could be
completed, from then on. -/
theorem acknowledged_stays {config : Configuration} {signaled : Bool} {es es' : List Event}
    {s s' : Server H} (hids : DistinctIds J conns)
    (h : Run (Step J conns n) (start config n d signaled) es s)
    (h' : Run (Step J conns n) s es' s') {i : Nat} {response : Response}
    (hresponse : response ∈ (s.sessions i).outgoing) (hcreated : response.status = .created) :
    ∃ request u, (conns i).request = some request ∧
      RegistrationController.Accepts J (conns i).env request u ∧
      (d.Writable (getPath u.id) →
        (conns i).env.io.Completes (JsonCodec.encodeUserIdentity J H u) →
        s'.store.lookup (getPath u.id) = some (.regular (JsonCodec.encodeUserIdentity J H u))) := by
  obtain ⟨hcommitted, request, u, hrequest, hu, haccepts⟩ :=
    committed_of_created h hresponse hcreated
  exact ⟨request, u, hrequest, haccepts, stored_of_committed hids h h' hcommitted hu⟩

/-- The user of the second client stays while the first one registers. -/
theorem acknowledged_stays_twoClients : ∃ (s s' : Server .sha256) (u : UserIdentity .sha256),
    (s.sessions 0).outgoing = [] ∧ (∃ response, (s'.sessions 0).outgoing = [response]) ∧
      s'.store.lookup (getPath u.id) =
        some (.regular (JsonCodec.encodeUserIdentity compact .sha256 u)) := by
  obtain ⟨es, s, es', s', response, response', hrun, hrun', -, hcreated, hs, hs', -⟩ :=
    overtaken_twoClients
  have hresponse : response' ∈ (s.sessions 1).outgoing := by
    rw [hs]
    exact List.mem_singleton_self response'
  obtain ⟨request, u, -, -, hstored⟩ :=
    acknowledged_stays distinctIds_twoClients hrun hrun' hresponse hcreated
  exact ⟨s, s', u, by rw [hs]; rfl, ⟨response, by rw [hs']; rfl⟩,
    hstored (fun _ => nofun) trivial⟩

/-- Two servers that have committed the same requests and have no file open hold the same store,
whatever the order of their steps and the number of their executors. -/
theorem schedule_irrelevant {n n' : Nat} {config config' : Configuration}
    {signaled signaled' : Bool} {es es' : List Event} {s s' : Server H}
    (hids : DistinctIds J conns) (h : Run (Step J conns n) (start config n d signaled) es s)
    (h' : Run (Step J conns n') (start config' n' d signaled') es' s')
    (hclosed : ∀ i, (s.sessions i).file = none) (hclosed' : ∀ i, (s'.sessions i).file = none)
    (hsame : ∀ i, Committed (conns i) (s.sessions i) ↔ Committed (conns i) (s'.sessions i)) :
    s.store = s'.store := by
  have hsound : Sound J conns s := sound_run h
  have hsound' : Sound J conns s' := sound_run h'
  obtain ⟨is, w, hl⟩ := linearizes_run hids h
  obtain ⟨is', w', hl'⟩ := linearizes_run hids h'
  refine Finmap.ext_lookup fun name => ?_
  by_cases hname : ∃ i u, .save u ∈ (conns i).effects J ∧ getPath u.id = name
  · obtain ⟨i, u, hu, rfl⟩ := hname
    by_cases hcommitted : Committed (conns i) (s.sessions i)
    · rw [hl.lookup_of_committed hsound hids hu hcommitted,
        hl'.lookup_of_committed hsound' hids hu ((hsame i).1 hcommitted)]
    · rw [hl.lookup_of_uncommitted hsound hids hu hcommitted (hclosed i),
        hl'.lookup_of_uncommitted hsound' hids hu (fun hi => hcommitted ((hsame i).2 hi))
          (hclosed' i)]
  · have hnone : ∀ i u, .save u ∈ (conns i).effects J → getPath u.id ≠ name :=
      fun i u hu hpath => hname ⟨i, u, hu, hpath⟩
    rw [hl.lookup_of_unsaved hsound hids hnone, hl'.lookup_of_unsaved hsound' hids hnone]

/-- Two executors that let the second client overtake, and one that serves them in turn. -/
theorem schedule_irrelevant_twoClients : ∃ es between es' s es'' s',
    Run (Step compact twoClients 2) (start {} 2 ∅ false) es between ∧
      (between.sessions 0).outgoing = [] ∧ (between.sessions 1).outgoing ≠ [] ∧
      Run (Step compact twoClients 2) between es' s ∧
      Run (Step compact twoClients 1) (start { environment := .production } 1 ∅ false) es'' s' ∧
      (∀ i < 2, (s.sessions i).outgoing ≠ []) ∧ s.store = s'.store := by
  obtain ⟨es, between, es', s, response, response', hrun, hrun', -, -, hbetween, hs, -⟩ :=
    overtaken_twoClients
  obtain ⟨es'', s', response₀, response₁, hrun'', -, -, hs'⟩ := in_turn_run compact
    (show (twoClients 0).request = _ from rfl) rfl { environment := .production } ∅
  have hclosed : ∀ (a b : List Response) (i : Nat),
      (Session.pair (H := .sha256) (.responding a) (.responding b) i).file = none := by
    intro a b i
    match i with
    | 0 | 1 | _ + 2 => rfl
  refine ⟨es, between, es', s, es'', s', hrun, by rw [hbetween]; rfl, ?_, hrun', hrun'',
    fun i hi => ?_, schedule_irrelevant distinctIds_twoClients (hrun.trans hrun') hrun''
      (fun i => ?_) (fun i => ?_) fun i => ?_⟩
  · rw [hbetween]
    exact List.cons_ne_nil _ _
  · rw [hs]
    match i with
    | 0 | 1 => exact List.cons_ne_nil _ _
  · rw [hs, hclosed]
  · rw [hs', hclosed]
  · rw [hs, hs']
    match i with
    | 0 | 1 => exact iff_of_true trivial trivial
    | _ + 2 => exact Iff.rfl

end Serving

end Prapancha
