import Prapancha.Verify.AsyncDelivery

/-!
# The end of the asynchronous sink

The destructor requests a stop and joins the worker.  With no thread in `write`, the place of the
worker at that moment decides: either it writes what is queued and leaves, within a bounded number
of steps, or it stays in `wait` and the destructor does not return.
-/

namespace Prapancha.Logging.AsyncSink

variable {ι : Type} [DecidableEq ι] {s s' : State ι} {e : Event ι} {messages : List Message}

/-! ## Before the stop -/

omit [DecidableEq ι] in
/-- The owner of the mutex is in a locked region. -/
structure Owned (s : State ι) : Prop where
  writer : ∀ i, s.mutex = some (.writer i) → (s.writers i).Holds
  worker : s.mutex = some .worker → s.worker.Holds

namespace Owned

omit [DecidableEq ι] in
theorem init : Owned (ι := ι) init where
  writer i h := by cases h
  worker h := by cases h

/-- A step that moves one writer and leaves the mutex alone. -/
theorem update (h : Owned s) {i : ι} {w : Writer} (hw : (s.writers i).Holds → w.Holds) (j : ι)
    (hj : s.mutex = some (.writer j)) : (Function.update s.writers i w j).Holds := by
  have hheld := h.writer j hj
  by_cases hji : j = i
  · subst hji
    rw [Function.update_self]
    exact hw hheld
  · rw [Function.update_of_ne hji]
    exact hheld

theorem step (h : Owned s) (hstep : Step s e s') : Owned s' := by
  cases hstep with
  | calls m hi => exact ⟨h.update fun hheld => (by rw [hi] at hheld; exact hheld.elim), h.worker⟩
  | enqueues hi hlt => exact ⟨h.update fun _ => trivial, h.worker⟩
  | @locks i m hi hmutex =>
    refine ⟨fun j hj => ?_, fun hworker => by cases hworker⟩
    cases hj
    show (Function.update s.writers i (.locked m) i).Holds
    rw [Function.update_self]
    trivial
  | notifies hi =>
    refine ⟨h.update fun hheld => (by rw [hi] at hheld; exact hheld.elim), fun hmutex => ?_⟩
    have hheld := h.worker hmutex
    show s.worker.notify.Holds
    cases hworker : s.worker <;> rw [hworker] at hheld <;> exact hheld
  | acquires hworker hmutex => exact ⟨fun j hj => (by cases hj), fun _ => trivial⟩
  | fails hworker | passes hworker => exact ⟨h.writer, fun _ => trivial⟩
  | wakes hworker | writes hworker | decrements hworker =>
    refine ⟨h.writer, fun hmutex => ?_⟩
    have hheld := h.worker hmutex
    rw [hworker] at hheld
    exact hheld.elim
  | unlocks | blocks | leaves | skips | pops =>
    exact ⟨fun j hj => (by cases hj), fun hj => (by cases hj)⟩
  | stops | joins => exact ⟨h.writer, h.worker⟩

end Owned

/-- Until the destructor is called there is no stop, so that every step so far was a safe one. -/
theorem before_stop {es : List (Event ι)} (h : Run Step init es s) (howner : s.owner = .using) :
    s.stop = false ∧ s.worker ≠ .left ∧ Run SafeStep init es s := by
  refine h.induct_on (I := fun es s => s.owner = .using →
    s.stop = false ∧ s.worker ≠ .left ∧ Run SafeStep init es s)
    (fun _ => ⟨rfl, by simp [init], .nil⟩) ?_ howner
  intro es e s s' _ ih hstep howner
  have hsafe : e ≠ .stops → Run SafeStep init es s → Run SafeStep init (es ++ [e]) s' :=
    fun hne hrun => hrun.snoc ⟨hstep, fun he => (hne he).elim⟩
  cases hstep with
  | stops => cases howner
  | joins => cases howner
  | leaves _ hstop _ =>
    rw [(ih howner).1] at hstop
    cases hstop
  | @notifies i hi =>
    obtain ⟨hstop, hleft, hrun⟩ := ih howner
    refine ⟨hstop, fun hworker => hleft ?_, hsafe (by simp) hrun⟩
    cases hphase : s.worker <;> simp [hphase, Worker.notify] at hworker ⊢
  | calls | locks | enqueues | unlocks =>
    obtain ⟨hstop, hleft, hrun⟩ := ih howner
    exact ⟨hstop, hleft, hsafe (by simp) hrun⟩
  | _ =>
    obtain ⟨hstop, hleft, hrun⟩ := ih howner
    exact ⟨hstop, by simp, hsafe (by simp) hrun⟩

/-! ## The worker after the stop -/

/-- In `wait`, or about to block in it. -/
def Worker.Waiting (w : Worker) : Prop := w = .blocking ∨ w = .blocked

/-- The steps that the worker makes before it has left, but for those that the queue costs. -/
def Worker.remaining : Worker → Nat
  | .popped _ => 5
  | .blocking | .written => 4
  | .blocked | .looping | .woken => 3
  | .testing => 2
  | .passed => 1
  | .left => 0

theorem Worker.remaining_le (w : Worker) : w.remaining ≤ 5 := by
  cases w <;> simp [remaining]

def Owner.remaining : Owner → Nat
  | .using => 2
  | .joining => 1
  | .joined => 0

/-- A bound on the steps of the worker and the owner: a message costs five, from the test of the
predicate to the next. -/
def State.remaining (s : State ι) : Nat :=
  5 * s.queue.length + s.worker.remaining + s.owner.remaining

omit [DecidableEq ι] in
/-- A stopped worker that is on its way to the end, with these messages in its care. -/
structure Draining (messages : List Message) (s : State ι) : Prop where
  writers : ∀ i, s.writers i = .outside
  owned : Owned s
  stop : s.stop = true
  owner : s.owner ≠ .using
  running : ¬ s.worker.Waiting
  messages : s.output ++ s.worker.pending ++ s.queue = messages
  left : s.worker = .left → s.queue = []

namespace Draining

omit [DecidableEq ι] in
/-- A step of the worker from `w` to `w'` that neither takes nor writes a message. -/
theorem frame (h : Draining messages s) (hs' : Owned s') {w w' : Worker} (hw : s.worker = w)
    (hw' : s'.worker = w') (hwriters : s'.writers = s.writers) (hstop : s'.stop = s.stop)
    (howner : s'.owner = s.owner) (houtput : s'.output = s.output) (hqueue : s'.queue = s.queue)
    (hrunning : ¬ w'.Waiting) (hpending : w'.pending = w.pending)
    (hleft : w' = .left → s.queue = []) (hless : w'.remaining < w.remaining) :
    Draining messages s' ∧ s'.remaining < s.remaining := by
  refine ⟨⟨by rw [hwriters]; exact h.writers, hs', by rw [hstop]; exact h.stop,
    by rw [howner]; exact h.owner, by rw [hw']; exact hrunning, ?_,
    by rw [hw', hqueue]; exact hleft⟩, ?_⟩
  · rw [houtput, hw', hpending, hqueue, ← hw, h.messages]
  · unfold State.remaining
    rw [hqueue, howner, hw, hw']
    omega

/-- No thread calls `write`, so that every step is one of the worker or of the owner. -/
theorem step (h : Draining messages s) (hstep : Step s e s') (hcall : ∀ i m, e ≠ .calls i m) :
    Draining messages s' ∧ s'.remaining < s.remaining := by
  have hs' := h.owned.step hstep
  have hmessages := h.messages
  cases hstep with
  | @calls i m => exact (hcall i m rfl).elim
  | locks hi | enqueues hi | unlocks hi | notifies hi =>
    rw [h.writers] at hi
    cases hi
  | acquires hworker hmutex =>
    rcases hworker with hworker | hworker
    · exact h.frame hs' hworker rfl rfl rfl rfl rfl rfl (by simp [Worker.Waiting]) rfl (by simp)
        (Nat.le_refl 3)
    · exact h.frame hs' hworker rfl rfl rfl rfl rfl rfl (by simp [Worker.Waiting]) rfl (by simp)
        (Nat.le_refl 3)
  | fails hworker hready => exact (hready (.inr h.stop)).elim
  | passes hworker hready =>
    exact h.frame hs' hworker rfl rfl rfl rfl rfl rfl (by simp [Worker.Waiting]) rfl (by simp)
      (Nat.le_refl 2)
  | blocks hworker => exact (h.running (.inl hworker)).elim
  | wakes hworker => exact (h.running (.inr hworker)).elim
  | leaves hworker hstop hqueue =>
    exact h.frame hs' hworker rfl rfl rfl rfl rfl rfl (by simp [Worker.Waiting]) rfl
      (fun _ => hqueue) (Nat.le_refl 1)
  | skips hworker hstop hqueue =>
    rw [h.stop] at hstop
    cases hstop
  | @pops m rest hworker hqueue =>
    refine ⟨⟨h.writers, hs', h.stop, h.owner, by simp [Worker.Waiting], ?_, by simp⟩, ?_⟩
    · rw [hworker, hqueue] at hmessages
      rw [← hmessages]
      simp [Worker.pending]
    · unfold State.remaining
      rw [hworker, hqueue, List.length_cons]
      simp only [Worker.remaining]
      omega
  | @writes m hworker =>
    refine ⟨⟨h.writers, hs', h.stop, h.owner, by simp [Worker.Waiting], ?_, by simp⟩, ?_⟩
    · rw [hworker] at hmessages
      rw [← hmessages]
      simp [Worker.pending]
    · unfold State.remaining
      rw [hworker]
      simp only [Worker.remaining]
      omega
  | decrements hworker =>
    exact h.frame hs' hworker rfl rfl rfl rfl rfl rfl (by simp [Worker.Waiting]) rfl (by simp)
      (Nat.le_refl 4)
  | stops howner => exact (h.owner howner).elim
  | joins howner hworker =>
    refine ⟨⟨h.writers, hs', h.stop, by simp, h.running, hmessages, h.left⟩, ?_⟩
    unfold State.remaining
    rw [howner]
    simp only [Owner.remaining]
    omega

omit [DecidableEq ι] in
/-- Outside the locked regions of the worker nobody has the mutex. -/
theorem mutex_eq_none (h : Draining messages s) (hworker : ¬ s.worker.Holds) : s.mutex = none := by
  cases hmutex : s.mutex with
  | none => rfl
  | some t =>
    cases t with
    | worker => exact (hworker (h.owned.worker hmutex)).elim
    | writer i =>
      have hheld := h.owned.writer i hmutex
      rw [h.writers] at hheld
      exact hheld.elim

/-- Where no step is left but calls of `write`, the worker is joined and everything is written. -/
theorem stuck (h : Draining messages s) (hstuck : ∀ e s', Step s e s' → ∃ i m, e = .calls i m) :
    s.owner = .joined ∧ s.output = messages := by
  have hno : ∀ {e s'}, Step s e s' → (∀ i m, e ≠ .calls i m) → False := by
    intro e s' hstep hcall
    obtain ⟨i, m, he⟩ := hstuck e s' hstep
    exact hcall i m he
  have hleft : s.worker = .left := by
    cases hworker : s.worker with
    | left => rfl
    | looping =>
      have hmutex := h.mutex_eq_none (by rw [hworker]; exact fun hheld => hheld)
      exact (hno (.acquires (.inl hworker) hmutex) (by simp)).elim
    | woken =>
      have hmutex := h.mutex_eq_none (by rw [hworker]; exact fun hheld => hheld)
      exact (hno (.acquires (.inr hworker) hmutex) (by simp)).elim
    | testing => exact (hno (.passes hworker (.inr h.stop)) (by simp)).elim
    | blocking => exact (h.running (.inl hworker)).elim
    | blocked => exact (h.running (.inr hworker)).elim
    | passed =>
      cases hqueue : s.queue with
      | nil => exact (hno (.leaves hworker h.stop hqueue) (by simp)).elim
      | cons m rest => exact (hno (.pops hworker hqueue) (by simp)).elim
    | popped m => exact (hno (.writes hworker) (by simp)).elim
    | written => exact (hno (.decrements hworker) (by simp)).elim
  refine ⟨?_, ?_⟩
  · cases howner : s.owner with
    | joining => exact (hno (.joins howner hleft) (by simp)).elim
    | joined => rfl
    | _ => exact (h.owner howner).elim
  · have hmessages := h.messages
    rw [hleft, h.left hleft] at hmessages
    simpa [Worker.pending] using hmessages

end Draining

/-! ## A worker that waits -/

omit [DecidableEq ι] in
/-- The destructor joins a worker in `wait`, and nobody is left to notify it. -/
structure Hung (messages : List Message) (s : State ι) : Prop where
  writers : ∀ i, s.writers i = .outside
  owner : s.owner = .joining
  waiting : s.worker.Waiting
  output : s.output = messages

/-- Only a spurious wake-up could end the wait. -/
theorem Hung.step (h : Hung messages s) (hstep : Step s e s') (hcall : ∀ i m, e ≠ .calls i m)
    (hwakes : e ≠ .wakes) : Hung messages s' := by
  have hno : ∀ {w : Worker}, s.worker = w → ¬ w.Waiting → False := fun hw hn => hn (hw ▸ h.waiting)
  cases hstep with
  | @calls i m => exact (hcall i m rfl).elim
  | wakes => exact (hwakes rfl).elim
  | locks hi | enqueues hi | unlocks hi | notifies hi =>
    rw [h.writers] at hi
    cases hi
  | blocks => exact ⟨h.writers, h.owner, .inr rfl, h.output⟩
  | acquires hworker =>
    rcases hworker with hworker | hworker
    · exact (hno hworker (by simp [Worker.Waiting])).elim
    · exact (hno hworker (by simp [Worker.Waiting])).elim
  | stops howner =>
    rw [h.owner] at howner
    cases howner
  | fails hworker | passes hworker | leaves hworker | skips hworker | pops hworker
  | writes hworker | decrements hworker | joins _ hworker =>
    exact (hno hworker (by simp [Worker.Waiting])).elim

/-! ## The destructor -/

/-- The destructor of a sink that no thread is in, nor enters any more.  If the worker is not in
`wait` when the stop is requested, then every continuation is bounded, and one that cannot go on has
joined the worker, with everything written that was ever enqueued.  If it is, then everything was
written before, and without a spurious wake-up the destructor never returns. -/
theorem joins_or_hangs {es : List (Event ι)} {s s₁ : State ι} (h : Run Step init es s)
    (hstop : Step s .stops s₁) (houtside : ∀ i, s.writers i = .outside) {es' : List (Event ι)}
    {s' : State ι} (h' : Run Step s₁ es' s') (hcalls : ∀ i m, .calls i m ∉ es') :
    (¬ s.worker.Waiting → es'.length ≤ 5 * s.queue.length + 6 ∧
      ((∀ e s'', Step s' e s'' → ∃ i m, e = .calls i m) →
        s'.owner = .joined ∧ s'.output = enqueued es)) ∧
    (s.worker.Waiting → .wakes ∉ es' → s'.owner = .joining ∧ s'.output = enqueued es) := by
  have howned : Owned s := h.invariant .init fun _ _ _ hI hstep => hI.step hstep
  have hmessages := (accounted_run h).messages
  cases hstop with
  | stops howner =>
  obtain ⟨-, hleft, hsafe⟩ := before_stop h howner
  have hnocall : ∀ e ∈ es', ∀ i m, e ≠ .calls i m := by
    rintro e he i m rfl
    exact hcalls i m he
  constructor
  · intro hrunning
    have hdraining : Draining (enqueued es) { s with stop := true, owner := .joining } :=
      ⟨houtside, ⟨howned.writer, howned.worker⟩, rfl, by simp, hrunning, hmessages,
        fun hw => (hleft hw).elim⟩
    obtain ⟨hend, hlength⟩ := (h'.restrict hnocall).length_add_le
      (fun _ _ _ hI hstep => hI.step hstep.1 hstep.2) hdraining
    refine ⟨?_, hend.stuck⟩
    have hworker := s.worker.remaining_le
    have hstart : State.remaining { s with stop := true, owner := .joining } =
      5 * s.queue.length + s.worker.remaining + 1 := rfl
    omega
  · intro hwaiting hwakes
    obtain ⟨-, hawake⟩ := awake_run hsafe
    have hqueue : s.queue = [] := by
      rcases hwaiting with hw | hw
      · exact hawake.empty hw
      · by_contra hne
        obtain ⟨i, hi⟩ := hawake.blocked hw (.inl hne)
        exact hi (houtside i)
    have hpending : s.worker.pending = [] := by
      rcases hwaiting with hw | hw <;> rw [hw] <;> rfl
    have hhung : Hung (enqueued es) { s with stop := true, owner := .joining } := by
      refine ⟨houtside, rfl, hwaiting, ?_⟩
      rw [← hmessages, hqueue, hpending, List.append_nil, List.append_nil]
    have hnowake : ∀ e ∈ es', (∀ i m, e ≠ .calls i m) ∧ e ≠ .wakes :=
      fun e he => ⟨hnocall e he, fun heq => hwakes (heq ▸ he)⟩
    have hend := (h'.restrict hnowake).invariant hhung
      fun _ _ _ hI hstep => hI.step hstep.1 hstep.2.1 hstep.2.2
    exact ⟨hend.owner, hend.output⟩

/-- One thread has written a message, and the worker has not looked at the queue yet. -/
def queued : State Unit := { init with queue := [hello], inFlight := 1 }

theorem queued_run : Run Step init
    [.calls () hello, .locks (), .enqueues () hello, .unlocks (), .notifies ()] queued := by
  have hrun : Run Step (init : State Unit)
      [.calls () hello, .locks (), .enqueues () hello, .unlocks (), .notifies ()] _ :=
    ((((Run.nil.snoc (.calls hello rfl)).snoc (.locks (m := hello) rfl rfl)).snoc
      (.enqueues rfl (by decide))).snoc (.unlocks rfl)).snoc (.notifies rfl)
  exact hrun

theorem joins_or_hangs_hello : ∃ s' : State Unit, s'.owner = .joined ∧ s'.output = [hello] := by
  have hend : Run Step { queued with stop := true, owner := .joining }
      [.acquires, .passes, .pops, .writes, .decrements, .acquires, .passes, .leaves, .joins] _ :=
    ((((((((Run.nil.snoc (.acquires (.inl rfl) rfl)).snoc (.passes rfl (.inr rfl))).snoc
      (.pops rfl rfl)).snoc (.writes rfl)).snoc (.decrements rfl)).snoc
        (.acquires (.inl rfl) rfl)).snoc (.passes rfl (.inr rfl))).snoc (.leaves rfl rfl rfl)).snoc
          (.joins rfl rfl)
  refine ⟨_, ((joins_or_hangs queued_run (.stops rfl) (fun _ => rfl) hend (by simp)).1 ?_).2 ?_⟩
  · rintro (hw | hw) <;> cases hw
  · intro e s'' hstep
    cases hstep with
    | calls m => exact ⟨_, m, rfl⟩
    | acquires hw => rcases hw with hw | hw <;> cases hw
    | locks hw | enqueues hw | unlocks hw | notifies hw | fails hw | passes hw | blocks hw
    | wakes hw | leaves hw | skips hw | pops hw | writes hw | decrements hw | stops hw
    | joins hw => cases hw

end Prapancha.Logging.AsyncSink
