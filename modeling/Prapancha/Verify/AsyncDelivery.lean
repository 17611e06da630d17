import Prapancha.Logging.AsyncSink

/-!
# Delivery by the asynchronous sink

No interleaving loses, repeats or reorders a message.  A stop request, however, wakes nobody: it
strands a worker that is blocked, or about to block, unless a notification is still to come.
-/

namespace Prapancha.Logging.AsyncSink

variable {ι : Type}

/-! ## Messages and their count -/

def Event.enqueued? : Event ι → Option Message
  | .enqueues _ m => some m
  | _ => none

/-- The messages that a run enqueues, in order. -/
def enqueued (es : List (Event ι)) : List Message := es.filterMap Event.enqueued?

theorem enqueued_snoc (es : List (Event ι)) (e : Event ι) :
    enqueued (es ++ [e]) = enqueued es ++ e.enqueued?.toList := by
  rw [enqueued, List.filterMap_append, enqueued]
  cases h : e.enqueued? <;> simp [h]

/-- The message that the worker has popped and not yet written. -/
def Worker.pending : Worker → List Message
  | .popped m => [m]
  | _ => []

/-- One for a message that the worker has popped and not yet discounted. -/
def Worker.uncounted : Worker → Nat
  | .popped _ => 1
  | .written => 1
  | _ => 0

theorem Worker.uncounted_le (w : Worker) : w.uncounted ≤ 1 := by
  cases w <;> simp [uncounted]

@[simp] theorem Worker.pending_notify (w : Worker) : w.notify.pending = w.pending := by
  cases w <;> rfl

@[simp] theorem Worker.uncounted_notify (w : Worker) : w.notify.uncounted = w.uncounted := by
  cases w <;> rfl

/-- What is written, popped and queued, put together, is what was enqueued; the counter counts what
is popped and queued. -/
structure Accounted (es : List (Event ι)) (s : State ι) : Prop where
  messages : s.output ++ s.worker.pending ++ s.queue = enqueued es
  count : s.inFlight.toNat = s.queue.length + s.worker.uncounted
  room : s.queue.length ≤ maxSize

theorem Accounted.init : Accounted (ι := ι) [] init := ⟨rfl, rfl, Nat.zero_le _⟩

/-- A step that touches neither the messages nor the counter. -/
theorem Accounted.frame {es : List (Event ι)} {e : Event ι} {s s' : State ι} (h : Accounted es s)
    (he : e.enqueued? = none) (houtput : s'.output = s.output) (hqueue : s'.queue = s.queue)
    (hcount : s'.inFlight = s.inFlight) (hpending : s'.worker.pending = s.worker.pending)
    (huncounted : s'.worker.uncounted = s.worker.uncounted) : Accounted (es ++ [e]) s' where
  messages := by
    rw [houtput, hpending, hqueue, h.messages, enqueued_snoc, he]
    exact (List.append_nil _).symm
  count := by rw [hcount, hqueue, huncounted, h.count]
  room := by rw [hqueue]; exact h.room

variable [DecidableEq ι]

theorem Accounted.step {es : List (Event ι)} {e : Event ι} {s s' : State ι} (h : Accounted es s)
    (hstep : Step s e s') : Accounted (es ++ [e]) s' := by
  have hmessages := h.messages
  have hcount := h.count
  have hroom := h.room
  cases hstep with
  | @enqueues i m _ hlt =>
    refine ⟨?_, ?_, ?_⟩
    · rw [enqueued_snoc, ← hmessages, List.append_assoc _ s.queue]
      rfl
    · have huncounted := s.worker.uncounted_le
      change (s.inFlight + 1).toNat = (s.queue ++ [m]).length + s.worker.uncounted
      rw [UInt64.toNat_add, hcount, List.length_append, List.length_singleton, UInt64.toNat_one]
      simp only [maxSize] at hlt
      omega
    · rw [List.length_append]
      exact hlt
  | @pops m rest hworker hqueue =>
    rw [hworker, hqueue] at hmessages hcount
    rw [hqueue] at hroom
    refine ⟨?_, hcount, Nat.le_of_succ_le hroom⟩
    rw [enqueued_snoc, ← hmessages]
    simp [Worker.pending, Event.enqueued?]
  | @writes m hworker =>
    rw [hworker] at hmessages hcount
    refine ⟨?_, hcount, hroom⟩
    rw [enqueued_snoc, ← hmessages]
    simp [Worker.pending, Event.enqueued?]
  | decrements hworker =>
    rw [hworker] at hmessages hcount
    refine ⟨?_, ?_, hroom⟩
    · rw [enqueued_snoc, ← hmessages]
      simp [Worker.pending, Event.enqueued?]
    · have hle : (1 : UInt64) ≤ s.inFlight := by
        rw [UInt64.le_iff_toNat_le, hcount]
        exact Nat.le_add_left 1 _
      rw [UInt64.toNat_sub_of_le _ _ hle, hcount]
      rfl
  | acquires hworker =>
    rcases hworker with hworker | hworker <;>
      exact h.frame rfl rfl rfl rfl (by rw [hworker]; rfl) (by rw [hworker]; rfl)
  | notifies => exact h.frame rfl rfl rfl rfl (by simp) (by simp)
  | fails hworker | passes hworker | blocks hworker | wakes hworker | leaves hworker
  | skips hworker => exact h.frame rfl rfl rfl rfl (by rw [hworker]; rfl) (by rw [hworker]; rfl)
  | _ => exact h.frame rfl rfl rfl rfl rfl rfl

theorem accounted_run {es : List (Event ι)} {s : State ι} (h : Run Step init es s) :
    Accounted es s :=
  h.induct_on .init fun _ _ _ _ _ hI hstep => hI.step hstep

/-- In every reachable state written, popped and queued messages are the enqueued ones in order,
and the counter counts those popped or queued; it is positive when it is decremented; and when the
worker leaves, everything enqueued so far has been written. -/
theorem delivers {es : List (Event ι)} {s : State ι} (h : Run Step init es s) :
    s.output ++ s.worker.pending ++ s.queue = enqueued es ∧
    s.inFlight.toNat = s.queue.length + s.worker.uncounted ∧
    (∀ s', Step s .decrements s' → s.inFlight.toNat = s'.inFlight.toNat + 1) ∧
    ∀ s', Step s .leaves s' → s'.queue = [] ∧ s'.output = enqueued (es ++ [.leaves]) := by
  have hs := accounted_run h
  refine ⟨hs.messages, hs.count, fun s' hstep => ?_, fun s' hstep => ?_⟩
  · have hs' := (hs.step hstep).count
    cases hstep with
    | decrements hworker =>
      rw [hs', hs.count, hworker]
      rfl
  · have hs' := (hs.step hstep).messages
    cases hstep with
    | leaves _ _ hqueue =>
      refine ⟨hqueue, ?_⟩
      rw [← hs', hqueue]
      simp [Worker.pending]

def hello : Message := ⟨text "hello", .info⟩

def bye : Message := ⟨text "bye", .warn⟩

/-- Two threads write, and the worker has written the first message when the count goes down. -/
theorem delivers_twoMessages : ∃ (es : List (Event Bool)) (s s' : State Bool),
    Run Step init es s ∧ Step s .decrements s' ∧ s.output = [hello] ∧ s.queue = [bye] ∧
      enqueued es = [hello, bye] ∧ s.inFlight.toNat = s'.inFlight.toNat + 1 := by
  have hqueued : Run Step (init : State Bool) [.calls false hello, .calls true bye, .locks false,
      .enqueues false hello, .unlocks false, .locks true, .enqueues true bye, .unlocks true] _ :=
    Run.nil.snoc (.calls hello rfl) |>.snoc (.calls bye rfl) |>.snoc (.locks (m := hello) rfl rfl)
      |>.snoc (.enqueues rfl (by decide)) |>.snoc (.unlocks rfl)
      |>.snoc (.locks (m := bye) rfl rfl) |>.snoc (.enqueues rfl (by decide))
      |>.snoc (.unlocks rfl)
  have hwritten : Run Step (init : State Bool) _ _ :=
    hqueued.snoc (.acquires (.inl rfl) rfl) |>.snoc (.passes rfl (.inl (List.cons_ne_nil _ _)))
      |>.snoc (.pops rfl rfl) |>.snoc (.writes rfl)
  have hmessages := (delivers hwritten).1
  exact ⟨_, _, _, hwritten, .decrements rfl, rfl, rfl, hmessages.symm,
    (delivers hwritten).2.2.1 _ (.decrements rfl)⟩

/-! ## The mutex -/

def Writer.Holds : Writer → Prop
  | .locked _ => True
  | .enqueued => True
  | _ => False

def Worker.Holds : Worker → Prop
  | .testing => True
  | .blocking => True
  | .passed => True
  | _ => False

/-- Whoever is in a locked region owns the mutex. -/
structure Exclusive (s : State ι) : Prop where
  writer : ∀ i, (s.writers i).Holds → s.mutex = some (.writer i)
  worker : s.worker.Holds → s.mutex = some .worker

namespace Exclusive

omit [DecidableEq ι] in
theorem init : Exclusive (ι := ι) init := ⟨fun _ h => h.elim, fun h => h.elim⟩

variable {s : State ι}

omit [DecidableEq ι] in
theorem not_writer (h : Exclusive s) (hmutex : ∀ i, s.mutex ≠ some (.writer i)) (i : ι) :
    ¬ (s.writers i).Holds :=
  fun hi => hmutex i (h.writer i hi)

omit [DecidableEq ι] in
theorem not_worker (h : Exclusive s) (hmutex : s.mutex ≠ some .worker) : ¬ s.worker.Holds :=
  fun hworker => hmutex (h.worker hworker)

omit [DecidableEq ι] in
/-- A worker about to block owns the mutex. -/
theorem worker_ne_blocking (h : Exclusive s) (hmutex : s.mutex ≠ some .worker) :
    s.worker ≠ .blocking := by
  intro hworker
  apply h.not_worker hmutex
  rw [hworker]
  trivial

theorem cases_update {writers : ι → Writer} {i j : ι} {w : Writer}
    (h : (Function.update writers i w j).Holds) :
    j = i ∧ w.Holds ∨ j ≠ i ∧ (writers j).Holds := by
  by_cases hji : j = i
  · subst hji
    rw [Function.update_self] at h
    exact .inl ⟨rfl, h⟩
  · rw [Function.update_of_ne hji] at h
    exact .inr ⟨hji, h⟩

/-- A step that moves one writer and leaves the mutex alone. -/
theorem update (h : Exclusive s) {i : ι} {w : Writer} (hw : w.Holds → s.mutex = some (.writer i))
    (j : ι) (hj : (Function.update s.writers i w j).Holds) : s.mutex = some (.writer j) := by
  rcases cases_update hj with ⟨rfl, hwj⟩ | ⟨-, hsj⟩
  · exact hw hwj
  · exact h.writer j hsj

theorem step {e : Event ι} {s' : State ι} (h : Exclusive s) (hstep : Step s e s') :
    Exclusive s' := by
  cases hstep with
  | calls m hi => exact ⟨h.update fun hw => hw.elim, h.worker⟩
  | locks hi hmutex =>
    refine ⟨fun j hj => ?_, fun hworker => absurd hworker (h.not_worker (by simp [hmutex]))⟩
    rcases cases_update hj with ⟨rfl, -⟩ | ⟨-, hj⟩
    · rfl
    · exact absurd hj (h.not_writer (by simp [hmutex]) j)
  | @enqueues i m hi hlt =>
    have hmutex := h.writer i (by rw [hi]; trivial)
    exact ⟨h.update fun _ => hmutex, h.worker⟩
  | @unlocks i hi =>
    have hmutex := h.writer i (by rw [hi]; trivial)
    refine ⟨fun j hj => ?_, fun hworker => absurd hworker (h.not_worker (by simp [hmutex]))⟩
    rcases cases_update hj with ⟨-, hj⟩ | ⟨hji, hj⟩
    · exact hj.elim
    · have hj := h.writer j hj
      rw [hmutex, Option.some.injEq, Thread.writer.injEq] at hj
      exact absurd hj.symm hji
  | notifies hi =>
    refine ⟨h.update fun hw => hw.elim, fun hworker => h.worker ?_⟩
    cases hphase : s.worker <;> simp [hphase, Worker.notify, Worker.Holds] at hworker ⊢
  | acquires hworker hmutex =>
    exact ⟨fun j hj => absurd hj (h.not_writer (by simp [hmutex]) j), fun _ => rfl⟩
  | fails hworker | passes hworker =>
    exact ⟨h.writer, fun _ => h.worker (by rw [hworker]; trivial)⟩
  | blocks hworker | leaves hworker | skips hworker | pops hworker =>
    have hmutex := h.worker (by rw [hworker]; trivial)
    exact ⟨fun j hj => absurd hj (h.not_writer (by simp [hmutex]) j), fun hw => hw.elim⟩
  | wakes | writes | decrements => exact ⟨h.writer, fun hw => hw.elim⟩
  | stops | joins => exact ⟨h.writer, h.worker⟩

end Exclusive

/-! ## Wake-ups -/

section Wakeups

omit [DecidableEq ι]

/-- Some thread is in `write`: its `notify_one` is still to come. -/
def NotificationDue (s : State ι) : Prop := ∃ i, s.writers i ≠ .outside

/-- A worker blocked although its predicate is true is about to be notified. -/
def Wakeable (s : State ι) : Prop := s.worker = .blocked → s.ready → NotificationDue s

/-- The destructor joins a worker that nothing will wake. -/
def Stranded (s : State ι) : Prop :=
  s.owner = .joining ∧ s.worker = .blocked ∧ ¬ NotificationDue s

/-- A stop request finds the worker outside `wait`, or a notification still to come; for a worker
that has yet to block, one of a thread that has yet to take the lock. -/
def StopSafe (s : State ι) : Prop :=
  (s.worker = .blocking → ∃ i m, s.writers i = .called m) ∧
    (s.worker = .blocked → NotificationDue s)

/-- What keeps the worker from being stranded. -/
structure Awake (s : State ι) : Prop where
  empty : s.worker = .blocking → s.queue = []
  blocking : s.worker = .blocking → s.stop = true → ∃ i m, s.writers i = .called m
  blocked : Wakeable s
  stopped : s.owner = .joining → s.stop = true

theorem Awake.init : Awake (ι := ι) init where
  empty h := by cases h
  blocking h := by cases h
  blocked h := by cases h
  stopped h := by cases h

/-- A worker that is neither blocked nor about to block. -/
theorem Awake.of_running {s s' : State ι} (h : Awake s) (hblocking : s'.worker ≠ .blocking)
    (hblocked : s'.worker ≠ .blocked) (hstop : s'.stop = s.stop) (howner : s'.owner = s.owner) :
    Awake s' where
  empty hw := absurd hw hblocking
  blocking hw := absurd hw hblocking
  blocked hw := absurd hw hblocked
  stopped := by rw [hstop, howner]; exact h.stopped

end Wakeups

theorem due_update {s : State ι} {i : ι} {w : Writer} (hw : w ≠ .outside) :
    ∃ j, Function.update s.writers i w j ≠ .outside :=
  ⟨i, by rwa [Function.update_self]⟩

theorem Awake.step {s s' : State ι} {e : Event ι} (h : Awake s) (hs : Exclusive s)
    (hstep : Step s e s') (hstop : e = .stops → StopSafe s) : Awake s' := by
  cases hstep with
  | @calls i m hi =>
    refine ⟨h.empty, fun hw hstopped => ?_, fun hw hready => due_update (by simp), h.stopped⟩
    obtain ⟨j, m', hj⟩ := h.blocking hw hstopped
    by_cases hji : j = i
    · subst hji
      exact ⟨j, m, Function.update_self ..⟩
    · exact ⟨j, m', by rw [← hj]; exact Function.update_of_ne hji _ _⟩
  | locks hi hmutex =>
    have hworker : s.worker ≠ .blocking := hs.worker_ne_blocking (by simp [hmutex])
    exact ⟨fun hw => absurd hw hworker, fun hw => absurd hw hworker,
      fun _ _ => due_update (by simp), h.stopped⟩
  | enqueues hi | unlocks hi =>
    have hmutex := hs.writer _ (by rw [hi]; trivial)
    have hworker : s.worker ≠ .blocking := hs.worker_ne_blocking (by simp [hmutex])
    exact ⟨fun hw => absurd hw hworker, fun hw => absurd hw hworker,
      fun _ _ => due_update (by simp), h.stopped⟩
  | @notifies i hi =>
    cases hphase : s.worker with
    | blocked => exact h.of_running (by simp [Worker.notify]) (by simp [Worker.notify]) rfl rfl
    | blocking =>
      refine ⟨fun _ => h.empty hphase, fun _ hstopped => ?_, fun hw => ?_, h.stopped⟩
      · obtain ⟨j, m, hj⟩ := h.blocking hphase hstopped
        have hji : j ≠ i := by
          rintro rfl
          rw [hi] at hj
          cases hj
        exact ⟨j, m, by rw [← hj]; exact Function.update_of_ne hji _ _⟩
      · simp [Worker.notify] at hw
    | _ => exact h.of_running (by simp [Worker.notify]) (by simp [Worker.notify]) rfl rfl
  | fails hworker hready =>
    have hready := not_or.1 hready
    refine ⟨fun _ => not_not.1 hready.1, fun _ hstopped => absurd hstopped hready.2, fun hw => ?_,
      h.stopped⟩
    cases hw
  | blocks hworker =>
    refine ⟨fun hw => ?_, fun hw => ?_, fun _ hready => ?_, h.stopped⟩
    · cases hw
    · cases hw
    · obtain ⟨i, m, hi⟩ := h.blocking hworker (hready.resolve_left fun hne => hne (h.empty hworker))
      exact ⟨i, by simp [hi]⟩
  | stops howner =>
    have hsafe := hstop rfl
    exact ⟨h.empty, fun hw _ => hsafe.1 hw, fun hw _ => hsafe.2 hw, fun _ => rfl⟩
  | joins howner hworker =>
    refine ⟨fun hw => ?_, fun hw => ?_, fun hw => ?_, fun ho => ?_⟩
    · rw [hworker] at hw; cases hw
    · rw [hworker] at hw; cases hw
    · rw [hworker] at hw; cases hw
    · cases ho
  | _ => exact h.of_running (by simp) (by simp) rfl rfl

/-- A step that is no stop request, or one that is safe. -/
def SafeStep (s : State ι) (e : Event ι) (s' : State ι) : Prop :=
  Step s e s' ∧ (e = .stops → StopSafe s)

theorem awake_run {es : List (Event ι)} {s : State ι} (h : Run SafeStep init es s) :
    Exclusive s ∧ Awake s :=
  h.invariant (I := fun s => Exclusive s ∧ Awake s) ⟨.init, .init⟩
    fun _ _ _ hI hstep => ⟨hI.1.step hstep.1, hI.2.step hI.1 hstep.1 hstep.2⟩

/-! ## Other stop requests -/

/-- Only finitely many threads are in `write`. -/
theorem finitely_many_writers {es : List (Event ι)} {s : State ι} (h : Run Step init es s) :
    ∃ l : List ι, ∀ i, s.writers i ≠ .outside → i ∈ l := by
  refine h.invariant (I := fun s => ∃ l : List ι, ∀ i, s.writers i ≠ .outside → i ∈ l)
    ⟨[], fun i hi => absurd rfl hi⟩ ?_
  rintro s e s' ⟨l, hl⟩ hstep
  have hupdate : ∀ i w, ∃ l : List ι, ∀ j, Function.update s.writers i w j ≠ .outside → j ∈ l := by
    intro i w
    refine ⟨i :: l, fun j hj => ?_⟩
    by_cases hji : j = i
    · rw [hji]
      exact List.mem_cons_self
    · rw [Function.update_of_ne hji] at hj
      exact List.mem_cons_of_mem _ (hl j hj)
  cases hstep with
  | calls | locks | enqueues | unlocks | notifies => exact hupdate _ _
  | _ => exact ⟨l, hl⟩

/-- The threads whose notification is still to come notify, all before the worker blocks. -/
theorem notify_all {l : List ι} {s : State ι} (hworker : s.worker = .blocking)
    (hl : ∀ i, s.writers i ≠ .outside → s.writers i = .unlocked ∧ i ∈ l) :
    ∃ es s', Run Step s es s' ∧ s'.worker = .blocking ∧ s'.owner = s.owner ∧
      ∀ i, s'.writers i = .outside := by
  induction l generalizing s with
  | nil =>
    refine ⟨[], s, .nil, hworker, rfl, fun i => ?_⟩
    by_contra hi
    exact List.not_mem_nil (hl i hi).2
  | cons j l ih =>
    by_cases hj : s.writers j = .outside
    · refine ih hworker fun i hi => ⟨(hl i hi).1, ?_⟩
      rcases List.mem_cons.1 (hl i hi).2 with rfl | hmem
      · exact absurd hj hi
      · exact hmem
    · have hstep : Step s (.notifies j) _ := .notifies (hl j hj).1
      obtain ⟨es, s', hrun, hw', howner, hout⟩ := ih (s := { s with
          worker := s.worker.notify, writers := Function.update s.writers j .outside })
        (by simp [hworker, Worker.notify]) (by
          intro i hi
          by_cases hij : i = j
          · subst hij
            simp at hi
          · have hsi : s.writers i ≠ .outside := by simpa [Function.update_of_ne hij] using hi
            refine ⟨by simpa [Function.update_of_ne hij] using (hl i hsi).1, ?_⟩
            exact (List.mem_cons.1 (hl i hsi).2).resolve_left hij)
      exact ⟨_, s', (Run.single hstep).trans hrun, hw', howner, hout⟩

/-- After any other stop request the join can end up waiting for ever. -/
theorem strands_of_not_stopSafe {es : List (Event ι)} {s : State ι} (h : Run Step init es s)
    (hexclusive : Exclusive s) (howner : s.owner = .using) (hstops : ¬ StopSafe s) :
    ∃ es' s', Run Step s (.stops :: es') s' ∧ Stranded s' := by
  have hstop : Run Step s [.stops] { s with stop := true, owner := .joining } :=
    .single (.stops howner)
  rcases not_and_or.1 hstops with hblocking | hblocked
  · obtain ⟨hworker, hcalled⟩ := Classical.not_imp.1 hblocking
    have hmutex := hexclusive.worker (by rw [hworker]; trivial)
    obtain ⟨l, hl⟩ := finitely_many_writers h
    have hunlocked : ∀ i, s.writers i ≠ .outside → s.writers i = .unlocked ∧ i ∈ l := by
      intro i hi
      refine ⟨?_, hl i hi⟩
      have hholds := hexclusive.not_writer (by simp [hmutex]) i
      cases hphase : s.writers i with
      | outside => exact absurd hphase hi
      | called m => exact absurd ⟨i, m, hphase⟩ hcalled
      | unlocked => rfl
      | _ => exact absurd (by rw [hphase]; trivial) hholds
    obtain ⟨es', s', hrun, hw', howner', hout⟩ :=
      notify_all (s := { s with stop := true, owner := .joining }) hworker hunlocked
    refine ⟨es' ++ [.blocks], { s' with mutex := none, worker := .blocked },
      hstop.trans (hrun.snoc (.blocks hw')), howner', rfl, ?_⟩
    rintro ⟨i, hi⟩
    exact hi (hout i)
  · obtain ⟨hworker, hdue⟩ := Classical.not_imp.1 hblocked
    exact ⟨[], _, hstop, rfl, hworker, hdue⟩

/-- In a run whose stop requests are safe a blocked worker with a true predicate is always about to
be notified, and no join waits for a worker that nothing will wake.  A stop request that is not
safe can lead to such a join. -/
theorem wakes_worker {es : List (Event ι)} {s : State ι} (h : Run SafeStep init es s) :
    (Wakeable s ∧ ¬ Stranded s) ∧
    (s.owner = .using → ¬ StopSafe s →
      ∃ es' s', Run Step s (.stops :: es') s' ∧ Stranded s') := by
  obtain ⟨hexclusive, hawake⟩ := awake_run h
  refine ⟨⟨hawake.blocked, ?_⟩, ?_⟩
  · rintro ⟨howner, hworker, hdue⟩
    exact hdue (hawake.blocked hworker (.inr (hawake.stopped howner)))
  · exact strands_of_not_stopSafe (h.mono fun _ _ _ hstep => hstep.1) hexclusive

/-- A stop request before the worker takes the lock is safe: the worker leaves and is joined. -/
theorem wakes_worker_joined : ∃ s : State Empty,
    Run SafeStep init [.stops, .acquires, .passes, .leaves, .joins] s ∧ ¬ Stranded s := by
  have hrun : Run SafeStep (init : State Empty) [.stops, .acquires, .passes, .leaves, .joins] _ :=
    ((((Run.nil.snoc ⟨.stops rfl, fun _ => ⟨nofun, nofun⟩⟩).snoc
      ⟨.acquires (.inl rfl) rfl, nofun⟩).snoc ⟨.passes rfl (.inr rfl), nofun⟩).snoc
        ⟨.leaves rfl rfl rfl, nofun⟩).snoc ⟨.joins rfl rfl, nofun⟩
  exact ⟨_, hrun, (wakes_worker hrun).1.2⟩

/-- The worker blocked on an empty queue, and the destructor waiting for it. -/
def stranded : State Empty := { init with worker := .blocked, stop := true, owner := .joining }

/-- The worker finds the queue empty and blocks, the destructor requests the stop and joins, and
nothing but a spurious wake-up can happen any more. -/
theorem stop_strands_worker :
    Run Step init [.acquires, .fails, .blocks, .stops] stranded ∧ ¬ Wakeable stranded ∧
      Stranded stranded ∧ ∀ e s', Step stranded e s' → e = .wakes := by
  have hdue : ¬ NotificationDue stranded := fun ⟨i, _⟩ => i.elim
  refine ⟨?_, fun h => hdue (h rfl (.inr rfl)), ⟨rfl, rfl, hdue⟩, fun e s' hstep => ?_⟩
  · have hready : ¬ State.ready { (init : State Empty) with
        mutex := some .worker, worker := .testing } := by simp [State.ready, init]
    exact (((Run.nil.snoc (.acquires (.inl rfl) rfl)).snoc (.fails rfl hready)).snoc
      (.blocks rfl)).snoc (.stops rfl)
  · cases hstep with
    | wakes => rfl
    | @calls i | @locks i | @enqueues i | @unlocks i | @notifies i => exact i.elim
    | acquires hworker => rcases hworker with h | h <;> cases h
    | joins _ hworker => cases hworker
    | stops howner => cases howner
    | fails h | passes h | blocks h | leaves h | skips h | pops h | writes h
    | decrements h => cases h

end Prapancha.Logging.AsyncSink
