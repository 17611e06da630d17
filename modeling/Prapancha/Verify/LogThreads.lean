import Prapancha.Logging.Sinks

/-!
# Loggers on many threads

Whatever the threads do in the meantime, a thread hands to every sink what it would hand out alone,
and its history is its own.  The sinks get the same messages, not in the same order.
-/

namespace Prapancha.Logging.LogSinks

/-! ## Writes -/

/-- The messages among the writes for one sink. -/
def writesTo (k : Nat) (writes : List Write) : List (LogLevel × Bytes) :=
  writes.filterMap fun w => if w.sink = k then some (w.level, w.msg) else none

theorem writesTo_append (k : Nat) (ws ws' : List Write) :
    writesTo k (ws ++ ws') = writesTo k ws ++ writesTo k ws' :=
  List.filterMap_append

theorem writesTo_cons (k : Nat) (w : Write) (ws : List Write) :
    writesTo k (w :: ws) = (if w.sink = k then [(w.level, w.msg)] else []) ++ writesTo k ws := by
  unfold writesTo
  by_cases h : w.sink = k <;> simp [h]

/-- The writes of one message to the sinks from the `j`-th on. -/
def writesFrom (j m : Nat) (d : LogLevel × Bytes) : List Write :=
  (List.range' j m).map fun k => ⟨k, d.1, d.2⟩

theorem writesTo_writesFrom (k m : Nat) (d : LogLevel × Bytes) : ∀ j : Nat,
    writesTo k (writesFrom j m d) = if j ≤ k ∧ k < j + m then [d] else [] := by
  induction m with
  | zero =>
    intro j
    rw [if_neg (by omega)]
    rfl
  | succ m ih =>
    intro j
    have hcons : writesFrom j (m + 1) d = ⟨j, d.1, d.2⟩ :: writesFrom (j + 1) m d := rfl
    rw [hcons, writesTo_cons, ih]
    by_cases hj : j = k
    · rw [if_pos hj, if_neg (by omega), if_pos (by omega), List.append_nil]
    · rw [if_neg hj, List.nil_append]
      by_cases hk : j + 1 ≤ k ∧ k < j + 1 + m
      · rw [if_pos hk, if_pos (by omega)]
      · rw [if_neg hk, if_neg (by omega)]

/-- Every sink is to get every message. -/
theorem writesTo_writes {k n : Nat} (hk : k < n) (ds : List (LogLevel × Bytes)) :
    writesTo k (LogSinks.writes n ds) = ds := by
  induction ds with
  | nil => rfl
  | cons d ds ih =>
    have hcons : LogSinks.writes n (d :: ds) = writesFrom 0 n d ++ LogSinks.writes n ds := rfl
    rw [hcons, writesTo_append, ih, writesTo_writesFrom, if_pos (by omega), List.singleton_append]

/-- A rest of writes to `n` sinks: the message in hand is still to go to the sinks from some one on,
and the other messages to all of them. -/
def Rest (n : Nat) (ws : List Write) : Prop :=
  ws = [] ∨ ∃ j d ds, j < n ∧ ws = writesFrom j (n - j) d ++ LogSinks.writes n ds

theorem rest_writes (n : Nat) (ds : List (LogLevel × Bytes)) :
    Rest n (LogSinks.writes n ds) := by
  cases ds with
  | nil => exact .inl rfl
  | cons d ds =>
    cases n with
    | zero => exact .inl (List.flatMap_eq_nil_iff.2 fun _ _ => rfl)
    | succ n => exact .inr ⟨0, d, ds, Nat.zero_lt_succ n, rfl⟩

theorem Rest.tail {n : Nat} {w : Write} {ws : List Write} (h : Rest n (w :: ws)) : Rest n ws := by
  rcases h with hnil | ⟨j, d, ds, hj, heq⟩
  · cases hnil
  · obtain ⟨m, hm⟩ : ∃ m, n - j = m + 1 := ⟨n - j - 1, by omega⟩
    rw [hm] at heq
    obtain ⟨-, rfl⟩ : w = ⟨j, d.1, d.2⟩ ∧ ws = writesFrom (j + 1) m d ++ LogSinks.writes n ds :=
      List.cons.inj heq
    by_cases hlast : j + 1 < n
    · refine .inr ⟨j + 1, d, ds, hlast, ?_⟩
      rw [show n - (j + 1) = m by omega]
    · have hzero : m = 0 := by omega
      rw [hzero]
      exact rest_writes n ds

/-- An earlier sink is behind a later one in nothing, and ahead of it in one message at most. -/
theorem Rest.writesTo_eq {n j k : Nat} {ws : List Write} (h : Rest n ws) (hjk : j ≤ k)
    (hk : k < n) : writesTo k ws = writesTo j ws ∨ ∃ d, writesTo k ws = d :: writesTo j ws := by
  rcases h with rfl | ⟨i, d, ds, hi, rfl⟩
  · exact .inl rfl
  · rw [writesTo_append, writesTo_append, writesTo_writes hk, writesTo_writes (hjk.trans_lt hk),
      writesTo_writesFrom, writesTo_writesFrom]
    by_cases hij : i ≤ j
    · rw [if_pos (by omega), if_pos (by omega)]
      exact .inl rfl
    · rw [if_neg (by omega : ¬ (i ≤ j ∧ j < i + (n - i)))]
      by_cases hik : i ≤ k
      · rw [if_pos (by omega)]
        exact .inr ⟨d, rfl⟩
      · rw [if_neg (by omega)]
        exact .inl rfl

/-! ## A thread alone -/

/-- What a call hands to the sinks does not depend on what was handed to them before. -/
theorem log_eq (l : Logger) (call : Call) (log : Log) :
    l.log call log = ⟨(l.log call { history := log.history }).history,
      log.dispatched ++ (l.log call { history := log.history }).dispatched⟩ := by
  by_cases hoff : l.minLevel = .off
  · rw [l.log_off hoff, l.log_off hoff, List.append_nil]
  · by_cases hlevel : l.minLevel ≤ call.level
    · rw [l.log_above hoff hlevel, l.log_above hoff hlevel]
      cases l.forensics with
      | none => simp [Logger.dispatchSinks]
      | some cfg =>
        by_cases herror : LogLevel.error ≤ call.level
        · cases henabled : cfg.breadcrumbs.enabled <;>
            simp [herror, henabled, Logger.flushForensics_eq, Logger.dispatchSinks]
        · simp [herror, Logger.dispatchSinks]
    · have hbelow := LogLevel.not_le.1 hlevel
      rw [l.log_below hbelow, l.log_below hbelow]
      split <;> simp

variable {ι : Type}

/-- What a run writes to a sink, with the threads that write. -/
def written (k : Nat) (es : List (Event ι)) : List (ι × LogLevel × Bytes) :=
  es.filterMap fun
    | .calls _ _ _ => none
    | .writes i w => if w.sink = k then some (i, w.level, w.msg) else none

@[simp] theorem written_calls (es : List (Event ι)) (k : Nat) (i : ι) (l : Logger) (call : Call) :
    written k (es ++ [.calls i l call]) = written k es := by
  simp [written]

theorem written_writes (es : List (Event ι)) (k : Nat) (i : ι) (w : Write) :
    written k (es ++ [.writes i w]) =
      written k es ++ if w.sink = k then [(i, w.level, w.msg)] else [] := by
  unfold written
  by_cases h : w.sink = k <;> simp [h]

variable [DecidableEq ι]

/-- What one thread writes to a sink. -/
def writtenBy (i : ι) (k : Nat) (es : List (Event ι)) : List (LogLevel × Bytes) :=
  ((written k es).filter (·.1 = i)).map (·.2)

/-- The calls that a thread makes in a run. -/
def callsBy (i : ι) (es : List (Event ι)) : List (Logger × Call) :=
  es.filterMap fun
    | .calls i' l call => if i' = i then some (l, call) else none
    | .writes _ _ => none

/-- What the calls of a thread would do on their own. -/
def alone (i : ι) (es : List (Event ι)) : Log :=
  (callsBy i es).foldl (fun log c => c.1.log c.2 log) {}

section Snoc

variable (es : List (Event ι)) (i j : ι) (k : Nat) (l : Logger) (call : Call) (w : Write)

@[simp] theorem writtenBy_calls : writtenBy i k (es ++ [.calls j l call]) = writtenBy i k es := by
  simp [writtenBy]

theorem writtenBy_writes : writtenBy i k (es ++ [.writes j w]) =
    writtenBy i k es ++ if j = i ∧ w.sink = k then [(w.level, w.msg)] else [] := by
  unfold writtenBy
  rw [written_writes, List.filter_append, List.map_append]
  by_cases hj : j = i <;> by_cases hk : w.sink = k <;> simp [hj, hk]

theorem alone_calls : alone i (es ++ [.calls j l call]) =
    if j = i then l.log call (alone i es) else alone i es := by
  unfold alone callsBy
  by_cases h : j = i <;> simp [h]

@[simp] theorem alone_writes : alone i (es ++ [.writes j w]) = alone i es := by
  simp [alone, callsBy]

end Snoc

/-! ## Threads together -/

variable {sinks : List Sink} {streams : Nat → Bytes}

/-- A thread has the history that it would have alone, and each sink has its messages but for the
writes that are left. -/
structure Keeps (sinks : List Sink) (es : List (Event ι)) (i : ι) (ctx : ThreadContext) : Prop where
  history : ctx.history = (alone i es).history
  dispatched : ∀ k, k < sinks.length →
    (alone i es).dispatched = writtenBy i k es ++ writesTo k ctx.writes
  rest : Rest sinks.length ctx.writes

namespace Keeps

variable {es : List (Event ι)} {i : ι} {ctx : ThreadContext}

/-- The thread makes a call. -/
theorem calls (h : Keeps sinks es i ctx) (hnil : ctx.writes = []) (l : Logger) (call : Call) :
    Keeps sinks (es ++ [.calls i l call]) i
      { history := (l.log call { history := ctx.history }).history
        writes := LogSinks.writes sinks.length
          (l.log call { history := ctx.history }).dispatched } := by
  have halone := alone_calls es i i l call
  rw [if_pos rfl, log_eq, ← h.history] at halone
  refine ⟨?_, fun k hk => ?_, rest_writes _ _⟩
  · rw [halone]
  · have hdispatched := h.dispatched k hk
    rw [hnil] at hdispatched
    rw [halone, writtenBy_calls, writesTo_writes hk, hdispatched]
    exact congrArg (· ++ _) (List.append_nil _)

/-- The thread makes the next of its writes. -/
theorem writes (h : Keeps sinks es i ctx) {w : Write} {rest : List Write}
    (hwrites : ctx.writes = w :: rest) :
    Keeps sinks (es ++ [.writes i w]) i { ctx with writes := rest } := by
  refine ⟨?_, fun k hk => ?_, ?_⟩
  · rw [alone_writes]
    exact h.history
  · rw [alone_writes, writtenBy_writes, h.dispatched k hk, hwrites, writesTo_cons]
    simp
  · have hrest := h.rest
    rw [hwrites] at hrest
    exact hrest.tail

/-- Only one thread does something. -/
theorem update {threads : ι → ThreadContext} (h : ∀ i, Keeps sinks es i (threads i)) {e : Event ι}
    {j : ι} (hj : Keeps sinks (es ++ [e]) j ctx)
    (halone : ∀ i, i ≠ j → alone i (es ++ [e]) = alone i es)
    (hwritten : ∀ i, i ≠ j → ∀ k, writtenBy i k (es ++ [e]) = writtenBy i k es) (i : ι) :
    Keeps sinks (es ++ [e]) i (Function.update threads j ctx i) := by
  by_cases hij : i = j
  · subst hij
    rwa [Function.update_self]
  · rw [Function.update_of_ne hij]
    refine ⟨?_, fun k hk => ?_, (h i).rest⟩
    · rw [halone i hij]
      exact (h i).history
    · rw [halone i hij, hwritten i hij]
      exact (h i).dispatched k hk

end Keeps

theorem keeps_run {es : List (Event ι)} {s : State ι} (h : Run (Step sinks) (init streams) es s) :
    ∀ i, Keeps sinks es i (s.threads i) := by
  refine h.induct_on (I := fun es s => ∀ i, Keeps sinks es i (s.threads i)) ?_ ?_
  · exact fun i => ⟨rfl, fun _ _ => rfl, .inl rfl⟩
  · intro es e s s' _ ih hstep
    cases hstep with
    | @calls j l call hnil =>
      refine Keeps.update ih ((ih j).calls hnil l call) (fun i hij => ?_) fun i _ k => ?_
      · rw [alone_calls, if_neg (Ne.symm hij)]
      · exact writtenBy_calls ..
    | @writes j w rest sink hwrites hsink =>
      refine Keeps.update ih ((ih j).writes hwrites) (fun i _ => alone_writes ..) fun i hij k => ?_
      rw [writtenBy_writes, if_neg fun h => hij h.1.symm, List.append_nil]

/-- Each thread has the history that its calls make alone.  What it writes to a sink is the start of
what these calls hand out, and all of it between two calls; a sink is ahead of a later one by one
message at most. -/
theorem threads_do_not_mix {es : List (Event ι)} {s : State ι}
    (h : Run (Step sinks) (init streams) es s)
    (i : ι) :
    (s.threads i).history = (alone i es).history ∧
      (∀ k, k < sinks.length → writtenBy i k es <+: (alone i es).dispatched ∧
        ((s.threads i).writes = [] → writtenBy i k es = (alone i es).dispatched)) ∧
      ∀ j k, j ≤ k → k < sinks.length → writtenBy i k es <+: writtenBy i j es ∧
        (writtenBy i j es).length ≤ (writtenBy i k es).length + 1 := by
  have hkeeps : Keeps sinks es i (s.threads i) := keeps_run h i
  refine ⟨hkeeps.history, fun k hk => ⟨⟨_, (hkeeps.dispatched k hk).symm⟩, fun hnil => ?_⟩,
    fun j k hjk hk => ?_⟩
  · rw [hkeeps.dispatched k hk, hnil]
    exact (List.append_nil _).symm
  · have heq := (hkeeps.dispatched j (hjk.trans_lt hk)).symm.trans (hkeeps.dispatched k hk)
    rcases hkeeps.rest.writesTo_eq hjk hk with hrest | ⟨d, hrest⟩
    · rw [hrest] at heq
      rw [List.append_cancel_right heq]
      exact ⟨List.prefix_rfl, Nat.le_succ _⟩
    · rw [hrest, ← List.singleton_append, ← List.append_assoc] at heq
      rw [List.append_cancel_right heq, List.length_append]
      exact ⟨List.prefix_append _ _, Nat.le_refl _⟩

/-- What comes to be behind a sink is what is written to it. -/
theorem streams_run {es : List (Event ι)} {s : State ι} (h : Run (Step sinks) (init streams) es s)
    {k : Nat} {sink : Sink} (hk : sinks[k]? = some sink) :
    s.streams k = streams k ++ (written k es).flatMap fun x => sink x.2.1 x.2.2 := by
  refine h.induct_on (I := fun es s =>
    s.streams k = streams k ++ (written k es).flatMap fun x => sink x.2.1 x.2.2)
    (List.append_nil _).symm ?_
  intro es e s s' _ ih hstep
  cases hstep with
  | calls l call hnil =>
    rw [written_calls]
    exact ih
  | @writes i w rest sink' hwrites hsink =>
    show Function.update s.streams w.sink _ k = _
    rw [written_writes, List.flatMap_append, ← List.append_assoc, ← ih]
    by_cases hw : w.sink = k
    · subst hw
      cases hk.symm.trans hsink
      rw [Function.update_self, if_pos rfl]
      exact congrArg _ (List.append_nil _).symm
    · rw [Function.update_of_ne (Ne.symm hw), if_neg hw]
      exact (List.append_nil _).symm

/-- The parts between line breaks, of lines printed one after the other. -/
theorem splitOn_printed (lines : List Bytes) : (lines.flatMap println).splitOn newline =
    lines.flatMap (·.splitOn newline) ++ [[]] := by
  induction lines with
  | nil => rfl
  | cons line lines ih =>
    rw [List.flatMap_cons, println, List.append_assoc, List.singleton_append,
      List.splitOn_append_cons_self, ih, List.flatMap_cons, List.append_assoc]

theorem length_le_splitOn (lines : List Bytes) :
    lines.length ≤ (lines.flatMap (·.splitOn newline)).length := by
  induction lines with
  | nil => exact Nat.le_refl 0
  | cons line lines ih =>
    have hpos : 0 < (line.splitOn newline).length :=
      List.length_pos_iff.2 (List.splitOn_ne_nil newline line)
    rw [List.flatMap_cons, List.length_append, List.length_cons]
    omega

theorem splitOn_eq_self_iff (lines : List Bytes) :
    lines.flatMap (·.splitOn newline) = lines ↔ ∀ line ∈ lines, newline ∉ line := by
  induction lines with
  | nil => simp
  | cons line lines ih =>
    rw [List.flatMap_cons, List.forall_mem_cons, ← ih]
    constructor
    · intro h
      have hlength := length_le_splitOn lines
      have hwhole := congrArg List.length h
      rw [List.length_append, List.length_cons] at hwhole
      have hbreak : newline ∉ line := by
        intro hmem
        obtain ⟨a, b, rfl⟩ := List.append_of_mem hmem
        have ha : 0 < (a.splitOn newline).length :=
          List.length_pos_iff.2 (List.splitOn_ne_nil newline a)
        have hb : 0 < (b.splitOn newline).length :=
          List.length_pos_iff.2 (List.splitOn_ne_nil newline b)
        rw [List.splitOn_append_cons_self, List.length_append] at hwhole
        omega
      rw [List.splitOn_eq_singleton hbreak] at h
      exact ⟨hbreak, (List.cons.inj h).2⟩
    · rintro ⟨hbreak, hlines⟩
      rw [List.splitOn_eq_singleton hbreak, hlines]
      rfl

/-- There is no line without its end. -/
def EndsLine (content : Bytes) : Prop := content = [] ∨ ∃ whole, content = whole ++ [newline]

/-- What is appended to whole lines starts a line of its own. -/
theorem splitOn_append_of_endsLine {content : Bytes} (h : EndsLine content) (rest : Bytes) :
    (content ++ rest).splitOn newline =
      (content.splitOn newline).dropLast ++ rest.splitOn newline := by
  rcases h with rfl | ⟨whole, rfl⟩
  · simp
  · rw [List.append_assoc, List.singleton_append, List.splitOn_append_cons_self,
      List.splitOn_append_cons_self, List.splitOn_nil, List.dropLast_concat]

/-- After whole lines, the lines behind an open file sink are the messages written to it, one each,
if and only if no message has a line break. -/
theorem file_lines_iff {es : List (Event ι)} {s : State ι}
    (h : Run (Step sinks) (init streams) es s) {k : Nat}
    (hk : sinks[k]? = some (FileSink.write ⟨true, true⟩)) (hbefore : EndsLine (streams k)) :
    (s.streams k).splitOn newline =
        ((streams k).splitOn newline).dropLast ++ (written k es).map (·.2.2) ++ [[]] ↔
      ∀ x ∈ written k es, newline ∉ x.2.2 := by
  have hprinted : s.streams k = streams k ++ ((written k es).map (·.2.2)).flatMap println := by
    rw [streams_run h hk, List.flatMap_map]
    rfl
  rw [hprinted, splitOn_append_of_endsLine hbefore, splitOn_printed, ← List.append_assoc,
    List.append_left_inj, List.append_right_inj, splitOn_eq_self_iff, List.forall_mem_map]

/-- Between calls the sinks have the same messages of the same threads, in some order each. -/
theorem sinks_agree {es : List (Event ι)} {s : State ι}
    (h : Run (Step sinks) (init streams) es s) (hidle : ∀ i, (s.threads i).writes = []) {j k : Nat}
    {sink sink' : Sink} (hj : sinks[j]? = some sink) (hk : sinks[k]? = some sink') :
    (written j es).Perm (written k es) ∧
      s.streams j = streams j ++ ((written j es).flatMap fun x => sink x.2.1 x.2.2) ∧
      s.streams k = streams k ++ (written k es).flatMap fun x => sink' x.2.1 x.2.2 := by
  refine ⟨perm_of_parts fun i => ?_, streams_run h hj, streams_run h hk⟩
  have hkeeps : Keeps sinks es i (s.threads i) := keeps_run h i
  have hall : ∀ k, k < sinks.length → writtenBy i k es = (alone i es).dispatched := by
    intro k hk
    rw [hkeeps.dispatched k hk, hidle i]
    exact (List.append_nil _).symm
  obtain ⟨hj, -⟩ := List.getElem?_eq_some_iff.1 hj
  obtain ⟨hk, -⟩ := List.getElem?_eq_some_iff.1 hk
  exact (hall j hj).trans (hall k hk).symm

/-! ## The order of the sinks -/

section Order

/-- What the application hands to its sinks for a call. -/
def entry (call : Call) : LogLevel × Bytes := (call.level, Loggers.app.formattedMsg call)

def writesOf (s : State ι) (i : ι) : List Write := (s.threads i).writes

variable {fopens : Bool} {logging : Configuration.Logging} {s : State ι} {i i' : ι}

theorem exists_calls (fopens : Bool) (logging : Configuration.Logging) {call : Call}
    (h : LogLevel.info ≤ call.level) (hnil : writesOf s i = []) :
    ∃ s', Step (Loggers.appSinks fopens logging) s (.calls i Loggers.app call) s' ∧
      writesOf s' = Function.update (writesOf s) i (LogSinks.writes 2 [entry call]) := by
  refine ⟨_, .calls Loggers.app call hnil, ?_⟩
  rw [Loggers.app_log h]
  funext j
  by_cases hj : j = i
  · subst hj
    simp [writesOf, Loggers.appSinks, entry]
  · simp [writesOf, Function.update_of_ne hj]

theorem exists_writes (fopens : Bool) (logging : Configuration.Logging) {w : Write}
    {rest : List Write} (hwrites : writesOf s i = w :: rest) (hw : w.sink < 2) :
    ∃ s', Step (Loggers.appSinks fopens logging) s (.writes i w) s' ∧
      writesOf s' = Function.update (writesOf s) i rest := by
  have hsink : (Loggers.appSinks fopens logging)[w.sink]? =
      some (Loggers.appSinks fopens logging)[w.sink] := List.getElem?_eq_getElem hw
  refine ⟨_, .writes hwrites hsink, ?_⟩
  funext j
  by_cases hj : j = i
  · subst hj
    simp [writesOf]
  · simp [writesOf, Function.update_of_ne hj]

/-- Two threads that log at once, each writing first to another sink than the other. -/
theorem exists_crossing (hne : i ≠ i') {call call' : Call} (h : LogLevel.info ≤ call.level)
    (h' : LogLevel.info ≤ call'.level) (fopens : Bool) (logging : Configuration.Logging)
    (streams : Nat → Bytes) :
    ∃ es s, Run (Step (Loggers.appSinks fopens logging)) (init streams) es s ∧
      (∀ i, (s.threads i).writes = []) ∧ written 0 es = [(i, entry call), (i', entry call')] ∧
      written 1 es = [(i', entry call'), (i, entry call)] ∧
      callsBy i es = [(Loggers.app, call)] ∧ callsBy i' es = [(Loggers.app, call')] := by
  have hinit : writesOf (init streams : State ι) = fun _ => [] := rfl
  have hcall : ∀ call : Call, LogSinks.writes 2 [entry call] =
      [⟨0, (entry call).1, (entry call).2⟩, ⟨1, (entry call).1, (entry call).2⟩] := fun _ => rfl
  obtain ⟨s₁, hstep₁, h₁⟩ := exists_calls (s := init streams) (i := i) fopens logging h rfl
  obtain ⟨s₂, hstep₂, h₂⟩ := exists_calls (s := s₁) (i := i') fopens logging h'
    (by rw [h₁, Function.update_of_ne (Ne.symm hne)]; rfl)
  -- the console gets the first message first
  obtain ⟨s₃, hstep₃, h₃⟩ := exists_writes (s := s₂) (i := i) fopens logging
    (by rw [h₂, Function.update_of_ne hne, h₁, Function.update_self, hcall]) (Nat.zero_lt_succ 1)
  obtain ⟨s₄, hstep₄, h₄⟩ := exists_writes (s := s₃) (i := i') fopens logging
    (by rw [h₃, Function.update_of_ne (Ne.symm hne), h₂, Function.update_self, hcall])
    (Nat.zero_lt_succ 1)
  -- and the file the second
  obtain ⟨s₅, hstep₅, h₅⟩ := exists_writes (s := s₄) (i := i') fopens logging
    (by rw [h₄, Function.update_self]) (Nat.lt_succ_self 1)
  obtain ⟨s₆, hstep₆, h₆⟩ := exists_writes (s := s₅) (i := i) fopens logging
    (by rw [h₅, Function.update_of_ne hne, h₄, Function.update_of_ne hne, h₃,
      Function.update_self]) (Nat.lt_succ_self 1)
  refine ⟨_, s₆, (((((Run.single hstep₁).snoc hstep₂).snoc hstep₃).snoc hstep₄).snoc hstep₅).snoc
    hstep₆, fun j => ?_, rfl, rfl, by simp [callsBy, Ne.symm hne], by simp [callsBy, hne]⟩
  show writesOf s₆ j = []
  by_cases hj : j = i
  · rw [hj, h₆, Function.update_self]
  · rw [h₆, Function.update_of_ne hj, h₅]
    by_cases hj' : j = i'
    · rw [hj', Function.update_self]
    · rw [Function.update_of_ne hj', h₄, Function.update_of_ne hj', h₃, Function.update_of_ne hj,
        h₂, Function.update_of_ne hj', h₁, Function.update_of_ne hj, hinit]

/-- Two threads that log at once can have their messages written in one order to the console and in
the other to the file, and if these are enabled that is how the messages stand there. -/
theorem sinks_can_disagree (hne : i ≠ i') {call call' : Call} (h : LogLevel.info ≤ call.level)
    (h' : LogLevel.info ≤ call'.level) (fopens : Bool) (logging : Configuration.Logging)
    (streams : Nat → Bytes) :
    ∃ es s, Run (Step (Loggers.appSinks fopens logging)) (init streams) es s ∧
      (∀ i, (s.threads i).writes = []) ∧ written 0 es = [(i, entry call), (i', entry call')] ∧
      written 1 es = [(i', entry call'), (i, entry call)] ∧
      (logging.consoleEnabled = true → s.streams 0 = streams 0 ++
        (println (call.level.color ++ Loggers.app.formattedMsg call ++ LogLevel.reset) ++
          println (call'.level.color ++ Loggers.app.formattedMsg call' ++ LogLevel.reset))) ∧
      (logging.fileEnabled = true → fopens = true → s.streams 1 = streams 1 ++
        (println (Loggers.app.formattedMsg call') ++ println (Loggers.app.formattedMsg call))) := by
  obtain ⟨es, s, hrun, hidle, hconsole, hfile, -⟩ := exists_crossing hne h h' fopens logging streams
  refine ⟨es, s, hrun, hidle, hconsole, hfile, fun henabled => ?_, fun henabled hopens => ?_⟩
  · rw [streams_run hrun (k := 0) rfl, hconsole]
    simp [ConsoleSink.write, henabled, entry]
  · rw [streams_run hrun (k := 1) rfl, hfile]
    simp [AsyncSink.writeThrough, FileSink.write, FileSink.ofPath, henabled, hopens, entry]

end Order

/-! ## Two threads -/

def greeting (msg : Bytes) : Call := ⟨.info, by decide, msg, text "now", text "1", .unavailable⟩

theorem info_le_greeting (msg : Bytes) : LogLevel.info ≤ (greeting msg).level := Nat.le_refl 3

def firstLine (_sink : Nat) : Bytes := println (text "first")

theorem sinks_can_disagree_greetings : ∃ s : State Bool,
    s.streams 1 = firstLine 1 ++ (println (Loggers.app.formattedMsg (greeting (text "b"))) ++
      println (Loggers.app.formattedMsg (greeting (text "a")))) := by
  obtain ⟨-, s, -, -, -, -, -, hfile⟩ := sinks_can_disagree Bool.false_ne_true
    (info_le_greeting (text "a")) (info_le_greeting (text "b")) true {} firstLine
  exact ⟨s, hfile rfl rfl⟩

theorem exists_greetings : ∃ es, ∃ s : State Bool,
    Run (Step (Loggers.appSinks true)) (init firstLine) es s ∧
      (∀ i, (s.threads i).writes = []) ∧
      written 1 es = [(true, entry (greeting (text "b"))), (false, entry (greeting (text "a")))] ∧
      callsBy false es = [(Loggers.app, greeting (text "a"))] ∧
      callsBy true es = [(Loggers.app, greeting (text "b"))] := by
  obtain ⟨es, s, hrun, hidle, -, hfile, hcalls⟩ := exists_crossing Bool.false_ne_true
    (info_le_greeting (text "a")) (info_le_greeting (text "b")) true {} firstLine
  exact ⟨es, s, hrun, hidle, hfile, hcalls⟩

theorem threads_do_not_mix_greetings : ∃ es, ∃ s : State Bool,
    Run (Step (Loggers.appSinks true)) (init firstLine) es s ∧
      writtenBy false 1 es = [entry (greeting (text "a"))] ∧
      writtenBy true 1 es = [entry (greeting (text "b"))] := by
  obtain ⟨es, s, hrun, hidle, -, hcalls, hcalls'⟩ := exists_greetings
  obtain ⟨-, hsinks, -⟩ := threads_do_not_mix hrun false
  obtain ⟨-, hsinks', -⟩ := threads_do_not_mix hrun true
  refine ⟨es, s, hrun, ?_, ?_⟩
  · rw [(hsinks 1 (Nat.lt_succ_self 1)).2 (hidle false), alone, hcalls]
    rfl
  · rw [(hsinks' 1 (Nat.lt_succ_self 1)).2 (hidle true), alone, hcalls']
    rfl

theorem sinks_agree_greetings : ∃ es, ∃ s : State Bool,
    Run (Step (Loggers.appSinks true)) (init firstLine) es s ∧
      (written 0 es).Perm
        [(true, entry (greeting (text "b"))), (false, entry (greeting (text "a")))] := by
  obtain ⟨es, s, hrun, hidle, hfile, -⟩ := exists_greetings
  obtain ⟨hperm, -⟩ := sinks_agree hrun hidle (j := 0) (k := 1) rfl rfl
  rw [hfile] at hperm
  exact ⟨es, s, hrun, hperm⟩

theorem file_lines_iff_greetings : ∃ es, ∃ s : State Bool,
    Run (Step (Loggers.appSinks true)) (init firstLine) es s ∧
      (s.streams 1).splitOn newline = [text "first",
        Loggers.app.formattedMsg (greeting (text "b")),
        Loggers.app.formattedMsg (greeting (text "a")), []] := by
  obtain ⟨es, s, hrun, -, hfile, -⟩ := exists_greetings
  have hlines := (file_lines_iff hrun (k := 1) rfl (.inr ⟨text "first", rfl⟩)).2
    (by rw [hfile]; decide +kernel)
  refine ⟨es, s, hrun, hlines.trans ?_⟩
  rw [hfile]
  rfl

end Prapancha.Logging.LogSinks
