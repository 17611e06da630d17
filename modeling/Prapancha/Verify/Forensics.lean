import Prapancha.Base.Runs
import Prapancha.Logging.Logger

/-!
# What the logger hands to its sinks

One logger on one thread: its history is a window on the messages below the minimum level since the
last report, so the sinks get a trace that the calls alone determine.
-/

namespace Prapancha.Logging.Logger

/-! ## A window on a list -/

/-- Remembering one more line moves the window of the last `limit` lines. -/
theorem remember_rtake {limit : Nat} (hlimit : 0 < limit) (line : Bytes) (lines : List Bytes) :
    remember limit line (lines.rtake limit) = (lines ++ [line]).rtake limit := by
  obtain ⟨n, rfl⟩ := Nat.exists_eq_add_one_of_ne_zero hlimit.ne'
  rw [List.rtake_concat_succ, remember]
  by_cases hlength : lines.length ≤ n
  · -- nothing has been dropped yet
    have hall : lines.rtake (n + 1) = lines := by
      rw [List.rtake, Nat.sub_eq_zero_of_le (Nat.le_succ_of_le hlength), List.drop_zero]
    have hall' : lines.rtake n = lines := by
      rw [List.rtake, Nat.sub_eq_zero_of_le hlength, List.drop_zero]
    have hfits : ¬ (lines ++ [line]).length > n + 1 := by
      rw [List.length_append, List.length_singleton]
      omega
    rw [hall, hall', if_neg hfits]
  · have hfull : (lines.rtake (n + 1) ++ [line]).length > n + 1 := by
      rw [List.length_append, List.length_singleton, List.rtake, List.length_drop]
      omega
    have hne : lines.rtake (n + 1) ≠ [] := by
      rw [List.rtake, ne_eq, List.drop_eq_nil_iff]
      omega
    have htail : (lines.rtake (n + 1)).tail = lines.rtake n := by
      rw [List.rtake, List.rtake, List.tail_drop]
      congr 1
      omega
    rw [if_pos hfull, List.tail_append_of_ne_nil hne, htail]

theorem length_remember (limit : Nat) (line : Bytes) (history : List Bytes) :
    (remember limit line history).length =
      if history.length + 1 > limit then history.length else history.length + 1 := by
  have hlength : (history ++ [line]).length = history.length + 1 := by simp
  rw [remember, hlength]
  split
  · rw [List.length_tail, hlength, Nat.add_sub_cancel]
  · exact hlength

/-- One line is dropped at most, so a history that was too long stays too long. -/
theorem length_remember_le_iff {limit : Nat} {line : Bytes} {history : List Bytes} :
    (remember limit line history).length ≤ limit ↔ history.length ≤ limit := by
  rw [length_remember]
  split <;> omega

theorem length_rtake (lines : List Bytes) (n : Nat) :
    (lines.rtake n).length = min n lines.length := by
  rw [List.rtake, List.length_drop]
  omega

/-! ## The trace of the calls -/

section Trace

variable (l : Logger)

/-- The calls that are preceded by a report. -/
def Reports (call : Call) : Prop :=
  l.minLevel ≤ call.level ∧ LogLevel.error ≤ call.level ∧ l.forensics.isSome

instance (call : Call) : Decidable (l.Reports call) := inferInstanceAs (Decidable (_ ∧ _ ∧ _))

/-- The messages below the minimum level since the last report. -/
def since (pre : List Call) : List Bytes :=
  ((pre.rtakeWhile (¬ l.Reports ·)).filter (·.level < l.minLevel)).map l.formattedMsg

/-- What the sinks get from a call that comes after the calls `pre`. -/
def emits (pre : List Call) (call : Call) : List (LogLevel × Bytes) :=
  if call.level < l.minLevel then []
  else
    (match l.forensics with
    | some cfg =>
      if LogLevel.error ≤ call.level then
        [(call.level, report cfg ((l.since pre).rtake l.limit) call.stack)]
      else []
    | none => []) ++ [(call.level, l.formattedMsg call)]

/-- What the sinks get from calls that come after the calls `pre`. -/
def trace (pre : List Call) : List Call → List (LogLevel × Bytes)
  | [] => []
  | call :: calls => l.emits pre call ++ trace (pre ++ [call]) calls

/-- The calls of a thread, one after the other. -/
def run (calls : List Call) (log : Log) : Log := calls.foldl (fun log call => l.log call log) log

end Trace

variable {l : Logger}

theorem since_append_below {call : Call} (h : call.level < l.minLevel) (pre : List Call) :
    l.since (pre ++ [call]) = l.since pre ++ [l.formattedMsg call] := by
  have hreports : ¬ l.Reports call := fun hreports => LogLevel.not_le.2 h hreports.1
  rw [since, List.rtakeWhile_concat_pos (¬ l.Reports ·) _ _ (decide_eq_true hreports),
    List.filter_append, List.map_append, since]
  simp [h]

theorem since_append_above {call : Call} (h : l.minLevel ≤ call.level)
    (hreports : ¬ l.Reports call) (pre : List Call) : l.since (pre ++ [call]) = l.since pre := by
  have hlt : ¬ call.level < l.minLevel := fun hlt => LogLevel.not_le.2 hlt h
  rw [since, List.rtakeWhile_concat_pos (¬ l.Reports ·) _ _ (decide_eq_true hreports),
    List.filter_append, since]
  simp [hlt]

/-- Nothing before a report counts after it. -/
theorem since_append_report {call : Call} (h : l.Reports call) (pre mid : List Call) :
    l.since (pre ++ call :: mid) = l.since mid := by
  have hsplit : (pre ++ call :: mid).reverse = mid.reverse ++ call :: pre.reverse := by simp
  have hstop : (call :: pre.reverse).takeWhile (¬ l.Reports ·) = [] :=
    List.takeWhile_cons_of_neg (by simpa using h)
  rw [since, since, List.rtakeWhile, List.rtakeWhile, hsplit, List.takeWhile_append, hstop,
    List.append_nil]
  split
  · next hall =>
    rw [(List.takeWhile_prefix _).eq_of_length hall]
  · rfl

theorem since_eq_of_forall {mid : List Call} (h : ∀ call ∈ mid, ¬ l.Reports call) :
    l.since mid = (mid.filter (·.level < l.minLevel)).map l.formattedMsg := by
  rw [since, List.rtakeWhile_eq_self_iff.2 fun call hcall => decide_eq_true (h call hcall)]

/-- A report lists the whole history, and leaves none. -/
theorem flushForensics_history {cfg : Configuration.Forensic} (hforensics : l.forensics = some cfg)
    (level : LogLevel) (stack : Capture) {log : Log} (h : l.limit = 0 → log.history = []) :
    flushForensics cfg level stack log =
      ⟨[], log.dispatched ++ [(level, report cfg log.history stack)]⟩ := by
  rw [flushForensics_eq]
  split
  · rfl
  · next henabled =>
    have hlimit : l.limit = 0 := by simp [limit, hforensics, henabled]
    rw [h hlimit]

/-- One call: the history stays the window since the last report, and the sinks get what the call
emits. -/
theorem log_emits (hoff : l.minLevel ≠ .off) {pre : List Call} (call : Call) {log : Log}
    (h : log.history = (l.since pre).rtake l.limit) :
    (l.log call log).history = (l.since (pre ++ [call])).rtake l.limit ∧
      (l.log call log).dispatched = log.dispatched ++ l.emits pre call := by
  by_cases hbelow : call.level < l.minLevel
  · rw [log_below l hbelow, since_append_below hbelow, emits, if_pos hbelow, List.append_nil]
    by_cases hlimit : 0 < l.limit
    · rw [if_pos ⟨hbelow, hlimit⟩, ← remember_rtake hlimit, h]
      exact ⟨rfl, rfl⟩
    · have hzero : l.limit = 0 := Nat.eq_zero_of_not_pos hlimit
      rw [if_neg fun hrecords => hlimit hrecords.2, h, hzero, List.rtake_zero, List.rtake_zero]
      exact ⟨rfl, rfl⟩
  · have habove : l.minLevel ≤ call.level := Nat.not_lt.1 hbelow
    rw [log_above l hoff habove, emits, if_neg hbelow]
    cases hforensics : l.forensics with
    | none =>
      have hreports : ¬ l.Reports call := by simp [Reports, hforensics]
      rw [since_append_above habove hreports]
      exact ⟨h, by simp [dispatchSinks]⟩
    | some cfg =>
      by_cases herror : LogLevel.error ≤ call.level
      · have hreports : l.Reports call := ⟨habove, herror, by simp [hforensics]⟩
        have hsince : l.since (pre ++ [call]) = [] := since_append_report hreports pre []
        have hempty : l.limit = 0 → log.history = [] := fun hzero => by
          rw [h, hzero, List.rtake_zero]
        simp only [herror, if_true]
        rw [hsince, flushForensics_history hforensics _ _ hempty, List.rtake_nil, ← h]
        exact ⟨rfl, by simp [dispatchSinks]⟩
      · have hreports : ¬ l.Reports call := fun hreports => herror hreports.2.1
        rw [since_append_above habove hreports]
        simp only [herror, if_false]
        exact ⟨h, by simp [dispatchSinks]⟩

theorem run_off (hoff : l.minLevel = .off) (calls : List Call) (log : Log) :
    l.run calls log = log := by
  induction calls generalizing log with
  | nil => rfl
  | cons call calls ih => rw [run, List.foldl_cons, log_off l hoff, ← run, ih]

theorem run_emits (hoff : l.minLevel ≠ .off) {pre : List Call} (calls : List Call) {log : Log}
    (h : log.history = (l.since pre).rtake l.limit) :
    (l.run calls log).dispatched = log.dispatched ++ l.trace pre calls := by
  induction calls generalizing pre log with
  | nil => rw [run, List.foldl_nil, trace, List.append_nil]
  | cons call calls ih =>
    obtain ⟨hhistory, hdispatched⟩ := log_emits hoff call h
    rw [run, List.foldl_cons, ← run, ih hhistory, hdispatched, trace, List.append_assoc]

/-- The sinks get the trace of the calls: nothing if the logger is off, and otherwise what each call
emits.  A report lists the last messages of those since the last report, which are the messages
below the minimum level of the calls that came after it. -/
theorem dispatched_eq_trace (l : Logger) (calls : List Call) :
    (l.minLevel = .off → (l.run calls {}).dispatched = []) ∧
    (l.minLevel ≠ .off → (l.run calls {}).dispatched = l.trace [] calls) ∧
    (∀ pre, (l.since pre).rtake l.limit <:+ l.since pre ∧
      ((l.since pre).rtake l.limit).length = min l.limit (l.since pre).length) ∧
    (∀ pre call mid, l.Reports call → l.since (pre ++ call :: mid) = l.since mid) ∧
    ∀ mid, (∀ call ∈ mid, ¬ l.Reports call) →
      l.since mid = (mid.filter (·.level < l.minLevel)).map l.formattedMsg :=
  ⟨fun hoff => by rw [run_off hoff], fun hoff => run_emits hoff calls (List.rtake_nil _).symm,
    fun pre => ⟨List.drop_suffix _ _, length_rtake _ _⟩,
    fun pre call mid h => since_append_report h pre mid, fun mid h => since_eq_of_forall h⟩

/-! ## Loggers that share a thread -/

section Shared

/-- The calls whose report empties the history. -/
def Clears (l : Logger) (call : Call) : Prop :=
  l.minLevel ≠ .off ∧ l.minLevel ≤ call.level ∧ LogLevel.error ≤ call.level ∧
    (l.forensics.any fun cfg => cfg.breadcrumbs.enabled) = true

instance (l : Logger) (call : Call) : Decidable (l.Clears call) :=
  inferInstanceAs (Decidable (_ ∧ _ ∧ _ ∧ _))

theorem Records.not_clears {call : Call} (h : l.Records call) : ¬ l.Clears call :=
  fun hclears => LogLevel.not_le.2 h.1 hclears.2.1

theorem history_log_of_not_records {call : Call} (h : ¬ l.Records call) (log : Log) :
    (l.log call log).history = if l.Clears call then [] else log.history := by
  by_cases hoff : l.minLevel = .off
  · rw [log_off l hoff, if_neg fun hclears => hclears.1 hoff]
  by_cases hbelow : call.level < l.minLevel
  · rw [log_below l hbelow, if_neg h, if_neg fun hclears => LogLevel.not_le.2 hbelow hclears.2.1]
  have habove := Nat.not_lt.1 hbelow
  rw [log_above l hoff habove]
  cases hforensics : l.forensics with
  | none =>
    have hclears : ¬ l.Clears call := by simp [Clears, hforensics]
    rw [if_neg hclears]
    rfl
  | some cfg =>
    by_cases herror : LogLevel.error ≤ call.level
    · simp only [herror, if_true, flushForensics_eq]
      by_cases henabled : cfg.breadcrumbs.enabled = true
      · have hclears : l.Clears call := ⟨hoff, habove, herror, by simp [hforensics, henabled]⟩
        rw [if_pos henabled, if_pos hclears]
        rfl
      · have hclears : ¬ l.Clears call := by simp [Clears, hforensics, henabled]
        rw [if_neg henabled, if_neg hclears]
        rfl
    · rw [if_neg fun hclears => herror hclears.2.2.1]
      simp only [herror, if_false]
      rfl

/-- A call that does not record leaves the history no longer than it was. -/
theorem length_history_log_le {call : Call} (h : ¬ l.Records call) (log : Log) :
    (l.log call log).history.length ≤ log.history.length := by
  rw [history_log_of_not_records h]
  split
  · exact Nat.zero_le _
  · exact Nat.le_refl _

theorem history_log_of_records {call : Call} (h : l.Records call) (log : Log) :
    (l.log call log).history = remember l.limit (l.formattedMsg call) log.history := by
  rw [log_below l h.1, if_pos h]

/-- The logger has calls that record. -/
def CanRecord (l : Logger) : Prop := .trace < l.minLevel ∧ 0 < l.limit

theorem Records.canRecord {call : Call} (h : l.Records call) : l.CanRecord :=
  ⟨Nat.lt_of_le_of_lt (LogLevel.trace_le call.level_ne) h.1, h.2⟩

variable {ι : Type} (loggers : ι → Logger)

/-- The calls of several loggers on one thread. -/
def runShared (calls : List (ι × Call)) (log : Log) : Log :=
  calls.foldl (fun log call => (loggers call.1).log call.2 log) log

/-- Right after a call that records, the history fits the limit of its logger. -/
def Bounded (calls : List (ι × Call)) : Prop :=
  ∀ pre i call post, calls = pre ++ (i, call) :: post → (loggers i).Records call →
    (runShared loggers (pre ++ [(i, call)]) {}).history.length ≤ (loggers i).limit

/-- Right before a call that records, the history fits the limit of its logger. -/
def Fits (calls : List (ι × Call)) : Prop :=
  ∀ pre i call post, calls = pre ++ (i, call) :: post → (loggers i).Records call →
    (runShared loggers pre {}).history.length ≤ (loggers i).limit

/-- The limits of the calls that recorded since the last report that emptied the history. -/
def recorded (calls : List (ι × Call)) : List Nat :=
  ((calls.rtakeWhile fun call => ¬ (loggers call.1).Clears call.2).filter
    fun call => (loggers call.1).Records call.2).map fun call => (loggers call.1).limit

/-- After calls with these limits there is room for one with this limit: there are no more of them
than it, or no more since one of them than it exceeds that one's. -/
def Room (limits : List Nat) (limit : Nat) : Prop :=
  limits.length ≤ limit ∨ ∃ pre k post, limits = pre ++ k :: post ∧ k + post.length ≤ limit

/-- There is room for every call that records. -/
def Roomy (calls : List (ι × Call)) : Prop :=
  ∀ pre i call post, calls = pre ++ (i, call) :: post → (loggers i).Records call →
    Room (recorded loggers pre) (loggers i).limit

/-- The loggers that can record have the same limit. -/
def SameLimit : Prop :=
  ∀ i j, (loggers i).CanRecord → (loggers j).CanRecord → (loggers i).limit = (loggers j).limit

theorem runShared_concat (pre : List (ι × Call)) (i : ι) (call : Call) (log : Log) :
    runShared loggers (pre ++ [(i, call)]) log =
      (loggers i).log call (runShared loggers pre log) := by
  rw [runShared, List.foldl_append]
  rfl

theorem bounded_iff_fits (calls : List (ι × Call)) :
    Bounded loggers calls ↔ Fits loggers calls := by
  refine forall_congr' fun pre => forall_congr' fun i => forall_congr' fun call =>
    forall_congr' fun post => imp_congr_right fun _ => imp_congr_right fun hrecords => ?_
  rw [runShared_concat, history_log_of_records hrecords, length_remember_le_iff]

variable {loggers}

/-! ### Room in the history -/

/-- The length of a history that fitted at each of the calls with these limits. -/
structure Window (limits : List Nat) (n : Nat) : Prop where
  le_length : n ≤ limits.length
  le_add : ∀ pre k post, limits = pre ++ k :: post → n ≤ k + post.length
  attained : n = limits.length ∨ ∃ pre k post, limits = pre ++ k :: post ∧ n = k + post.length

namespace Window

variable {limits : List Nat} {n limit : Nat}

theorem le_iff_room (h : Window limits n) : n ≤ limit ↔ Room limits limit := by
  constructor
  · intro hle
    rcases h.attained with rfl | ⟨pre, k, post, hsplit, rfl⟩
    · exact .inl hle
    · exact .inr ⟨pre, k, post, hsplit, hle⟩
  · rintro (hle | ⟨pre, k, post, hsplit, hle⟩)
    · exact Nat.le_trans h.le_length hle
    · exact Nat.le_trans (h.le_add pre k post hsplit) hle

/-- One more line, of which one is dropped at the limit. -/
theorem snoc (h : Window limits n) (hle : n ≤ limit) :
    Window (limits ++ [limit]) (if n + 1 > limit then n else n + 1) := by
  have hlength : (limits ++ [limit]).length = limits.length + 1 := by simp
  have hbelow := h.le_length
  refine ⟨by split <;> omega, fun pre k post hsplit => ?_, ?_⟩
  · rcases snoc_eq_append_cons hsplit with ⟨rfl, -, rfl⟩ | ⟨post, rfl, hsplit'⟩
    · rw [List.length_nil]
      split <;> omega
    · have hadd := h.le_add pre k post hsplit'
      rw [List.length_append, List.length_singleton]
      split <;> omega
  · split
    · exact .inr ⟨limits, limit, [], rfl, by rw [List.length_nil]; omega⟩
    · rcases h.attained with rfl | ⟨pre, k, post, rfl, rfl⟩
      · exact .inl hlength.symm
      · exact .inr ⟨pre, k, post ++ [limit], by simp, by simp [Nat.add_assoc]⟩

end Window

theorem recorded_concat (pre : List (ι × Call)) (i : ι) (call : Call) :
    recorded loggers (pre ++ [(i, call)]) =
      if (loggers i).Clears call then []
      else if (loggers i).Records call then recorded loggers pre ++ [(loggers i).limit]
      else recorded loggers pre := by
  by_cases hclears : (loggers i).Clears call
  · rw [if_pos hclears, recorded, List.rtakeWhile_concat_neg _ _ _ (by simpa using hclears)]
    rfl
  · rw [if_neg hclears, recorded, List.rtakeWhile_concat_pos _ _ _ (by simpa using hclears),
      List.filter_append, List.map_append]
    by_cases hrecords : (loggers i).Records call <;> simp [recorded, hrecords]

theorem Fits.left {pre post : List (ι × Call)} (h : Fits loggers (pre ++ post)) :
    Fits loggers pre := by
  intro pre' i call post' hsplit
  exact h pre' i call (post' ++ post) (by rw [hsplit, List.append_assoc, List.cons_append])

/-- In a run in which it always fits, the length of the history is known from the calls. -/
theorem Fits.window {calls : List (ι × Call)} (h : Fits loggers calls) :
    Window (recorded loggers calls) (runShared loggers calls {}).history.length := by
  induction calls using List.reverseRecOn with
  | nil => exact ⟨Nat.le_refl _, fun pre k post hsplit => by simp [recorded] at hsplit, .inl rfl⟩
  | append_singleton calls call ih =>
    obtain ⟨i, call⟩ := call
    have hwindow := ih h.left
    rw [runShared_concat, recorded_concat]
    by_cases hrecords : (loggers i).Records call
    · rw [if_neg hrecords.not_clears, if_pos hrecords, history_log_of_records hrecords,
        length_remember]
      exact hwindow.snoc (h calls i call [] rfl hrecords)
    · rw [if_neg hrecords, history_log_of_not_records hrecords]
      split
      · exact ⟨Nat.le_refl _, fun pre k post hsplit => by simp at hsplit, .inl rfl⟩
      · exact hwindow

theorem fits_iff_roomy (calls : List (ι × Call)) : Fits loggers calls ↔ Roomy loggers calls := by
  constructor
  · intro hfits pre i call post hsplit hrecords
    have hpre : Fits loggers pre := Fits.left (hsplit ▸ hfits)
    exact hpre.window.le_iff_room.1 (hfits pre i call post hsplit hrecords)
  · intro hroomy
    induction calls using List.reverseRecOn with
    | nil => exact fun pre i call post hsplit => by simp at hsplit
    | append_singleton calls last ih =>
      have hfits : Fits loggers calls := ih fun pre i call post hsplit =>
        hroomy pre i call (post ++ [last]) (by rw [hsplit, List.append_assoc, List.cons_append])
      intro pre i call post hsplit hrecords
      rcases snoc_eq_append_cons hsplit with ⟨rfl, rfl, rfl⟩ | ⟨post, rfl, rfl⟩
      · exact hfits.window.le_iff_room.2 (hroomy calls i call [] rfl hrecords)
      · exact hfits pre i call post rfl hrecords

/-! ### One limit for all -/

/-- One call on loggers with the same limit. -/
theorem SameLimit.log (h : SameLimit loggers) {log : Log}
    (hlog : ∀ i, (loggers i).CanRecord → log.history.length ≤ (loggers i).limit) (j : ι)
    (call : Call) (i : ι) (hi : (loggers i).CanRecord) :
    ((loggers j).log call log).history.length ≤ (loggers i).limit := by
  by_cases hrecords : (loggers j).Records call
  · have hj := hrecords.canRecord
    rw [history_log_of_records hrecords, h i j hi hj, length_remember_le_iff]
    exact hlog j hj
  · exact Nat.le_trans (length_history_log_le hrecords log) (hlog i hi)

theorem SameLimit.runShared (h : SameLimit loggers) (calls : List (ι × Call)) {log : Log}
    (hlog : ∀ i, (loggers i).CanRecord → log.history.length ≤ (loggers i).limit) (i : ι)
    (hi : (loggers i).CanRecord) :
    (runShared loggers calls log).history.length ≤ (loggers i).limit := by
  induction calls generalizing log with
  | nil => exact hlog i hi
  | cons call calls ih => exact ih (h.log hlog call.1 call.2)

/-- A call that a logger records if it can record at all. -/
def traceCall : Call := ⟨.trace, by decide, text "tracing", [], [], .unavailable⟩

theorem CanRecord.records_traceCall (h : l.CanRecord) : l.Records traceCall := h

/-- A logger fills its history up to its limit. -/
theorem length_history_replicate {i : ι} (hi : (loggers i).CanRecord) {n : Nat}
    (hn : n ≤ (loggers i).limit) :
    (Logger.runShared loggers (List.replicate n (i, traceCall)) {}).history.length = n := by
  induction n with
  | zero => rfl
  | succ n ih =>
    have hlength := ih (Nat.le_of_succ_le hn)
    rw [List.replicate_succ', runShared_concat, history_log_of_records hi.records_traceCall,
      remember, if_neg, List.length_append, hlength, List.length_singleton]
    rw [List.length_append, hlength, List.length_singleton]
    omega

/-- If a logger can fill the history beyond the limit of another one, then that one drops a single
breadcrumb and leaves it too long. -/
theorem not_bounded_of_limit_lt {i j : ι} (hi : (loggers i).CanRecord)
    (hj : (loggers j).CanRecord) (hlt : (loggers i).limit < (loggers j).limit) :
    ¬ Bounded loggers (List.replicate (loggers j).limit (j, traceCall) ++ [(i, traceCall)]) := by
  rw [bounded_iff_fits]
  intro hfits
  have hlength := hfits _ i traceCall [] rfl hi.records_traceCall
  rw [length_history_replicate hj (Nat.le_refl _)] at hlength
  omega

/-- In a run the history is within the limit after every call that records exactly when it is before
each, and that is known from the limits of the calls that recorded since the last report.  It always
is exactly when the loggers that can record have the same limit. -/
theorem bounded_iff (loggers : ι → Logger) :
    (∀ calls, Bounded loggers calls ↔ Fits loggers calls) ∧
      (∀ calls, Bounded loggers calls ↔ Roomy loggers calls) ∧
      ((∀ calls, Bounded loggers calls) ↔ SameLimit loggers) := by
  refine ⟨bounded_iff_fits loggers,
    fun calls => (bounded_iff_fits loggers calls).trans (fits_iff_roomy calls),
    fun hbounded i j hi hj => ?_, fun hsame calls => ?_⟩
  · rcases Nat.lt_trichotomy (loggers i).limit (loggers j).limit with hlt | heq | hlt
    · exact absurd (hbounded _) (not_bounded_of_limit_lt hi hj hlt)
    · exact heq
    · exact absurd (hbounded _) (not_bounded_of_limit_lt hj hi hlt)
  · rw [bounded_iff_fits]
    intro pre i call post _ hrecords
    exact hsame.runShared pre (fun _ _ => Nat.zero_le _) i hrecords.canRecord

/-- A logger at level `Info` with breadcrumbs up to a limit. -/
def remembering (limit : Nat) : Logger :=
  { minLevel := .info, category := text "app", forensics := some ⟨⟨true, limit⟩, {}⟩ }

/-- Two loggers, the first of which remembers two breadcrumbs and the second one. -/
def twoAndOne (second : Bool) : Logger := if second then remembering 1 else remembering 2

/-- The second logger leaves two breadcrumbs. -/
theorem twoAndOne_not_bounded :
    ¬ Bounded twoAndOne [(false, traceCall), (false, traceCall), (true, traceCall)] := by
  intro hbounded
  have hlength :=
    hbounded [(false, traceCall), (false, traceCall)] true traceCall [] rfl (by decide)
  exact absurd hlength (by decide)

end Shared

end Prapancha.Logging.Logger
