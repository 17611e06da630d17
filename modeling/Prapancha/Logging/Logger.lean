import Mathlib.Data.List.DropRight
import Prapancha.Logging.LogLevel

/-!
# The logger

`Logger::log` and `Logger::dispatch` on one thread: the thread's history of breadcrumbs, which the
loggers of that thread share, and what they hand to the sinks.
-/

namespace Prapancha.Logging

/-- What `std::stacktrace::current` gives; it is `unavailable` where the library has none. -/
inductive Capture
  | unavailable
  | empty
  | entries (printed : Bytes)

/-- A call of one of the `log_` methods: the assembled message, and what the logger reads, as it is
printed. -/
structure Call where
  level : LogLevel
  level_ne : level ≠ .off
  msg : Bytes
  now : Bytes
  threadId : Bytes
  stack : Capture

/-- The history of the thread and what was dispatched to the sinks. -/
structure Log where
  history : List Bytes := []
  dispatched : List (LogLevel × Bytes) := []

structure Logger where
  minLevel : LogLevel
  category : Bytes
  forensics : Option Configuration.Forensic := none

namespace Logger

variable (l : Logger)

def isBreadcrumbActive : Bool :=
  match l.forensics with
  | some cfg => cfg.breadcrumbs.enabled && decide (0 < cfg.breadcrumbs.perThreadLimit)
  | none => false

def shouldLog (level : LogLevel) : Bool :=
  decide (l.minLevel ≠ .off) && (decide (l.minLevel ≤ level) || l.isBreadcrumbActive)

def formattedMsg (call : Call) : Bytes :=
  call.now ++ text "Z [" ++ call.threadId ++ text "] [" ++ call.level.name ++ text "] [" ++
    l.category ++ text "] - " ++ call.msg

/-- `sinks.dispatch`. -/
def dispatchSinks (level : LogLevel) (msg : Bytes) (log : Log) : Log :=
  { log with dispatched := log.dispatched ++ [(level, msg)] }

/-- The lines of a report about the history, which is not empty. -/
def breadcrumbLines (history : List Bytes) : Bytes :=
  text "│ Recent Context (Breadcrumbs):\n" ++
    history.flatMap fun line => text "│   • " ++ line ++ text "\n"

/-- The lines of a report about the stack. -/
def stacktraceLines (stack : Capture) : Bytes :=
  match stack with
  | .unavailable => text "│ Stacktrace: Forensic capture unavailable\n"
  | .empty => []
  | .entries printed => text "│ Call Stack:\n" ++ (text "│   " ++ printed)

def flushForensics (cfg : Configuration.Forensic) (level : LogLevel) (stack : Capture) (log : Log) :
    Log :=
  let report := text "\n┌─────────────────────── FORENSICS ───────────────────────\n"
  let (report, history) :=
    if cfg.breadcrumbs.enabled && !log.history.isEmpty then
      (report ++ breadcrumbLines log.history, [])
    else (report, log.history)
  let report :=
    if cfg.stacktrace.enabled then
      let report := if cfg.breadcrumbs.enabled then report ++ text "│\n" else report
      report ++ stacktraceLines stack
    else report
  let report := report ++ text "└─────────────────────────────────────────────────────────\n"
  dispatchSinks level report { log with history }

/-- Appends a line to the history, and drops one when there are more than `limit`. -/
def remember (limit : Nat) (line : Bytes) (history : List Bytes) : List Bytes :=
  let history := history ++ [line]
  if history.length > limit then history.tail else history

def dispatch (call : Call) (log : Log) : Log :=
  if call.level < l.minLevel ∧ l.isBreadcrumbActive = false then log
  else
    let msg := l.formattedMsg call
    if l.minLevel ≤ call.level then
      let log :=
        match l.forensics with
        | some cfg =>
          if LogLevel.error ≤ call.level then flushForensics cfg call.level call.stack log else log
        | none => log
      dispatchSinks call.level msg log
    else if l.isBreadcrumbActive then
      match l.forensics with
      | some cfg => { log with history := remember cfg.breadcrumbs.perThreadLimit msg log.history }
      | none => log
    else log

/-- One call of a `log_` method. -/
def log (call : Call) (log : Log) : Log :=
  if l.shouldLog call.level then l.dispatch call log else log

/-! ## What a call does -/

/-- `per_thread_limit` if breadcrumbs are enabled, and 0 otherwise. -/
def limit : Nat :=
  match l.forensics with
  | some cfg => if cfg.breadcrumbs.enabled then cfg.breadcrumbs.perThreadLimit else 0
  | none => 0

/-- The calls whose message goes to the history. -/
def Records (call : Call) : Prop := call.level < l.minLevel ∧ 0 < l.limit

instance (call : Call) : Decidable (l.Records call) := inferInstanceAs (Decidable (_ ∧ _))

theorem isBreadcrumbActive_iff : l.isBreadcrumbActive = true ↔ 0 < l.limit := by
  unfold isBreadcrumbActive limit
  cases l.forensics with
  | none => simp
  | some cfg => cases henabled : cfg.breadcrumbs.enabled <;> simp [henabled]

theorem isBreadcrumbActive_eq_false : l.isBreadcrumbActive = false ↔ l.limit = 0 := by
  rw [← Bool.not_eq_true, isBreadcrumbActive_iff, Nat.pos_iff_ne_zero, not_not]

/-- The report, with the breadcrumbs that it lists. -/
def report (cfg : Configuration.Forensic) (crumbs : List Bytes) (stack : Capture) : Bytes :=
  text "\n┌─────────────────────── FORENSICS ───────────────────────\n" ++
    (if crumbs = [] then [] else breadcrumbLines crumbs) ++
    (if cfg.stacktrace.enabled then
      (if cfg.breadcrumbs.enabled then text "│\n" else []) ++ stacktraceLines stack
    else []) ++
    text "└─────────────────────────────────────────────────────────\n"

/-- A report lists the history if breadcrumbs are enabled, and the history is empty then. -/
theorem flushForensics_eq (cfg : Configuration.Forensic) (level : LogLevel) (stack : Capture)
    (log : Log) :
    flushForensics cfg level stack log =
      if cfg.breadcrumbs.enabled then
        ⟨[], log.dispatched ++ [(level, report cfg log.history stack)]⟩
      else ⟨log.history, log.dispatched ++ [(level, report cfg [] stack)]⟩ := by
  unfold flushForensics dispatchSinks report
  cases henabled : cfg.breadcrumbs.enabled <;> cases cfg.stacktrace.enabled <;>
    cases hhistory : log.history <;> simp [List.append_assoc]

/-- A logger that is off does nothing. -/
theorem log_off (h : l.minLevel = .off) (call : Call) (log : Log) : l.log call log = log := by
  simp [Logger.log, shouldLog, h]

/-- A call below the minimum level: its message goes to the history or nowhere. -/
theorem log_below {call : Call} (h : call.level < l.minLevel) (log : Log) :
    l.log call log =
      if l.Records call then
        { log with history := remember l.limit (l.formattedMsg call) log.history }
      else log := by
  have hle : ¬ l.minLevel ≤ call.level := LogLevel.not_le.2 h
  by_cases hlimit : 0 < l.limit
  · have hactive : l.isBreadcrumbActive = true := l.isBreadcrumbActive_iff.2 hlimit
    have hoff : l.minLevel ≠ .off := fun hoff => Nat.not_lt_zero _ (hoff ▸ h)
    have hshould : l.shouldLog call.level = true := by simp [shouldLog, hoff, hactive]
    rw [Logger.log, if_pos hshould, if_pos ⟨h, hlimit⟩, dispatch, if_neg (by simp [hactive]),
      if_neg hle, if_pos hactive]
    cases hforensics : l.forensics with
    | none => simp [limit, hforensics] at hlimit
    | some cfg =>
      have henabled : cfg.breadcrumbs.enabled = true := by
        simp only [isBreadcrumbActive, hforensics, Bool.and_eq_true] at hactive
        exact hactive.1
      simp [limit, hforensics, henabled]
  · have hactive : l.isBreadcrumbActive = false :=
      l.isBreadcrumbActive_eq_false.2 (Nat.eq_zero_of_not_pos hlimit)
    have hshould : ¬ l.shouldLog call.level = true := by simp [shouldLog, hactive, hle]
    rw [Logger.log, if_neg hshould, if_neg fun hrecords => hlimit hrecords.2]

/-- A call at or above the minimum level: its message goes to the sinks, after a report if the level
is that of an error and there is a forensic configuration. -/
theorem log_above {call : Call} (hoff : l.minLevel ≠ .off) (h : l.minLevel ≤ call.level)
    (log : Log) :
    l.log call log =
      dispatchSinks call.level (l.formattedMsg call)
        (match l.forensics with
        | some cfg =>
          if LogLevel.error ≤ call.level then flushForensics cfg call.level call.stack log else log
        | none => log) := by
  have hshould : l.shouldLog call.level = true := by simp [shouldLog, hoff, h]
  have hlt : ¬ (call.level < l.minLevel ∧ l.isBreadcrumbActive = false) := fun hlt =>
    LogLevel.not_le.2 hlt.1 h
  rw [Logger.log, if_pos hshould, dispatch, if_neg hlt, if_pos h]

end Logger

end Prapancha.Logging
