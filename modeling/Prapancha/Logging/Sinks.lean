import Mathlib.Logic.Function.Basic
import Prapancha.Base.Runs
import Prapancha.Logging.Logger

/-!
# Sinks and threads

The console, the file and the sinks of the application, and loggers that any number of threads use
at once.  Each thread has its own history, and writes to the sinks one after the other; a write is
one step, since `std::println` locks the stream.
-/

namespace Prapancha.Logging

/-! ## Sinks -/

/-- `LogLevelTraits::reset`. -/
def LogLevel.reset : Bytes := text "\x1b[0m"

/-- `get_traits(level).color`. -/
def LogLevel.color : LogLevel → Bytes
  | .trace => text "\x1b[2m"
  | .debug => text "\x1b[36m"
  | .info => LogLevel.reset
  | .warn => text "\x1b[33m"
  | .error => text "\x1b[31m"
  | .critical => text "\x1b[1;31m"
  | .off => LogLevel.reset

/-- A sink that writes before its `write` returns, by what that appends to the stream behind it.  An
`AsyncSink` that is enabled is none. -/
abbrev Sink := LogLevel → Bytes → Bytes

def newline : UInt8 := 0x0A

/-- `std::println`. -/
def println (line : Bytes) : Bytes := line ++ [newline]

structure ConsoleSink where
  enabled : Bool

def ConsoleSink.write (s : ConsoleSink) : Sink := fun level msg =>
  if s.enabled then println (level.color ++ msg ++ LogLevel.reset) else []

structure FileSink where
  enabled : Bool
  /-- `file_` is not null. -/
  opened : Bool

namespace FileSink

/-- The constructor; `fopens` is whether the path can be opened for appending. -/
def ofPath (fopens : Bool) (enabled : Bool := true) : FileSink where
  enabled := enabled
  opened := enabled && fopens

def write (s : FileSink) : Sink := fun _ msg => if s.enabled && s.opened then println msg else []

end FileSink

/-- `AsyncSink::write` with `enabled_` unset. -/
def AsyncSink.writeThrough (sink : Sink) : Sink := fun level msg => sink level msg

namespace Configuration

set_option linter.dupNamespace false in
/-- What `Configuration::Logging` says of the sinks; `async_enabled` is left at its default. -/
structure Logging where
  consoleEnabled : Bool := true
  fileEnabled : Bool := true

end Configuration

namespace Loggers

/-- The sinks of `Loggers::App`. -/
def appSinks (fopens : Bool) (logging : Configuration.Logging := {}) : List Sink := [
  ConsoleSink.write ⟨logging.consoleEnabled⟩,
  AsyncSink.writeThrough (FileSink.write (.ofPath fopens logging.fileEnabled))]

/-- `Loggers::App`. -/
def app : Logger where
  minLevel := .info
  category := text "App"

/-- The logger of the application hands on every message from the level of information up. -/
theorem app_log {call : Call} (h : LogLevel.info ≤ call.level) (log : Log) :
    app.log call log =
      ⟨log.history, log.dispatched ++ [(call.level, app.formattedMsg call)]⟩ := by
  rw [app.log_above (by decide) h]
  rfl

end Loggers

/-! ## Threads -/

/-- A write that a thread is to make, to the sink of that number. -/
structure Write where
  sink : Nat
  level : LogLevel
  msg : Bytes
  deriving DecidableEq

/-- `LogSinks::dispatch` with `n` sinks, for one message after the other. -/
def LogSinks.writes (n : Nat) (dispatched : List (LogLevel × Bytes)) : List Write :=
  dispatched.flatMap fun d => (List.range' 0 n).map fun k => ⟨k, d.1, d.2⟩

structure ThreadContext where
  history : List Bytes := []
  /-- What is left of the call of a `log_` method. -/
  writes : List Write := []

namespace LogSinks

structure State (ι : Type) where
  threads : ι → ThreadContext
  /-- What is behind each sink. -/
  streams : Nat → Bytes

/-- Before the first call; a file is opened for appending, so that it can have content. -/
def init {ι : Type} (streams : Nat → Bytes) : State ι := ⟨fun _ => {}, streams⟩

inductive Event (ι : Type)
  | calls (i : ι) (l : Logger) (call : Call)
  | writes (i : ι) (w : Write)

variable {ι : Type} [DecidableEq ι]

/-- A thread calls a logger, which touches nothing but the context of the thread until it writes. -/
inductive Step (sinks : List Sink) : State ι → Event ι → State ι → Prop
  | calls {s : State ι} {i : ι} (l : Logger) (call : Call) : (s.threads i).writes = [] →
    Step sinks s (.calls i l call)
      { s with
        threads := Function.update s.threads i
          { history := (l.log call { history := (s.threads i).history }).history
            writes := LogSinks.writes sinks.length
              (l.log call { history := (s.threads i).history }).dispatched } }
  | writes {s : State ι} {i : ι} {w : Write} {rest : List Write} {sink : Sink} :
    (s.threads i).writes = w :: rest → sinks[w.sink]? = some sink →
    Step sinks s (.writes i w)
      { threads := Function.update s.threads i { s.threads i with writes := rest }
        streams := Function.update s.streams w.sink
          (s.streams w.sink ++ sink w.level w.msg) }

end LogSinks

end Prapancha.Logging
