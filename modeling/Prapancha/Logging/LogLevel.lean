import Prapancha.Base.Bytes

/-!
# Log levels and the logging configuration

The levels in their order, and the part of the configuration that the logger reads.
-/

namespace Prapancha.Logging

inductive LogLevel
  | off
  | trace
  | debug
  | info
  | warn
  | error
  | critical
  deriving DecidableEq, Repr

namespace LogLevel

/-- The value of the enumerator. -/
def value : LogLevel → Nat
  | off => 0
  | trace => 1
  | debug => 2
  | info => 3
  | warn => 4
  | error => 5
  | critical => 6

instance : LE LogLevel := ⟨fun a b => a.value ≤ b.value⟩

instance : LT LogLevel := ⟨fun a b => a.value < b.value⟩

instance (a b : LogLevel) : Decidable (a ≤ b) := inferInstanceAs (Decidable (a.value ≤ b.value))

instance (a b : LogLevel) : Decidable (a < b) := inferInstanceAs (Decidable (a.value < b.value))

protected theorem not_le {a b : LogLevel} : ¬ a ≤ b ↔ b < a := Nat.not_le

theorem trace_le {a : LogLevel} (h : a ≠ off) : trace ≤ a := by
  cases a <;> first | exact absurd rfl h | decide

/-- `get_traits(level).name`. -/
def name : LogLevel → Bytes
  | trace => text "TRACE"
  | debug => text "DEBUG"
  | info => text "INFO"
  | warn => text "WARN"
  | error => text "ERROR"
  | critical => text "CRITICAL"
  | off => text "OFF"

end LogLevel

/-! ## Configuration -/

namespace Configuration

structure Breadcrumbs where
  enabled : Bool := false
  perThreadLimit : Nat := 0

structure Stacktrace where
  enabled : Bool := false

structure Forensic where
  breadcrumbs : Breadcrumbs := {}
  stacktrace : Stacktrace := {}

end Configuration

end Prapancha.Logging
