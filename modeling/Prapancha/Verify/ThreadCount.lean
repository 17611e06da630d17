import Prapancha.Server.Run
import Prapancha.Verify.CommandLine

/-!
# The thread count of a run

The sentinel 0 becomes a positive number on any hardware, so that an executor always runs, unless
the command line asks for a negative number of them: that is neither rejected nor adjusted, and the
vector of executors cannot reserve it.
-/

namespace Prapancha.Executors

open Prapancha.Configuration

/-- The number that `--thread_count` sets at last: the one at the front of the last argument of the
option that has one. -/
def requested (args : List Bytes) : Option Int32 :=
  (((settings args).filterMap Setting.threadCount?).filterMap IntegerType.int32.leading?).getLast?

/-- A positive thread count in each of its uses, and an executor that runs. -/
structure Runs (started : Started) : Prop where
  threadCount : 1 ≤ started.threadCount
  hint : 0 < started.hint
  reserved : 0 < started.reserved
  executors : ∃ n, started.executors = .ok n ∧ 1 ≤ n

theorem executors_start (hardwareConcurrency : UInt32) (config : Configuration) :
    (start hardwareConcurrency config).executors =
      if 0 ≤ (adjust hardwareConcurrency config.network.threadCount).toInt then
        .ok (adjust hardwareConcurrency config.network.threadCount).toInt.toNat
      else .error .lengthError := by
  unfold start
  dsimp only
  rw [reserve_size]
  split
  · rw [bind_ok, emplace_eq, Nat.zero_add]
    congr 2
    exact Int.sub_zero _
  · rw [bind_error]

theorem one_le_iff {threadCount : Int32} : 1 ≤ threadCount ↔ 1 ≤ threadCount.toInt :=
  Int32.le_iff_toInt_le

theorem runs_start_iff (hardwareConcurrency : UInt32) (config : Configuration) :
    Runs (start hardwareConcurrency config) ↔
      1 ≤ adjust hardwareConcurrency config.network.threadCount := by
  have hexecutors := executors_start hardwareConcurrency config
  constructor
  · exact fun h => h.threadCount
  · intro h
    have hpos := one_le_iff.1 h
    have hsize := toNat_size (adjust hardwareConcurrency config.network.threadCount)
    rw [if_pos (by omega)] at hexecutors hsize
    refine ⟨h, ?_, ?_, _, hexecutors, by omega⟩
    · exact Int32.lt_iff_toInt_lt.2 hpos
    · apply UInt64.lt_iff_toNat_lt.2
      show 0 < (adjust hardwareConcurrency config.network.threadCount).toInt64.toUInt64.toNat
      omega

theorem one_le_adjust_iff (hardwareConcurrency : UInt32) (threadCount : Int32) :
    1 ≤ adjust hardwareConcurrency threadCount ↔ 0 ≤ threadCount := by
  by_cases h : threadCount = autoDetectThreads
  · rw [h]
    exact iff_of_true (adjust_sentinel hardwareConcurrency) (by decide)
  · have hne : threadCount.toInt ≠ 0 := fun hzero => h (Int32.toInt_inj.1 hzero)
    unfold adjust
    rw [if_neg h, one_le_iff, Int32.le_iff_toInt_le]
    show _ ↔ 0 ≤ threadCount.toInt
    omega

theorem threadCount_configured (args : List Bytes) :
    (configured args).network.threadCount = (requested args).getD autoDetectThreads := by
  rw [configured_eq]
  rfl

/-- The first call of `run` starts with a positive thread count, whatever the hardware, exactly when
the command line does not ask for a negative one. -/
theorem runs_iff {argc : Nat} {argv : Nat → Bytes} {config : Configuration} {err : Bytes}
    (h : fromCli argc argv = .returned config err) (hardwareConcurrency : UInt32) :
    (∃ started, run hardwareConcurrency none argc argv = some started ∧ Runs started) ↔
      ∀ threadCount, requested (argvRange argc argv) = some threadCount → 0 ≤ threadCount := by
  have hrun : run hardwareConcurrency none argc argv = some (start hardwareConcurrency config) := by
    unfold run
    rw [h]
    rfl
  rw [hrun, config_of_returned h]
  simp only [Option.some.injEq, exists_eq_left']
  rw [runs_start_iff, one_le_adjust_iff, threadCount_configured]
  cases requested (argvRange argc argv) with
  | none => exact iff_of_true (by decide) (by simp)
  | some threadCount => simp

/-- Fewer executors than none. -/
theorem negative_not_runs :
    fromCli 3 (commandLine ["prapancha", "--thread_count", "-1"]) =
      .returned { network.threadCount := -1 } [] ∧
    run 8 none 3 (commandLine ["prapancha", "--thread_count", "-1"]) =
      some { threadCount := -1, hint := -1, reserved := 18446744073709551615,
             executors := .error .lengthError } ∧
    ¬ ∃ started, run 8 none 3 (commandLine ["prapancha", "--thread_count", "-1"]) = some started ∧
      Runs started := by
  have hreturned : fromCli 3 (commandLine ["prapancha", "--thread_count", "-1"]) =
      .returned { network.threadCount := -1 } [] := by decide +kernel
  have hrun : run 8 none 3 (commandLine ["prapancha", "--thread_count", "-1"]) =
      some { threadCount := -1, hint := -1, reserved := 18446744073709551615,
             executors := .error .lengthError } := by
    unfold run
    rw [hreturned]
    rfl
  refine ⟨hreturned, hrun, ?_⟩
  rintro ⟨started, hstarted, hruns⟩
  rw [hrun, Option.some.injEq] at hstarted
  rw [← hstarted] at hruns
  exact absurd hruns.threadCount (by decide)

/-- A negative count that a later one replaces, and no known hardware. -/
theorem runs_zero : ∃ started, run 0 none 5
    (commandLine ["prapancha", "--thread_count", "-4", "--thread_count", "0"]) = some started ∧
      Runs started := by
  have hreturned : fromCli 5
      (commandLine ["prapancha", "--thread_count", "-4", "--thread_count", "0"]) =
        .returned {} [] := by decide +kernel
  refine (runs_iff hreturned 0).2 ?_
  intro threadCount hrequested
  have hzero : threadCount = 0 := (Option.some.inj hrequested).symm
  rw [hzero]
  decide

end Prapancha.Executors
