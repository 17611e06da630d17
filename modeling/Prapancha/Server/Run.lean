import Mathlib.Algebra.Group.Int.Defs
import Prapancha.Server.Configuration

/-!
# Starting the executors

The thread count on its way through `run`: adjusted to the hardware if it is the sentinel, then a
hint for the `io_context`, the size that the vector of executors reserves and the bound of the loop
that starts them.
-/

namespace Prapancha

/-- `configuration::initialize`: the active configuration afterwards. -/
def Configuration.initialize (active : Option Configuration) (config : Configuration) :
    Configuration :=
  active.getD config

namespace Executors

/-- The adjustment of `thread_count`, with `std::max<int>` over what `hardware_concurrency`
gives. -/
def adjust (hardwareConcurrency : UInt32) (threadCount : Int32) : Int32 :=
  if threadCount = Configuration.autoDetectThreads then max 1 hardwareConcurrency.toInt32
  else threadCount

/-- `std::vector<std::thread>::max_size()`: pointers of eight bytes, and a signed difference. -/
def maxSize : UInt64 := 1152921504606846975

/-- `executors.reserve(thread_count)`, which converts its argument to an unsigned size. -/
def reserve (size : UInt64) : Except Exn Unit :=
  if maxSize < size then .error .lengthError else .ok ()

/-- A step of the loop does not overflow its index. -/
theorem toInt_succ {i threadCount : Int32} (h : i < threadCount) :
    (i + 1).toInt = i.toInt + 1 := by
  have hlt := Int32.lt_iff_toInt_lt.1 h
  have hmax := threadCount.toInt_lt
  have hmin := i.le_toInt
  rw [Int32.toInt_add]
  exact Int.bmod_eq_of_le (by show _ ≤ i.toInt + 1; omega) (by show i.toInt + 1 < _; omega)

/-- `for (auto i = 0; i < thread_count; ++i)`, from an index on: one more executor in each round. -/
def emplace (threadCount i : Int32) (executors : Nat) : Nat :=
  if h : i < threadCount then emplace threadCount (i + 1) (executors + 1) else executors
termination_by (threadCount.toInt - i.toInt).toNat
decreasing_by
  have hlt := Int32.lt_iff_toInt_lt.1 h
  have hsucc := toInt_succ h
  omega

/-- What `run` does with its thread count. -/
structure Started where
  threadCount : Int32
  /-- The concurrency hint of the `io_context`. -/
  hint : Int32
  reserved : UInt64
  /-- How many executors run, unless reserving throws. -/
  executors : Except Exn Nat
  deriving DecidableEq

def start (hardwareConcurrency : UInt32) (config : Configuration) : Started :=
  let threadCount := adjust hardwareConcurrency config.network.threadCount
  let size := threadCount.toInt64.toUInt64
  { threadCount
    hint := threadCount
    reserved := size
    executors := do
      reserve size
      return emplace threadCount 0 0 }

/-- `run`, up to the executors; nothing is started when `from_cli` does not return. -/
def run (hardwareConcurrency : UInt32) (active : Option Configuration) (argc : Nat)
    (argv : Nat → Bytes) : Option Started :=
  match Configuration.fromCli argc argv with
  | .returned config _ =>
    let config := Configuration.initialize active config
    some (start hardwareConcurrency config)
  | .exited _ _ => none
  | .threw _ => none

/-! ## The thread count in its three uses -/

theorem adjust_sentinel (hardwareConcurrency : UInt32) :
    1 ≤ adjust hardwareConcurrency Configuration.autoDetectThreads := by
  unfold adjust
  rw [if_pos rfl]
  show (1 : Int32) ≤ if 1 ≤ hardwareConcurrency.toInt32 then _ else _
  split
  · next h => exact h
  · exact Int32.le_refl 1

theorem toNat_size (threadCount : Int32) : (threadCount.toInt64.toUInt64.toNat : Int) =
    if 0 ≤ threadCount.toInt then threadCount.toInt else threadCount.toInt + 2 ^ 64 := by
  have hsize : threadCount.toInt = threadCount.toInt64.toUInt64.toBitVec.toInt :=
    (Int32.toInt_toInt64 threadCount).symm
  have hlt := threadCount.toInt64.toUInt64.toNat_lt
  rw [BitVec.toInt_eq_toNat_cond, UInt64.toNat_toBitVec] at hsize
  split at hsize <;> split <;> omega

theorem reserve_size (threadCount : Int32) : reserve threadCount.toInt64.toUInt64 =
    if 0 ≤ threadCount.toInt then .ok () else .error .lengthError := by
  have hsize := toNat_size threadCount
  have hmin := threadCount.le_toInt
  have hmax := threadCount.toInt_lt
  have hmaxSize : maxSize.toNat = 1152921504606846975 := rfl
  unfold reserve
  split
  · next h =>
    rw [UInt64.lt_iff_toNat_lt] at h
    split at hsize
    · omega
    · next hneg => rw [if_neg hneg]
  · next h =>
    rw [UInt64.lt_iff_toNat_lt] at h
    split at hsize
    · next hpos => rw [if_pos hpos]
    · omega

theorem emplace_eq (threadCount i : Int32) (executors : Nat) :
    emplace threadCount i executors = executors + (threadCount.toInt - i.toInt).toNat := by
  fun_induction emplace threadCount i executors with
  | case1 i executors h ih =>
    have hlt := Int32.lt_iff_toInt_lt.1 h
    have hsucc := toInt_succ h
    omega
  | case2 i executors h =>
    have hle := Int32.lt_iff_toInt_lt.not.1 h
    omega

end Executors

end Prapancha
