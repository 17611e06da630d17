import Mathlib.Logic.Function.Basic
import Prapancha.Base.Runs
import Prapancha.Logging.LogLevel

/-!
# The asynchronous sink

`AsyncSink` with `enabled_` set: any number of threads in `write`, the worker in `process_queue`,
and the owner that destroys the sink.  A step is what one thread does between two points where
another can be seen to interfere; locked regions exclude each other through `queue_mutex_`.
-/

namespace Prapancha.Logging

structure Message where
  msg : Bytes
  level : LogLevel
  deriving DecidableEq

namespace AsyncSink

/-! ## Threads -/

inductive Thread (ι : Type)
  | writer (i : ι)
  | worker
  deriving DecidableEq

/-- Where a thread is in `write`. -/
inductive Writer
  | outside
  | called (m : Message)
  | locked (m : Message)
  /-- The message is in the queue, the mutex still held. -/
  | enqueued
  /-- The mutex is released, `notify_one` still to come. -/
  | unlocked

/-- Where the worker is in `process_queue`. -/
inductive Worker
  /-- At the head of the loop, before the lock. -/
  | looping
  /-- In `wait`, holding the mutex, before the predicate. -/
  | testing
  /-- The predicate was false; the mutex is still held. -/
  | blocking
  /-- Blocked in `wait`, the mutex released. -/
  | blocked
  /-- Woken, before it has the mutex again. -/
  | woken
  /-- The predicate was true; the mutex is held. -/
  | passed
  | popped (m : Message)
  /-- The message is written, `fetch_sub` still to come. -/
  | written
  | left

inductive Owner
  | using
  /-- In the destructor of `worker_`: the stop is requested, the worker not joined. -/
  | joining
  | joined

structure State (ι : Type) where
  mutex : Option (Thread ι)
  queue : List Message
  inFlight : UInt64
  /-- What the inner sink was given. -/
  output : List Message
  stop : Bool
  writers : ι → Writer
  worker : Worker
  owner : Owner

def init {ι : Type} : State ι := ⟨none, [], 0, [], false, fun _ => .outside, .looping, .using⟩

/-- `max_size()` of the queue: beyond it `emplace` throws, and `write` is `noexcept`. -/
def maxSize : Nat := 0x7FFFFFFFFFFFFFFF

/-! ## Steps -/

inductive Event (ι : Type)
  | calls (i : ι) (m : Message)
  | locks (i : ι)
  | enqueues (i : ι) (m : Message)
  | unlocks (i : ι)
  | notifies (i : ι)
  | acquires
  | fails
  | passes
  | blocks
  /-- A spurious wake-up. -/
  | wakes
  | leaves
  | skips
  | pops
  | writes
  | decrements
  | stops
  | joins

/-- `notify_one`: the worker is the only thread that ever waits. -/
def Worker.notify : Worker → Worker
  | .blocked => .woken
  | w => w

/-- The predicate of `wait`. -/
def State.ready {ι : Type} (s : State ι) : Prop := s.queue ≠ [] ∨ s.stop = true

variable {ι : Type} [DecidableEq ι]

inductive Step : State ι → Event ι → State ι → Prop
  | calls {s : State ι} {i : ι} (m : Message) : s.writers i = .outside →
    Step s (.calls i m) { s with writers := Function.update s.writers i (.called m) }
  | locks {s : State ι} {i : ι} {m : Message} : s.writers i = .called m → s.mutex = none →
    Step s (.locks i)
      { s with mutex := some (.writer i), writers := Function.update s.writers i (.locked m) }
  | enqueues {s : State ι} {i : ι} {m : Message} : s.writers i = .locked m →
    s.queue.length < maxSize →
    Step s (.enqueues i m)
      { s with
        queue := s.queue ++ [m], inFlight := s.inFlight + 1,
        writers := Function.update s.writers i .enqueued }
  | unlocks {s : State ι} {i : ι} : s.writers i = .enqueued →
    Step s (.unlocks i) { s with mutex := none, writers := Function.update s.writers i .unlocked }
  | notifies {s : State ι} {i : ι} : s.writers i = .unlocked →
    Step s (.notifies i)
      { s with worker := s.worker.notify, writers := Function.update s.writers i .outside }
  | acquires {s : State ι} : s.worker = .looping ∨ s.worker = .woken → s.mutex = none →
    Step s .acquires { s with mutex := some .worker, worker := .testing }
  | fails {s : State ι} : s.worker = .testing → ¬ s.ready →
    Step s .fails { s with worker := .blocking }
  | passes {s : State ι} : s.worker = .testing → s.ready →
    Step s .passes { s with worker := .passed }
  | blocks {s : State ι} : s.worker = .blocking →
    Step s .blocks { s with mutex := none, worker := .blocked }
  | wakes {s : State ι} : s.worker = .blocked → Step s .wakes { s with worker := .woken }
  | leaves {s : State ι} : s.worker = .passed → s.stop = true → s.queue = [] →
    Step s .leaves { s with mutex := none, worker := .left }
  -- neither the exit nor a message: the iteration ends and the lock goes out of scope
  | skips {s : State ι} : s.worker = .passed → s.stop = false → s.queue = [] →
    Step s .skips { s with mutex := none, worker := .looping }
  | pops {s : State ι} {m : Message} {rest : List Message} : s.worker = .passed →
    s.queue = m :: rest →
    Step s .pops { s with mutex := none, queue := rest, worker := .popped m }
  | writes {s : State ι} {m : Message} : s.worker = .popped m →
    Step s .writes { s with output := s.output ++ [m], worker := .written }
  | decrements {s : State ι} : s.worker = .written →
    Step s .decrements { s with inFlight := s.inFlight - 1, worker := .looping }
  | stops {s : State ι} : s.owner = .using →
    Step s .stops { s with stop := true, owner := .joining }
  | joins {s : State ι} : s.owner = .joining → s.worker = .left →
    Step s .joins { s with owner := .joined }

end AsyncSink

end Prapancha.Logging
