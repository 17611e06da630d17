import Mathlib.Logic.Function.Basic
import Prapancha.Base.Runs
import Prapancha.Server.BeastAdapter
import Prapancha.Server.Configuration
import Prapancha.Server.Effects

/-!
# The running server

`run` once the listener has been started: the main thread, the executors, the listener, the sessions
and the handler of signals.  A step is what one thread does between two points where another can be
seen to interfere; a handler that touches nothing but the log and the `io_context` is one step.
-/

namespace Prapancha

open Fs Http Security Json Logging Effects

/-- A connection: what reading a request from it gives, `none` being an error, and the surroundings
of its request. -/
structure Connection (H : HashAlgorithm) where
  incoming : Option BeastRequest
  env : Environment H
  describe : Describe

namespace Serving

variable {H : HashAlgorithm}

/-! ## Threads -/

/-- A request on its way through `Session::on_read`. -/
structure Handling (H : HashAlgorithm) where
  executor : Nat
  /-- The responses handed to `async_write`. -/
  outgoing : List Response
  /-- The user whose file is open in `save`. -/
  file : Option (UserIdentity H)
  rest : Effects H

inductive Session (H : HashAlgorithm)
  /-- Not accepted yet. -/
  | absent
  | reading
  | handling (h : Handling H)
  /-- `on_read` has returned, and `async_write` is pending. -/
  | responding (outgoing : List Response)
  /-- No operation holds the session any more; `shut`: its sending side was shut down. -/
  | closed (outgoing : List Response) (shut : Bool)

/-- `signals.async_wait`. -/
inductive SignalWait
  | pending
  /-- The `io_context` is stopped, and the promise is still to be set. -/
  | handling (executor number : Nat)
  | done
  deriving DecidableEq

/-- The main thread in `run`. -/
inductive Main
  | starting
  /-- In `shutdown_future.get()`. -/
  | waiting
  /-- Joining the executors from the `k`-th on. -/
  | joining (k : Nat)
  | returned
  deriving DecidableEq

structure Server (H : HashAlgorithm) where
  store : Directory
  logged : List (LogLevel × Bytes)
  /-- `async_accept` is pending. -/
  accepting : Bool
  accepted : Nat
  sessions : Nat → Session H
  signals : SignalWait
  /-- The `io_context` is stopped. -/
  stopped : Bool
  /-- The static variable of the handler of signals. -/
  signaled : Bool
  /-- The value of `shutdown_promised`. -/
  promised : Option Nat
  /-- The executors started so far, and whether they are still in `io_context.run()`. -/
  executors : List Bool
  main : Main

/-- The state before the first executor is started. -/
def start (config : Configuration) (n : Nat) (d : Directory) (signaled : Bool) : Server H where
  store := d
  logged := [(.info, text "प्रपञ्च — Prapancha: Starting on http://" ++ config.network.host ++
    text ":" ++ decimal config.network.port.toNat ++ text " (" ++ decimal n ++
    text " executors).")]
  accepting := true
  accepted := 0
  sessions _ := .absent
  signals := .pending
  stopped := false
  signaled := signaled
  promised := none
  executors := []
  main := .starting

/-- The executor is between two handlers. -/
def Server.Idle (s : Server H) (k : Nat) : Prop :=
  s.executors[k]? = some true ∧ (∀ i h, s.sessions i = .handling h → h.executor ≠ k) ∧
    ∀ number, s.signals ≠ .handling k number

/-- The executor can take the next handler. -/
def Server.Available (s : Server H) (k : Nat) : Prop := s.Idle k ∧ s.stopped = false

/-! ## Handlers -/

/-- The line about an accepted connection: its address and port, or the text of an error. -/
def connectionLine : Except Bytes (Bytes × Nat) → LogLevel × Bytes
  | .ok (address, port) =>
    (.info, text "Connection from " ++ address ++ text ":" ++ decimal port)
  | .error message =>
    (.warn, text "प्रपञ्च — Prapancha: Connection accepted but endpoint unreachable: " ++ message)

def acceptFailedLine (value : Int) (message : Bytes) : LogLevel × Bytes :=
  (.error, text "प्रपञ्च — Prapancha: Accept failed [" ++ printInt value ++ text "]: " ++ message)

def signalLine (number : Nat) (what : Bytes) : LogLevel × Bytes :=
  (.info, text "प्रपञ्च — Prapancha: Signal " ++ decimal number ++ text " " ++ what ++ text ".")

variable (J : Engine)

/-- The start of `Session::on_read` on an executor: the session afterwards and the lines logged. -/
def onRead (c : Connection H) (k : Nat) : Session H × List (LogLevel × Bytes) :=
  match c.incoming with
  | none => (.closed [] false, [])
  | some req =>
    if req.version ≠ 11 then
      (.closed [] false, [(.info, text "प्रपञ्च — Prapancha: Request version " ++
        decimal req.version ++ text " not supported.")])
    else
      (.handling
        { executor := k, outgoing := [], file := none,
          rest := ofRequest J c.env c.describe (fromBeast req) }, [])

/-! ## Steps -/

inductive Event
  | accepts (k : Nat) (remote : Except Bytes (Bytes × Nat))
  | failsAccept (k : Nat) (value : Int) (message : Bytes)
  | abortsAccept (k : Nat)
  | reads (i k : Nat)
  | logs (i : Nat)
  | opens (i : Nat)
  | refused (i : Nat)
  | writes (i : Nat)
  | sends (i : Nat)
  | returns (i : Nat)
  | responds (i k : Nat) (ok : Bool)
  | signals (k number : Nat)
  | promises
  | launches
  | launched
  | exits (k : Nat)
  | acknowledges
  | joins
  | stops

def Server.setSession (s : Server H) (i : Nat) (session : Session H) : Server H :=
  { s with sessions := Function.update s.sessions i session }

variable (conns : Nat → Connection H) (n : Nat)

/-- A step of the server with `n` executors, its `i`-th connection being `conns i`. -/
inductive Step : Server H → Event → Server H → Prop
  | accepts {s : Server H} {k : Nat} (remote : Except Bytes (Bytes × Nat)) :
    s.accepting = true → s.Available k →
    Step s (.accepts k remote)
      { s.setSession s.accepted .reading with
        accepted := s.accepted + 1, logged := s.logged ++ [connectionLine remote] }
  -- `do_accept` again
  | failsAccept {s : Server H} {k : Nat} (value : Int) (message : Bytes) :
    s.accepting = true → s.Available k →
    Step s (.failsAccept k value message)
      { s with logged := s.logged ++ [acceptFailedLine value message] }
  -- `operation_aborted`: the listener gives up
  | abortsAccept {s : Server H} {k : Nat} : s.accepting = true → s.Available k →
    Step s (.abortsAccept k) { s with accepting := false }
  | reads {s : Server H} {i k : Nat} : s.sessions i = .reading → s.Available k →
    Step s (.reads i k)
      { s.setSession i (onRead J (conns i) k).1 with
        logged := s.logged ++ (onRead J (conns i) k).2 }
  | logs {s : Server H} {i : Nat} {h : Handling H} {level : LogLevel} {msg : Bytes}
      {rest : Effects H} :
    s.sessions i = .handling h → h.file = none → h.rest = .log level msg :: rest →
    Step s (.logs i)
      { s.setSession i (.handling { h with rest }) with logged := s.logged ++ [(level, msg)] }
  | opens {s : Server H} {i : Nat} {h : Handling H} {u : UserIdentity H} {rest : Effects H}
      {d : Directory} :
    s.sessions i = .handling h → h.file = none → h.rest = .save u :: rest →
    (conns i).env.io ≠ .openFails → s.store.openTrunc (FilePersistence.getPath u.id) = some d →
    Step s (.opens i) { s.setSession i (.handling { h with file := some u, rest }) with store := d }
  -- writing to a stream that is not open does nothing
  | refused {s : Server H} {i : Nat} {h : Handling H} {u : UserIdentity H} {rest : Effects H} :
    s.sessions i = .handling h → h.file = none → h.rest = .save u :: rest →
    (conns i).env.io = .openFails ∨
      s.store.openTrunc (FilePersistence.getPath u.id) = none →
    Step s (.refused i) (s.setSession i (.handling { h with rest }))
  | writes {s : Server H} {i : Nat} {h : Handling H} {u : UserIdentity H} :
    s.sessions i = .handling h → h.file = some u →
    Step s (.writes i)
      { s.setSession i (.handling { h with file := none }) with
        store := s.store.write (FilePersistence.getPath u.id) 0
          (FilePersistence.written (conns i).env.io (JsonCodec.encodeUserIdentity J H u)) }
  | sends {s : Server H} {i : Nat} {h : Handling H} {response : Response} {rest : Effects H} :
    s.sessions i = .handling h → h.file = none → h.rest = .send response :: rest →
    Step s (.sends i)
      (s.setSession i (.handling { h with outgoing := h.outgoing ++ [response], rest }))
  -- a session that nothing was written to is dropped
  | returns {s : Server H} {i : Nat} {h : Handling H} :
    s.sessions i = .handling h → h.file = none → h.rest = [] →
    Step s (.returns i)
      (s.setSession i (if h.outgoing = [] then .closed [] false else .responding h.outgoing))
  | responds {s : Server H} {i k : Nat} {outgoing : List Response} (ok : Bool) :
    s.sessions i = .responding outgoing → s.Available k →
    Step s (.responds i k ok) (s.setSession i (.closed outgoing ok))
  | signals {s : Server H} {k : Nat} (number : Nat) : s.signals = .pending → s.Available k →
    Step s (.signals k number)
      { s with
        logged := s.logged ++ [signalLine number (text "received")]
        stopped := true, signals := .handling k number }
  | promises {s : Server H} {k number : Nat} : s.signals = .handling k number →
    Step s .promises
      { s with
        signals := .done, signaled := true
        promised := if s.signaled then s.promised else some number }
  | launches {s : Server H} : s.main = .starting → s.executors.length < n →
    Step s .launches { s with executors := s.executors ++ [true] }
  | launched {s : Server H} : s.main = .starting → ¬ s.executors.length < n →
    Step s .launched { s with main := .waiting }
  -- the pending wait for a signal keeps the `io_context` from running out of work before
  | exits {s : Server H} {k : Nat} : s.Idle k → s.stopped = true →
    Step s (.exits k) { s with executors := s.executors.set k false }
  | acknowledges {s : Server H} {number : Nat} : s.main = .waiting → s.promised = some number →
    Step s .acknowledges
      { s with
        logged := s.logged ++ [signalLine number (text "acknowledged")]
        main := .joining 0 }
  | joins {s : Server H} {k : Nat} : s.main = .joining k → s.executors[k]? = some false →
    Step s .joins { s with main := .joining (k + 1) }
  | stops {s : Server H} {k : Nat} : s.main = .joining k → s.executors.length ≤ k →
    Step s .stops
      { s with
        logged := s.logged ++ [(.info, text "प्रपञ्च — Prapancha: Stopping.")], main := .returned }

end Serving

end Prapancha
