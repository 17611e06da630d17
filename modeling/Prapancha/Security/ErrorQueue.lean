import Prapancha.Security.Argon2

/-!
# Error queues

OpenSSL keeps a queue of errors for each thread.  A function of the library that fails takes the
code of its `Error` off that queue, and `Error::description` prints whatever is on it later.
-/

namespace Prapancha.Security

/-- An entry of an error queue: its code, and what is printed beside the code. -/
structure ErrorEntry where
  code : UInt64
  details : Bytes
  deriving DecidableEq

/-- The errors of a thread, the earliest first. -/
abbrev ErrorQueue := List ErrorEntry

namespace ErrorQueue

/-- `ERR_clear_error`. -/
def clearError (_queue : ErrorQueue) : ErrorQueue := []

/-- `ERR_get_error`. -/
def getError : ErrorQueue → UInt64 × ErrorQueue
  | [] => (0, [])
  | entry :: rest => (entry.code, rest)

/-- `ERR_print_errors`, for the text of an entry. -/
def printErrors (line : ErrorEntry → Bytes) (queue : ErrorQueue) : Bytes × ErrorQueue :=
  (queue.flatMap line, [])

end ErrorQueue

/-! ## Functions that fail -/

/-- An OpenSSL call: whether it succeeds, and the errors that it queues. -/
structure Call where
  ok : Bool
  queued : List ErrorEntry

/-- The calls of a function up to the first that fails, with `Error(ERR_get_error())` for it. -/
def performCalls : List Call → ErrorQueue → Except Error Unit × ErrorQueue
  | [], queue => (.ok (), queue)
  | call :: calls, queue =>
    if call.ok then performCalls calls (queue ++ call.queued)
    else
      let (code, rest) := ErrorQueue.getError (queue ++ call.queued)
      (.error ⟨code⟩, rest)

/-- A function of `Hasher`, `Crypter` or `Signer`, as it acts on the queue of its thread. -/
def perform (calls : List Call) (queue : ErrorQueue) : Except Error Unit × ErrorQueue :=
  performCalls calls queue.clearError

/-- One of the calls fails, and these errors are queued at that moment. -/
def FailsWith (calls : List Call) (queue : ErrorQueue) : Prop :=
  ∃ before failing after, calls = before ++ failing :: after ∧ (∀ call ∈ before, call.ok = true) ∧
    failing.ok = false ∧ before.flatMap Call.queued ++ failing.queued = queue

theorem performCalls_fails {failing : Call} (hfailing : failing.ok = false) (after : List Call) :
    ∀ {before : List Call} {queue : ErrorQueue}, (∀ call ∈ before, call.ok = true) →
      performCalls (before ++ failing :: after) queue =
        (.error ⟨(ErrorQueue.getError
          (queue ++ (before.flatMap Call.queued ++ failing.queued))).1⟩,
          (ErrorQueue.getError (queue ++ (before.flatMap Call.queued ++ failing.queued))).2)
  | [], queue, _ => by simp [performCalls, hfailing]
  | call :: before, queue, hbefore => by
    rw [List.forall_mem_cons] at hbefore
    rw [List.cons_append, performCalls, if_pos hbefore.1,
      performCalls_fails hfailing after hbefore.2, List.flatMap_cons]
    simp only [List.append_assoc]

/-- The error carries the code of the earliest entry, which is gone from the queue. -/
theorem perform_of_failsWith {calls : List Call} {entry : ErrorEntry} {rest : ErrorQueue}
    (h : FailsWith calls (entry :: rest)) (queue : ErrorQueue) :
    perform calls queue = (.error ⟨entry.code⟩, rest) := by
  obtain ⟨before, failing, after, rfl, hbefore, hfailing, hqueue⟩ := h
  rw [perform, performCalls_fails hfailing after hbefore, hqueue]
  rfl

/-! ## Descriptions -/

/-- `BIO_new(BIO_s_mem())`, which queues errors when it fails. -/
inductive BioNew
  | ok
  | fails (queued : List ErrorEntry)

variable (line : ErrorEntry → Bytes)

/-- `Error::description`. -/
def Error.description (error : Error) (bio : BioNew) (queue : ErrorQueue) :
    Option Bytes × ErrorQueue :=
  if error.code = 0 then (none, queue)
  else match bio with
    | .fails queued => (none, queue ++ queued)
    | .ok =>
      let (data, rest) := queue.printErrors line
      if data = [] then (none, rest) else (some data, rest)

variable {line}

@[simp] theorem Error.description_nil (error : Error) :
    error.description line .ok [] = (none, []) := by
  unfold description
  split <;> rfl

theorem Error.description_ok {error : Error} (hcode : error.code ≠ 0) (queue : ErrorQueue) :
    error.description line .ok queue =
      (if queue.flatMap line = [] then none else some (queue.flatMap line), []) := by
  rw [description, if_neg hcode]
  show (if queue.flatMap line = [] then _ else _) = _
  split <;> rfl

/-! ## Hashes on the queue -/

/-- The calls of a password hash in their order. -/
def KdfCall.order : List KdfCall := [.fetch, .ctxNew, .randBytes, .derive]

/-- The outcomes of the calls of a password hash, as its thread sees them: the code of a call that
fails is the earliest that was queued up to it. -/
def KdfCalls.onQueue (calls : KdfCall → Call) (random : Nat → UInt8) : KdfCalls where
  fails call := !(calls call).ok
  errorCode call := (ErrorQueue.getError
    ((KdfCall.order.takeWhile (· ≠ call) ++ [call]).flatMap fun c => (calls c).queued)).1
  random := random

/-- The errors of a password hash are the ones that its calls leave on the queue. -/
theorem Hasher.hashArgon2id_onQueue (K : Kdf) (calls : KdfCall → Call) (random : Nat → UInt8)
    (data : Bytes) (queue : ErrorQueue) :
    (Hasher.hashArgon2id K (.onQueue calls random) .current data).map (fun _ => ()) =
      (perform (KdfCall.order.map calls) queue).1 := by
  have hcheck (call : KdfCall) : (KdfCalls.onQueue calls random).check call =
      if (calls call).ok then .ok ()
      else .error ⟨(KdfCalls.onQueue calls random).errorCode call⟩ := by
    simp [KdfCalls.check, KdfCalls.onQueue]
  obtain ⟨salt, hsalt⟩ : ∃ salt, (KdfCalls.onQueue calls random).randBytes 16
      (Crypter.castInt 16) =
        (KdfCalls.onQueue calls random).check .randBytes >>= fun _ => .ok salt :=
    ⟨_, rfl⟩
  have hderive (length : Nat) : (KdfCalls.onQueue calls random).derive K
      (constructAlgorithmParams data 0x13 65536 3 4 salt) length =
        (KdfCalls.onQueue calls random).check .derive >>= fun _ =>
          .ok (K.derive data 0x13 65536 3 4 salt length) :=
    rfl
  simp only [hashArgon2id, Argon2idConstants.current, hsalt, hcheck, perform, KdfCall.order,
    List.map_cons, List.map_nil, performCalls]
  -- The function stops where `performCalls` does, with the code of the same entry.
  cases hfetch : (calls .fetch).ok
  · simp [Except.map, KdfCalls.onQueue, KdfCall.order, ErrorQueue.clearError]
  cases hctx : (calls .ctxNew).ok
  · simp [Except.map, KdfCalls.onQueue, KdfCall.order, ErrorQueue.clearError]
  cases hrand : (calls .randBytes).ok
  · simp [Except.map, KdfCalls.onQueue, KdfCall.order, ErrorQueue.clearError]
  simp only [if_true, bind_ok, hderive, hcheck]
  cases hkey : (calls .derive).ok
  · simp [Except.map, KdfCalls.onQueue, KdfCall.order, ErrorQueue.clearError]
  · simp [Except.map]

end Prapancha.Security
