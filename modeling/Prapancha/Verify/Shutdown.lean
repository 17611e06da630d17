import Mathlib.Algebra.Order.BigOperators.Group.Finset
import Prapancha.Verify.Linearization

/-!
# Shutting down

After the first signal no handler starts, those that have started finish, the executors end, and
`run` returns; it does so only then.  The variable that guards the promise outlives a call of `run`,
so a second call never returns.
-/

namespace Prapancha

open Fs Http Security Json Effects

namespace Serving

variable {H : HashAlgorithm} {J : Engine} {conns : Nat → Connection H} {n : Nat}

/-! ## Executors -/

/-- The executor that the handler of the session runs on. -/
def Session.executor : Session H → Option Nat
  | .handling h => some h.executor
  | _ => none

/-- Every handler runs on an executor of its own that has not ended. -/
structure Busy (executors : List Bool) (sessions : Nat → Session H) (signals : SignalWait) :
    Prop where
  running : ∀ i k, (sessions i).executor = some k → executors[k]? = some true
  apart : ∀ i j k, (sessions i).executor = some k → (sessions j).executor = some k → i = j
  signal : ∀ k number, signals = .handling k number →
    executors[k]? = some true ∧ ∀ i, (sessions i).executor ≠ some k

namespace Busy

variable {executors : List Bool} {sessions : Nat → Session H} {signals : SignalWait}

/-- A session whose handler stays on its executor, or leaves it. -/
theorem update (hb : Busy executors sessions signals) {i : Nat} {session : Session H}
    (hexecutor : session.executor = none ∨ session.executor = (sessions i).executor) :
    Busy executors (Function.update sessions i session) signals := by
  have hle : ∀ j k, (Function.update sessions i session j).executor = some k →
      (sessions j).executor = some k := by
    intro j k hk
    by_cases hj : j = i
    · subst hj
      rw [Function.update_self] at hk
      rcases hexecutor with hnone | hsame
      · rw [hnone] at hk
        cases hk
      · rwa [← hsame]
    · rwa [Function.update_of_ne hj] at hk
  refine ⟨fun j k hk => hb.running j k (hle j k hk),
    fun j j' k hk hk' => hb.apart j j' k (hle j k hk) (hle j' k hk'), fun k number hsignals => ?_⟩
  obtain ⟨hrunning, hne⟩ := hb.signal k number hsignals
  exact ⟨hrunning, fun j hk => hne j (hle j k hk)⟩

end Busy

theorem Server.Idle.executor_ne {s : Server H} {k : Nat} (h : s.Idle k) (i : Nat) :
    (s.sessions i).executor ≠ some k := by
  intro hk
  cases hsession : s.sessions i with
  | handling h' =>
    rw [hsession] at hk
    exact h.2.1 i h' hsession (Option.some.inj hk)
  | _ =>
    rw [hsession] at hk
    cases hk

/-- A session whose handler starts on an idle executor. -/
theorem Busy.enter {s : Server H} (hb : Busy s.executors s.sessions s.signals) {i k : Nat}
    {session : Session H} (hidle : s.Idle k)
    (hexecutor : session.executor = none ∨ session.executor = some k) :
    Busy s.executors (Function.update s.sessions i session) s.signals := by
  rcases hexecutor with hnone | hsome
  · exact hb.update (.inl hnone)
  · have hcases : ∀ j k', (Function.update s.sessions i session j).executor = some k' →
        (j = i ∧ k' = k) ∨ (j ≠ i ∧ (s.sessions j).executor = some k') := by
      intro j k' hk'
      by_cases hj : j = i
      · subst hj
        rw [Function.update_self, hsome, Option.some.injEq] at hk'
        exact .inl ⟨rfl, hk'.symm⟩
      · rw [Function.update_of_ne hj] at hk'
        exact .inr ⟨hj, hk'⟩
    refine ⟨fun j k' hk' => ?_, fun j j' k' hj hj' => ?_, fun k' number hsignals => ?_⟩
    · rcases hcases j k' hk' with ⟨-, rfl⟩ | ⟨-, hk'⟩
      · exact hidle.1
      · exact hb.running j k' hk'
    · rcases hcases j k' hj with ⟨rfl, rfl⟩ | ⟨-, hk⟩
      · rcases hcases j' k' hj' with ⟨rfl, -⟩ | ⟨-, hk⟩
        · rfl
        · exact (hidle.executor_ne j' hk).elim
      · rcases hcases j' k' hj' with ⟨rfl, rfl⟩ | ⟨-, hk'⟩
        · exact (hidle.executor_ne j hk).elim
        · exact hb.apart j j' k' hk hk'
    · refine ⟨(hb.signal k' number hsignals).1, fun j hj => ?_⟩
      rcases hcases j k' hj with ⟨-, rfl⟩ | ⟨-, hk⟩
      · exact hidle.2.2 number hsignals
      · exact (hb.signal k' number hsignals).2 j hk

theorem executor_onRead (c : Connection H) (k : Nat) :
    (onRead J c k).1.executor = none ∨ (onRead J c k).1.executor = some k := by
  rcases onRead_cases (J := J) c k with ⟨-, hread⟩ | ⟨_, -, hread⟩
  · exact .inl (by rw [hread]; rfl)
  · exact .inr (by rw [hread]; rfl)

theorem Busy.step {s s' : Server H} {e : Event} (hb : Busy s.executors s.sessions s.signals)
    (hstep : Step J conns n s e s') :
    Busy s'.executors s'.sessions s'.signals := by
  cases hstep with
  | accepts remote haccepting havailable => exact hb.update (.inl rfl)
  | @reads i k hreading havailable =>
    exact hb.enter havailable.1 (executor_onRead (conns i) k)
  | @logs i h level msg rest hhandling hfile hrest =>
    exact hb.update (.inr (by rw [hhandling]; rfl))
  | @opens i h u rest d hhandling hfile hrest hio hopen =>
    exact hb.update (.inr (by rw [hhandling]; rfl))
  | @refused i h u rest hhandling hfile hrest hrefused =>
    exact hb.update (.inr (by rw [hhandling]; rfl))
  | @writes i h u hhandling hfile => exact hb.update (.inr (by rw [hhandling]; rfl))
  | @sends i h response rest hhandling hfile hrest =>
    exact hb.update (.inr (by rw [hhandling]; rfl))
  | @returns i h hhandling hfile hrest => exact hb.update (.inl (by split <;> rfl))
  | responds ok hresponding havailable => exact hb.update (.inl rfl)
  | @signals k number hpending havailable =>
    refine ⟨hb.running, hb.apart, fun k' number' hsignals => ?_⟩
    obtain ⟨rfl, -⟩ := SignalWait.handling.inj hsignals
    exact ⟨havailable.1.1, havailable.1.executor_ne⟩
  | promises hsignals => exact ⟨hb.running, hb.apart, fun _ _ hsignals' => nomatch hsignals'⟩
  | launches hmain hlt =>
    have hleft : ∀ {k : Nat}, s.executors[k]? = some true →
        (s.executors ++ [true])[k]? = some true := by
      intro k hk
      rw [List.getElem?_append_left (List.getElem?_eq_some_iff.1 hk).1, hk]
    exact ⟨fun i k hk => hleft (hb.running i k hk), hb.apart,
      fun k number hsignals => (hb.signal k number hsignals).imp_left hleft⟩
  | @exits k hidle hstopped =>
    have hset : ∀ {k' : Nat}, k' ≠ k → s.executors[k']? = some true →
        (s.executors.set k false)[k']? = some true := by
      intro k' hne hk'
      rw [List.getElem?_set_ne hne.symm, hk']
    refine ⟨fun i k' hk' => hset ?_ (hb.running i k' hk'), hb.apart, fun k' number hsignals => ?_⟩
    · rintro rfl
      exact hidle.executor_ne i hk'
    · refine (hb.signal k' number hsignals).imp_left (hset ?_)
      rintro rfl
      exact hidle.2.2 number hsignals
  | _ => exact hb

/-- As many handlers as there are executors run at once at most. -/
theorem Busy.length_le {s : Server H} (hb : Busy s.executors s.sessions s.signals) {is : List Nat}
    (hnodup : is.Nodup) (hhandling : ∀ i ∈ is, ∃ h, s.sessions i = .handling h) :
    is.length ≤ s.executors.length := by
  have hexecutor : ∀ i ∈ is, ∃ k, (s.sessions i).executor = some k ∧ k < s.executors.length := by
    intro i hi
    obtain ⟨h, hh⟩ := hhandling i hi
    have hk : (s.sessions i).executor = some h.executor := by rw [hh]; rfl
    exact ⟨h.executor, hk, (List.getElem?_eq_some_iff.1 (hb.running i _ hk)).1⟩
  have hsub : is.toFinset.card ≤ (Finset.range s.executors.length).card := by
    refine Finset.card_le_card_of_injOn (fun i => (s.sessions i).executor.getD 0) ?_ ?_
    · intro i hi
      obtain ⟨k, hk, hlt⟩ := hexecutor i (List.mem_toFinset.1 hi)
      simpa [hk] using hlt
    · intro i hi j hj hij
      obtain ⟨k, hk, -⟩ := hexecutor i (List.mem_toFinset.1 hi)
      obtain ⟨k', hk', -⟩ := hexecutor j (List.mem_toFinset.1 hj)
      have hkk' : k = k' := by simpa [hk, hk'] using hij
      exact hb.apart i j k hk (hkk' ▸ hk')
  rwa [List.toFinset_card_of_nodup hnodup, Finset.card_range] at hsub

/-! ## The promise -/

/-- The state of the handler of signals, in a call of `run` that found `signaled` as `before`. -/
structure Signalled (before : Bool) (signals : SignalWait) (stopped signaled : Bool)
    (promised : Option Nat) : Prop where
  stopped_iff : stopped = true ↔ signals ≠ .pending
  signaled_of_before : before = true → signaled = true
  signaled_iff : before = false → (signaled = true ↔ signals = .done)
  promised_of_before : before = true → promised = none
  promised_iff : before = false → (promised.isSome = true ↔ signals = .done)

theorem Signalled.step {before : Bool} {s s' : Server H} {e : Event}
    (hp : Signalled before s.signals s.stopped s.signaled s.promised)
    (hstep : Step J conns n s e s') :
    Signalled before s'.signals s'.stopped s'.signaled s'.promised := by
  cases hstep with
  | @signals k number hpending havailable =>
    refine ⟨iff_of_true rfl nofun, hp.signaled_of_before, fun hbefore => ?_,
      hp.promised_of_before, fun hbefore => ?_⟩
    · rw [hp.signaled_iff hbefore, hpending]
      exact iff_of_false nofun nofun
    · rw [hp.promised_iff hbefore, hpending]
      exact iff_of_false nofun nofun
  | @promises k number hsignals =>
    refine ⟨iff_of_true ?_ nofun, fun _ => rfl, fun _ => iff_of_true rfl rfl, fun hbefore => ?_,
      fun hbefore => iff_of_true ?_ rfl⟩
    · exact hp.stopped_iff.2 (by rw [hsignals]; exact nofun)
    · show (if s.signaled = true then s.promised else some number) = none
      rw [if_pos (hp.signaled_of_before hbefore), hp.promised_of_before hbefore]
    · have hnot : ¬ s.signaled = true := by
        rw [hp.signaled_iff hbefore, hsignals]
        exact nofun
      show (if s.signaled = true then s.promised else some number).isSome = true
      rw [if_neg hnot]
      rfl
  | _ => exact hp

/-! ## The main thread -/

/-- How far the main thread can have come. -/
def Settled (n : Nat) (main : Main) (executors : List Bool) (promised : Option Nat) : Prop :=
  executors.length ≤ n ∧
    match main with
    | .starting => True
    | .waiting => executors.length = n
    | .joining k => executors.length = n ∧ promised.isSome = true ∧ k ≤ n ∧
      ∀ j < k, executors[j]? = some false
    | .returned => executors.length = n ∧ promised.isSome = true ∧
      ∀ j < n, executors[j]? = some false

theorem Settled.step {s s' : Server H} {e : Event} (hm : Settled n s.main s.executors s.promised)
    (hstep : Step J conns n s e s') : Settled n s'.main s'.executors s'.promised := by
  unfold Settled at hm ⊢
  cases hstep with
  | @promises k number hsignals =>
    have hkept : s.promised.isSome = true →
        (if s.signaled = true then s.promised else some number).isSome = true := by
      intro hsome
      split
      · exact hsome
      · rfl
    cases hmain : s.main with
    | starting => exact ⟨hm.1, trivial⟩
    | waiting => simpa only [hmain] using hm
    | joining k =>
      simp only [hmain] at hm ⊢
      exact ⟨hm.1, hm.2.1, hkept hm.2.2.1, hm.2.2.2⟩
    | returned =>
      simp only [hmain] at hm ⊢
      exact ⟨hm.1, hm.2.1, hkept hm.2.2.1, hm.2.2.2⟩
  | launches hmain hlt =>
    simp only [hmain, List.length_append, List.length_singleton]
    exact ⟨hlt, trivial⟩
  | launched hmain hlt =>
    exact ⟨hm.1, Nat.le_antisymm hm.1 (Nat.not_lt.1 hlt)⟩
  | @exits k hidle hstopped =>
    have hset : ∀ {j : Nat}, s.executors[j]? = some false →
        (s.executors.set k false)[j]? = some false := by
      intro j hj
      by_cases hjk : k = j
      · subst hjk
        rw [List.getElem?_set_self (List.getElem?_eq_some_iff.1 hj).1]
      · rw [List.getElem?_set_ne hjk, hj]
    rw [List.length_set]
    cases hmain : s.main with
    | starting => exact ⟨hm.1, trivial⟩
    | waiting => simpa only [hmain] using hm
    | joining k =>
      simp only [hmain] at hm ⊢
      exact ⟨hm.1, hm.2.1, hm.2.2.1, hm.2.2.2.1, fun j hj => hset (hm.2.2.2.2 j hj)⟩
    | returned =>
      simp only [hmain] at hm ⊢
      exact ⟨hm.1, hm.2.1, hm.2.2.1, fun j hj => hset (hm.2.2.2 j hj)⟩
  | acknowledges hmain hpromised =>
    simp only [hmain] at hm
    exact ⟨hm.1, hm.2, by rw [hpromised]; rfl, Nat.zero_le n,
      fun j hj => (Nat.not_lt_zero j hj).elim⟩
  | @joins k hmain hexited =>
    simp only [hmain] at hm
    obtain ⟨hsize, hlength, hpromised, -, hbelow⟩ := hm
    have hlt := (List.getElem?_eq_some_iff.1 hexited).1
    refine ⟨hsize, hlength, hpromised, by omega, fun j hj => ?_⟩
    rcases Nat.lt_succ_iff_lt_or_eq.1 hj with hj | rfl
    · exact hbelow j hj
    · exact hexited
  | @stops k hmain hle =>
    simp only [hmain] at hm
    obtain ⟨hsize, hlength, hpromised, -, hbelow⟩ := hm
    exact ⟨hsize, hlength, hpromised, fun j hj => hbelow j (by omega)⟩
  | _ => exact hm

/-- What holds at any time in a call of `run` that found `signaled` as `before`. -/
structure Orderly (J : Engine) (conns : Nat → Connection H) (n : Nat) (before : Bool)
    (s : Server H) : Prop where
  sound : Sound J conns s
  busy : Busy s.executors s.sessions s.signals
  signalled : Signalled before s.signals s.stopped s.signaled s.promised
  settled : Settled n s.main s.executors s.promised

theorem Orderly.step {before : Bool} {s s' : Server H} {e : Event}
    (ho : Orderly J conns n before s) (hstep : Step J conns n s e s') :
    Orderly J conns n before s' :=
  ⟨ho.sound.step hstep, ho.busy.step hstep, ho.signalled.step hstep, ho.settled.step hstep⟩

theorem Orderly.run {before : Bool} {s s' : Server H} {es : List Event}
    (ho : Orderly J conns n before s) (h : Run (Step J conns n) s es s') :
    Orderly J conns n before s' :=
  h.invariant ho fun _ _ _ ho hstep => ho.step hstep

theorem orderly_start (J : Engine) (conns : Nat → Connection H) (n : Nat) (config : Configuration)
    (d : Directory) (before : Bool) : Orderly J conns n before (start config n d before) where
  sound := ⟨fun _ => .absent, fun _ _ => rfl⟩
  busy := ⟨nofun, nofun, nofun⟩
  signalled := ⟨iff_of_false nofun fun h => h rfl, fun h => h,
    fun h => iff_of_false (h ▸ nofun) nofun, fun _ => rfl, fun _ => iff_of_false nofun nofun⟩
  settled := ⟨Nat.zero_le n, trivial⟩

/-! ## Runs after a signal -/

/-- How many steps the handler of the session can still take. -/
def Session.remaining : Session H → Nat
  | .handling h => 2 * h.rest.length + (if h.file.isSome then 1 else 0) + 1
  | _ => 0

def SignalWait.remaining : SignalWait → Nat
  | .handling _ _ => 1
  | _ => 0

def Main.remaining (n : Nat) : Main → Nat
  | .starting => n + 3
  | .waiting => n + 2
  | .joining k => n + 1 - k
  | .returned => 0

/-- A bound of the steps that a stopped server can still take. -/
def Server.remaining (n : Nat) (s : Server H) : Nat :=
  ∑ i ∈ Finset.range s.accepted, (s.sessions i).remaining + s.signals.remaining +
    s.executors.count true + 2 * (n - s.executors.length) + s.main.remaining n

theorem Sound.sum_remaining_lt {s : Server H} (hs : Sound J conns s) {i : Nat}
    {session : Session H} (hlt : session.remaining < (s.sessions i).remaining) :
    ∑ j ∈ Finset.range s.accepted, (Function.update s.sessions i session j).remaining <
      ∑ j ∈ Finset.range s.accepted, (s.sessions j).remaining := by
  have hi : i < s.accepted := by
    by_contra hle
    rw [hs.fresh i (Nat.not_lt.1 hle)] at hlt
    exact Nat.not_lt_zero _ hlt
  refine Finset.sum_lt_sum (fun j _ => ?_) ⟨i, Finset.mem_range.2 hi, ?_⟩
  · by_cases hj : j = i
    · subst hj
      rw [Function.update_self]
      exact Nat.le_of_lt hlt
    · rw [Function.update_of_ne hj]
  · rwa [Function.update_self]

theorem count_set_false {executors : List Bool} {k : Nat} (h : executors[k]? = some true) :
    (executors.set k false).count true + 1 = executors.count true := by
  obtain ⟨hlt, hget⟩ := List.getElem?_eq_some_iff.1 h
  have hpos : 0 < executors.count true := List.count_pos_iff.2 (List.mem_of_getElem? h)
  have hset : (executors.set k false).count true = executors.count true - 1 := by
    simp [List.count_set hlt, hget]
  omega

/-- After the stop every step brings the server nearer to its end. -/
theorem Orderly.remaining_lt {before : Bool} {s s' : Server H} {e : Event}
    (ho : Orderly J conns n before s) (hstopped : s.stopped = true)
    (hstep : Step J conns n s e s') : s'.stopped = true ∧ s'.remaining n < s.remaining n := by
  have hbusy : ∀ {k : Nat}, ¬ s.Available k := by
    intro k havailable
    rw [havailable.2] at hstopped
    cases hstopped
  have hsession : ∀ {i : Nat} {session : Session H},
      session.remaining < (s.sessions i).remaining →
      (s.setSession i session).remaining n < s.remaining n := by
    intro i session hlt
    have hsum := ho.sound.sum_remaining_lt hlt
    unfold Server.remaining Server.setSession
    simp only
    omega
  cases hstep with
  | accepts remote haccepting havailable => exact (hbusy havailable).elim
  | failsAccept value message haccepting havailable => exact (hbusy havailable).elim
  | abortsAccept haccepting havailable => exact (hbusy havailable).elim
  | reads hreading havailable => exact (hbusy havailable).elim
  | responds ok hresponding havailable => exact (hbusy havailable).elim
  | signals number hpending havailable => exact (hbusy havailable).elim
  | @logs i h level msg rest hhandling hfile hrest =>
    refine ⟨hstopped, hsession ?_⟩
    rw [hhandling]
    simp only [Session.remaining, hrest, List.length_cons]
    omega
  | @opens i h u rest d hhandling hfile hrest hio hopen =>
    refine ⟨hstopped, hsession ?_⟩
    rw [hhandling]
    simp [Session.remaining, hfile, hrest]
    omega
  | @refused i h u rest hhandling hfile hrest hrefused =>
    refine ⟨hstopped, hsession ?_⟩
    rw [hhandling]
    simp only [Session.remaining, hrest, List.length_cons]
    omega
  | @writes i h u hhandling hfile =>
    refine ⟨hstopped, hsession ?_⟩
    rw [hhandling]
    simp [Session.remaining, hfile]
  | @sends i h response rest hhandling hfile hrest =>
    refine ⟨hstopped, hsession ?_⟩
    rw [hhandling]
    simp only [Session.remaining, hrest, List.length_cons]
    omega
  | @returns i h hhandling hfile hrest =>
    refine ⟨hstopped, hsession ?_⟩
    rw [hhandling]
    split <;> exact Nat.succ_pos _
  | @promises k number hsignals =>
    refine ⟨hstopped, ?_⟩
    simp only [Server.remaining, hsignals, SignalWait.remaining]
    omega
  | launches hmain hlt =>
    refine ⟨hstopped, ?_⟩
    simp only [Server.remaining, List.count_append, List.length_append, List.length_singleton,
      List.count_singleton_self]
    omega
  | launched hmain hlt =>
    refine ⟨hstopped, ?_⟩
    simp only [Server.remaining, hmain, Main.remaining]
    omega
  | @exits k hidle hstop =>
    refine ⟨hstopped, ?_⟩
    have hcount := count_set_false hidle.1
    simp only [Server.remaining, List.length_set]
    omega
  | acknowledges hmain hpromised =>
    refine ⟨hstopped, ?_⟩
    simp only [Server.remaining, hmain, Main.remaining]
    omega
  | @joins k hmain hexited =>
    refine ⟨hstopped, ?_⟩
    have hlt := (List.getElem?_eq_some_iff.1 hexited).1
    have hsize := ho.settled.1
    simp only [Server.remaining, hmain, Main.remaining]
    omega
  | @stops k hmain hle =>
    refine ⟨hstopped, ?_⟩
    have hsettled := ho.settled
    simp only [Settled, hmain] at hsettled
    simp only [Server.remaining, hmain, Main.remaining]
    omega

/-- A handler can always take its next step. -/
theorem exists_step_of_handling (J : Engine) (conns : Nat → Connection H) (n : Nat) {s : Server H}
    {i : Nat} {h : Handling H} (hhandling : s.sessions i = .handling h) :
    ∃ e s', Step J conns n s e s' := by
  cases hfile : h.file with
  | some u => exact ⟨_, _, .writes hhandling hfile⟩
  | none =>
    cases hrest : h.rest with
    | nil => exact ⟨_, _, .returns hhandling hfile hrest⟩
    | cons e rest =>
      cases e with
      | log level msg => exact ⟨_, _, .logs hhandling hfile hrest⟩
      | send response => exact ⟨_, _, .sends hhandling hfile hrest⟩
      | save u =>
        by_cases hio : (conns i).env.io = .openFails
        · exact ⟨_, _, .refused hhandling hfile hrest (.inl hio)⟩
        · cases hopen : s.store.openTrunc (FilePersistence.getPath u.id) with
          | none => exact ⟨_, _, .refused hhandling hfile hrest (.inr hopen)⟩
          | some d => exact ⟨_, _, .opens hhandling hfile hrest hio hopen⟩

/-- A stopped server that can take no step has no executor left, and its main thread has returned or
waits for a promise that nobody will set. -/
theorem Orderly.stuck {before : Bool} {s : Server H} (ho : Orderly J conns n before s)
    (hstopped : s.stopped = true) (hstuck : ∀ e s', ¬ Step J conns n s e s') :
    (∀ k : Nat, s.executors[k]? ≠ some true) ∧
      (s.main = .returned ∨ s.main = .waiting ∧ before = true) := by
  have hhandling : ∀ i h, s.sessions i ≠ .handling h := by
    intro i h hi
    obtain ⟨e, s', hstep⟩ := exists_step_of_handling J conns n hi
    exact hstuck e s' hstep
  have hsignals : ∀ k number, s.signals ≠ .handling k number :=
    fun k number hk => hstuck _ _ (.promises hk)
  have hended : ∀ k : Nat, s.executors[k]? ≠ some true := by
    intro k hk
    exact hstuck _ _ (.exits ⟨hk, fun i h hi => (hhandling i h hi).elim, hsignals k⟩ hstopped)
  refine ⟨hended, ?_⟩
  cases hmain : s.main with
  | returned => exact .inl rfl
  | starting =>
    by_cases hlt : s.executors.length < n
    · exact (hstuck _ _ (.launches hmain hlt)).elim
    · exact (hstuck _ _ (.launched hmain hlt)).elim
  | joining k =>
    by_cases hle : s.executors.length ≤ k
    · exact (hstuck _ _ (.stops hmain hle)).elim
    · cases hk : s.executors[k]? with
      | none => exact (hle (List.getElem?_eq_none_iff.1 hk)).elim
      | some running =>
        cases running with
        | true => exact (hended k hk).elim
        | false => exact (hstuck _ _ (.joins hmain hk)).elim
  | waiting =>
    refine .inr ⟨rfl, ?_⟩
    cases before with
    | true => rfl
    | false =>
      have hdone : s.signals = .done := by
        cases hs : s.signals with
        | pending => exact (ho.signalled.stopped_iff.1 hstopped hs).elim
        | handling k number => exact (hsignals k number hs).elim
        | done => rfl
      obtain ⟨number, hnumber⟩ :=
        Option.isSome_iff_exists.1 ((ho.signalled.promised_iff rfl).2 hdone)
      exact (hstuck _ _ (.acknowledges hmain hnumber)).elim

/-- In a process in which no signal was handled before, it has returned. -/
theorem Orderly.returned_of_stuck {s : Server H} (ho : Orderly J conns n false s)
    (hstopped : s.stopped = true) (hstuck : ∀ e s', ¬ Step J conns n s e s') :
    s.main = .returned := by
  rcases (ho.stuck hstopped hstuck).2 with hreturned | ⟨-, hbefore⟩
  · exact hreturned
  · cases hbefore

theorem Orderly.stopped_run {before : Bool} {s s' : Server H} {es : List Event}
    (ho : Orderly J conns n before s) (hstopped : s.stopped = true)
    (h : Run (Step J conns n) s es s') :
    (Orderly J conns n before s' ∧ s'.stopped = true) ∧
      es.length + s'.remaining n ≤ s.remaining n :=
  h.length_add_le (I := fun s => Orderly J conns n before s ∧ s.stopped = true)
    (fun _ _ _ hI hstep => ⟨⟨hI.1.step hstep, (hI.1.remaining_lt hI.2 hstep).1⟩,
      (hI.1.remaining_lt hI.2 hstep).2⟩) ⟨ho, hstopped⟩

/-- A stopped server has a run to its end. -/
theorem Orderly.exists_end {before : Bool} {s : Server H} (ho : Orderly J conns n before s)
    (hstopped : s.stopped = true) : ∃ es s', Run (Step J conns n) s es s' ∧
      ∀ e s'', ¬ Step J conns n s' e s'' := by
  induction hm : s.remaining n using Nat.strong_induction_on generalizing s with
  | _ m ih =>
    subst hm
    by_cases hstuck : ∀ e s'', ¬ Step J conns n s e s''
    · exact ⟨[], s, .nil, hstuck⟩
    · simp only [not_forall, not_not] at hstuck
      obtain ⟨e, s₁, hstep⟩ := hstuck
      obtain ⟨hstopped₁, hlt⟩ := ho.remaining_lt hstopped hstep
      obtain ⟨es, s', hrun, hend⟩ := ih _ hlt (ho.step hstep) hstopped₁ rfl
      exact ⟨_, s', (Run.single hstep).trans hrun, hend⟩

/-! ## Runs to the end -/

/-- A server with an available executor can be stopped by a signal and come to its end. -/
theorem ended_run {config : Configuration} {d : Directory} {before : Bool} {es : List Event}
    {s : Server H} (hrun : Run (Step J conns n) (start config n d before) es s) {k : Nat}
    (havailable : s.Available k) : ∃ s₁ es' s', Run (Step J conns n) s [.signals k 15] s₁ ∧
      s₁.stopped = true ∧ Run (Step J conns n) s₁ es' s' ∧ s'.stopped = true ∧
      ∀ e s'', ¬ Step J conns n s' e s'' := by
  have ho := (orderly_start J conns n config d before).run hrun
  have hpending : s.signals = .pending := by
    by_contra hne
    have hstopped := ho.signalled.stopped_iff.2 hne
    rw [havailable.2] at hstopped
    cases hstopped
  have hsignal : Run (Step J conns n) s [.signals k 15] _ :=
    .single (.signals 15 hpending havailable)
  have ho₁ := ho.run hsignal
  obtain ⟨es', s', hrun', hend⟩ := ho₁.exists_end rfl
  exact ⟨_, es', s', hsignal, rfl, hrun', (ho₁.stopped_run rfl hrun').1.2, hend⟩

/-- One that is stopped at once. -/
theorem ended_oneClient (d : Directory) (before : Bool) : ∃ es s es' s',
    Run (Step compact oneClient 1) (start {} 1 d before) es s ∧ s.stopped = true ∧
      Run (Step compact oneClient 1) s es' s' ∧ s'.stopped = true ∧
      (∀ e s'', ¬ Step compact oneClient 1 s' e s'') := by
  obtain ⟨es, s, hlaunch, hs⟩ := launched_run compact oneClient 1 {} d before (Nat.le_refl 1)
  obtain ⟨s₁, es', s', hsignal, hended⟩ := ended_run hlaunch (hs.available Nat.one_pos)
  exact ⟨_, s₁, es', s', hlaunch.trans hsignal, hended⟩

/-! ## Results -/

/-- At no time are more requests handled than there are executors, and no two of them by one
executor. -/
theorem handlers_le {config : Configuration} {d : Directory} {before : Bool} {es : List Event}
    {s : Server H} (h : Run (Step J conns n) (start config n d before) es s) :
    (∀ is : List Nat, is.Nodup → (∀ i ∈ is, ∃ h, s.sessions i = .handling h) → is.length ≤ n) ∧
      ∀ i j h h', s.sessions i = .handling h → s.sessions j = .handling h' →
        h.executor = h'.executor → i = j := by
  have ho := (orderly_start J conns n config d before).run h
  refine ⟨fun is hnodup hhandling => ?_, fun i j h h' hi hj hsame => ?_⟩
  · exact Nat.le_trans (ho.busy.length_le hnodup hhandling) ho.settled.1
  · exact ho.busy.apart i j h.executor (by rw [hi]; rfl) (by rw [hj, hsame]; rfl)

/-- Two executors handle two requests at once. -/
theorem handlers_le_twoClients : ∃ (s : Server .sha256) (h h' : Handling .sha256),
    s.sessions 0 = .handling h ∧ s.sessions 1 = .handling h' ∧ [0, 1].length ≤ 2 ∧
      h.executor ≠ h'.executor := by
  obtain ⟨es, s, hrun, -, -, -, hs⟩ :=
    both_begin compact (show (twoClients 0).request = _ from rfl) rfl {} ∅
  have hzero := congrFun hs 0
  have hone := congrFun hs 1
  obtain ⟨hle, hapart⟩ := handlers_le hrun
  refine ⟨s, _, _, hzero, hone, hle [0, 1] (by decide) ?_,
    fun hsame => Nat.zero_ne_one (hapart 0 1 _ _ hzero hone hsame)⟩
  rintro i (_ | ⟨_, _ | ⟨_, ⟨⟩⟩⟩)
  · exact ⟨_, hzero⟩
  · exact ⟨_, hone⟩

/-- The promise is set to the number of a signal that was received. -/
theorem received_of_run {config : Configuration} {d : Directory} {before : Bool} {es : List Event}
    {s : Server H} (h : Run (Step J conns n) (start config n d before) es s) :
    (∀ k number, s.signals = .handling k number → ∃ k, .signals k number ∈ es) ∧
      ∀ number, s.promised = some number → ∃ k, .signals k number ∈ es := by
  refine h.induct_on (I := fun es s =>
    (∀ k number, s.signals = .handling k number → ∃ k, .signals k number ∈ es) ∧
      ∀ number, s.promised = some number → ∃ k, .signals k number ∈ es) ⟨nofun, nofun⟩ ?_
  intro es e s s' _ ih hstep
  have hold : (∀ k number, s.signals = .handling k number → ∃ k, .signals k number ∈ es ++ [e]) ∧
      ∀ number, s.promised = some number → ∃ k, .signals k number ∈ es ++ [e] := by
    refine ⟨fun k number hsignals => ?_, fun number hpromised => ?_⟩
    · obtain ⟨k, hk⟩ := ih.1 k number hsignals
      exact ⟨k, List.mem_append_left _ hk⟩
    · obtain ⟨k, hk⟩ := ih.2 number hpromised
      exact ⟨k, List.mem_append_left _ hk⟩
  cases hstep with
  | @signals k number hpending havailable =>
    refine ⟨fun k' number' hsignals => ?_, hold.2⟩
    obtain ⟨rfl, rfl⟩ := SignalWait.handling.inj hsignals
    exact ⟨_, List.mem_append_right _ (List.mem_singleton_self _)⟩
  | @promises k number hsignals =>
    refine ⟨nofun, fun number' hpromised => ?_⟩
    have hpromised' : (if s.signaled = true then s.promised else some number) = some number' :=
      hpromised
    split at hpromised'
    · exact hold.2 number' hpromised'
    · cases hpromised'
      exact hold.1 k _ hsignals
  | _ => exact hold

theorem Busy.not_handling {executors : List Bool} {sessions : Nat → Session H}
    {signals : SignalWait} (hb : Busy executors sessions signals)
    (hexecutors : ∀ k : Nat, executors[k]? ≠ some true) (i : Nat) (h : Handling H) :
    sessions i ≠ .handling h := by
  intro hhandling
  exact hexecutors h.executor (hb.running i _ (by rw [hhandling]; rfl))

/-- `run` returns after a signal only, with every executor ended and no handler cut off: the store
is what the router makes of the committed requests in some order. -/
theorem returns_clean {config : Configuration} {d : Directory} {before : Bool} {es : List Event}
    {s : Server H} (hids : DistinctIds J conns)
    (h : Run (Step J conns n) (start config n d before) es s) (hreturned : s.main = .returned) :
    (∃ k number, .signals k number ∈ es ∧ s.promised = some number) ∧
      (∀ k : Nat, s.executors[k]? ≠ some true) ∧ (∀ i h, s.sessions i ≠ .handling h) ∧
      ∃ is w, Linearizes J conns d s is w ∧ s.store = w.store := by
  have ho := (orderly_start J conns n config d before).run h
  obtain ⟨hsize, hsettled⟩ := ho.settled
  simp only [hreturned] at hsettled
  obtain ⟨hlength, hpromised, hexited⟩ := hsettled
  have hended : ∀ k : Nat, s.executors[k]? ≠ some true := by
    intro k hk
    have hlt := (List.getElem?_eq_some_iff.1 hk).1
    rw [hexited k (by omega)] at hk
    cases hk
  have hhandling := ho.busy.not_handling hended
  obtain ⟨number, hnumber⟩ := Option.isSome_iff_exists.1 hpromised
  obtain ⟨k, hk⟩ := (received_of_run h).2 number hnumber
  obtain ⟨is, w, hl⟩ := linearizes_run hids h
  refine ⟨⟨k, number, hk, hnumber⟩, hended, hhandling, is, w, hl, Finmap.ext_lookup fun name => ?_⟩
  refine hl.lookup_eq name ?_
  rintro ⟨i, u, hu, -⟩
  obtain ⟨h', hsession, -⟩ := Session.file_eq_some hu
  exact hhandling i h' hsession

/-- A server that is stopped after it has answered both clients. -/
theorem returns_clean_twoClients : ∃ s is w, s.main = .returned ∧
    Linearizes compact twoClients ∅ s is w ∧ 0 ∈ is ∧ 1 ∈ is ∧ s.store = w.store := by
  obtain ⟨es, _, es', s, _, _, hrun, hrun', -, -, -, hs, havailable⟩ := overtaken_twoClients
  have hrun := hrun.trans hrun'
  obtain ⟨s₁, es₁, s', hsignal, -, hrun₁, hstopped, hend⟩ := ended_run hrun havailable
  have hafter := hsignal.trans hrun₁
  have ho := (orderly_start compact twoClients 2 {} ∅ false).run (hrun.trans hafter)
  have hreturned := ho.returned_of_stuck hstopped hend
  obtain ⟨-, -, -, is, w, hl, hstore⟩ :=
    returns_clean distinctIds_twoClients (hrun.trans hafter) hreturned
  have hanswered : ∀ i < 2, i ∈ is := by
    intro i hi
    obtain ⟨is₀, w₀, hl₀⟩ := linearizes_run distinctIds_twoClients hrun
    obtain ⟨more, w₁, hl₁⟩ := hl₀.extend distinctIds_twoClients (sound_run hrun) hafter
    rw [hl.mem_iff, ← hl₁.mem_iff]
    refine List.mem_append_left _ ((hl₀.mem_iff i).2 ?_)
    rw [hs]
    match i with
    | 0 | 1 => trivial
  exact ⟨s', is, w, hreturned, hl, hanswered 0 Nat.zero_lt_two, hanswered 1 Nat.one_lt_two, hstore⟩

/-- Once the first signal is being handled, every run comes to an end, within a number of steps
known in advance, and it ends with the return of `run`. -/
theorem shutdown_terminates {config : Configuration} {d : Directory} {es es' : List Event}
    {s s' : Server H} (h : Run (Step J conns n) (start config n d false) es s)
    (hstopped : s.stopped = true) (h' : Run (Step J conns n) s es' s') :
    es'.length ≤ s.remaining n ∧
      ((∀ e s'', ¬ Step J conns n s' e s'') → s'.main = .returned) := by
  have ho := (orderly_start J conns n config d false).run h
  obtain ⟨⟨ho', hstopped'⟩, hlen⟩ := ho.stopped_run hstopped h'
  exact ⟨by omega, ho'.returned_of_stuck hstopped'⟩

theorem shutdown_terminates_twoClients : ∃ es s,
    Run (Step compact twoClients 2) (start {} 2 ∅ false) es s ∧ s.main = .returned := by
  obtain ⟨es, _, es', s, _, _, hrun, hrun', -, -, -, -, havailable⟩ := overtaken_twoClients
  have hrun := hrun.trans hrun'
  obtain ⟨s₁, es₁, s', hsignal, hstopped, hrun₁, -, hend⟩ := ended_run hrun havailable
  have hsignalled := hrun.trans hsignal
  exact ⟨_, s', hsignalled.trans hrun₁, (shutdown_terminates hsignalled hstopped hrun₁).2 hend⟩

/-- A call of `run` that has returned leaves the variable set. -/
theorem Orderly.signaled_of_returned {before : Bool} {s : Server H}
    (ho : Orderly J conns n before s) (hreturned : s.main = .returned) : s.signaled = true := by
  have hsettled := ho.settled.2
  simp only [hreturned] at hsettled
  cases before with
  | true => exact ho.signalled.signaled_of_before rfl
  | false =>
    exact (ho.signalled.signaled_iff rfl).2 ((ho.signalled.promised_iff rfl).1 hsettled.2.1)

/-- Where the variable was set before, the promise is never fulfilled. -/
theorem Orderly.waits {s : Server H} (ho : Orderly J conns n true s) :
    s.main = .starting ∨ s.main = .waiting := by
  have hpromised := ho.signalled.promised_of_before rfl
  obtain ⟨-, hsettled⟩ := ho.settled
  cases hmain : s.main with
  | starting => exact .inl rfl
  | waiting => exact .inr rfl
  | joining k =>
    simp only [hmain, hpromised] at hsettled
    cases hsettled.2.1
  | returned =>
    simp only [hmain, hpromised] at hsettled
    cases hsettled.2.1

/-- A call of `run` that returns leaves the variable of the handler of signals set.  Once it is set,
no later call returns: after the next signal the executors end, and the main thread waits for
ever. -/
theorem second_run_hangs {before : Bool} {config : Configuration} {d : Directory}
    {es : List Event} {s : Server H} (h : Run (Step J conns n) (start config n d before) es s) :
    (s.main = .returned → s.signaled = true) ∧
      (s.signaled = true → ∀ (conns' : Nat → Connection H) n' config' d' es' s',
        Run (Step J conns' n') (start config' n' d' s.signaled) es' s' →
        (s'.main = .starting ∨ s'.main = .waiting) ∧
          (s'.stopped = true → ∀ es'' s'', Run (Step J conns' n') s' es'' s'' →
            es''.length ≤ s'.remaining n' ∧ ((∀ e s₁, ¬ Step J conns' n' s'' e s₁) →
              s''.main = .waiting ∧ ∀ k : Nat, s''.executors[k]? ≠ some true))) := by
  refine ⟨((orderly_start J conns n config d before).run h).signaled_of_returned, ?_⟩
  intro hsignaled conns' n' config' d' es' s' h'
  rw [hsignaled] at h'
  have ho := (orderly_start J conns' n' config' d' true).run h'
  refine ⟨ho.waits, fun hstopped es'' s'' h'' => ?_⟩
  obtain ⟨⟨ho', hstopped'⟩, hlen⟩ := ho.stopped_run hstopped h''
  refine ⟨by omega, fun hstuck => ?_⟩
  obtain ⟨hended, hreturned | ⟨hwaiting, -⟩⟩ := ho'.stuck hstopped' hstuck
  · rcases ho'.waits with hm | hm <;> rw [hm] at hreturned <;> cases hreturned
  · exact ⟨hwaiting, hended⟩

/-- A server that returns, and one that is started after it on the store that it leaves. -/
theorem second_run_hangs_oneClient : ∃ (s s' : Server .sha256) (es : List Event),
    s.main = .returned ∧
      Run (Step compact oneClient 1) (start {} 1 s.store s.signaled) es s' ∧ s'.stopped = true ∧
      s'.main = .waiting ∧ ∀ e s'', ¬ Step compact oneClient 1 s' e s'' := by
  obtain ⟨es, s₁, es', s, hrun, -, hrun', hstopped, hend⟩ := ended_oneClient ∅ false
  have hrun := hrun.trans hrun'
  have hreturned :=
    ((orderly_start compact oneClient 1 {} ∅ false).run hrun).returned_of_stuck hstopped hend
  obtain ⟨hsignaled, hsecond⟩ := second_run_hangs hrun
  obtain ⟨es, s₂, es', s', hrun₂, hstopped₂, hrun₂', hstopped', hend'⟩ :=
    ended_oneClient s.store s.signaled
  obtain ⟨-, hhangs⟩ := hsecond (hsignaled hreturned) oneClient 1 {} s.store es s₂ hrun₂
  exact ⟨s, s', _, hreturned, hrun₂.trans hrun₂', hstopped',
    ((hhangs hstopped₂ es' s' hrun₂').2 hend').1, hend'⟩

end Serving

end Prapancha
