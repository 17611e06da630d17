import Prapancha.Server.Configuration

/-!
# The command line

`from_cli` against its documentation: the last occurrence of an option decides, and a value that is
no number reverts the field to its default.  The code only warns about such a value, and takes one
that has a number at its front.
-/

namespace Prapancha.Configuration

/-! ## Reading the arguments -/

/-- What an option of the command line says. -/
inductive Setting
  | environment (environment : Environment)
  | port (val : Bytes)
  | threadCount (val : Bytes)
  | dataPath (val : Bytes)
  | help
  deriving DecidableEq

/-- The settings of a command line from left to right. -/
def settings : List Bytes → List Setting
  | [] => []
  | arg :: rest =>
    match Flag.ofArg arg, rest with
    | some .production, rest => .environment .production :: settings rest
    | some .development, rest => .environment .development :: settings rest
    | some .port, val :: rest => .port val :: settings rest
    | some .threadCount, val :: rest => .threadCount val :: settings rest
    | some .dataPath, val :: rest => .dataPath val :: settings rest
    | some .help, rest => .help :: settings rest
    | _, rest => settings rest

namespace Setting

def environment? : Setting → Option Environment
  | environment e => some e
  | _ => none

def port? : Setting → Option Bytes
  | port val => some val
  | _ => none

def threadCount? : Setting → Option Bytes
  | threadCount val => some val
  | _ => none

def dataPath? : Setting → Option Bytes
  | dataPath val => some val
  | _ => none

end Setting

/-- The configuration that the documentation gives to a command line. -/
def documented (args : List Bytes) : Configuration where
  environment := ((settings args).filterMap Setting.environment?).getLast?.getD .development
  network :=
    { host := defaultHost
      port := (((settings args).filterMap Setting.port?).getLast?.bind
        IntegerType.uint16.number?).getD defaultPort
      threadCount := (((settings args).filterMap Setting.threadCount?).getLast?.bind
        IntegerType.int32.number?).getD autoDetectThreads }
  persistence.rootPath :=
    ((settings args).filterMap Setting.dataPath?).getLast?.getD defaultRootPath

/-- What a setting does to the configuration and to the error stream. -/
def Setting.apply (state : Configuration × Bytes) : Setting → Configuration × Bytes
  | environment e => ({ state.1 with environment := e }, state.2)
  | port val =>
    let result := fromChars .uint16 val state.1.network.port
    ({ state.1 with network := { state.1.network with port := result.value } },
      if result.ok then state.2 else state.2 ++ invalidPort val)
  | threadCount val =>
    let result := fromChars .int32 val state.1.network.threadCount
    ({ state.1 with network := { state.1.network with threadCount := result.value } },
      if result.ok then state.2 else state.2 ++ invalidThreadCount val)
  | dataPath val =>
    ({ state.1 with persistence := { state.1.persistence with rootPath := val } }, state.2)
  | help => state

/-- The loop does what the settings say, one after the other. -/
theorem readArgs_eq {program : Bytes} {args : List Bytes} {config : Configuration} {err : Bytes}
    (h : .help ∉ settings args) : readArgs program args config err =
      .returned ((settings args).foldl Setting.apply (config, err)).1
        ((settings args).foldl Setting.apply (config, err)).2 := by
  fun_induction settings args generalizing config err with
  | case1 => rfl
  | case2 arg rest harg ih | case3 arg rest harg ih =>
    rw [List.mem_cons, not_or] at h
    simp only [readArgs, harg]
    exact ih h.2
  | case4 arg val rest harg ih | case5 arg val rest harg ih | case6 arg val rest harg ih =>
    rw [List.mem_cons, not_or] at h
    simp only [readArgs, harg]
    exact ih h.2
  | case7 arg rest harg ih => exact absurd List.mem_cons_self h
  | case8 arg rest hprod hdev hport hthreads hpath hhelp ih =>
    simp only [readArgs]
    exact ih h

/-- The first `--help` ends the program. -/
theorem readArgs_help {program : Bytes} {args : List Bytes} {config : Configuration} {err : Bytes}
    (h : .help ∈ settings args) : ∃ err', readArgs program args config err =
      .exited (usage program) err' := by
  fun_induction settings args generalizing config err with
  | case1 => cases h
  | case2 arg rest harg ih | case3 arg rest harg ih =>
    simp only [readArgs, harg]
    exact ih (List.mem_of_ne_of_mem (by simp) h)
  | case4 arg val rest harg ih | case5 arg val rest harg ih | case6 arg val rest harg ih =>
    simp only [readArgs, harg]
    exact ih (List.mem_of_ne_of_mem (by simp) h)
  | case7 arg rest harg ih =>
    simp only [readArgs, harg]
    exact ⟨err, rfl⟩
  | case8 arg rest hprod hdev hport hthreads hpath hhelp ih =>
    simp only [readArgs]
    exact ih h

/-! ## The last occurrence -/

/-- A fold that replaces a value now and then ends with the last replacement. -/
theorem foldl_getD {α β : Type} (f : α → Option β) : ∀ (l : List α) (b : β),
    l.foldl (fun b a => (f a).getD b) b = (l.filterMap f).getLast?.getD b
  | [], b => rfl
  | a :: l, b => by
    rw [List.foldl_cons, foldl_getD f l]
    cases hf : f a with
    | none => rw [List.filterMap_cons_none hf, Option.getD_none]
    | some c =>
      rw [List.filterMap_cons_some hf, Option.getD_some, List.getLast?_cons, Option.getD_some]

variable {α : Type} {T : IntegerType α}

/-- When the value of an option that occurs with these arguments is the documented one: the last
of them is a number, or there is nothing but the default at the front of the arguments. -/
def Reverts (T : IntegerType α) (default : α) (vals : List Bytes) : Prop :=
  ∀ last, vals.getLast? = some last → T.number? last = none →
    (vals.filterMap T.leading?).getLast?.getD default = default

theorem last_leading_eq_iff (default : α) (vals : List Bytes) :
    (vals.filterMap T.leading?).getLast?.getD default =
        (vals.getLast?.bind T.number?).getD default ↔ Reverts T default vals := by
  unfold Reverts
  cases hlast : vals.getLast? with
  | none =>
    rw [List.getLast?_eq_none_iff] at hlast
    simp [hlast]
  | some last =>
    obtain ⟨before, rfl⟩ := List.getLast?_eq_some_iff.1 hlast
    cases hnumber : T.number? last with
    | none => simp [hnumber]
    | some n =>
      have hleading := IntegerType.leading?_of_number? hnumber
      simp [hnumber, hleading]

/-! ## Every field -/

/-- The configuration after the settings of a command line. -/
def configured (args : List Bytes) : Configuration :=
  ((settings args).foldl Setting.apply ({}, [])).1

/-- A field that every setting replaces or keeps ends with its last replacement. -/
theorem configured_field {β : Type} (field : Configuration → β) (f : Setting → Option β)
    (hfield : ∀ state setting,
      field (Setting.apply state setting).1 = (f setting).getD (field state.1))
    (args : List Bytes) :
    field (configured args) = ((settings args).filterMap f).getLast?.getD (field {}) := by
  rw [← foldl_getD f]
  exact (List.foldl_hom (fun state : Configuration × Bytes => field state.1)
    fun state setting => (hfield state setting).symm).symm

theorem configured_eq (args : List Bytes) : configured args =
    { environment := ((settings args).filterMap Setting.environment?).getLast?.getD .development
      network :=
        { host := defaultHost
          port := ((((settings args).filterMap Setting.port?).filterMap
            IntegerType.uint16.leading?).getLast?).getD defaultPort
          threadCount := ((((settings args).filterMap Setting.threadCount?).filterMap
            IntegerType.int32.leading?).getLast?).getD autoDetectThreads }
      persistence.rootPath :=
        ((settings args).filterMap Setting.dataPath?).getLast?.getD defaultRootPath } := by
  have henvironment := configured_field Configuration.environment Setting.environment?
    (fun state setting => by cases setting <;> rfl) args
  have hhost := configured_field (fun config => config.network.host) (fun _ => none)
    (fun state setting => by cases setting <;> rfl) args
  have hport := configured_field (fun config => config.network.port)
    (fun setting => setting.port?.bind IntegerType.uint16.leading?)
    (fun state setting => by
      cases setting with
      | port val => exact fromChars_value val _
      | _ => rfl) args
  have hthreads := configured_field (fun config => config.network.threadCount)
    (fun setting => setting.threadCount?.bind IntegerType.int32.leading?)
    (fun state setting => by
      cases setting with
      | threadCount val => exact fromChars_value val _
      | _ => rfl) args
  have hpath := configured_field (fun config => config.persistence.rootPath) Setting.dataPath?
    (fun state setting => by cases setting <;> rfl) args
  rw [← List.filterMap_filterMap] at hport hthreads
  have hhost : (configured args).network.host = defaultHost := by simpa using hhost
  exact Configuration.ext henvironment (Network.ext hhost hport hthreads) (Persistence.ext hpath)

theorem configured_eq_documented_iff (args : List Bytes) : configured args = documented args ↔
    Reverts .uint16 defaultPort ((settings args).filterMap Setting.port?) ∧
      Reverts .int32 autoDetectThreads ((settings args).filterMap Setting.threadCount?) := by
  rw [← last_leading_eq_iff, ← last_leading_eq_iff, configured_eq, documented]
  simp only [Configuration.mk.injEq, Network.mk.injEq, true_and, and_true]

/-! ## The whole function -/

theorem fromCli_eq {argc : Nat} {argv : Nat → Bytes} (hargc : argc ≠ 0)
    (h : .help ∉ settings (argvRange argc argv)) : fromCli argc argv =
      .returned (configured (argvRange argc argv))
        ((settings (argvRange argc argv)).foldl Setting.apply ({}, [])).2 := by
  rw [fromCli, argsVector, if_neg hargc]
  exact readArgs_eq h

/-- What `from_cli` returns is what the settings make of the defaults. -/
theorem config_of_returned {argc : Nat} {argv : Nat → Bytes} {config : Configuration} {err : Bytes}
    (h : fromCli argc argv = .returned config err) : config = configured (argvRange argc argv) := by
  have hargc : argc ≠ 0 := by
    rintro rfl
    cases h
  by_cases hhelp : .help ∈ settings (argvRange argc argv)
  · obtain ⟨err', hexited⟩ : ∃ err', readArgs (argv 0) (argvRange argc argv) {} [] =
        .exited (usage (argv 0)) err' := readArgs_help hhelp
    rw [fromCli, argsVector, if_neg hargc] at h
    cases hexited.symm.trans h
  · rw [fromCli_eq hargc hhelp] at h
    exact (Outcome.returned.inj h).1.symm

theorem argvRange_congr {argc : Nat} {argv argv' : Nat → Bytes}
    (h : ∀ i, 1 ≤ i → i < argc → argv' i = argv i) : argvRange argc argv' = argvRange argc argv :=
  List.map_congr_left fun i hi => by
    rw [List.mem_range] at hi
    exact h (i + 1) (by omega) (by omega)

/-- `from_cli` returns the documented configuration, and reads nothing but the arguments behind
the name of the program. -/
structure Documented (argc : Nat) (argv : Nat → Bytes) : Prop where
  returns : ∃ err, fromCli argc argv = .returned (documented (argvRange argc argv)) err
  reads : ∀ argv' : Nat → Bytes, (∀ i, 1 ≤ i → i < argc → argv' i = argv i) →
    fromCli argc argv' = fromCli argc argv

theorem documented_iff {argc : Nat} {argv : Nat → Bytes}
    (h : .help ∉ settings (argvRange argc argv)) : Documented argc argv ↔ argc ≠ 0 ∧
      Reverts .uint16 defaultPort ((settings (argvRange argc argv)).filterMap Setting.port?) ∧
      Reverts .int32 autoDetectThreads
        ((settings (argvRange argc argv)).filterMap Setting.threadCount?) := by
  rw [← configured_eq_documented_iff]
  constructor
  · rintro ⟨⟨err, hreturns⟩, -⟩
    have hargc : argc ≠ 0 := by
      rintro rfl
      cases hreturns
    rw [fromCli_eq hargc h] at hreturns
    exact ⟨hargc, (Outcome.returned.inj hreturns).1⟩
  · rintro ⟨hargc, hconfigured⟩
    refine ⟨⟨_, by rw [fromCli_eq hargc h, hconfigured]⟩, fun argv' hargv => ?_⟩
    have hrange := argvRange_congr hargv
    rw [fromCli_eq hargc h, fromCli_eq hargc (by rwa [hrange]), hrange]

/-- The command line of a program with these arguments. -/
def commandLine (args : List String) (i : Nat) : Bytes := (args.map text).getD i []

/-- A port that is no number leaves the one before it. -/
theorem badPort_not_documented :
    .help ∉ settings (argvRange 5 (commandLine ["prapancha", "--port", "9000", "--port", "x"])) ∧
    fromCli 5 (commandLine ["prapancha", "--port", "9000", "--port", "x"]) =
      .returned { network.port := 9000 } (invalidPort (text "x")) ∧
    (documented (argvRange 5
      (commandLine ["prapancha", "--port", "9000", "--port", "x"]))).network.port = 8080 ∧
    ¬ Documented 5 (commandLine ["prapancha", "--port", "9000", "--port", "x"]) := by
  have hrun : fromCli 5 (commandLine ["prapancha", "--port", "9000", "--port", "x"]) =
      .returned { network.port := 9000 } (invalidPort (text "x")) := by decide +kernel
  have hport : (documented (argvRange 5
      (commandLine ["prapancha", "--port", "9000", "--port", "x"]))).network.port = 8080 := by
    decide +kernel
  refine ⟨by decide +kernel, hrun, hport, ?_⟩
  rintro ⟨⟨err, hreturns⟩, -⟩
  rw [hrun] at hreturns
  have hconfig := congrArg (fun config => config.network.port) (Outcome.returned.inj hreturns).1
  rw [hport] at hconfig
  exact absurd hconfig (by decide)

/-- Arguments of options that are taken as they are, and a bad port before a good one. -/
theorem documented_goodPort : Documented 7
    (commandLine ["prapancha", "--data_path", "--port", "--port", "80x", "--port", "443"]) := by
  refine (documented_iff (by decide +kernel)).2 ⟨by decide, ?_, ?_⟩
  · rintro last hlast hnumber
    have hlast : last = text "443" := (Option.some.inj hlast).symm
    rw [hlast] at hnumber
    exact absurd hnumber (by decide)
  · rintro last hlast
    cases hlast

end Prapancha.Configuration
