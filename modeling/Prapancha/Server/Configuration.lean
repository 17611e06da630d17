import Prapancha.Base.Decimal

/-!
# Configuration

The settings of the server and `from_cli`, which reads them from the arguments of the program.  An
option with a value takes the argument behind it, whatever that is.
-/

namespace Prapancha.Configuration

inductive Environment
  | development
  | production
  deriving DecidableEq, Repr

def defaultHost : Bytes := text "127.0.0.1"

def defaultPort : UInt16 := 8080

def autoDetectThreads : Int32 := 0

@[ext]
structure Network where
  host : Bytes := defaultHost
  port : UInt16 := defaultPort
  threadCount : Int32 := autoDetectThreads
  deriving DecidableEq

def defaultRootPath : Bytes := text "./data"

@[ext]
structure Persistence where
  rootPath : Bytes := defaultRootPath
  deriving DecidableEq

end Configuration

open Prapancha.Configuration in
@[ext]
structure Configuration where
  environment : Environment := .development
  network : Network := {}
  persistence : Persistence := {}
  deriving DecidableEq

namespace Configuration

/-- The options of the command line. -/
inductive Flag
  | production
  | development
  | port
  | threadCount
  | dataPath
  | help
  deriving DecidableEq, Repr

def Flag.ofArg (arg : Bytes) : Option Flag :=
  if arg = text "--production" then some .production
  else if arg = text "--development" then some .development
  else if arg = text "--port" then some .port
  else if arg = text "--thread_count" then some .threadCount
  else if arg = text "--data_path" then some .dataPath
  else if arg = text "--help" then some .help
  else none

/-- How `from_cli` ends: with a configuration, with `std::exit(0)` or with an exception. -/
inductive Outcome
  | returned (config : Configuration) (err : Bytes)
  | exited (out err : Bytes)
  | threw (e : Exn)
  deriving DecidableEq

def usage (program : Bytes) : Bytes :=
  text "Prapancha Framework\nUsage: " ++ program ++ text (" [options]\n\n" ++
    "Options:\n" ++
    "  --production         Execute in a production environment\n" ++
    "  --development        Execute in a development environment\n" ++
    "  --port <number>      Set the network listener port\n" ++
    "  --thread_count <n>   Set number of worker threads (0 for auto)\n" ++
    "  --data_path <path>   Set the persistence storage root path\n" ++
    "  --help               Show help information\n")

def invalidPort (val : Bytes) : Bytes :=
  text "Warning: Invalid port '" ++ val ++ text "'. Using default: 8080\n"

def invalidThreadCount (val : Bytes) : Bytes :=
  text "Warning: Invalid thread_count '" ++ val ++ text "'. Using default: 0\n"

/-- The loop of `from_cli` over the arguments that are left. -/
def readArgs (program : Bytes) : List Bytes → Configuration → Bytes → Outcome
  | [], config, err => .returned config err
  | arg :: rest, config, err =>
    match Flag.ofArg arg, rest with
    | some .production, rest =>
      readArgs program rest { config with environment := .production } err
    | some .development, rest =>
      readArgs program rest { config with environment := .development } err
    | some .port, val :: rest =>
      let result := fromChars .uint16 val config.network.port
      readArgs program rest
        { config with network := { config.network with port := result.value } }
        (if result.ok then err else err ++ invalidPort val)
    | some .threadCount, val :: rest =>
      let result := fromChars .int32 val config.network.threadCount
      readArgs program rest
        { config with network := { config.network with threadCount := result.value } }
        (if result.ok then err else err ++ invalidThreadCount val)
    | some .dataPath, val :: rest =>
      readArgs program rest
        { config with persistence := { config.persistence with rootPath := val } } err
    | some .help, _ => .exited (usage program) err
    | _, rest => readArgs program rest config err

/-- `argv[1..argc)`. -/
def argvRange (argc : Nat) (argv : Nat → Bytes) : List Bytes :=
  (List.range (argc - 1)).map fun i => argv (i + 1)

/-- `std::vector<std::string_view> args(argv + 1, argv + argc)`, whose range ends before its start
when `argc` is 0. -/
def argsVector (argc : Nat) (argv : Nat → Bytes) : Except Exn (List Bytes) :=
  if argc = 0 then .error .lengthError else .ok (argvRange argc argv)

def fromCli (argc : Nat) (argv : Nat → Bytes) : Outcome :=
  match argsVector argc argv with
  | .error e => .threw e
  | .ok args => readArgs (argv 0) args {} []

end Prapancha.Configuration
