import Rettp.AsyncExecution
import Rettp.Diagnostic
import Rettp.HttpConfig
import Rettp.Terminal
import Rettp.VariableSources

/-!
# The command line

The commands `check` and `run` as processes that call the operating system: they read files and the
environment, send requests, poll the interrupt signal, and write to the terminal and to report
files. The answers are arbitrary, so a result about the runs holds whatever goes wrong outside.

Arguments are taken as they are parsed. A file of reports is named by the components of its path,
which is how paths are compared.
-/

namespace Rettp

/-! ## Arguments -/

/-- The components of a path. -/
abbrev FilePath := List String

/-- The arguments for the source and its variables. -/
structure SourceArgs where
  path : String
  envFile : Option String
  /-- the assignments of `--var`, in order -/
  assignments : List String

/-- The arguments of `check`. -/
structure CheckArgs where
  source : SourceArgs

/-- The arguments of `run`. -/
structure RunArgs where
  source : SourceArgs
  baseUrl : String
  /-- in milliseconds -/
  timeout : Option Nat
  jsonFile : Option FilePath
  junitFile : Option FilePath

/-! ## The operating system -/

/-- An error of the operating system, by its text. -/
abbrev IoError := String

/-- Whether Ctrl+C was pressed when the process looked. -/
inductive Signal where
  | pending
  | received
  | failed (error : IoError)

/-- The configuration of the HTTP client with its default deadline in milliseconds. -/
structure ClientConfig where
  http : HttpClientConfig
  defaultTimeout : Nat

/-- The calls that succeed or fail, and answer nothing else. -/
inductive IoCall where
  | openFile (path : String)
  | newRuntime
  | writeStdout (content : String)
  | flushStdout
  | writeStderr (line : String)
  | createDirAll (path : FilePath)
  | writeAll (temporary : FilePath) (content : String)
  | flush (temporary : FilePath)
  | syncAll (temporary : FilePath)
  | persist (temporary path : FilePath)
  /-- dropping a `NamedTempFile` -/
  | remove (temporary : FilePath)

/-- What the command asks of the outside. -/
inductive SystemCall where
  | io (call : IoCall)
  | metadata (path : String)
  /-- `take(limit).read_to_end` on an open file -/
  | read (path : String) (limit : Nat)
  | environment
  | newClient (config : ClientConfig)
  | execution (call : ExecutionCall)
  /-- a poll of `ctrl_c` -/
  | signal
  | isTerminal
  | newTempFile (parent : FilePath)

/-- What it is told. -/
def SystemCall.Answer : SystemCall → Type
  | .io _ => Except IoError Unit
  | .metadata _ => Except IoError Nat
  | .read _ _ => Except IoError ByteArray
  | .environment => List (OsString × OsString)
  | .newClient _ => Except HttpError Unit
  | .execution call => call.Answer
  | .signal => Signal
  | .isTerminal => Bool
  | .newTempFile _ => Except IoError FilePath

/-- A command as a process. -/
abbrev Cli := Process SystemCall SystemCall.Answer

namespace CommandLine

/-- A call that succeeds or fails, with nothing to return. -/
def io (call : IoCall) : Cli (Except IoError Unit) := Process.ask (SystemCall.io call)

/-- The length that the file system reports for a file. -/
def metadata (path : String) : Cli (Except IoError Nat) := Process.ask (SystemCall.metadata path)

/-- Read a file up to a limit. -/
def read (path : String) (limit : Nat) : Cli (Except IoError ByteArray) :=
  Process.ask (SystemCall.read path limit)

/-- The environment of the process. -/
def environment : Cli (List (OsString × OsString)) := Process.ask SystemCall.environment

/-- Build the HTTP client. -/
def newClient (config : ClientConfig) : Cli (Except HttpError Unit) :=
  Process.ask (SystemCall.newClient config)

/-- Whether standard output is a terminal. -/
def isTerminal : Cli Bool := Process.ask SystemCall.isTerminal

/-- A new file of the directory, with a name of its own. -/
def newTempFile (parent : FilePath) : Cli (Except IoError FilePath) :=
  Process.ask (SystemCall.newTempFile parent)

/-! ## Input -/

/-- `MAX_SOURCE_BYTES`: five MiB. -/
def maxSourceBytes : Nat := 5 * 1024 * 1024

/-- Why a source cannot be read. -/
inductive SourceInputError where
  | io (error : IoError)
  | tooLarge
  | invalidUtf8

/-- The text of a source that cannot be read. -/
def SourceInputError.display : SourceInputError → String
  | .io error => error
  | .tooLarge => s!"source file exceeds the {maxSourceBytes}-byte limit"
  | .invalidUtf8 => "source file must contain valid UTF-8"

/-- Read a source within the limit, whatever length the file system reports for it. -/
def readSource (path : String) : Cli (Except SourceInputError String) := do
  match ← io (.openFile path) with
  | .error error => return .error (.io error)
  | .ok _ =>
    match ← metadata path with
    | .error error => return .error (.io error)
    | .ok length =>
      if length > maxSourceBytes then return .error .tooLarge
      else
        match ← read path (maxSourceBytes + 1) with
        | .error error => return .error (.io error)
        | .ok bytes =>
          if bytes.size > maxSourceBytes then return .error .tooLarge
          else
            match String.fromUTF8? bytes with
            | none => return .error .invalidUtf8
            | some content => return .ok content

/-- Why an environment file cannot be loaded. -/
inductive EnvLoadError where
  | io (error : IoError)
  | invalid (error : EnvFileError)

/-- The text of an environment file that cannot be loaded. -/
def EnvLoadError.display : EnvLoadError → String
  | .io error => s!"could not read env file: {error}"
  | .invalid (.tooLarge limitBytes) => s!"env file exceeds the {limitBytes}-byte limit"
  | .invalid .invalidUtf8 => "env file must be valid UTF-8"
  | .invalid (.invalidEntry line reason) => s!"invalid env file entry at line {line}: {reason}"

/-- The text of a refused `--var` argument. -/
def assignmentErrorText : VariableAssignmentError → String
  | .missingEquals => "expected NAME=VALUE"
  | .invalidName .emptyVariableName => "variable name cannot be empty"
  | .invalidName (.invalidVariableName name) => s!"invalid variable name: {name}"

variable [Platform]

/-- `env_file::load` -/
def loadEnvFile (path : String) : Cli (Except EnvLoadError (List VariableAssignment)) := do
  match ← io (.openFile path) with
  | .error error => return .error (.io error)
  | .ok _ =>
    match ← read path (EnvFile.maxEnvFileBytes + 1) with
    | .error error => return .error (.io error)
    | .ok bytes => return (EnvFile.load bytes).mapError .invalid

/-- The loop over the `--var` assignments, which are numbered from `index` on. -/
def applyArguments (index : Nat) (store : VariableStore) :
    List String → Except String VariableStore
  | [] => .ok store
  | raw :: rest =>
    match VariableAssignment.fromStr raw with
    | .error error => .error s!"invalid --var assignment {index}: {assignmentErrorText error}"
    | .ok assignment => applyArguments (index + 1) (store.applyCli [assignment]) rest

/-- The variables of the environment and of a dotenv file. -/
def loadVariables (envFile : Option String) : Cli (Except String VariableStore) := do
  let store := VariableStore.fromEnvironment (← environment)
  match envFile with
  | none => return .ok store
  | some path =>
    match ← loadEnvFile path with
    | .error error => return .error s!"{path}: {error.display}"
    | .ok assignments => return .ok (store.applyCli assignments)

/-- The source and the variables: environment, environment file, arguments. -/
def prepareSource (arguments : SourceArgs) : Cli (Except String (SourceText × VariableStore)) := do
  match ← readSource arguments.path with
  | .error error => return .error s!"{arguments.path}: {error.display}"
  | .ok content =>
    match ← loadVariables arguments.envFile with
    | .error error => return .error error
    | .ok store =>
      return (applyArguments 1 store arguments.assignments).map (⟨arguments.path, content⟩, ·)

/-! ## Output -/

/-- `CHECK_FAILED` -/
def checkFailedCode : Nat := 3

/-- `INVALID_INPUT` -/
def invalidInputCode : Nat := 4

/-- `INTERRUPTED` -/
def interruptedCode : Nat := 130

/-- The code of a process that panics. -/
def panicCode : Nat := 101

/-- `output::stdout` -/
def stdout (content : String) : Cli (Except IoError Unit) := do
  match ← io (.writeStdout content) with
  | .error error => return .error error
  | .ok _ => io .flushStdout

/-- Write an error and end with a code, whether it could be written or not. -/
def emitError (code : Nat) (category message : String) : Cli Nat := do
  let _ ← io (.writeStderr s!"error[{category}]: {message}")
  return code

/-- Write the diagnostics line by line; the first one that cannot be written ends the process. -/
def emitDiagnostics (source : SourceText) : List CheckDiagnostic → Cli Nat
  | [] => return checkFailedCode
  | diagnostic :: rest =>
    match diagnosticLine source diagnostic with
    | none => return panicCode
    | some line => do
      match ← io (.writeStderr line) with
      | .error _ => return internalErrorCode
      | .ok _ => emitDiagnostics source rest

/-- The directory of a file, or the current one. -/
def usableParent (path : FilePath) : FilePath :=
  if path.dropLast.isEmpty then ["."] else path.dropLast

/-- A step on a temporary file, which is removed when the step fails. -/
def onTemporary (temporary : FilePath) (step : IoCall) (next : Cli (Except IoError Unit)) :
    Cli (Except IoError Unit) := do
  match ← io step with
  | .error error =>
    let _ ← io (.remove temporary)
    return .error error
  | .ok _ => next

/-- `output::atomic_file` -/
def atomicFile (path : FilePath) (content : String) : Cli (Except IoError Unit) := do
  let parent := usableParent path
  match ← io (.createDirAll parent) with
  | .error error => return .error error
  | .ok _ =>
    match ← newTempFile parent with
    | .error error => return .error error
    | .ok temporary =>
      onTemporary temporary (.writeAll temporary content) <|
      onTemporary temporary (.flush temporary) <|
      onTemporary temporary (.syncAll temporary) <|
      onTemporary temporary (.persist temporary path) <|
      return .ok ()

/-- Write a report to its file, if it has one. -/
def writeReport (file : Option FilePath) (content : String) : Cli (Except IoError Unit) :=
  match file with
  | none => return .ok ()
  | some path => atomicFile path content

/-- Write the requested report files and print the report, then end with the code of the result. -/
def emitRunReport (source : SourceText) (result : SuiteResult)
    (jsonFile junitFile : Option FilePath) : Cli Nat := do
  let report := RunReport.fromSuiteResult source.name result
  let color := if ← isTerminal then ColorMode.ansi else .plain
  match ← stdout (Terminal.render color report) with
  | .error error => emitError internalErrorCode "output" error
  | .ok _ =>
    match ← writeReport jsonFile (JsonReport.render report) with
    | .error error => emitError internalErrorCode "report" error
    | .ok _ =>
      match ← writeReport junitFile (Junit.render report) with
      | .error error => emitError internalErrorCode "report" error
      | .ok _ => return executionExitCode result

/-! ## Interruption -/

/-- How a race with Ctrl+C ends. -/
inductive InterruptOutcome (α : Type) where
  | completed (a : α)
  | interrupted

/-- The calls of the executor, among those of the system. -/
def executor : Process.Inside ExecutionCall.Answer SystemCall.Answer where
  call := .execution
  answer _ answer := answer
  event
    | ⟨.execution call, answer⟩ => some ⟨call, answer⟩
    | _ => none
  event_call _ _ := rfl

/-- The client is awaited; the clock is not. -/
def ExecutionCall.isAwait : ExecutionCall → Bool
  | .now => false
  | .send _ => true

/-- What the signal makes of an operation: it is dropped, or the signal cannot be monitored. -/
def signalOutcome : Signal → Option (Except IoError Unit)
  | .pending => none
  | .received => some (.ok ())
  | .failed error => some (.error error)

/-- A race that the signal or the operation won. -/
def raceOutcome {α : Type} : Except IoError Unit ⊕ α → Except IoError (InterruptOutcome α)
  | .inl (.ok _) => .ok .interrupted
  | .inl (.error error) => .error error
  | .inr a => .ok (.completed a)

/-- Run an operation until it is over or Ctrl+C is pressed. -/
def runUntilCtrlC {α : Type} (operation : Execution α) :
    Cli (Except IoError (InterruptOutcome α)) := do
  let outcome ←
    Process.race executor ExecutionCall.isAwait SystemCall.signal signalOutcome operation
  return raceOutcome outcome

/-! ## Commands -/

/-- The command `check`. -/
def check (arguments : CheckArgs) : Cli Nat := do
  match ← prepareSource arguments.source with
  | .error error => emitError invalidInputCode "input" error
  | .ok (source, store) =>
    match checkSource source (validationContext store) with
    | none => return panicCode
    | some checked =>
      if checked.hasErrors then emitDiagnostics source checked.diagnostics
      else
        match ← stdout s!"{source.name}: valid\n" with
        | .error error => emitError internalErrorCode "output" error
        | .ok _ => return successCode

/-- The deadline of a request in milliseconds, if none is given. -/
def defaultRequestTimeout : Nat := 30000

/-- `HttpClientConfig::with_default_timeout` -/
def withDefaultTimeout (config : ClientConfig) (timeout : Nat) : Except HttpError ClientConfig :=
  if timeout = 0 then .error (.invalidRequest "the default timeout must be greater than zero")
  else .ok { config with defaultTimeout := timeout }

/-- The configuration that the arguments ask for. -/
def clientConfig (crate : UrlCrate) (arguments : RunArgs) : Except HttpError ClientConfig := do
  let http ← HttpClientConfig.new crate arguments.baseUrl
  let config : ClientConfig := ⟨http, defaultRequestTimeout⟩
  match arguments.timeout with
  | none => return config
  | some timeout => withDefaultTimeout config timeout

/-- The part of `run` after the execution. -/
def conclude (arguments : RunArgs) (source : SourceText) :
    Except IoError (InterruptOutcome (Option SuiteResult)) → Cli Nat
  | .error error => emitError internalErrorCode "runner" error
  | .ok .interrupted => emitError interruptedCode "interrupted" "execution interrupted by Ctrl+C"
  | .ok (.completed none) => return panicCode
  | .ok (.completed (some result)) =>
    emitRunReport source result arguments.jsonFile arguments.junitFile

/-- The part of `run` after the check. -/
def runSuite (crate : UrlCrate) (arguments : RunArgs) (source : SourceText)
    (store : VariableStore) (suite : TestSuite) : Cli Nat := do
  match clientConfig crate arguments with
  | .error error => emitError invalidInputCode "configuration" error.display
  | .ok config =>
    match ← newClient config with
    | .error error => emitError internalErrorCode "runner" error.display
    | .ok _ =>
      match ← io .newRuntime with
      | .error error => emitError internalErrorCode "runner" error
      | .ok _ =>
        let execution ← runUntilCtrlC (Async.execute .default suite store)
        conclude arguments source execution

/-- The command `run`. -/
def run (crate : UrlCrate) (arguments : RunArgs) : Cli Nat := do
  if arguments.jsonFile.isSome && arguments.jsonFile == arguments.junitFile then
    emitError invalidInputCode "configuration"
      "--json-file and --junit-file must use different paths"
  else
    match ← prepareSource arguments.source with
    | .error error => emitError invalidInputCode "input" error
    | .ok (source, store) =>
      match checkSource source (validationContext store) with
      | none => return panicCode
      | some checked =>
        if checked.hasErrors then emitDiagnostics source checked.diagnostics
        else
          match checked.suite with
          | none =>
            emitError internalErrorCode "runner"
              "successful checking did not produce an executable suite"
          | some suite => runSuite crate arguments source store suite

end CommandLine
end Rettp
