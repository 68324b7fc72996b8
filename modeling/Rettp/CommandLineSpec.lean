import Rettp.CommandLine
import Rettp.ExecutionMeaning

/-!
# What the commands do

Runs of `check` and `run` with arbitrary answers from outside. A request is only sent for a source
that was accepted, and whatever the moment, what was sent is the beginning of what the suite means.
The exit code tells how a run ended.
-/

namespace Rettp

/-- The part of the system that a call is about. -/
inductive Device where
  | input | runtime | network | terminal | disk
  deriving DecidableEq

/-- What a call is made to. -/
def SystemCall.device : SystemCall → Device
  | .io (.openFile _) | .metadata _ | .read _ _ | .environment => .input
  | .io .newRuntime | .newClient _ | .signal => .runtime
  | .execution _ => .network
  | .io (.writeStdout _) | .io .flushStdout | .io (.writeStderr _) | .isTerminal => .terminal
  | .io _ | .newTempFile _ => .disk

/-- A call to the outside that failed. -/
def SystemCall.Failed : Process.Event SystemCall.Answer → Prop
  | ⟨.io _, .error _⟩ => True
  | ⟨.newClient _, .error _⟩ => True
  | ⟨.newTempFile _, .error _⟩ => True
  | ⟨.signal, .failed _⟩ => True
  | _ => False

namespace CommandLine

open Process (Runs After after_bind runs_bind_iff after_done_iff)

/-- The requests of a trace. -/
def requests (trace : List (Process.Event SystemCall.Answer)) : List ResolvedHttpRequest :=
  Async.requests (trace.filterMap executor.event)

/-- The requests of two traces, one after the other. -/
theorem requests_append (before after : List (Process.Event SystemCall.Answer)) :
    requests (before ++ after) = requests before ++ requests after := by
  rw [requests, List.filterMap_append, Async.requests_append]
  rfl

/-- A process that does not use the network executes nothing. -/
theorem executed_of_calls {α : Type} {p q : Cli α} (h : p.Calls fun c => c.device ≠ .network)
    {trace : List (Process.Event SystemCall.Answer)} (hafter : p.After trace q) :
    trace.filterMap executor.event = [] := by
  rw [List.filterMap_eq_nil_iff]
  intro event hevent
  have hdevice := h.of_after hafter event hevent
  obtain ⟨call, answer⟩ := event
  cases call with
  | execution c => exact absurd rfl hdevice
  | _ => rfl

/-- A process that does not use the network sends nothing. -/
theorem requests_of_calls {α : Type} {p q : Cli α} (h : p.Calls fun c => c.device ≠ .network)
    {trace : List (Process.Event SystemCall.Answer)} (hafter : p.After trace q) :
    requests trace = [] := by
  rw [requests, executed_of_calls h hafter]
  rfl

/-- A moment of a sequence whose first part does not use the network. -/
theorem after_bind_of_calls {α β : Type} {p : Cli α} {f : α → Cli β} {q : Cli β}
    (hp : p.Calls fun c => c.device ≠ .network)
    {trace : List (Process.Event SystemCall.Answer)} (h : (p >>= f).After trace q) :
    requests trace = [] ∨ ∃ before a after, trace = before ++ after ∧ p.Runs before a ∧
      (f a).After after q ∧ requests trace = requests after := by
  rcases after_bind h with ⟨p', hp', -⟩ | ⟨before, a, after, rfl, hbefore, hafter⟩
  · exact .inl (requests_of_calls hp hp')
  · refine .inr ⟨before, a, after, rfl, hbefore, hafter, ?_⟩
    rw [requests_append, requests_of_calls hp hbefore, List.nil_append]

/-! ## The calls of the parts -/

/-- A process that calls one device leaves the others alone. -/
theorem calls_device {α : Type} {p : Cli α} {device other : Device}
    (h : p.Calls fun c => c.device = device) (hne : device ≠ other) :
    p.Calls fun c => c.device ≠ other :=
  h.mono fun _ hc => hc ▸ hne

/-- Reading a source is input. -/
theorem calls_readSource (path : String) : (readSource path).Calls fun c => c.device = .input := by
  refine .bind (.ask rfl) fun opened => ?_
  split
  · exact .done _
  · refine .bind (.ask rfl) fun length => ?_
    split
    · exact .done _
    · split
      · exact .done _
      · refine .bind (.ask rfl) fun bytes => ?_
        split
        · exact .done _
        · split
          · exact .done _
          · split <;> exact .done _

/-- An error goes to the terminal. -/
theorem calls_emitError (code : Nat) (category message : String) :
    (emitError code category message).Calls fun c => c.device = .terminal :=
  .bind (.ask rfl) fun _ => .done _

/-- Output goes to the terminal. -/
theorem calls_stdout (content : String) : (stdout content).Calls fun c => c.device = .terminal := by
  refine .bind (.ask rfl) fun written => ?_
  split
  · exact .done _
  · exact .ask rfl

/-- Diagnostics go to the terminal. -/
theorem calls_emitDiagnostics (source : SourceText) (diagnostics : List CheckDiagnostic) :
    (emitDiagnostics source diagnostics).Calls fun c => c.device = .terminal := by
  induction diagnostics with
  | nil => exact .done _
  | cons diagnostic rest ih =>
    rw [emitDiagnostics]
    split
    · exact .done _
    · refine .bind (.ask rfl) fun written => ?_
      split
      · exact .done _
      · exact ih

/-- A step on a temporary file is one on the disk. -/
theorem calls_onTemporary {temporary : FilePath} {step : IoCall} {next : Cli (Except IoError Unit)}
    (hstep : (SystemCall.io step).device = .disk) (hnext : next.Calls fun c => c.device = .disk) :
    (onTemporary temporary step next).Calls fun c => c.device = .disk := by
  refine .bind (.ask hstep) fun done => ?_
  split
  · exact .bind (.ask rfl) fun _ => .done _
  · exact hnext

/-- Building the client is no request. -/
theorem calls_newClient (config : ClientConfig) :
    (newClient config).Calls fun c => c.device = .runtime := .ask rfl

/-- Starting the runtime is no request. -/
theorem calls_newRuntime : (io .newRuntime).Calls fun c => c.device = .runtime := .ask rfl

/-- Writing a file is work on the disk. -/
theorem calls_atomicFile (path : FilePath) (content : String) :
    (atomicFile path content).Calls fun c => c.device = .disk := by
  refine .bind (.ask rfl) fun created => ?_
  split
  · exact .done _
  · refine .bind (.ask rfl) fun temporary => ?_
    split
    · exact .done _
    · exact calls_onTemporary rfl (calls_onTemporary rfl (calls_onTemporary rfl
        (calls_onTemporary rfl (.done _))))

/-- Writing a report is work on the disk. -/
theorem calls_writeReport (file : Option FilePath) (content : String) :
    (writeReport file content).Calls fun c => c.device = .disk := by
  cases file with
  | none => exact .done _
  | some path => exact calls_atomicFile path content

variable [Platform]

/-- Preparing a source is input. -/
theorem calls_prepareSource (arguments : SourceArgs) :
    (prepareSource arguments).Calls fun c => c.device = .input := by
  refine .bind (calls_readSource _) fun content => ?_
  split
  · exact .done _
  · refine .bind (.bind (.ask rfl) fun entries => ?_) fun loaded => ?_
    · split
      · exact .done _
      · refine .bind (.bind (.ask rfl) fun opened => ?_) fun assignments => ?_
        · split
          · exact .done _
          · refine .bind (.ask rfl) fun bytes => ?_
            split <;> exact .done _
        · split <;> exact .done _
    · split <;> exact .done _

/-- Reporting sends nothing. -/
theorem calls_emitRunReport (source : SourceText) (result : SuiteResult)
    (jsonFile junitFile : Option FilePath) :
    (emitRunReport source result jsonFile junitFile).Calls fun c => c.device ≠ .network := by
  refine .bind (.ask (by decide)) fun terminal => ?_
  refine .bind (calls_device (calls_stdout _) (by decide)) fun printed => ?_
  split
  · exact calls_device (calls_emitError _ _ _) (by decide)
  · refine .bind (calls_device (calls_writeReport _ _) (by decide)) fun json => ?_
    split
    · exact calls_device (calls_emitError _ _ _) (by decide)
    · refine .bind (calls_device (calls_writeReport _ _) (by decide)) fun junit => ?_
      split
      · exact calls_device (calls_emitError _ _ _) (by decide)
      · exact .done _

/-- After the execution nothing is sent. -/
theorem calls_conclude (arguments : RunArgs) (source : SourceText)
    (execution : Except IoError (InterruptOutcome (Option SuiteResult))) :
    (conclude arguments source execution).Calls fun c => c.device ≠ .network := by
  rcases execution with error | (result | result) | _
  · exact calls_device (calls_emitError _ _ _) (by decide)
  · exact .done _
  · exact calls_emitRunReport _ _ _ _
  · exact calls_device (calls_emitError _ _ _) (by decide)

/-! ## What is sent -/

section

omit [Platform]

variable {trace : List (Process.Event SystemCall.Answer)} {p : Cli Nat}

/-- No error sends a request. -/
theorem requests_emitError {code : Nat} {category message : String}
    (h : (emitError code category message).After trace p) : requests trace = [] :=
  requests_of_calls (calls_device (calls_emitError _ _ _) (by decide)) h

/-- No diagnostic sends a request. -/
theorem requests_emitDiagnostics {source : SourceText} {diagnostics : List CheckDiagnostic}
    (h : (emitDiagnostics source diagnostics).After trace p) : requests trace = [] :=
  requests_of_calls (calls_device (calls_emitDiagnostics _ _) (by decide)) h

end

/-- Nothing is sent before the source is read. -/
theorem requests_prepareSource {arguments : SourceArgs}
    {trace : List (Process.Event SystemCall.Answer)}
    {p : Cli (Except String (SourceText × VariableStore))}
    (h : (prepareSource arguments).After trace p) : requests trace = [] :=
  requests_of_calls (calls_device (calls_prepareSource _) (by decide)) h

/-- The source and the variables of the arguments, and the suite that the source is accepted as. -/
structure Accepted (arguments : SourceArgs) (trace : List (Process.Event SystemCall.Answer))
    (source : SourceText) (store : VariableStore) (suite : TestSuite) : Prop where
  prepared : (prepareSource arguments).Runs trace (.ok (source, store))
  checked : checkSource source (validationContext store) = some ⟨some suite, []⟩

omit [Platform] in
/-- Without errors the diagnostics of a report are empty. -/
theorem eq_of_not_hasErrors {report : CheckReport} (h : ¬ report.hasErrors = true) :
    report = ⟨report.suite, []⟩ := by
  obtain ⟨suite, diagnostics⟩ := report
  rw [CheckReport.hasErrors, Bool.not_eq_true', Bool.not_eq_false, List.isEmpty_iff] at h
  rw [show diagnostics = [] from h]

/-- A moment of a run is before anything is sent, or in the execution of an accepted suite. -/
theorem after_run {crate : UrlCrate} {arguments : RunArgs}
    {trace : List (Process.Event SystemCall.Answer)} {p : Cli Nat}
    (h : (run crate arguments).After trace p) :
    requests trace = [] ∨ ∃ before after source store suite, trace = before ++ after ∧
      Accepted arguments.source before source store suite ∧
      (runSuite crate arguments source store suite).After after p := by
  rw [run] at h
  split at h
  · exact .inl (requests_emitError h)
  · rcases after_bind_of_calls (calls_device (calls_prepareSource _) (by decide)) h with
      h | ⟨before, prepared, after, rfl, hbefore, hafter, hsent⟩
    · exact .inl h
    · cases prepared with
      | error error => exact .inl (hsent.trans (requests_emitError hafter))
      | ok prepared =>
        obtain ⟨source, store⟩ := prepared
        dsimp only at hafter
        split at hafter
        · -- the branch where the checker panics
          obtain ⟨rfl, -⟩ := after_done_iff.mp hafter
          exact .inl hsent
        · next checked hchecked =>
          split at hafter
          · exact .inl (hsent.trans (requests_emitDiagnostics hafter))
          · next hclean =>
            split at hafter
            · exact .inl (hsent.trans (requests_emitError hafter))
            · next suite hsuite =>
              refine .inr ⟨before, after, source, store, suite, rfl, ⟨hbefore, ?_⟩, hafter⟩
              rw [hchecked, ← hsuite, eq_of_not_hasErrors hclean]

section

omit [Platform]

/-- What happens in `runUntilCtrlC` happens in its operation until it is stopped. -/
theorem after_runUntilCtrlC {α : Type} {operation : Execution α}
    {trace : List (Process.Event SystemCall.Answer)} {p : Cli (Except IoError (InterruptOutcome α))}
    (h : (runUntilCtrlC operation).After trace p) :
    ∃ q, operation.After (trace.filterMap executor.event) q ∧
      (∀ a, p = .done (.ok (.completed a)) → q = .done a) ∧
      (p = .done (.ok .interrupted) → ⟨.signal, Signal.received⟩ ∈ trace) ∧
      ∀ error, p = .done (.error error) → ⟨.signal, Signal.failed error⟩ ∈ trace := by
  obtain ⟨r, hrace, rfl⟩ := Process.after_map h
  obtain ⟨⟨q, hq, hdone⟩, hstopped⟩ := Process.raced (fun _ => rfl) hrace
  refine ⟨q, hq, ?_⟩
  cases r with
  -- still under way, so nothing is said of an outcome
  | call c next => exact ⟨nofun, nofun, nofun⟩
  | done outcome =>
    rw [Process.done_bind]
    rcases outcome with (error | stopped) | a
    · refine ⟨nofun, nofun, ?_⟩
      rintro _ ⟨⟩
      obtain ⟨signal, hmem, hsignal⟩ := hstopped _ rfl
      cases signal with
      | failed error =>
        cases hsignal
        exact hmem
      | _ => cases hsignal
    · refine ⟨nofun, fun _ => ?_, nofun⟩
      obtain ⟨signal, hmem, hsignal⟩ := hstopped _ rfl
      cases signal with
      | received => exact hmem
      | _ => cases hsignal
    · refine ⟨?_, nofun, nofun⟩
      rintro _ ⟨⟩
      exact hdone a rfl

end

/-- A moment of `runSuite` is a moment of the execution, with the same requests. -/
theorem after_runSuite {crate : UrlCrate} {arguments : RunArgs} {source : SourceText}
    {store : VariableStore} {suite : TestSuite} {trace : List (Process.Event SystemCall.Answer)}
    {p : Cli Nat} (h : (runSuite crate arguments source store suite).After trace p) :
    ∃ executed q, (Async.execute .default suite store).After executed q ∧
      requests trace = Async.requests executed := by
  have hnone {trace : List (Process.Event SystemCall.Answer)} (hsent : requests trace = []) :
      ∃ executed q, (Async.execute .default suite store).After executed q ∧
        requests trace = Async.requests executed :=
    ⟨[], _, .start _, hsent⟩
  rw [runSuite] at h
  split at h
  · exact hnone (requests_emitError h)
  · next config _ =>
    rcases after_bind_of_calls (calls_device (calls_newClient config) (by decide)) h with
      h | ⟨_, client, after, rfl, -, h, hsent⟩
    · exact hnone h
    · rw [hsent]
      cases client with
      | error error => exact hnone (requests_emitError h)
      | ok _ =>
        rcases after_bind_of_calls (calls_device calls_newRuntime (by decide)) h with
          h | ⟨_, runtime, after, rfl, -, h, hsent⟩
        · exact hnone h
        · rw [hsent]
          cases runtime with
          | error error => exact hnone (requests_emitError h)
          | ok _ =>
            rcases after_bind h with ⟨p', hp', -⟩ | ⟨before, outcome, after, rfl, hbefore, hafter⟩
            · -- the execution is still under way
              obtain ⟨q, hq, -⟩ := after_runUntilCtrlC hp'
              exact ⟨_, q, hq, rfl⟩
            · -- what follows it writes reports and sends nothing
              obtain ⟨q, hq, -⟩ := after_runUntilCtrlC hbefore
              refine ⟨_, q, hq, ?_⟩
              rw [requests_append, requests_of_calls (calls_conclude _ _ _) hafter,
                List.append_nil]
              rfl

omit [Platform] in
/-- The default limit of resolution is within that of evaluation. -/
theorem default_covers : ExecutionEngine.default.resolver.maxResolutionDepth ≤
    ExecutionEngine.default.assertions.maxJsonDepth := by
  decide

/-- **At every moment of every run**, whatever is answered from outside and also when the run is
interrupted or cut off, nothing was sent yet, or the source was accepted under the names of the
variables, and what was sent is the beginning of what the suite means against some client. -/
theorem run_sends {crate : UrlCrate} {arguments : RunArgs}
    {trace : List (Process.Event SystemCall.Answer)} {p : Cli Nat}
    (h : (run crate arguments).After trace p) :
    requests trace = [] ∨ ∃ before source store suite client verdicts sent, before <+: trace ∧
      Accepted arguments.source before source store suite ∧
      SuiteRuns .default client suite store verdicts sent ∧ requests trace <+: sent := by
  rcases after_run h with h | ⟨before, after, source, store, suite, rfl, haccepted, hafter⟩
  · exact .inl h
  · obtain ⟨executed, q, hq, hsent⟩ := after_runSuite hafter
    obtain ⟨client, clock, result, w, hrun, hinitial, -⟩ := Async.execute_after _ hq
    obtain ⟨result', w', hrun', hmeans⟩ := execute_suiteRuns haccepted.checked
      (fun name => mem_validationContext) default_covers client clock
    obtain ⟨rfl, rfl⟩ := Prod.mk.inj (Option.some.inj (hrun.symm.trans hrun'))
    refine .inr ⟨before, source, store, suite, client, _, _, List.prefix_append _ _, haccepted,
      hmeans, ?_⟩
    rw [requests_append, requests_prepareSource haccepted.prepared, List.nil_append, hsent]
    exact hinitial

/-- Surroundings where nothing fails and every file has the same content. -/
def calm (content : ByteArray) (client : HttpClient) (clock : Clock) (seen : Async.Seen) :
    (c : SystemCall) → c.Answer × Async.Seen
  | .io _ => (.ok (), seen)
  | .metadata _ => (.ok content.size, seen)
  | .read _ limit => (.ok (content.extract 0 limit), seen)
  | .environment => ([], seen)
  | .newClient _ => (.ok (), seen)
  | .execution call => Async.surroundings client clock seen call
  | .signal => (.pending, seen)
  | .isTerminal => (false, seen)
  | .newTempFile parent => (.ok (parent ++ [".tmp"]), seen)

/-- The suite with the token, and a server that hands it out. -/
def tokenSurroundings : Async.Seen → (c : SystemCall) → c.Answer × Async.Seen :=
  calm tokenSource.content.toUTF8
    (fun _ _ => .ok ⟨200, ResponseHeaders.new, .json ByteArray.empty tokenBody⟩) fun n => n

/-- A run of the suite with the token, without report files. -/
def tokenArguments : RunArgs where
  source := ⟨"token.rttp", none, []⟩
  baseUrl := "https://service.test/"
  timeout := none
  jsonFile := some ["report.json"]
  junitFile := some ["report.xml"]

omit [Platform] in
/-- The suite with the token passes. -/
theorem runs_token :
    letI := asciiPlatform
    (run plainCrate tokenArguments).Runs
      ((run plainCrate tokenArguments).performed tokenSurroundings ([], 0)) successCode := by
  let := asciiPlatform
  have hcode : ((run plainCrate tokenArguments).perform tokenSurroundings ([], 0)).1 = 0 := by
    decide +kernel
  have hruns := Process.runs_performed tokenSurroundings (run plainCrate tokenArguments) ([], 0)
  rw [hcode] at hruns
  exact hruns

omit [Platform] in
/-- Both requests of a suite with two tests are sent. -/
theorem run_sends_token :
    letI := asciiPlatform
    ∃ trace, (run plainCrate tokenArguments).Runs trace successCode ∧
      (requests trace).length = 2 ∧
      ∃ before source store suite client verdicts sent, before <+: trace ∧
        Accepted tokenArguments.source before source store suite ∧
        SuiteRuns .default client suite store verdicts sent ∧ requests trace <+: sent := by
  let := asciiPlatform
  have hsent : (requests ((run plainCrate tokenArguments).performed tokenSurroundings
      ([], 0))).length = 2 := by
    decide +kernel
  refine ⟨_, runs_token, hsent, (run_sends runs_token).resolve_left fun h => ?_⟩
  rw [h] at hsent
  cases hsent

/-! ## Exit codes -/

section

omit [Platform]

/-- Something outside failed. -/
def SomeFailed (trace : List (Process.Event SystemCall.Answer)) : Prop :=
  ∃ event ∈ trace, SystemCall.Failed event

/-- A failure in a part of a trace is one of the whole. -/
theorem SomeFailed.append {before after : List (Process.Event SystemCall.Answer)}
    (h : SomeFailed before ∨ SomeFailed after) : SomeFailed (before ++ after) := by
  rcases h with ⟨event, hmem, h⟩ | ⟨event, hmem, h⟩
  · exact ⟨event, List.mem_append_left _ hmem, h⟩
  · exact ⟨event, List.mem_append_right _ hmem, h⟩

/-- An error ends the process with its code. -/
theorem runs_emitError {code code' : Nat} {category message : String}
    {trace : List (Process.Event SystemCall.Answer)}
    (h : (emitError code category message).Runs trace code') : code' = code := by
  obtain ⟨_, _, _, -, -, h⟩ := runs_bind_iff.mp h
  exact Process.done.inj (after_done_iff.mp h).2

/-- A call leaves one event. -/
theorem runs_io {call : IoCall} {answer : Except IoError Unit}
    {trace : List (Process.Event SystemCall.Answer)} (h : (io call).Runs trace answer) :
    trace = [⟨.io call, answer⟩] :=
  Process.runs_ask_iff.mp h

/-- A call that fails is a failure. -/
theorem someFailed_io {call : IoCall} {error : IoError}
    {trace : List (Process.Event SystemCall.Answer)} (h : (io call).Runs trace (.error error)) :
    SomeFailed trace := by
  rw [runs_io h]
  exact ⟨_, List.mem_singleton_self _, trivial⟩

/-- Output is written, or something failed. -/
theorem runs_stdout {content : String} {answer : Except IoError Unit}
    {trace : List (Process.Event SystemCall.Answer)} (h : (stdout content).Runs trace answer) :
    (∃ error, answer = .error error ∧ SomeFailed trace) ∨
      answer = .ok () ∧ ⟨.io (.writeStdout content), Except.ok ()⟩ ∈ trace := by
  obtain ⟨before, written, after, rfl, hbefore, hafter⟩ := runs_bind_iff.mp h
  cases written with
  | error error =>
    obtain ⟨rfl, hdone⟩ := after_done_iff.mp hafter
    exact .inl ⟨error, Process.done.inj hdone, .append (.inl (someFailed_io hbefore))⟩
  | ok _ =>
    cases answer with
    | error error => exact .inl ⟨error, rfl, .append (.inr (someFailed_io hafter))⟩
    | ok _ =>
      rw [runs_io hbefore]
      exact .inr ⟨rfl, List.mem_append_left _ (List.mem_singleton_self _)⟩

/-- Every diagnostic is written, in order. -/
theorem runs_emitDiagnostics {source : SourceText} {diagnostics : List CheckDiagnostic} {code : Nat}
    {trace : List (Process.Event SystemCall.Answer)}
    (h : (emitDiagnostics source diagnostics).Runs trace code) :
    (code = internalErrorCode ∧ SomeFailed trace) ∨ code = checkFailedCode ∧
      ∃ lines : List String, diagnostics.map (diagnosticLine source) = lines.map some ∧
        trace = lines.map fun line => ⟨.io (.writeStderr line), Except.ok ()⟩ := by
  induction diagnostics generalizing trace with
  | nil =>
    obtain ⟨rfl, hdone⟩ := after_done_iff.mp h
    exact .inr ⟨Process.done.inj hdone, [], rfl, rfl⟩
  | cons diagnostic rest ih =>
    obtain ⟨line, hline⟩ := Option.isSome_iff_exists.mp (diagnosticLine_isSome source diagnostic)
    rw [emitDiagnostics, hline] at h
    obtain ⟨before, written, after, rfl, hbefore, hafter⟩ := runs_bind_iff.mp h
    cases written with
    | error error =>
      obtain ⟨rfl, hdone⟩ := after_done_iff.mp hafter
      exact .inl ⟨Process.done.inj hdone, .append (.inl (someFailed_io hbefore))⟩
    | ok _ =>
      rcases ih hafter with ⟨rfl, hfailed⟩ | ⟨rfl, lines, hlines, rfl⟩
      · exact .inl ⟨rfl, .append (.inr hfailed)⟩
      · refine .inr ⟨rfl, line :: lines, ?_, ?_⟩
        · rw [List.map_cons, hline, hlines, List.map_cons]
        · rw [runs_io hbefore, List.map_cons, List.singleton_append]

/-- A step on a temporary file succeeds, or something failed. -/
theorem runs_onTemporary {temporary : FilePath} {step : IoCall} {next : Cli (Except IoError Unit)}
    {answer : Except IoError Unit} {trace : List (Process.Event SystemCall.Answer)}
    (h : (onTemporary temporary step next).Runs trace answer)
    (hnext : ∀ {trace answer}, next.Runs trace answer → answer = .ok () ∨ SomeFailed trace) :
    answer = .ok () ∨ SomeFailed trace := by
  obtain ⟨before, done, after, rfl, hbefore, hafter⟩ := runs_bind_iff.mp h
  cases done with
  | error error => exact .inr (.append (.inl (someFailed_io hbefore)))
  | ok _ => exact (hnext hafter).imp_right fun h => .append (.inr h)

/-- A file is written, or something failed. -/
theorem runs_atomicFile {path : FilePath} {content : String} {answer : Except IoError Unit}
    {trace : List (Process.Event SystemCall.Answer)}
    (h : (atomicFile path content).Runs trace answer) : answer = .ok () ∨ SomeFailed trace := by
  obtain ⟨before, created, after, rfl, hbefore, hafter⟩ := runs_bind_iff.mp h
  cases created with
  | error error => exact .inr (.append (.inl (someFailed_io hbefore)))
  | ok _ =>
    obtain ⟨before', temporary, after', rfl, hbefore', hafter'⟩ := runs_bind_iff.mp hafter
    cases temporary with
    | error error =>
      rw [Process.runs_ask_iff.mp hbefore']
      exact .inr (.append (.inr (.append (.inl ⟨_, List.mem_singleton_self _, trivial⟩))))
    | ok temporary =>
      refine (runs_onTemporary hafter' fun h => runs_onTemporary h fun h => runs_onTemporary h
        fun h => runs_onTemporary h fun h => .inl ?_).imp_right fun h =>
          .append (.inr (.append (.inr h)))
      exact Process.done.inj (after_done_iff.mp h).2

/-- A report is written, or something failed. -/
theorem runs_writeReport {file : Option FilePath} {content : String} {answer : Except IoError Unit}
    {trace : List (Process.Event SystemCall.Answer)}
    (h : (writeReport file content).Runs trace answer) : answer = .ok () ∨ SomeFailed trace := by
  cases file with
  | none => exact .inl (Process.done.inj (after_done_iff.mp h).2)
  | some path => exact runs_atomicFile h

end

/-- The report that people see was written. -/
def Printed (source : SourceText) (result : SuiteResult)
    (trace : List (Process.Event SystemCall.Answer)) : Prop :=
  ∃ color, ⟨.io (.writeStdout (Terminal.render color (.fromSuiteResult source.name result))),
    Except.ok ()⟩ ∈ trace

/-- The report is printed and the code is that of the result, or something failed. -/
theorem runs_emitRunReport {source : SourceText} {result : SuiteResult}
    {jsonFile junitFile : Option FilePath} {code : Nat}
    {trace : List (Process.Event SystemCall.Answer)}
    (h : (emitRunReport source result jsonFile junitFile).Runs trace code) :
    (code = internalErrorCode ∧ SomeFailed trace) ∨
      code = executionExitCode result ∧ Printed source result trace := by
  have herror {code : Nat} {category message : String}
      {before after : List (Process.Event SystemCall.Answer)}
      (h : (emitError internalErrorCode category message).Runs after code)
      (hfailed : SomeFailed before) : code = internalErrorCode ∧ SomeFailed (before ++ after) :=
    ⟨runs_emitError h, .append (.inl hfailed)⟩
  obtain ⟨before, terminal, after, rfl, -, h⟩ := runs_bind_iff.mp h
  refine Or.imp (fun h => ⟨h.1, .append (.inr h.2)⟩) (fun h => ⟨h.1, ?_⟩)
    (?_ : (_ ∧ SomeFailed after) ∨ _ ∧ Printed source result after)
  · obtain ⟨color, hprinted⟩ := h.2
    exact ⟨color, List.mem_append_right _ hprinted⟩
  obtain ⟨before, printed, after, rfl, hprinted, h⟩ := runs_bind_iff.mp h
  rcases runs_stdout hprinted with ⟨error, rfl, hfailed⟩ | ⟨rfl, hwritten⟩
  · exact .inl (herror h hfailed)
  · obtain ⟨before', json, after, rfl, hjson, h⟩ := runs_bind_iff.mp h
    cases json with
    | error error =>
      have hfailed := (runs_writeReport hjson).resolve_left nofun
      obtain ⟨hcode, hfailed⟩ := herror h hfailed
      exact .inl ⟨hcode, .append (.inr hfailed)⟩
    | ok _ =>
      obtain ⟨before'', junit, after, rfl, hjunit, h⟩ := runs_bind_iff.mp h
      cases junit with
      | error error =>
        have hfailed := (runs_writeReport hjunit).resolve_left nofun
        obtain ⟨hcode, hfailed⟩ := herror h hfailed
        exact .inl ⟨hcode, .append (.inr (.append (.inr hfailed)))⟩
      | ok _ =>
        exact .inr ⟨Process.done.inj (after_done_iff.mp h).2, _,
          List.mem_append_left _ hwritten⟩

/-- How a run of an accepted suite ends. -/
inductive SuiteEnded (crate : UrlCrate) (arguments : RunArgs) (source : SourceText)
    (store : VariableStore) (suite : TestSuite) (trace : List (Process.Event SystemCall.Answer)) :
    Nat → Prop
  | unconfigured {error : HttpError} (h : clientConfig crate arguments = .error error)
      (hsent : requests trace = []) :
      SuiteEnded crate arguments source store suite trace invalidInputCode
  | failed (h : SomeFailed trace) :
      SuiteEnded crate arguments source store suite trace internalErrorCode
  | interrupted (h : ⟨.signal, Signal.received⟩ ∈ trace) :
      SuiteEnded crate arguments source store suite trace interruptedCode
  | panicked {executed : List (Process.Event ExecutionCall.Answer)}
      (h : (Async.execute .default suite store).Runs executed none) :
      SuiteEnded crate arguments source store suite trace panicCode
  | completed {executed : List (Process.Event ExecutionCall.Answer)} {result : SuiteResult}
      (h : (Async.execute .default suite store).Runs executed (some result))
      (hsent : requests trace = Async.requests executed) (hprinted : Printed source result trace) :
      SuiteEnded crate arguments source store suite trace (executionExitCode result)

section

variable {crate : UrlCrate} {arguments : RunArgs} {source : SourceText} {store : VariableStore}
  {suite : TestSuite} {code : Nat} {trace before after : List (Process.Event SystemCall.Answer)}

/-- What was done before, without requests. -/
theorem SuiteEnded.append (h : SuiteEnded crate arguments source store suite after code)
    (hbefore : requests before = []) :
    SuiteEnded crate arguments source store suite (before ++ after) code := by
  have hsent : requests (before ++ after) = requests after := by
    rw [requests_append, hbefore, List.nil_append]
  cases h with
  | unconfigured h hnone => exact .unconfigured h (hsent.trans hnone)
  | failed h => exact .failed (.append (.inr h))
  | interrupted h => exact .interrupted (List.mem_append_right _ h)
  | panicked h => exact .panicked h
  | completed h hexecuted hprinted =>
    obtain ⟨color, hprinted⟩ := hprinted
    exact .completed h (hsent.trans hexecuted) ⟨color, List.mem_append_right _ hprinted⟩

/-- Where an error ends a run, it ended as its part before did. -/
theorem SuiteEnded.of_emitError {category message : String} (hbefore : SomeFailed before)
    (h : (emitError internalErrorCode category message).Runs after code) :
    SuiteEnded crate arguments source store suite (before ++ after) code := by
  rw [runs_emitError h]
  exact .failed (.append (.inl hbefore))

/-- How the execution ends. -/
theorem runs_execution {execution : Except IoError (InterruptOutcome (Option SuiteResult))}
    (hexecution : (runUntilCtrlC (Async.execute .default suite store)).Runs before execution)
    (h : (conclude arguments source execution).Runs after code) :
    SuiteEnded crate arguments source store suite (before ++ after) code := by
  obtain ⟨q, hq, hcompleted, hinterrupted, hfailed⟩ := after_runUntilCtrlC hexecution
  rcases execution with error | (result | result) | _
  · exact .of_emitError ⟨_, hfailed error rfl, trivial⟩ h
  · obtain ⟨rfl, hdone⟩ := after_done_iff.mp h
    rw [Process.done.inj hdone]
    rw [hcompleted _ rfl] at hq
    exact .panicked hq
  · rw [hcompleted _ rfl] at hq
    have hsent : requests (before ++ after) = Async.requests (before.filterMap executor.event) := by
      rw [requests_append, requests_of_calls (calls_emitRunReport _ _ _ _) h, List.append_nil]
      rfl
    rcases runs_emitRunReport h with ⟨rfl, hfailed⟩ | ⟨rfl, color, hprinted⟩
    · exact .failed (.append (.inr hfailed))
    · exact .completed hq hsent ⟨color, List.mem_append_right _ hprinted⟩
  · rw [runs_emitError h]
    exact .interrupted (List.mem_append_left _ (hinterrupted rfl))

/-- How the execution of an accepted suite ends. -/
theorem runs_runSuite (h : (runSuite crate arguments source store suite).Runs trace code) :
    SuiteEnded crate arguments source store suite trace code := by
  rw [runSuite] at h
  split at h
  · next error hconfig =>
    rw [runs_emitError h]
    exact .unconfigured hconfig (requests_emitError h)
  · next config _ =>
    obtain ⟨before, client, after, rfl, hclient, h⟩ := runs_bind_iff.mp h
    have hquiet := requests_of_calls (calls_device (calls_newClient config) (by decide)) hclient
    cases client with
    | error error =>
      rw [Process.runs_ask_iff.mp hclient]
      exact .of_emitError ⟨_, List.mem_singleton_self _, trivial⟩ h
    | ok _ =>
      refine .append ?_ hquiet
      obtain ⟨before, runtime, after, rfl, hruntime, h⟩ := runs_bind_iff.mp h
      have hquiet := requests_of_calls (calls_device calls_newRuntime (by decide)) hruntime
      cases runtime with
      | error error => exact .of_emitError (someFailed_io hruntime) h
      | ok _ =>
        refine .append ?_ hquiet
        obtain ⟨before, execution, after, rfl, hexecution, h⟩ := runs_bind_iff.mp h
        exact runs_execution hexecution h

end

/-! ## The documented exit codes -/

omit [Platform] in
/-- Some test of the core did not pass. -/
def CoreFails (suite : TestSuite) (verdicts : List (List ExecutionStatus)) : Prop :=
  ∃ block ∈ suite.blocks.zip verdicts, block.1.isCore = true ∧
    ∃ verdict ∈ block.2, verdict ≠ ExecutionStatus.passed

instance (suite : TestSuite) (verdicts : List (List ExecutionStatus)) :
    Decidable (CoreFails suite verdicts) :=
  inferInstanceAs (Decidable (∃ block ∈ _, _))

/-- The exit code for the verdicts on the tests of a suite: success, a failed core, or another
failed test. -/
def verdictCode (suite : TestSuite) (verdicts : List (List ExecutionStatus)) : Nat :=
  if ∀ block ∈ verdicts, ∀ verdict ∈ block, verdict = .passed then successCode
  else if CoreFails suite verdicts then coreAbortedCode
  else testFailedCode

omit [Platform] in
/-- Whether the core failed, from its verdicts. -/
theorem coreFails_iff {blocks : List SuiteBlock} {results : List BlockResult}
    (h : List.Forall₂ SameShape blocks results) :
    (∃ block ∈ blocks.zip (results.map BlockResult.verdicts), block.1.isCore = true ∧
        ∃ verdict ∈ block.2, verdict ≠ ExecutionStatus.passed) ↔
      ∃ result ∈ results, result.isCore = true ∧ ∃ t ∈ result.tests, t.status ≠ .passed := by
  induction h with
  | nil => simp
  | @cons block result blocks results h _ ih =>
    have hhead : (block.isCore = true ∧ ∃ verdict ∈ result.verdicts, verdict ≠ .passed) ↔
        result.isCore = true ∧ ∃ t ∈ result.tests, t.status ≠ .passed := by
      rw [h.isCore_eq, BlockResult.verdicts]
      simp
    rw [List.map_cons, List.zip_cons_cons]
    simp only [List.mem_cons, or_and_right, exists_or, exists_eq_left, hhead, ih]

/-- The exit code of a result is that of its verdicts. -/
theorem executionExitCode_eq {engine : ExecutionEngine} {suite : TestSuite} {result : SuiteResult}
    {attempts : List Attempt} {sent : List ResolvedHttpRequest}
    (h : Scheduled engine suite result attempts sent) :
    executionExitCode result =
      verdictCode suite (result.blocks.map BlockResult.verdicts) := by
  obtain ⟨hsuccess, htestFailed, hcoreAborted, -⟩ := h.exitCode_eq
  have hcore : CoreFails suite (result.blocks.map BlockResult.verdicts) ↔
      result.status = .aborted := (coreFails_iff h.shape).trans h.aborted.symm
  unfold verdictCode
  split
  · next hall => exact hsuccess.mpr (h.passed_iff_verdicts.mpr hall)
  · next hall =>
    split
    · next hfails => exact hcoreAborted.mpr (hcore.mp hfails)
    · next hfails =>
      refine htestFailed.mpr ?_
      cases hstatus : result.status with
      | passed => exact absurd (h.passed_iff_verdicts.mp hstatus) hall
      | failed => rfl
      | skipped => exact absurd hstatus h.status_ne_skipped
      | aborted => exact absurd (hcore.mpr hstatus) hfails

/-- A whole execution of an accepted suite has a result, which is what the suite means against some
client. -/
theorem execute_runs {source : SourceText} {store : VariableStore} {suite : TestSuite}
    (hchecked : checkSource source (validationContext store) = some ⟨some suite, []⟩)
    {executed : List (Process.Event ExecutionCall.Answer)} {outcome : Option SuiteResult}
    (h : (Async.execute .default suite store).Runs executed outcome) :
    ∃ client result, outcome = some result ∧
      executionExitCode result = verdictCode suite (result.blocks.map BlockResult.verdicts) ∧
      SuiteRuns .default client suite store (result.blocks.map BlockResult.verdicts)
        (Async.requests executed) := by
  obtain ⟨client, clock, result, w, hrun, -, hdone⟩ := Async.execute_after _ h
  obtain ⟨rfl, hexecuted⟩ := hdone outcome rfl
  obtain ⟨result', w', hrun', hmeans⟩ := execute_suiteRuns hchecked
    (fun name => mem_validationContext) default_covers client clock
  obtain ⟨rfl, rfl⟩ := Prod.mk.inj (Option.some.inj (hrun.symm.trans hrun'))
  exact ⟨client, result, rfl,
    executionExitCode_eq (scheduled_of_execute (checkSource_preflight hchecked) hrun),
    hexecuted ▸ hmeans⟩

/-- A check gives a report, with a suite when there are no diagnostics. -/
theorem checkSource_returns (source : SourceText) (context : ValidationContext) :
    ∃ checked, checkSource source context = some checked ∧
      (checked.diagnostics = [] → checked.suite.isSome = true) := by
  unfold checkSource
  dsimp only
  split
  · next hlex => exact ⟨_, rfl, fun hnil => absurd (List.map_eq_nil_iff.mp hnil) hlex⟩
  · split
    · next hparse => exact ⟨_, rfl, fun hnil => absurd (List.map_eq_nil_iff.mp hnil) hparse⟩
    · rw [validateAndConvert_eq]
      refine ⟨_, rfl, fun hnil => ?_⟩
      rw [if_pos (List.map_eq_nil_iff.mp hnil)]
      rfl

/-- How a run of `run` ends, by its exit code. -/
inductive RunEnded (crate : UrlCrate) (arguments : RunArgs)
    (trace : List (Process.Event SystemCall.Answer)) : Nat → Prop
  /-- both reports have the same path -/
  | sameFile {path : FilePath} (hjson : arguments.jsonFile = some path)
      (hjunit : arguments.junitFile = some path) (hsent : requests trace = []) :
      RunEnded crate arguments trace invalidInputCode
  /-- the source or the variables cannot be read -/
  | unreadable {before : List (Process.Event SystemCall.Answer)} {error : String}
      (hbefore : before <+: trace)
      (hprepared : (prepareSource arguments.source).Runs before (.error error))
      (hsent : requests trace = []) : RunEnded crate arguments trace invalidInputCode
  /-- the base URL or the deadline is refused -/
  | unconfigured {before : List (Process.Event SystemCall.Answer)} {source : SourceText}
      {store : VariableStore} {suite : TestSuite} {error : HttpError} (hbefore : before <+: trace)
      (haccepted : Accepted arguments.source before source store suite)
      (h : clientConfig crate arguments = .error error)
      (hsent : requests trace = []) : RunEnded crate arguments trace invalidInputCode
  /-- every diagnostic of the source was written, and nothing was sent -/
  | rejected {before : List (Process.Event SystemCall.Answer)} {source : SourceText}
      {store : VariableStore} {checked : CheckReport} {lines : List String}
      (hprepared : (prepareSource arguments.source).Runs before (.ok (source, store)))
      (hchecked : checkSource source (validationContext store) = some checked)
      (herrors : checked.diagnostics ≠ [])
      (hlines : checked.diagnostics.map (diagnosticLine source) = lines.map some)
      (htrace : trace = before ++ lines.map fun line => ⟨.io (.writeStderr line), Except.ok ()⟩)
      (hsent : requests trace = []) : RunEnded crate arguments trace checkFailedCode
  /-- something outside failed -/
  | failed (h : SomeFailed trace) : RunEnded crate arguments trace internalErrorCode
  /-- the source was accepted, and the run was interrupted -/
  | interrupted {before : List (Process.Event SystemCall.Answer)} {source : SourceText}
      {store : VariableStore} {suite : TestSuite} (hbefore : before <+: trace)
      (haccepted : Accepted arguments.source before source store suite)
      (h : ⟨.signal, Signal.received⟩ ∈ trace) :
      RunEnded crate arguments trace interruptedCode
  /-- the source was accepted, the suite was run to its end, and the report was written -/
  | judged {before : List (Process.Event SystemCall.Answer)} {source : SourceText}
      {store : VariableStore} {suite : TestSuite} {client : HttpClient} {result : SuiteResult}
      (hbefore : before <+: trace)
      (haccepted : Accepted arguments.source before source store suite)
      (hmeans : SuiteRuns .default client suite store (result.blocks.map BlockResult.verdicts)
        (requests trace))
      (hprinted : Printed source result trace) :
      RunEnded crate arguments trace
        (verdictCode suite (result.blocks.map BlockResult.verdicts))

/-- How a run of an accepted suite ends. -/
theorem RunEnded.of_suiteEnded {crate : UrlCrate} {arguments : RunArgs} {source : SourceText}
    {store : VariableStore} {suite : TestSuite}
    {before after : List (Process.Event SystemCall.Answer)} {code : Nat}
    (haccepted : Accepted arguments.source before source store suite)
    (h : SuiteEnded crate arguments source store suite after code) :
    RunEnded crate arguments (before ++ after) code := by
  have hsent : requests (before ++ after) = requests after := by
    rw [requests_append, requests_prepareSource haccepted.prepared, List.nil_append]
  cases h with
  | unconfigured h hnone =>
    exact .unconfigured (List.prefix_append _ _) haccepted h (hsent.trans hnone)
  | failed h => exact .failed (.append (.inr h))
  | interrupted h =>
    exact .interrupted (List.prefix_append _ _) haccepted (List.mem_append_right _ h)
  -- an accepted suite is executed without a panic
  | panicked h =>
    obtain ⟨_, _, ⟨⟩, -⟩ := execute_runs haccepted.checked h
  | completed h hexecuted hprinted =>
    obtain ⟨client, _, ⟨⟩, hcode, hmeans⟩ := execute_runs haccepted.checked h
    obtain ⟨color, hprinted⟩ := hprinted
    rw [hcode]
    exact .judged (List.prefix_append _ _) haccepted (by rwa [hsent, hexecuted])
      ⟨color, List.mem_append_right _ hprinted⟩

/-- How a run ends. -/
theorem run_ends {crate : UrlCrate} {arguments : RunArgs}
    {trace : List (Process.Event SystemCall.Answer)} {code : Nat}
    (h : (run crate arguments).Runs trace code) : RunEnded crate arguments trace code := by
  rw [run] at h
  split at h
  · next hfiles =>
    rw [runs_emitError h]
    rw [Bool.and_eq_true, Option.isSome_iff_exists, beq_iff_eq] at hfiles
    obtain ⟨⟨path, hjson⟩, hsame⟩ := hfiles
    exact .sameFile hjson (hsame.symm.trans hjson) (requests_emitError h)
  · obtain ⟨before, prepared, after, rfl, hprepared, h⟩ := runs_bind_iff.mp h
    have hbefore := requests_prepareSource hprepared
    cases prepared with
    | error error =>
      rw [runs_emitError h]
      exact .unreadable (List.prefix_append _ _) hprepared
        (by rw [requests_append, hbefore, requests_emitError h]; rfl)
    | ok prepared =>
      obtain ⟨source, store⟩ := prepared
      dsimp only at h
      -- the checker returns, so its panic is no branch of a run
      obtain ⟨checked, hchecked, hsuite⟩ := checkSource_returns source (validationContext store)
      rw [hchecked] at h
      dsimp only at h
      split at h
      · next herrors =>
        rcases runs_emitDiagnostics h with ⟨rfl, hfailed⟩ | ⟨rfl, lines, hlines, rfl⟩
        · exact .failed (.append (.inr hfailed))
        · refine .rejected hprepared hchecked ?_ hlines rfl ?_
          · rintro hnil
            rw [CheckReport.hasErrors, hnil] at herrors
            cases herrors
          · rw [requests_append, hbefore, requests_emitDiagnostics h]
            rfl
      · next hclean =>
        rw [eq_of_not_hasErrors hclean] at hchecked hsuite
        obtain ⟨suite, hsome⟩ := Option.isSome_iff_exists.mp (hsuite rfl)
        rw [show checked.suite = some suite from hsome] at h hchecked
        exact .of_suiteEnded ⟨hprepared, hchecked⟩ (runs_runSuite h)

omit [Platform] in
/-- The code of verdicts is one of three. -/
theorem verdictCode_mem (suite : TestSuite) (verdicts : List (List ExecutionStatus)) :
    verdictCode suite verdicts ∈ [successCode, testFailedCode, coreAbortedCode] := by
  unfold verdictCode
  split
  · decide
  · split <;> decide

end CommandLine

end Rettp
