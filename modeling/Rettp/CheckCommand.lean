import Rettp.CommandLineSpec

/-!
# What `check` promises

How the runs of `check` end, and that it agrees with `run`: given the same source and variables,
`run` rejects what `check` rejects, and executes what `check` calls valid.
-/

namespace Rettp.CommandLine

open Process (Runs runs_bind_iff after_done_iff)

variable [Platform] {arguments : SourceArgs} {trace : List (Process.Event SystemCall.Answer)}
  {code : Nat}

/-- How a run of `check` ends, by its exit code. -/
inductive CheckEnded (arguments : SourceArgs) (trace : List (Process.Event SystemCall.Answer)) :
    Nat → Prop
  /-- the source or the variables cannot be read -/
  | unreadable {before : List (Process.Event SystemCall.Answer)} {error : String}
      (hbefore : before <+: trace)
      (hprepared : (prepareSource arguments).Runs before (.error error)) :
      CheckEnded arguments trace invalidInputCode
  /-- every diagnostic of the source was written -/
  | rejected {before : List (Process.Event SystemCall.Answer)} {source : SourceText}
      {store : VariableStore} {checked : CheckReport} {lines : List String}
      (hprepared : (prepareSource arguments).Runs before (.ok (source, store)))
      (hchecked : checkSource source (validationContext store) = some checked)
      (herrors : checked.diagnostics ≠ [])
      (hlines : checked.diagnostics.map (diagnosticLine source) = lines.map some)
      (htrace : trace = before ++ lines.map fun line => ⟨.io (.writeStderr line), Except.ok ()⟩) :
      CheckEnded arguments trace checkFailedCode
  /-- something outside failed -/
  | failed (h : SomeFailed trace) : CheckEnded arguments trace internalErrorCode
  /-- the source was accepted -/
  | valid {before : List (Process.Event SystemCall.Answer)} {source : SourceText}
      {store : VariableStore} {suite : TestSuite}
      (haccepted : Accepted arguments before source store suite) (hbefore : before <+: trace)
      (hprinted : ⟨.io (.writeStdout s!"{source.name}: valid\n"), Except.ok ()⟩ ∈ trace) :
      CheckEnded arguments trace successCode

theorem check_ends (h : (check ⟨arguments⟩).Runs trace code) : CheckEnded arguments trace code := by
  obtain ⟨before, prepared, after, rfl, hprepared, h⟩ := runs_bind_iff.mp h
  cases prepared with
  | error error =>
    rw [runs_emitError h]
    exact .unreadable (List.prefix_append _ _) hprepared
  | ok prepared =>
    obtain ⟨source, store⟩ := prepared
    dsimp only at h
    obtain ⟨checked, hchecked, hsuite⟩ := checkSource_returns source (validationContext store)
    rw [hchecked] at h
    dsimp only at h
    split at h
    · next herrors =>
      rcases runs_emitDiagnostics h with ⟨rfl, hfailed⟩ | ⟨rfl, lines, hlines, rfl⟩
      · exact .failed (.append (.inr hfailed))
      · refine .rejected hprepared hchecked (fun hnil => ?_) hlines rfl
        rw [CheckReport.hasErrors, hnil] at herrors
        cases herrors
    · next hclean =>
      rw [eq_of_not_hasErrors hclean] at hchecked hsuite
      obtain ⟨suite, hsome⟩ := Option.isSome_iff_exists.mp (hsuite rfl)
      rw [show checked.suite = some suite from hsome] at hchecked
      obtain ⟨before', printed, after, rfl, hprinted, h⟩ := runs_bind_iff.mp h
      rcases runs_stdout hprinted with ⟨error, rfl, hfailed⟩ | ⟨rfl, hwritten⟩
      · rw [runs_emitError h]
        exact .failed (.append (.inr (.append (.inl hfailed))))
      · obtain ⟨rfl, hdone⟩ := after_done_iff.mp h
        rw [Process.done.inj hdone]
        exact .valid ⟨hprepared, hchecked⟩ (List.prefix_append _ _)
          (List.mem_append_right _ (List.mem_append_left _ hwritten))

/-! ## Agreement -/

/-- The exit code for the input alone. -/
def inputCode : Except String (SourceText × VariableStore) → Nat
  | .error _ => invalidInputCode
  | .ok (source, store) =>
    match checkSource source (validationContext store) with
    | some ⟨_, []⟩ => successCode
    | _ => checkFailedCode

theorem inputCode_rejected {source : SourceText} {store : VariableStore} {checked : CheckReport}
    (hchecked : checkSource source (validationContext store) = some checked)
    (herrors : checked.diagnostics ≠ []) : inputCode (.ok (source, store)) = checkFailedCode := by
  obtain ⟨suite, diagnostics⟩ := checked
  rw [inputCode, hchecked]
  cases diagnostics with
  | nil => exact absurd rfl herrors
  | cons diagnostic rest => rfl

theorem inputCode_accepted {before : List (Process.Event SystemCall.Answer)} {source : SourceText}
    {store : VariableStore} {suite : TestSuite}
    (h : Accepted arguments before source store suite) :
    inputCode (.ok (source, store)) = successCode := by
  rw [inputCode, h.checked]

section

variable {before : List (Process.Event SystemCall.Answer)}
  {prepared : Except String (SourceText × VariableStore)}

theorem CheckEnded.code_eq (h : CheckEnded arguments trace code)
    (hprepared : (prepareSource arguments).Runs before prepared) (hbefore : before <+: trace)
    (hok : ¬ SomeFailed trace) : code = inputCode prepared := by
  cases h with
  | unreadable hbefore' hprepared' =>
    obtain ⟨-, rfl⟩ := hprepared.unique hprepared' hbefore hbefore'
    rfl
  | rejected hprepared' hchecked herrors _ htrace =>
    obtain ⟨-, rfl⟩ := hprepared.unique hprepared' hbefore (htrace ▸ List.prefix_append _ _)
    exact (inputCode_rejected hchecked herrors).symm
  | failed h => exact absurd h hok
  | valid haccepted hbefore' =>
    obtain ⟨-, rfl⟩ := hprepared.unique haccepted.prepared hbefore hbefore'
    exact (inputCode_accepted haccepted).symm

theorem RunEnded.code_eq {crate : UrlCrate} {arguments : RunArgs}
    (h : RunEnded crate arguments trace code)
    (hprepared : (prepareSource arguments.source).Runs before prepared) (hbefore : before <+: trace)
    (hok : ¬ SomeFailed trace)
    (hfiles : arguments.jsonFile = none ∨ arguments.jsonFile ≠ arguments.junitFile) :
    code = inputCode prepared ∨ inputCode prepared = successCode ∧
      (code ∈ [testFailedCode, coreAbortedCode, interruptedCode] ∨
        code = invalidInputCode ∧ ∃ error, clientConfig crate arguments = .error error) := by
  cases h with
  | sameFile hjson hjunit =>
    rw [hjson, hjunit] at hfiles
    simp at hfiles
  | unreadable hbefore' hprepared' =>
    obtain ⟨-, rfl⟩ := hprepared.unique hprepared' hbefore hbefore'
    exact .inl rfl
  | unconfigured hbefore' haccepted herror =>
    obtain ⟨-, rfl⟩ := hprepared.unique haccepted.prepared hbefore hbefore'
    exact .inr ⟨inputCode_accepted haccepted, .inr ⟨rfl, _, herror⟩⟩
  | rejected hprepared' hchecked herrors _ htrace =>
    obtain ⟨-, rfl⟩ := hprepared.unique hprepared' hbefore (htrace ▸ List.prefix_append _ _)
    exact .inl (inputCode_rejected hchecked herrors).symm
  | failed h => exact absurd h hok
  | interrupted hbefore' haccepted =>
    obtain ⟨-, rfl⟩ := hprepared.unique haccepted.prepared hbefore hbefore'
    exact .inr ⟨inputCode_accepted haccepted, .inl (by decide)⟩
  | @judged _ _ _ suite _ result hbefore' haccepted =>
    obtain ⟨-, rfl⟩ := hprepared.unique haccepted.prepared hbefore hbefore'
    rw [inputCode_accepted haccepted]
    rcases List.mem_cons.mp (verdictCode_mem suite (result.blocks.map BlockResult.verdicts)) with
      hcode | hcode
    · exact .inl hcode
    · exact .inr ⟨rfl, .inl (List.mem_append_left [interruptedCode] hcode)⟩

end

/-- **`check` agrees with `run`.** Let both find the same source and variables, wherever these come
from, and let nothing outside fail. Then `run` ends as `check` does, unless `check` calls the source
valid: then the tests fail, the core is aborted, the run is interrupted, or the base URL or the
deadline is refused. So `run` rejects exactly the sources that `check` rejects. -/
theorem check_agrees {crate : UrlCrate} {checked : SourceArgs} {arguments : RunArgs}
    {before before' trace' : List (Process.Event SystemCall.Answer)}
    {prepared : Except String (SourceText × VariableStore)} {code' : Nat}
    (hprepared : (prepareSource checked).Runs before prepared)
    (hcheck : (check ⟨checked⟩).Runs trace code) (hbefore : before <+: trace)
    (hprepared' : (prepareSource arguments.source).Runs before' prepared)
    (hrun : (run crate arguments).Runs trace' code') (hbefore' : before' <+: trace')
    (hok : ¬ SomeFailed trace) (hok' : ¬ SomeFailed trace')
    (hfiles : arguments.jsonFile = none ∨ arguments.jsonFile ≠ arguments.junitFile) :
    code' = code ∨ code = successCode ∧
      (code' ∈ [testFailedCode, coreAbortedCode, interruptedCode] ∨
        code' = invalidInputCode ∧ ∃ error, clientConfig crate arguments = .error error) := by
  rw [(check_ends hcheck).code_eq hprepared hbefore hok]
  exact (run_ends hrun).code_eq hprepared' hbefore' hok' hfiles

omit [Platform] in
/-- Where nothing fails, nothing has failed. -/
theorem calm_ok {α : Type} (p : Cli α) (seen : Async.Seen) :
    ¬ SomeFailed (p.performed tokenSurroundings seen) := by
  rintro ⟨event, hevent, hfailed⟩
  refine Process.forall_mem_performed (P := fun event => ¬ SystemCall.Failed event) ?_ p seen event
    hevent hfailed
  intro seen c
  cases c <;> exact id

omit [Platform] in
/-- The suite with the token is valid, and passes. -/
theorem check_agrees_token :
    letI := asciiPlatform
    ∃ before trace trace' prepared, (prepareSource tokenArguments.source).Runs before prepared ∧
      (check ⟨tokenArguments.source⟩).Runs trace successCode ∧ before <+: trace ∧
      (run plainCrate tokenArguments).Runs trace' successCode ∧ before <+: trace' ∧
      (successCode = successCode ∨ successCode = successCode ∧
        (successCode ∈ [testFailedCode, coreAbortedCode, interruptedCode] ∨
          successCode = invalidInputCode ∧
            ∃ error, clientConfig plainCrate tokenArguments = .error error)) := by
  let := asciiPlatform
  let start : Async.Seen := ([], 0)
  have hprepared := Process.runs_performed tokenSurroundings
    (prepareSource tokenArguments.source) start
  have hcheckCode : ((check ⟨tokenArguments.source⟩).perform tokenSurroundings start).1 = 0 := by
    decide +kernel
  have hcheck := Process.runs_performed tokenSurroundings (check ⟨tokenArguments.source⟩) start
  rw [hcheckCode] at hcheck
  have hbefore : (prepareSource tokenArguments.source).performed tokenSurroundings start <+:
      (check ⟨tokenArguments.source⟩).performed tokenSurroundings start :=
    ⟨_, (Process.performed_bind start).symm⟩
  have hbefore' : (prepareSource tokenArguments.source).performed tokenSurroundings start <+:
      (run plainCrate tokenArguments).performed tokenSurroundings start :=
    ⟨_, (Process.performed_bind start).symm⟩
  exact ⟨_, _, _, _, hprepared, hcheck, hbefore, runs_token, hbefore',
    check_agrees hprepared hcheck hbefore hprepared runs_token hbefore' (calm_ok _ _) (calm_ok _ _)
      (.inr (by decide))⟩

end Rettp.CommandLine
