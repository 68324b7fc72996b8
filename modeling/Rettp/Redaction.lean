import Mathlib.Data.List.Forall2
import Rettp.Junit
import Rettp.Terminal

/-!
# Redaction

Two results have the same report exactly when they agree on everything but their messages and
their secret previews (`fromSuiteResult_eq_iff`). Every reporter is a function of the report, so
no text that is published depends on a secret (`reports_agree`).
-/

namespace Rettp

/-! ## Results that look the same -/

/-- Previews that may be published: status numbers, and the words for types and bodies. -/
def Harmless (preview : String) : AssertionFailureKind → Prop
  | .statusMismatch => ∃ status, parseU16 preview = some status ∧ 100 ≤ status ∧ status ≤ 599
  | .typeMismatch | .invalidBody =>
    preview ∈ ["empty", "JSON", "text", "binary", "object", "array", "string", "boolean",
      "integer", "number", "null", "valid UTF-8 text", "non-UTF-8 text body"]
  | _ => False

/-- Previews that are both there or both missing, and equal where one may be published. -/
inductive SamePreview (kind : AssertionFailureKind) : Option String → Option String → Prop
  | none : SamePreview kind none none
  | some {p q : String} (h : Harmless p kind ∨ Harmless q kind → p = q) :
      SamePreview kind (some p) (some q)

/-- Failures that differ at most in what is redacted. -/
structure SameFailure (f g : AssertionFailure) : Prop where
  path : f.path = g.path
  kind : f.kind = g.kind
  expected : SamePreview f.kind f.expected g.expected
  actual : SamePreview f.kind f.actual g.actual

/-- Errors of one kind. -/
def SameError (e e' : Option ExecutionErrorInfo) : Prop := e.map (·.kind) = e'.map (·.kind)

/-- Results of a test that differ at most in what is redacted. -/
structure SameTest (t u : TestResult) : Prop where
  name : t.name = u.name
  status : t.status = u.status
  durationMs : t.durationMs = u.durationMs
  failures : List.Forall₂ SameFailure t.failures u.failures
  error : SameError t.error u.error

/-- Results of a block that differ at most in what is redacted. -/
inductive SameBlock : BlockResult → BlockResult → Prop
  | core {status : ExecutionStatus} {durationMs : Nat} {tests tests' : List TestResult}
      (h : List.Forall₂ SameTest tests tests') :
      SameBlock (.core status durationMs tests) (.core status durationMs tests')
  | pipeline {name : String} {status : ExecutionStatus} {durationMs : Nat}
      {tests tests' : List TestResult} (h : List.Forall₂ SameTest tests tests') :
      SameBlock (.pipeline name status durationMs tests) (.pipeline name status durationMs tests')
  | test {t u : TestResult} (h : SameTest t u) : SameBlock (.test t) (.test u)

/-- Results that differ in messages and secret previews only. -/
structure SameSuite (r s : SuiteResult) : Prop where
  name : r.name = s.name
  status : r.status = s.status
  durationMs : r.durationMs = s.durationMs
  blocks : List.Forall₂ SameBlock r.blocks s.blocks
  error : SameError r.error s.error

/-! ## Results with the same report -/

/-- Two lists with the same images. -/
theorem map_eq_map_iff {α β : Type} {f : α → β} {R : α → α → Prop} (h : ∀ x y, f x = f y ↔ R x y)
    (xs ys : List α) : xs.map f = ys.map f ↔ List.Forall₂ R xs ys := by
  have hrel : R = fun x y => f x = f y := funext fun x => funext fun y => propext (h x y).symm
  rw [← List.forall₂_eq_eq_eq, List.forall₂_map_left_iff, List.forall₂_map_right_iff, hrel]

theorem previewIsSafe_iff (preview : String) (kind : AssertionFailureKind) :
    previewIsSafe preview (.ofAssertion kind) = true ↔ Harmless preview kind := by
  cases kind with
  | statusMismatch => simp [previewIsSafe, ReportFailureKind.ofAssertion, Harmless, Option.any_eq_true]
  | typeMismatch => simp [previewIsSafe, ReportFailureKind.ofAssertion, Harmless]
  | invalidBody => simp [previewIsSafe, ReportFailureKind.ofAssertion, Harmless]
  | _ => simp [previewIsSafe, ReportFailureKind.ofAssertion, Harmless]

theorem redacted_not_harmless (kind : AssertionFailureKind) : ¬ Harmless redacted kind := by
  rw [← previewIsSafe_iff]
  cases kind <;> decide +kernel

theorem sanitizePreview_harmless {preview : String} {kind : AssertionFailureKind}
    (h : Harmless preview kind) :
    sanitizePreview (some preview) (.ofAssertion kind) = some preview :=
  congrArg some (if_pos ((previewIsSafe_iff preview kind).mpr h))

theorem sanitizePreview_secret {preview : String} {kind : AssertionFailureKind}
    (h : ¬ Harmless preview kind) :
    sanitizePreview (some preview) (.ofAssertion kind) = some redacted :=
  congrArg some (if_neg (mt (previewIsSafe_iff preview kind).mp h))

theorem sanitizePreview_eq_iff (p q : Option String) (kind : AssertionFailureKind) :
    sanitizePreview p (.ofAssertion kind) = sanitizePreview q (.ofAssertion kind) ↔
      SamePreview kind p q := by
  match p, q with
  | none, none => exact iff_of_true rfl .none
  | none, some q => exact iff_of_false nofun nofun
  | some p, none => exact iff_of_false nofun nofun
  | some p, some q =>
    refine ⟨?_, ?_⟩
    · intro h
      refine .some fun hharmless => ?_
      -- a preview that is shown is not the text for those that are not
      by_cases hp : Harmless p kind <;> by_cases hq : Harmless q kind
      · rw [sanitizePreview_harmless hp, sanitizePreview_harmless hq] at h
        exact Option.some.inj h
      · rw [sanitizePreview_harmless hp, sanitizePreview_secret hq] at h
        exact absurd (Option.some.inj h ▸ hp) (redacted_not_harmless kind)
      · rw [sanitizePreview_secret hp, sanitizePreview_harmless hq] at h
        exact absurd (Option.some.inj h ▸ hq) (redacted_not_harmless kind)
      · exact absurd hharmless (not_or.mpr ⟨hp, hq⟩)
    · intro h
      cases h with
      | some h =>
        by_cases hharmless : Harmless p kind ∨ Harmless q kind
        · rw [h hharmless]
        · rw [not_or] at hharmless
          rw [sanitizePreview_secret hharmless.1, sanitizePreview_secret hharmless.2]

theorem ofAssertion_inj {kind kind' : AssertionFailureKind} :
    ReportFailureKind.ofAssertion kind = .ofAssertion kind' ↔ kind = kind' := by
  refine ⟨?_, ?_⟩
  · cases kind <;> cases kind' <;> intro h <;> first | rfl | cases h
  · exact congrArg _

theorem ofExecution_inj {status status' : ExecutionStatus} :
    ReportStatus.ofExecution status = .ofExecution status' ↔ status = status' := by
  refine ⟨?_, ?_⟩
  · cases status <;> cases status' <;> intro h <;> first | rfl | cases h
  · exact congrArg _

theorem ofFailure_eq_iff (f g : AssertionFailure) :
    ReportAssertionFailure.ofFailure f = .ofFailure g ↔ SameFailure f g := by
  obtain ⟨path, kind, expected, actual, message⟩ := f
  obtain ⟨path', kind', expected', actual', message'⟩ := g
  simp only [ReportAssertionFailure.ofFailure, ReportAssertionFailure.mk.injEq, ofAssertion_inj]
  refine ⟨?_, ?_⟩
  · rintro ⟨rfl, rfl, hexpected, hactual, -⟩
    exact ⟨rfl, rfl, (sanitizePreview_eq_iff _ _ _).mp hexpected,
      (sanitizePreview_eq_iff _ _ _).mp hactual⟩
  · rintro ⟨rfl, rfl, hexpected, hactual⟩
    exact ⟨rfl, rfl, (sanitizePreview_eq_iff _ _ _).mpr hexpected,
      (sanitizePreview_eq_iff _ _ _).mpr hactual, rfl⟩

/-- Errors are published by their kinds. -/
theorem ofInfo_eq_iff (e e' : Option ExecutionErrorInfo) :
    e.map ReportExecutionError.ofInfo = e'.map .ofInfo ↔ SameError e e' := by
  have hkind (i i' : ExecutionErrorInfo) :
      ReportExecutionError.ofInfo i = .ofInfo i' ↔ i.kind = i'.kind := by
    obtain ⟨kind, message⟩ := i
    obtain ⟨kind', message'⟩ := i'
    refine ⟨?_, ?_⟩
    · cases kind <;> cases kind' <;> intro h <;> first | rfl | cases h
    · rintro ⟨⟩
      rfl
  cases e <;> cases e' <;> simp [SameError, hkind]

theorem ReportTest.ofResult_eq_iff (t u : TestResult) :
    ReportTest.ofResult t = .ofResult u ↔ SameTest t u := by
  simp only [ReportTest.ofResult, ReportTest.mk.injEq, ofExecution_inj, ofInfo_eq_iff,
    map_eq_map_iff ofFailure_eq_iff]
  exact ⟨fun ⟨hname, hstatus, hduration, hfailures, herror⟩ =>
      ⟨hname, hstatus, hduration, hfailures, herror⟩,
    fun h => ⟨h.name, h.status, h.durationMs, h.failures, h.error⟩⟩

theorem ReportBlock.ofResult_eq_iff (b c : BlockResult) :
    ReportBlock.ofResult b = .ofResult c ↔ SameBlock b c := by
  refine ⟨?_, ?_⟩
  · intro h
    cases b <;> cases c <;>
      simp only [ReportBlock.ofResult, ReportBlock.mk.injEq, reduceCtorEq, false_and, and_false,
        ofExecution_inj, true_and, Option.some.injEq, List.cons.injEq, and_true,
        map_eq_map_iff ReportTest.ofResult_eq_iff, ReportTest.ofResult_eq_iff] at h
    · obtain ⟨rfl, rfl, htests⟩ := h
      exact .core htests
    · obtain ⟨rfl, rfl, rfl, htests⟩ := h
      exact .pipeline htests
    · exact .test h.2.2.2
  · intro h
    cases h with
    | core h => simp only [ReportBlock.ofResult, (map_eq_map_iff ReportTest.ofResult_eq_iff _ _).mpr h]
    | pipeline h =>
      simp only [ReportBlock.ofResult, (map_eq_map_iff ReportTest.ofResult_eq_iff _ _).mpr h]
    | test h =>
      simp only [ReportBlock.ofResult, h.name, h.status, h.durationMs,
        (ReportTest.ofResult_eq_iff _ _).mpr h]

/-- **What a report shows.** -/
theorem fromSuiteResult_eq_iff (source : String) (r s : SuiteResult) :
    RunReport.fromSuiteResult source r = .fromSuiteResult source s ↔ SameSuite r s := by
  simp only [RunReport.fromSuiteResult, RunReport.mk.injEq, true_and, ofExecution_inj, ofInfo_eq_iff,
    map_eq_map_iff ReportBlock.ofResult_eq_iff]
  refine ⟨?_, ?_⟩
  · rintro ⟨hname, hstatus, hduration, -, hblocks, herror⟩
    exact ⟨hname, hstatus, hduration, hblocks, herror⟩
  · rintro ⟨hname, hstatus, hduration, hblocks, herror⟩
    have hsummary := (map_eq_map_iff ReportBlock.ofResult_eq_iff r.blocks s.blocks).mpr hblocks
    exact ⟨hname, hstatus, hduration, congrArg _ hsummary, hblocks, herror⟩

/-- **Reports do not depend on secrets.** -/
theorem reports_agree [Platform] {r s : SuiteResult} (h : SameSuite r s) (source : String) :
    let report := RunReport.fromSuiteResult source r
    let report' := RunReport.fromSuiteResult source s
    report = report' ∧ Terminal.render .plain report = Terminal.render .plain report' ∧
      JsonReport.render report = JsonReport.render report' ∧
      Junit.render report = Junit.render report' := by
  intro report report'
  have heq : report = report' := (fromSuiteResult_eq_iff source r s).mpr h
  rw [heq]
  exact ⟨rfl, rfl, rfl, rfl⟩

/-- Two answers with different tokens. -/
theorem reports_agree_token :
    letI := asciiPlatform
    let result (token : String) : SuiteResult :=
      ⟨none, .failed, 7, [.test ⟨"login", .failed, 7,
        [⟨"$.token", .valueMismatch, some "\"abc\"", some token, "expected abc, got " ++ token⟩,
          ⟨"status", .statusMismatch, some "200", some "401", token⟩], none⟩], none⟩
    let report := RunReport.fromSuiteResult "a.rttp" (result "first")
    let report' := RunReport.fromSuiteResult "a.rttp" (result "second")
    report = report' ∧ Terminal.render .plain report = Terminal.render .plain report' ∧
      JsonReport.render report = JsonReport.render report' ∧
      Junit.render report = Junit.render report' := by
  intro result report report'
  have hvalue : SameFailure
      ⟨"$.token", .valueMismatch, some "\"abc\"", some "first", "expected abc, got " ++ "first"⟩
      ⟨"$.token", .valueMismatch, some "\"abc\"", some "second", "expected abc, got " ++ "second"⟩ :=
    ⟨rfl, rfl, .some fun _ => rfl, .some fun h => absurd h (by simp [Harmless])⟩
  have hstatus : SameFailure ⟨"status", .statusMismatch, some "200", some "401", "first"⟩
      ⟨"status", .statusMismatch, some "200", some "401", "second"⟩ :=
    ⟨rfl, rfl, .some fun _ => rfl, .some fun _ => rfl⟩
  have hsame : SameSuite (result "first") (result "second") :=
    ⟨rfl, rfl, rfl, .cons (.test ⟨rfl, rfl, rfl, .cons hvalue (.cons hstatus .nil), rfl⟩) .nil, rfl⟩
  exact @reports_agree asciiPlatform _ _ hsame "a.rttp"

end Rettp
