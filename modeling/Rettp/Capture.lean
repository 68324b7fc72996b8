import Rettp.Assertion
import Rettp.Variables

/-!
# Captures

After a successful evaluation the captures of the expectation are staged from the response, in
field order. A captured value below another captured one shares its document: it is stored as
the ancestor's root and the path from there.
-/

namespace Rettp

variable [Platform]

namespace CaptureEngine

/-- The report of an evaluation, with the staged captures if it succeeded. -/
structure CaptureEvaluation where
  report : AssertionReport
  pending : Option PendingCaptures

mutual

/-- Whether an object assertion captures something, at any depth. -/
def containsCapture : ResolvedObjectAssertion → Bool
  | ⟨_, fields⟩ => anyCapture fields

/-- Whether one of the fields captures something. -/
def anyCapture : List (String × ResolvedFieldAssertion) → Bool
  | [] => false
  | (_, field) :: fields => fieldCapture field || anyCapture fields

/-- Whether a field or one of its nested fields is captured. -/
def fieldCapture : ResolvedFieldAssertion → Bool
  | ⟨_, _, _, nested, capture⟩ => capture.isSome ||
      match nested with
      | some assertion => containsCapture assertion
      | none => false

end

/-- A field name that a capture path writes after a dot; any alphabet is accepted here. -/
def isIdentifier (value : String) : Bool :=
  match value.toList with
  | [] => false
  | first :: characters => (Platform.isAlphabetic first || first == '_') &&
      characters.all fun c => Platform.isAlphanumeric c || c == '_'

/-- The path of a field, as in an assertion failure. -/
def childPath (parent field : String) : String :=
  if isIdentifier field then s!"{parent}.{field}" else s!"{parent}[{Platform.jsonQuote field}]"

/-- Stage the capture of one field, if it has one. The second component is the ancestor that
captures below the field share. -/
def stageCapture (capture : Option Capture) (actual : Json) (ancestor : Option (Json × Nat))
    (capturePath : List String) (pending : PendingCaptures) :
    Except RuntimeError (PendingCaptures × Option (Json × Nat)) :=
  match capture with
  | none => return (pending, ancestor)
  | some capture =>
    match ancestor with
    | some (root, baseDepth) => do
      let captured := .sharedJson ⟨root, capturePath.drop baseDepth⟩
      return (← pending.insert capture.variableName captured, ancestor)
    | none => do
      let captured := .sharedJson ⟨actual, []⟩
      return (← pending.insert capture.variableName captured, some (actual, capturePath.length))

mutual

/-- Stage the captures of an object. `capturePath` holds the field names from the response
root to this object. -/
def extractObject : ResolvedObjectAssertion → JsonObject → Option (Json × Nat) → List String →
    String → PendingCaptures → Except RuntimeError PendingCaptures
  | ⟨_, fields⟩, actual, ancestor, capturePath, path, pending =>
    extractFields fields actual ancestor capturePath path pending

/-- The loop over the fields of an object. -/
def extractFields : List (String × ResolvedFieldAssertion) → JsonObject → Option (Json × Nat) →
    List String → String → PendingCaptures → Except RuntimeError PendingCaptures
  | [], _, _, _, _, pending => .ok pending
  | (_, field) :: fields, actual, ancestor, capturePath, path, pending => do
    let pending ← extractField field actual ancestor capturePath path pending
    extractFields fields actual ancestor capturePath path pending

/-- One field: its value is staged if it is captured, and its nested fields are visited. -/
def extractField : ResolvedFieldAssertion → JsonObject → Option (Json × Nat) → List String →
    String → PendingCaptures → Except RuntimeError PendingCaptures
  | ⟨fieldName, _, _, nested, capture⟩, actual, ancestor, capturePath, path, pending =>
    let fieldPath := childPath path fieldName
    match actual.get fieldName with
    | none => .error (.missingCaptureField fieldPath)
    | some actualValue => do
      let capturePath := capturePath ++ [fieldName]
      let (pending, ancestor) ← stageCapture capture actualValue ancestor capturePath pending
      match nested with
      | none => return pending
      | some nested =>
        match actualValue.asObject with
        | none =>
          .error (.invalidNestedCaptureField fieldPath (jsonTypeName actualValue.value))
        | some actualNested =>
          extractObject nested actualNested ancestor capturePath fieldPath pending

end

/-- Evaluate a response and stage its captures on success. -/
def evaluate (config : AssertionConfig) (expected : ResolvedResponseExpectation)
    (actual : HttpResponse) : Except RuntimeError CaptureEvaluation :=
  let report := Rettp.evaluate config expected actual
  if !report.isSuccess then return ⟨report, none⟩
  else
    match expected.body with
    | some (.json expectedObject) =>
      if !containsCapture expectedObject then return ⟨report, some PendingCaptures.new⟩
      else
        match actual.body with
        | .json _ value =>
          match value.asObject with
          | some actualObject => do
            let pending ← extractObject expectedObject actualObject none [] "$"
              PendingCaptures.new
            return ⟨report, some pending⟩
          | none => .error .invalidCaptureBody
        | _ => .error .invalidCaptureBody
    | _ => return ⟨report, some PendingCaptures.new⟩

end CaptureEngine

end Rettp
