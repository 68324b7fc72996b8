import Rettp.EnvFile
import Rettp.Validator
import Rettp.Variables
import Mathlib.Data.List.Dedup

/-!
# Where variables come from

Before a suite is checked, the store is filled from the environment, then from a dotenv file, then
from the assignments of the command line. What comes later wins, and a name stays where it was
first defined (`get_applyCli`, `names_applyCli`).
-/

namespace Rettp

/-- Why an argument is no assignment. -/
inductive VariableAssignmentError where
  | missingEquals
  | invalidName (error : DomainError)
  deriving DecidableEq

/-- A string of the operating system; `none` when it is not Unicode. -/
abbrev OsString := Option String

section
variable [Platform]

/-- `str::parse::<VariableAssignment>`: a `NAME=VALUE` argument. -/
def VariableAssignment.fromStr (raw : String) : Except VariableAssignmentError VariableAssignment :=
  match splitAtChar '=' raw.toList with
  | none => .error .missingEquals
  | some (name, value) =>
    match VariableName.new (String.ofList name) with
    | .error e => .error (.invalidName e)
    | .ok name => .ok ⟨name, String.ofList value⟩

/-- An entry of the environment that can be a variable. -/
def environmentEntry (entry : OsString × OsString) : Option VariableAssignment :=
  match entry with
  | (some name, some value) =>
    match VariableName.new name with
    | .ok name => some ⟨name, value⟩
    | .error _ => none
  | _ => none

end

namespace VariableStore

/-- Define one variable by a text. -/
def assign (s : VariableStore) (assignment : VariableAssignment) : VariableStore :=
  s.insertPredefined assignment.name (.text assignment.value)

/-- Assignments in order, each over what was there. -/
def applyCli (s : VariableStore) (assignments : List VariableAssignment) : VariableStore :=
  assignments.foldl assign s

section
variable [Platform]

/-- The entries of the environment; those that are no variables are left out. -/
def extendEnvironment (s : VariableStore) (entries : List (OsString × OsString)) : VariableStore :=
  entries.foldl (fun s entry => match environmentEntry entry with
    | some assignment => s.assign assignment
    | none => s) s

/-- The variables of an environment. -/
def fromEnvironment (entries : List (OsString × OsString)) : VariableStore :=
  new.extendEnvironment entries

theorem extendEnvironment_eq (s : VariableStore) (entries : List (OsString × OsString)) :
    s.extendEnvironment entries = s.applyCli (entries.filterMap environmentEntry) := by
  unfold extendEnvironment applyCli
  induction entries generalizing s with
  | nil => rfl
  | cons entry entries ih =>
    rw [List.foldl_cons, ih, List.filterMap_cons]
    cases environmentEntry entry <;> rfl

end

theorem applyCli_append (s : VariableStore) (first second : List VariableAssignment) :
    s.applyCli (first ++ second) = (s.applyCli first).applyCli second := List.foldl_append

/-- The last assignment of a name, if there is one. -/
def lastValue (assignments : List VariableAssignment) (name : VariableName) : Option String :=
  (assignments.reverse.find? (·.name = name)).map (·.value)

theorem lastValue_append (first second : List VariableAssignment) (name : VariableName) :
    lastValue (first ++ second) name = (lastValue second name).or (lastValue first name) := by
  rw [lastValue, List.reverse_append, List.find?_append, Option.map_or]
  rfl

/-- **The last assignment wins.** -/
theorem get_applyCli (s : VariableStore) (assignments : List VariableAssignment)
    (name : VariableName) :
    (s.applyCli assignments).get name =
      ((lastValue assignments name).map VariableValue.text).or (s.get name) := by
  induction assignments using List.reverseRecOn with
  | nil => rfl
  | append_singleton assignments last ih =>
    rw [applyCli_append, lastValue_append]
    change IndexMap.get (IndexMap.insert _ _ _) _ = _
    rw [IndexMap.get_insert]
    by_cases h : last.name = name
    · simp [h, lastValue]
    · rw [if_neg h, ← get, ih]
      simp [h, lastValue]

/-- The names in the order of their first definition. -/
def firstDefined (names : List VariableName) : List VariableName := names.reverse.dedup.reverse

theorem firstDefined_append_singleton (names : List VariableName) (name : VariableName) :
    firstDefined (names ++ [name]) =
      if name ∈ names then firstDefined names else firstDefined names ++ [name] := by
  rw [firstDefined, List.reverse_append, List.reverse_singleton, List.singleton_append]
  split
  · next h => rw [List.dedup_cons_of_mem (List.mem_reverse.mpr h), firstDefined]
  · next h =>
    rw [List.dedup_cons_of_notMem (mt List.mem_reverse.mp h), List.reverse_cons, firstDefined]

theorem mem_firstDefined {names : List VariableName} {name : VariableName} :
    name ∈ firstDefined names ↔ name ∈ names := by
  rw [firstDefined, List.mem_reverse, List.mem_dedup, List.mem_reverse]

/-- **A name keeps its place.** -/
theorem names_applyCli (assignments : List VariableAssignment) :
    (new.applyCli assignments).names = firstDefined (assignments.map (·.name)) := by
  induction assignments using List.reverseRecOn with
  | nil => rfl
  | append_singleton assignments last ih =>
    rw [List.map_append, List.map_singleton, firstDefined_append_singleton, ← ih, applyCli_append]
    change IndexMap.keys (IndexMap.insert _ _ _) = _
    split
    · next h =>
      rw [← mem_firstDefined, ← ih] at h
      exact IndexMap.keys_insert_of_mem h _
    · next h =>
      rw [← mem_firstDefined, ← ih] at h
      rw [IndexMap.insert_of_not_mem h, IndexMap.keys_append]
      rfl

end VariableStore

/-- The context of a check: the names of the variables. -/
def validationContext (store : VariableStore) : ValidationContext :=
  ValidationContext.new.withPredefinedVariables store.names

/-- The names that a context gets. -/
theorem mem_withPredefinedVariables {context : ValidationContext} {names : List VariableName}
    {name : VariableName} :
    name ∈ (context.withPredefinedVariables names).predefinedVariables ↔
      name ∈ names ∨ name ∈ context.predefinedVariables := by
  unfold ValidationContext.withPredefinedVariables
  induction names generalizing context with
  | nil => simp
  | cons first names ih =>
    rw [List.foldl_cons, ih, ValidationContext.withPredefinedVariable, Finset.mem_insert,
      List.mem_cons]
    tauto

theorem mem_validationContext {store : VariableStore} {name : VariableName} :
    name ∈ store.names ↔ name ∈ (validationContext store).predefinedVariables := by
  rw [validationContext, mem_withPredefinedVariables]
  exact (or_iff_left (Finset.notMem_empty name)).symm

end Rettp
