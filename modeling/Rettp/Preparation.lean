import Rettp.CommandLineSpec

/-!
# What a command works with

The source and the variables that `prepareSource` comes to, in terms of what was read. Variables
are defined by the environment, the dotenv file and the command line, in this order; the last
definition wins, and a name keeps the place of its first one.
-/

namespace Rettp.CommandLine

open Process (Runs runs_bind_iff after_done_iff)

/-- A file was read whole, within a limit. -/
def ReadWhole (path : String) (limit : Nat) (trace : List (Process.Event SystemCall.Answer))
    (bytes : ByteArray) : Prop :=
  ⟨.read path (limit + 1), Except.ok bytes⟩ ∈ trace ∧ bytes.size ≤ limit

theorem ReadWhole.append {path : String} {limit : Nat} {bytes : ByteArray}
    {before after : List (Process.Event SystemCall.Answer)}
    (h : ReadWhole path limit before bytes ∨ ReadWhole path limit after bytes) :
    ReadWhole path limit (before ++ after) bytes := by
  rcases h with ⟨hmem, hsize⟩ | ⟨hmem, hsize⟩
  · exact ⟨List.mem_append_left _ hmem, hsize⟩
  · exact ⟨List.mem_append_right _ hmem, hsize⟩

theorem runs_readSource {path content : String} {trace : List (Process.Event SystemCall.Answer)}
    (h : (readSource path).Runs trace (.ok content)) :
    ∃ bytes, ReadWhole path maxSourceBytes trace bytes ∧
      String.fromUTF8? bytes = some content := by
  obtain ⟨opened, open_, after, rfl, -, h⟩ := runs_bind_iff.mp h
  cases open_ with
  | error error => cases (after_done_iff.mp h).2
  | ok _ =>
    obtain ⟨_, length, after, rfl, -, h⟩ := runs_bind_iff.mp h
    cases length with
    | error error => cases (after_done_iff.mp h).2
    | ok length =>
      dsimp only at h
      split at h
      · cases (after_done_iff.mp h).2
      · obtain ⟨before, bytes, after, rfl, hread, h⟩ := runs_bind_iff.mp h
        rw [Process.runs_ask_iff.mp hread]
        cases bytes with
        | error error => cases (after_done_iff.mp h).2
        | ok bytes =>
          dsimp only at h
          split at h
          · cases (after_done_iff.mp h).2
          · next hsize =>
            split at h
            · cases (after_done_iff.mp h).2
            · next decoded hdecoded =>
              obtain rfl := Except.ok.inj (Process.done.inj (after_done_iff.mp h).2)
              exact ⟨bytes, .append (.inr (.append (.inr (.append (.inl
                ⟨List.mem_singleton_self _, Nat.le_of_not_lt hsize⟩))))), hdecoded⟩

variable [Platform]

theorem runs_loadEnvFile {path : String} {assignments : List VariableAssignment}
    {trace : List (Process.Event SystemCall.Answer)}
    (h : (loadEnvFile path).Runs trace (.ok assignments)) :
    ∃ bytes, ReadWhole path EnvFile.maxEnvFileBytes trace bytes ∧
      EnvFile.load bytes = .ok assignments := by
  obtain ⟨_, opened, after, rfl, -, h⟩ := runs_bind_iff.mp h
  cases opened with
  | error error => cases (after_done_iff.mp h).2
  | ok _ =>
    obtain ⟨before, bytes, after, rfl, hread, h⟩ := runs_bind_iff.mp h
    rw [Process.runs_ask_iff.mp hread]
    cases bytes with
    | error error => cases (after_done_iff.mp h).2
    | ok bytes =>
      have hload : EnvFile.load bytes = .ok assignments := by
        have hdone := (Process.done.inj (after_done_iff.mp h).2).symm
        cases hloaded : EnvFile.load bytes with
        | error error =>
          rw [hloaded] at hdone
          cases hdone
        | ok loaded =>
          rw [hloaded] at hdone
          rw [Except.ok.inj hdone]
      have hsize : bytes.size ≤ EnvFile.maxEnvFileBytes := by
        by_contra hsize
        rw [EnvFile.load, if_pos (Nat.lt_of_not_le hsize)] at hload
        cases hload
      exact ⟨bytes, .append (.inr (.append (.inl ⟨List.mem_singleton_self _, hsize⟩))), hload⟩

/-- The assignments come from the dotenv file, if there is one. -/
def FromFile (envFile : Option String) (trace : List (Process.Event SystemCall.Answer))
    (assignments : List VariableAssignment) : Prop :=
  match envFile with
  | none => assignments = []
  | some path => ∃ bytes, ReadWhole path EnvFile.maxEnvFileBytes trace bytes ∧
      EnvFile.load bytes = .ok assignments

theorem FromFile.append {envFile : Option String} {assignments : List VariableAssignment}
    {before after : List (Process.Event SystemCall.Answer)}
    (h : FromFile envFile before assignments ∨ FromFile envFile after assignments) :
    FromFile envFile (before ++ after) assignments := by
  cases envFile with
  | none => exact h.elim id id
  | some path =>
    rcases h with ⟨bytes, hread, hload⟩ | ⟨bytes, hread, hload⟩
    · exact ⟨bytes, .append (.inl hread), hload⟩
    · exact ⟨bytes, .append (.inr hread), hload⟩

/-- The variables of the environment and of the dotenv file. -/
theorem runs_loadVariables {envFile : Option String} {store : VariableStore}
    {trace : List (Process.Event SystemCall.Answer)}
    (h : (loadVariables envFile).Runs trace (.ok store)) :
    ∃ (entries : List (OsString × OsString)) (fromFile : List VariableAssignment),
      ⟨.environment, entries⟩ ∈ trace ∧ FromFile envFile trace fromFile ∧
      store = (VariableStore.fromEnvironment entries).applyCli fromFile := by
  obtain ⟨before, entries, after, rfl, hentries, h⟩ := runs_bind_iff.mp h
  have hmem : ⟨.environment, entries⟩ ∈ before ++ after := by
    rw [Process.runs_ask_iff.mp hentries]
    exact List.mem_append_left _ (List.mem_singleton_self _)
  cases envFile with
  | none =>
    obtain rfl := Except.ok.inj (Process.done.inj (after_done_iff.mp h).2)
    exact ⟨entries, [], hmem, rfl, rfl⟩
  | some path =>
    obtain ⟨before', loaded, after', rfl, hloaded, h⟩ := runs_bind_iff.mp h
    cases loaded with
    | error error => cases (after_done_iff.mp h).2
    | ok fromFile =>
      obtain rfl := Except.ok.inj (Process.done.inj (after_done_iff.mp h).2)
      obtain ⟨bytes, hread, hload⟩ := runs_loadEnvFile hloaded
      exact ⟨entries, fromFile, hmem, ⟨bytes, .append (.inr (.append (.inl hread))), hload⟩, rfl⟩

/-- The assignments of the arguments, all of them valid. -/
theorem applyArguments_ok {index : Nat} {store store' : VariableStore} {assignments : List String}
    (h : applyArguments index store assignments = .ok store') :
    ∃ parsed, assignments.map VariableAssignment.fromStr = parsed.map .ok ∧
      store' = store.applyCli parsed := by
  induction assignments generalizing index store with
  | nil => exact ⟨[], rfl, (Except.ok.inj h).symm⟩
  | cons raw rest ih =>
    rw [applyArguments] at h
    split at h
    · cases h
    · next assignment hassignment =>
      obtain ⟨parsed, hparsed, hstore⟩ := ih h
      refine ⟨assignment :: parsed, ?_, hstore⟩
      rw [List.map_cons, hassignment, hparsed, List.map_cons]

/-- What a command works with. The source is the whole content of its file, within the limit and
valid UTF-8, whatever the file system says about its length. A variable has the value of its last
assignment in the arguments, else of its last one in the dotenv file, else of the environment, and
the names stand in the order of their first definitions. -/
structure Prepared (arguments : SourceArgs) (trace : List (Process.Event SystemCall.Answer))
    (source : SourceText) (store : VariableStore) : Prop where
  name : source.name = arguments.path
  content : ∃ bytes, ReadWhole arguments.path maxSourceBytes trace bytes ∧
    String.fromUTF8? bytes = some source.content
  defined : ∃ (entries : List (OsString × OsString))
    (fromFile fromArguments : List VariableAssignment),
    ⟨.environment, entries⟩ ∈ trace ∧ FromFile arguments.envFile trace fromFile ∧
    arguments.assignments.map VariableAssignment.fromStr = fromArguments.map .ok ∧
    (∀ name, store.get name = (((VariableStore.lastValue fromArguments name).or
      (VariableStore.lastValue fromFile name)).or (VariableStore.lastValue
        (entries.filterMap environmentEntry) name)).map .text) ∧
    store.names = VariableStore.firstDefined
      ((entries.filterMap environmentEntry ++ fromFile ++ fromArguments).map (·.name))

/-- **Every preparation that succeeds** comes to the source and the variables that were found. -/
theorem prepareSource_prepares {arguments : SourceArgs} {source : SourceText}
    {store : VariableStore} {trace : List (Process.Event SystemCall.Answer)}
    (h : (prepareSource arguments).Runs trace (.ok (source, store))) :
    Prepared arguments trace source store := by
  obtain ⟨before, content, after, rfl, hcontent, h⟩ := runs_bind_iff.mp h
  cases content with
  | error error => cases (after_done_iff.mp h).2
  | ok content =>
    obtain ⟨before', loaded, after, rfl, hloaded, h⟩ := runs_bind_iff.mp h
    cases loaded with
    | error error => cases (after_done_iff.mp h).2
    | ok loaded =>
      have hdone := (Process.done.inj (after_done_iff.mp h).2).symm
      obtain ⟨bytes, hread, hdecoded⟩ := runs_readSource hcontent
      obtain ⟨entries, fromFile, hentries, hfile, rfl⟩ := runs_loadVariables hloaded
      obtain ⟨store', hstore, hprepared⟩ := Except.map_eq_ok.mp hdone
      obtain ⟨rfl, rfl⟩ := Prod.mk.inj hprepared
      obtain ⟨fromArguments, hparsed, rfl⟩ := applyArguments_ok hstore
      have hall : ((VariableStore.fromEnvironment entries).applyCli fromFile).applyCli
          fromArguments = VariableStore.new.applyCli
            (entries.filterMap environmentEntry ++ fromFile ++ fromArguments) := by
        rw [VariableStore.applyCli_append, VariableStore.applyCli_append,
          VariableStore.fromEnvironment, VariableStore.extendEnvironment_eq]
      refine ⟨rfl, ⟨bytes, .append (.inl hread), hdecoded⟩, entries, fromFile, fromArguments,
        List.mem_append_right _ (List.mem_append_left _ hentries),
        .append (.inr (.append (.inl hfile))), hparsed, fun name => ?_, ?_⟩
      · rw [hall, VariableStore.get_applyCli, VariableStore.lastValue_append,
          VariableStore.lastValue_append, Option.or_assoc]
        exact Option.or_none
      · rw [hall, VariableStore.names_applyCli]

/-- A source with variables from everywhere. -/
def layeredArguments : SourceArgs := ⟨"token.rttp", some "dev.env", ["MODE=a", "MODE=test"]⟩

/-- The environment has a host and a port, the dotenv file a host and a mode. -/
def layeredSurroundings (seen : Async.Seen) (c : SystemCall) : c.Answer × Async.Seen :=
  match c with
  | .environment => ([(some "HOST", some "env.test"), (some "PORT", some "80")], seen)
  | .read path limit =>
    if path = "dev.env" then (.ok "HOST=file.test\nMODE=dev\n".toUTF8, seen)
    else tokenSurroundings seen (.read path limit)
  | c => tokenSurroundings seen c

omit [Platform] in
/-- All three sources define a variable. -/
theorem prepareSource_prepares_layered :
    letI := asciiPlatform
    ∃ source store trace, (prepareSource layeredArguments).Runs trace (.ok (source, store)) ∧
      store.names.map (·.raw) = ["HOST", "PORT", "MODE"] ∧
      Prepared layeredArguments trace source store := by
  let := asciiPlatform
  have hnames : ((prepareSource layeredArguments).perform layeredSurroundings
      ([], 0)).1.toOption.map (fun prepared => prepared.2.names.map (·.raw)) =
      some ["HOST", "PORT", "MODE"] := by
    decide +kernel
  have hruns := Process.runs_performed layeredSurroundings (prepareSource layeredArguments) ([], 0)
  cases hresult : ((prepareSource layeredArguments).perform layeredSurroundings ([], 0)).1 with
  | error error =>
    rw [hresult] at hnames
    cases hnames
  | ok prepared =>
    rw [hresult] at hruns hnames
    exact ⟨_, _, _, hruns, Option.some.inj hnames, prepareSource_prepares hruns⟩

end Rettp.CommandLine
