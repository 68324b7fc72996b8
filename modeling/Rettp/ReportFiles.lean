import Mathlib.Logic.Function.Basic
import Rettp.CommandLineSpec

/-!
# Report files

What `run` does to the disk. A report is written to a temporary file, stored for good, and then
renamed, so that wherever a run is cut off, also by a power failure, a report file is as before or
holds a complete report.

The file system is arbitrary: paths name entries, several of them perhaps the same one, and
temporary files get entries of their own. Nobody else writes meanwhile. Files are stored one by one
and directories never are, so after a power failure an entry may be what it was at any earlier
moment (`Damaged`); that is why the invariants are about whole histories.
-/

namespace Rettp

/-! ## The disk -/

/-- A file: its bytes, and whether they are stored for good. -/
structure File where
  bytes : ByteArray
  synced : Bool

/-- The directory entries. -/
abbrev Disk (Entry : Type) := Entry → Option File

/-- The entry that a path names, and the entries that temporary files are given. -/
structure FileSystem (Entry : Type) where
  entry : FilePath → Entry
  temporaries : Set Entry

/-- What a power failure leaves of the disks of a history: every entry is what it was at one of the
moments, and anything may have happened to it if its file was not stored for good then. -/
def Damaged {Entry : Type} (disks : List (Disk Entry)) (d' : Disk Entry) : Prop :=
  ∀ e, ∃ d ∈ disks, d' e = d e ∨ ∃ file, d e = some file ∧ file.synced = false

namespace FileSystem

variable {Entry : Type} [DecidableEq Entry] (fs : FileSystem Entry)

/-- A file is written in full and stored. -/
def write (d : Disk Entry) (file : FilePath × String) : Disk Entry :=
  Function.update d (fs.entry file.1) (some ⟨file.2.toUTF8, true⟩)

/-- A new and empty file. -/
def created (d : Disk Entry) (temporary : FilePath) : Disk Entry :=
  Function.update d (fs.entry temporary) (some ⟨ByteArray.empty, false⟩)

/-- Some bytes are written at the end of a file. -/
def extended (d : Disk Entry) (temporary : FilePath) (bytes : ByteArray) : Disk Entry :=
  Function.update d (fs.entry temporary)
    ((d (fs.entry temporary)).map fun file => ⟨file.bytes ++ bytes, false⟩)

/-- What is in the temporary file is stored. -/
def synced (d : Disk Entry) (temporary : FilePath) : Disk Entry :=
  Function.update d (fs.entry temporary)
    ((d (fs.entry temporary)).map fun file => ⟨file.bytes, true⟩)

/-- The temporary file takes the name of another one. -/
def renamed (d : Disk Entry) (temporary path : FilePath) : Disk Entry :=
  Function.update (Function.update d (fs.entry path) (d (fs.entry temporary)))
    (fs.entry temporary) none

/-- The temporary file is deleted. -/
def removed (d : Disk Entry) (temporary : FilePath) : Disk Entry :=
  Function.update d (fs.entry temporary) none

/-- The temporary file is new. -/
def Fresh (d : Disk Entry) (temporary : FilePath) : Prop :=
  fs.entry temporary ∈ fs.temporaries ∧ d (fs.entry temporary) = none

/-- What the calls do to the disk. A write that fails or is cut off has written a part; a rename
and a removal happen or do not. -/
def effects : Process.Effects SystemCall.Answer (Disk Entry) where
  step d c answer d' :=
    match c, answer with
    | .newTempFile _, .ok temporary => fs.Fresh d temporary ∧ d' = fs.created d temporary
    | .io (.writeAll temporary content), .ok _ => d' = fs.extended d temporary content.toUTF8
    | .io (.writeAll temporary content), .error _ =>
      ∃ n, d' = fs.extended d temporary (content.toUTF8.extract 0 n)
    | .io (.syncAll temporary), .ok _ => d' = fs.synced d temporary
    | .io (.persist temporary path), .ok _ => d' = fs.renamed d temporary path
    | .io (.remove temporary), .ok _ => d' = fs.removed d temporary
    | _, _ => d' = d
  during d c d' :=
    match c with
    | .newTempFile _ => d' = d ∨ ∃ temporary, fs.Fresh d temporary ∧ d' = fs.created d temporary
    | .io (.writeAll temporary content) =>
      d' = d ∨ ∃ n, d' = fs.extended d temporary (content.toUTF8.extract 0 n)
    | .io (.syncAll temporary) => d' = d ∨ d' = fs.synced d temporary
    | .io (.persist temporary path) => d' = d ∨ d' = fs.renamed d temporary path
    | .io (.remove temporary) => d' = d ∨ d' = fs.removed d temporary
    | _ => d' = d

/-- The entries are as before, apart from temporary ones and from files that were written. -/
def Intact (files : List (FilePath × String)) (d d' : Disk Entry) : Prop :=
  ∀ e, d' e = d e ∨ (e ∈ fs.temporaries ∧ d e = none) ∨
    ∃ file ∈ files, e = fs.entry file.1 ∧ d' e = some ⟨file.2.toUTF8, true⟩

variable {fs} {files : List (FilePath × String)} {d d' d₀ d₁ : Disk Entry}

namespace Intact

omit [DecidableEq Entry] in
/-- Nothing has changed. -/
theorem refl (files : List (FilePath × String)) (d : Disk Entry) : fs.Intact files d d :=
  fun _ => .inl rfl

omit [DecidableEq Entry] in
/-- A new entry was not there at the start either. -/
theorem fresh (h : fs.Intact files d₀ d) {e : Entry} (hnone : d e = none) : d₀ e = none := by
  rcases h e with heq | ⟨-, hnone'⟩ | ⟨file, -, -, hsome⟩
  · rw [← heq, hnone]
  · exact hnone'
  · rw [hnone] at hsome
    cases hsome

/-- A temporary file has changed. -/
theorem temporary (h : fs.Intact files d₀ d) {e : Entry} (he : e ∈ fs.temporaries)
    (hnone : d e = none) (file : Option File) :
    fs.Intact files d₀ (Function.update d e file) := by
  intro e'
  by_cases heq : e' = e
  · rw [heq]
    exact .inr (.inl ⟨he, h.fresh hnone⟩)
  · rw [Function.update_of_ne heq]
    exact h e'

/-- A report was written. -/
theorem write (h : fs.Intact files d₀ d) {file : FilePath × String} (hfile : file ∈ files) :
    fs.Intact files d₀ (fs.write d file) := by
  intro e'
  by_cases heq : e' = fs.entry file.1
  · subst heq
    exact .inr (.inr ⟨file, hfile, rfl, Function.update_self ..⟩)
  · rw [FileSystem.write, Function.update_of_ne heq]
    exact h e'

omit [DecidableEq Entry] in
/-- A power failure only damages temporary files, and brings files back as they were before. -/
theorem damaged {disks : List (Disk Entry)} (h : ∀ d ∈ disks, fs.Intact files d₀ d)
    (hsynced : ∀ e file, d₀ e = some file → file.synced) (hdamaged : Damaged disks d') :
    fs.Intact files d₀ d' := by
  intro e
  obtain ⟨d, hd, heq | ⟨file, hfile, hunsynced⟩⟩ := hdamaged e
  · rw [heq]
    exact h d hd e
  · rcases h d hd e with heq | htemporary | ⟨written, -, -, hwritten⟩
    · rw [hsynced e file (heq ▸ hfile)] at hunsynced
      cases hunsynced
    · exact .inr (.inl htemporary)
    · rw [hfile] at hwritten
      rw [Option.some.inj hwritten] at hunsynced
      cases hunsynced

end Intact

/-! ## A new file, and what becomes of it -/

section Temporary

variable {temporary : FilePath} {file : Option File}

theorem extended_update (bytes : ByteArray) :
    fs.extended (Function.update d (fs.entry temporary) file) temporary bytes =
      Function.update d (fs.entry temporary)
        (file.map fun file => ⟨file.bytes ++ bytes, false⟩) := by
  rw [extended, Function.update_self, Function.update_idem]

theorem synced_update : fs.synced (Function.update d (fs.entry temporary) file) temporary =
    Function.update d (fs.entry temporary) (file.map fun file => ⟨file.bytes, true⟩) := by
  rw [synced, Function.update_self, Function.update_idem]

theorem removed_update : fs.removed (Function.update d (fs.entry temporary) file) temporary =
    Function.update d (fs.entry temporary) none := by
  rw [removed, Function.update_idem]

/-- A temporary file that is renamed leaves nothing behind. -/
theorem renamed_update {path : FilePath} (hne : fs.entry path ≠ fs.entry temporary)
    (hnone : d (fs.entry temporary) = none) :
    fs.renamed (Function.update d (fs.entry temporary) file) temporary path =
      Function.update d (fs.entry path) file := by
  rw [renamed, Function.update_self, Function.update_comm hne, Function.update_idem,
    ← hnone, Function.update_eq_self]

end Temporary

/-- Calls to other devices leave the disk as it is. -/
theorem effects_of_device {c : SystemCall} (h : c.device ≠ .disk) :
    (∀ d d', fs.effects.during d c d' → d' = d) ∧
      ∀ d answer d', fs.effects.step d c answer d' → d' = d := by
  cases c with
  | io call =>
    cases call with
    | createDirAll | writeAll | flush | syncAll | persist | remove => exact absurd rfl h
    | _ => exact ⟨fun _ _ h => h, fun _ _ _ h => h⟩
  | newTempFile parent => exact absurd rfl h
  | _ => exact ⟨fun _ _ h => h, fun _ _ _ h => h⟩

/-- What does not call the disk leaves it alone. -/
theorem holds_of_device {α : Type} {always : Disk Entry → Prop} {p : Cli α}
    {post : α → Disk Entry → Prop} (hcalls : p.Calls fun c => c.device ≠ .disk) (halways : always d)
    (hpost : ∀ trace a, p.Runs trace a → post a d) : p.Holds fs.effects always post d :=
  .of_calls (hcalls.mono fun _ => effects_of_device) halways hpost

/-! ## Writing a report -/

open CommandLine

/-- The rule of a step on a temporary file: where the step fails, the file is removed. -/
theorem holds_onTemporary {always : Disk Entry → Prop}
    {post : Except IoError Unit → Disk Entry → Prop} {temporary : FilePath} {step : IoCall}
    {next : Cli (Except IoError Unit)} {file : Option File}
    (halways : ∀ file, always (Function.update d (fs.entry temporary) file))
    (hpost : ∀ error d', always d' → post (.error error) d')
    (hduring : ∀ d', fs.effects.during (Function.update d (fs.entry temporary) file) (.io step) d' →
      always d')
    (herror : ∀ error d', fs.effects.step (Function.update d (fs.entry temporary) file) (.io step)
      (.error error) d' → ∃ file', d' = Function.update d (fs.entry temporary) file')
    (hnext : ∀ d', fs.effects.step (Function.update d (fs.entry temporary) file) (.io step)
      (.ok ()) d' → next.Holds fs.effects always post d') :
    (onTemporary temporary step next).Holds fs.effects always post
      (Function.update d (fs.entry temporary) file) := by
  refine .bind (.ask (halways file) hduring fun answer d' hstep => ?_)
  cases answer with
  | ok _ => exact ⟨(hnext d' hstep).now, hnext d' hstep⟩
  | error error =>
    obtain ⟨file', rfl⟩ := herror error d' hstep
    refine ⟨halways file', .bind (.ask (halways file') ?_ ?_)⟩
    · rintro d' (rfl | rfl)
      · exact halways file'
      · rw [removed_update]
        exact halways none
    · rintro (_ | _) d' hremoved
      · cases hremoved
        exact ⟨halways file', .done (halways file') (hpost error _ (halways file'))⟩
      · cases hremoved
        rw [removed_update]
        exact ⟨halways none, .done (halways none) (hpost error _ (halways none))⟩

/-- **A report file** is as before or complete, at every moment; when no error is reported it is
complete, and nothing else has changed. -/
theorem holds_atomicFile {file : FilePath × String} (hfile : file ∈ files)
    (hentry : fs.entry file.1 ∉ fs.temporaries) (h : fs.Intact files d₀ d) :
    (atomicFile file.1 file.2).Holds fs.effects (fs.Intact files d₀)
      (fun answer d' => fs.Intact files d₀ d' ∧ (answer = .ok () → d' = fs.write d file)) d := by
  obtain ⟨path, content⟩ := file
  refine .bind (.ask h (fun d' hd => hd ▸ h) fun answer d' hd => ?_)
  cases hd
  cases answer with
  | error error => exact ⟨h, .done h ⟨h, nofun⟩⟩
  | ok _ =>
    refine ⟨h, .bind (.ask h ?_ fun answer d' hstep => ?_)⟩
    · -- cut off while the temporary file is made: it may be there already
      rintro d' (rfl | ⟨temporary, ⟨hmem, hnone⟩, rfl⟩)
      · exact h
      · exact h.temporary hmem hnone _
    · cases answer with
      | error error =>
        cases hstep
        exact ⟨h, .done h ⟨h, nofun⟩⟩
      | ok temporary =>
        obtain ⟨⟨hmem, hnone⟩, rfl⟩ := hstep
        have halways := h.temporary hmem hnone
        have hne : fs.entry path ≠ fs.entry temporary := fun heq => hentry (heq ▸ hmem)
        -- renamed only once it is complete, so the path never names a part of a report
        have hwritten : fs.renamed (Function.update d (fs.entry temporary)
            (some ⟨content.toUTF8, true⟩)) temporary path = fs.write d (path, content) :=
          renamed_update hne hnone
        have hpost (error : IoError) (d' : Disk Entry) (h : fs.Intact files d₀ d') :
            fs.Intact files d₀ d' ∧ ((.error error : Except IoError Unit) = .ok () →
              d' = fs.write d (path, content)) := ⟨h, nofun⟩
        -- written, flushed, stored, renamed
        refine ⟨halways _, holds_onTemporary halways hpost ?_ ?_ fun d' hd => ?_⟩
        · rintro d' (rfl | ⟨n, rfl⟩)
          · exact halways _
          · rw [extended_update]
            exact halways _
        · rintro error d' ⟨n, rfl⟩
          exact ⟨_, extended_update _⟩
        · cases hd
          rw [extended_update, Option.map_some, ByteArray.empty_append]
          refine holds_onTemporary halways hpost (fun d' hd => hd ▸ halways _)
            (fun error d' hd => ⟨_, hd⟩) fun d' hd => ?_
          cases hd
          refine holds_onTemporary halways hpost ?_ (fun error d' hd => ⟨_, hd⟩) fun d' hd => ?_
          · rintro d' (rfl | rfl)
            · exact halways _
            · rw [synced_update]
              exact halways _
          · cases hd
            rw [synced_update, Option.map_some]
            refine holds_onTemporary halways hpost ?_ (fun error d' hd => ⟨_, hd⟩) fun d' hd => ?_
            · rintro d' (rfl | rfl)
              · exact halways _
              · rw [hwritten]
                exact h.write hfile
            · cases hd
              rw [hwritten]
              exact .done (h.write hfile) ⟨h.write hfile, fun _ => rfl⟩

/-- The files of the arguments, with the reports of a result. -/
def reportFiles [Platform] (arguments : RunArgs) (source : SourceText) (result : SuiteResult) :
    List (FilePath × String) :=
  let report := RunReport.fromSuiteResult source.name result
  (arguments.jsonFile.map (·, JsonReport.render report)).toList ++
    (arguments.junitFile.map (·, Junit.render report)).toList

/-- The files of the arguments are not named like temporary files. -/
def Apart (fs : FileSystem Entry) (arguments : RunArgs) : Prop :=
  ∀ path, arguments.jsonFile = some path ∨ arguments.junitFile = some path →
    fs.entry path ∉ fs.temporaries

/-- **A report that is written** is written in full or not at all. -/
theorem holds_writeReport {file : Option FilePath} {content : String}
    (hfile : ∀ path, file = some path → (path, content) ∈ files)
    (hentry : ∀ path, file = some path → fs.entry path ∉ fs.temporaries)
    (h : fs.Intact files d₀ d) :
    (writeReport file content).Holds fs.effects (fs.Intact files d₀)
      (fun answer d' => fs.Intact files d₀ d' ∧
        (answer = .ok () → d' = (file.map (·, content)).toList.foldl fs.write d)) d := by
  cases file with
  | none => exact .done h ⟨h, fun _ => rfl⟩
  | some path => exact holds_atomicFile (hfile path rfl) (hentry path rfl) h

/-- Racing with Ctrl+C does not call the disk. -/
theorem calls_runUntilCtrlC {α : Type} (operation : Execution α) :
    (runUntilCtrlC operation).Calls fun c => c.device ≠ .disk :=
  .bind (Process.calls_race nofun (fun _ => nofun) operation) fun _ => .done _

/-- An error leaves the disk alone. -/
theorem holds_emitError {code : Nat} {category message : String} {always : Disk Entry → Prop}
    {post : Nat → Disk Entry → Prop} (halways : always d) (hpost : post code d) :
    (emitError code category message).Holds fs.effects always post d :=
  holds_of_device (calls_device (calls_emitError _ _ _) (by decide)) halways
    fun _ _ hruns => runs_emitError hruns ▸ hpost

variable [Platform] {arguments : RunArgs}

/-- **The reports of a result**: unless an error is reported, they are complete, and nothing else
has changed. -/
theorem holds_emitRunReport {source : SourceText} {result : SuiteResult}
    (hfiles : files = reportFiles arguments source result) (hapart : fs.Apart arguments) :
    (emitRunReport source result arguments.jsonFile arguments.junitFile).Holds fs.effects
      (fs.Intact files d) (fun code d' => fs.Intact files d d' ∧ (code = internalErrorCode ∨
        code = executionExitCode result ∧ d' = files.foldl fs.write d)) d := by
  have hstart : fs.Intact files d d := .refl files d
  refine .bind (holds_of_device (.ask (by decide)) hstart fun _ terminal _ => ?_)
  refine .bind (holds_of_device (calls_device (calls_stdout _) (by decide)) hstart
    fun _ printed _ => ?_)
  cases printed with
  | error error => exact holds_emitError hstart ⟨hstart, .inl rfl⟩
  | ok _ =>
    refine .bind ((holds_writeReport ?_ (fun path h => hapart path (.inl h)) hstart).mono
      (fun _ h => h) fun json d₁ h => ?_)
    · intro path hpath
      rw [hfiles, reportFiles, hpath]
      exact List.mem_append_left _ (List.mem_singleton_self _)
    -- the JSON report stands, whatever becomes of the other one
    obtain ⟨h₁, hjsonWritten⟩ := h
    cases json with
    | error error => exact holds_emitError h₁ ⟨h₁, .inl rfl⟩
    | ok _ =>
      refine .bind ((holds_writeReport ?_ (fun path h => hapart path (.inr h)) h₁).mono
        (fun _ h => h) fun junit d₂ h => ?_)
      · intro path hpath
        rw [hfiles, reportFiles, hpath]
        exact List.mem_append_right _ (List.mem_singleton_self _)
      obtain ⟨h₂, hjunitWritten⟩ := h
      cases junit with
      | error error => exact holds_emitError h₂ ⟨h₂, .inl rfl⟩
      | ok _ =>
        refine .done h₂ ⟨h₂, .inr ⟨rfl, ?_⟩⟩
        rw [hjunitWritten rfl, hjsonWritten rfl, hfiles, reportFiles, List.foldl_append]

/-! ## Runs -/

/-- The trace of a run whose execution is over: the source that the run read is accepted, its suite
was executed with this result, which is what the suite means against some client, and the exit code
is that of the verdicts. -/
def Judged (arguments : RunArgs) (trace : List (Process.Event SystemCall.Answer))
    (source : SourceText) (result : SuiteResult) (code : Nat) : Prop :=
  ∃ before store suite client, before <+: trace ∧
    Accepted arguments.source before source store suite ∧
    (Async.execute .default suite store).Runs (trace.filterMap executor.event) (some result) ∧
    SuiteRuns .default client suite store (result.blocks.map BlockResult.verdicts)
      (requests trace) ∧
    code = verdictCode suite (result.blocks.map BlockResult.verdicts)

/-- The disk at some moment of a run: as before, or with some complete reports. -/
def RunLeaves (fs : FileSystem Entry) (arguments : RunArgs)
    (trace : List (Process.Event SystemCall.Answer)) (d d' : Disk Entry) : Prop :=
  d' = d ∨ ∃ source result code, Judged arguments trace source result code ∧
    fs.Intact (reportFiles arguments source result) d d'

/-- The disk at the end of a run. -/
def RunFinishes (fs : FileSystem Entry) (arguments : RunArgs)
    (trace : List (Process.Event SystemCall.Answer)) (d : Disk Entry) (code : Nat)
    (d' : Disk Entry) : Prop :=
  (code ∈ [checkFailedCode, invalidInputCode, interruptedCode] ∧ d' = d) ∨
    (code = internalErrorCode ∧ fs.RunLeaves arguments trace d d') ∨
    ∃ source result, Judged arguments trace source result code ∧
      d' = (reportFiles arguments source result).foldl fs.write d

/-- A history of the disk. -/
abbrev DiskHistory (Entry : Type) := Process.History SystemCall.Answer (Disk Entry)

/-- No disk of the history is different from this one. -/
def Still (d : Disk Entry) (history : DiskHistory Entry) : Prop := ∀ d' ∈ history.states, d' = d

/-- **The invariant of a run.** The disk is as before at all moments, or all its disks have some
complete reports of one and the same result. -/
def Kept (fs : FileSystem Entry) (arguments : RunArgs) (d : Disk Entry)
    (history : DiskHistory Entry) : Prop :=
  Still d history ∨ ∃ source result code, Judged arguments history.trace source result code ∧
    ∀ d' ∈ history.states, fs.Intact (reportFiles arguments source result) d d'

/-- How a history ends, by the exit code. -/
def Finished (fs : FileSystem Entry) (arguments : RunArgs) (d : Disk Entry) (code : Nat)
    (history : DiskHistory Entry) : Prop :=
  fs.RunFinishes arguments history.trace d code history.now

/-- The suite is accepted and not executed yet. -/
structure Ready (arguments : RunArgs) (d : Disk Entry) (source : SourceText)
    (store : VariableStore) (suite : TestSuite) (history : DiskHistory Entry) : Prop where
  still : Still d history
  accepted : ∃ before, before <+: history.trace ∧
    Accepted arguments.source before source store suite
  executed : history.trace.filterMap executor.event = []

variable {crate : UrlCrate} {history : DiskHistory Entry}

section

omit [Platform]

omit [DecidableEq Entry] in
/-- The present state is one of the states. -/
theorem mem_states_now (history : DiskHistory Entry) : history.now ∈ history.states :=
  List.mem_append_right _ (List.mem_singleton_self _)

omit [DecidableEq Entry] in
/-- The disk that never changed is as it was. -/
theorem Still.now (h : Still d history) : history.now = d := h _ (mem_states_now history)

/-- A part of a run that leaves the disk alone. -/
theorem holds_still {α : Type} {always : DiskHistory Entry → Prop} {p : Cli α}
    {post : α → DiskHistory Entry → Prop} (hcalls : p.Calls fun c => c.device ≠ .disk)
    (hstill : Still d history) (halways : ∀ history', Still d history' → always history')
    (hpost : ∀ trace a history', p.Runs trace a → history'.trace = history.trace ++ trace →
      Still d history' → post a history') :
    p.Holds fs.effects.recorded always post history := by
  have hdisk : p.Holds fs.effects (· = d) (fun _ => (· = d)) d :=
    holds_of_device hcalls rfl fun _ _ _ => rfl
  have hall {history' : DiskHistory Entry} {trace : List (Process.Event SystemCall.Answer)}
      (h : history.Grows (· = d) trace history') : Still d history' :=
    h.forall_states hstill fun _ => id
  refine (hdisk.recorded hstill.now).mono ?_ ?_
  · rintro history' ⟨trace, q, -, hgrows⟩
    exact halways history' (hall hgrows)
  · rintro a history' ⟨trace, hruns, hgrows, -⟩
    exact hpost trace a history' hruns hgrows.trace (hall hgrows)

end

/-- An error message leaves the disk alone. -/
theorem holds_error {code : Nat} {category message : String} (hstill : Still d history)
    (hfinished : ∀ history', Still d history' → fs.Finished arguments d code history') :
    (emitError code category message).Holds fs.effects.recorded (fs.Kept arguments d)
      (fs.Finished arguments d) history :=
  holds_still (calls_device (calls_emitError _ _ _) (by decide)) hstill (fun _ => .inl)
    fun _ _ history' hruns _ h => runs_emitError hruns ▸ hfinished history' h

/-- A run that is refused leaves the disk as it was. -/
theorem Still.refused {code : Nat}
    (hcode : code ∈ [checkFailedCode, invalidInputCode, interruptedCode]) (history : DiskHistory Entry)
    (h : Still d history) : fs.Finished arguments d code history :=
  .inl ⟨hcode, h.now⟩

/-- An internal error before the reports leaves the disk as it was. -/
theorem Still.internal (history : DiskHistory Entry) (h : Still d history) :
    fs.Finished arguments d internalErrorCode history :=
  .inr (.inl ⟨rfl, .inl h.now⟩)

/-- A part of a run that neither touches the disk nor executes anything. -/
theorem Ready.holds {source : SourceText} {store : VariableStore} {suite : TestSuite} {α : Type}
    {p : Cli α} {post : α → DiskHistory Entry → Prop} {device : Device}
    (h : Ready arguments d source store suite history) (hcalls : p.Calls fun c => c.device = device)
    (hdevice : device ≠ .disk ∧ device ≠ .network)
    (hpost : ∀ a history', Ready arguments d source store suite history' → post a history') :
    p.Holds fs.effects.recorded (fs.Kept arguments d) post history := by
  refine holds_still (calls_device hcalls hdevice.1) h.still (fun _ => .inl) ?_
  intro trace a history' hruns htrace hstill
  obtain ⟨before, hbefore, haccepted⟩ := h.accepted
  refine hpost a history' ⟨hstill, ⟨before, ?_, haccepted⟩, ?_⟩
  · rw [htrace]
    exact hbefore.trans (List.prefix_append _ _)
  · rw [htrace, List.filterMap_append, h.executed,
      executed_of_calls (calls_device hcalls hdevice.2) hruns]
    rfl

/-- What happens after the execution is judged by its result. -/
theorem Judged.append {source : SourceText} {result : SuiteResult} {code : Nat}
    {trace after : List (Process.Event SystemCall.Answer)}
    (h : Judged arguments trace source result code)
    (hafter : after.filterMap executor.event = []) :
    Judged arguments (trace ++ after) source result code := by
  obtain ⟨before, store, suite, client, hbefore, haccepted, hexecuted, hmeans, hcode⟩ := h
  have hsame : (trace ++ after).filterMap executor.event = trace.filterMap executor.event := by
    rw [List.filterMap_append, hafter, List.append_nil]
  refine ⟨before, store, suite, client, hbefore.trans (List.prefix_append _ _), haccepted, ?_, ?_,
    hcode⟩
  · rwa [hsame]
  · rwa [requests, hsame]

/-- **The reports.** From here on every moment is judged by one result. -/
theorem holds_reports {source : SourceText} {result : SuiteResult}
    (hjudged : Judged arguments history.trace source result (executionExitCode result))
    (hapart : fs.Apart arguments) (hstill : Still d history) :
    (emitRunReport source result arguments.jsonFile arguments.junitFile).Holds fs.effects.recorded
      (fs.Kept arguments d) (fs.Finished arguments d) history := by
  have hcalls := calls_emitRunReport source result arguments.jsonFile arguments.junitFile
  have hreports : (emitRunReport source result arguments.jsonFile arguments.junitFile).Holds
      fs.effects _ _ d := holds_emitRunReport rfl hapart
  -- the calls that are added are none of the execution, and the states are those of the reports
  have hgoes {history' : DiskHistory Entry} {trace : List (Process.Event SystemCall.Answer)}
      (hnone : trace.filterMap executor.event = [])
      (h : history.Grows (fs.Intact (reportFiles arguments source result) d) trace history') :
      Judged arguments history'.trace source result (executionExitCode result) ∧
        ∀ d' ∈ history'.states, fs.Intact (reportFiles arguments source result) d d' := by
    refine ⟨?_, h.forall_states (fun d' hd => ?_) fun _ => id⟩
    · rw [h.trace]
      exact hjudged.append hnone
    · rw [hstill d' hd]
      exact .refl _ d
  refine (hreports.recorded hstill.now).mono ?_ ?_
  · rintro history' ⟨trace, q, hafter, hgrows⟩
    exact .inr ⟨source, result, _, hgoes (executed_of_calls hcalls hafter) hgrows⟩
  · rintro code history' ⟨trace, hruns, hgrows, h, hcode⟩
    obtain ⟨hjudged', -⟩ := hgoes (executed_of_calls hcalls hruns) hgrows
    rcases hcode with rfl | ⟨rfl, hd⟩
    · exact .inr (.inl ⟨rfl, .inr ⟨source, result, _, hjudged', h⟩⟩)
    · exact .inr (.inr ⟨source, result, hjudged', hd⟩)

/-- **The disk while an accepted suite is run** and reported. -/
theorem holds_runSuite {source : SourceText} {store : VariableStore} {suite : TestSuite}
    (hready : Ready arguments d source store suite history) (hapart : fs.Apart arguments) :
    (runSuite crate arguments source store suite).Holds fs.effects.recorded
      (fs.Kept arguments d) (fs.Finished arguments d) history := by
  rw [runSuite]
  split
  · exact holds_error hready.still (Still.refused (by decide))
  · refine .bind (hready.holds (calls_newClient _) (by decide) fun client history hready => ?_)
    cases client with
    | error error => exact holds_error hready.still Still.internal
    | ok _ =>
      refine .bind (hready.holds calls_newRuntime (by decide) fun runtime history hready => ?_)
      cases runtime with
      | error error => exact holds_error hready.still Still.internal
      | ok _ =>
        refine .bind (holds_still (calls_runUntilCtrlC _) hready.still (fun _ => .inl)
          fun trace execution history' hexecution htrace hstill => ?_)
        obtain ⟨q, hq, hcompleted, -⟩ := after_runUntilCtrlC hexecution
        obtain ⟨before, hbefore, haccepted⟩ := hready.accepted
        have hexecuted : history'.trace.filterMap executor.event =
            trace.filterMap executor.event := by
          rw [htrace, List.filterMap_append, hready.executed, List.nil_append]
        rcases execution with error | result | _
        · exact holds_error hstill Still.internal
        · rw [hcompleted _ rfl, ← hexecuted] at hq
          obtain ⟨client, result, rfl, hcode, hmeans⟩ := execute_runs haccepted.checked hq
          refine holds_reports ⟨before, store, suite, client, ?_, haccepted, hq, hmeans, hcode⟩
            hapart hstill
          rw [htrace]
          exact hbefore.trans (List.prefix_append _ _)
        · exact holds_error hstill (Still.refused (by decide))

/-- **The disk during a run.** -/
theorem holds_run (hapart : fs.Apart arguments) :
    (run crate arguments).Holds fs.effects.recorded (fs.Kept arguments d)
      (fs.Finished arguments d) (.start d) := by
  have hstart : Still d (.start d : DiskHistory Entry) := fun _ h => List.mem_singleton.mp h
  rw [run]
  split
  · exact holds_error hstart (Still.refused (by decide))
  · refine .bind (holds_still (calls_device (calls_prepareSource _) (by decide)) hstart
      (fun _ => .inl) fun before prepared history hprepared htrace hstill => ?_)
    have htrace : history.trace = before := htrace
    cases prepared with
    | error error => exact holds_error hstill (Still.refused (by decide))
    | ok prepared =>
      obtain ⟨source, store⟩ := prepared
      dsimp only
      obtain ⟨checked, hchecked, hsuite⟩ := checkSource_returns source (validationContext store)
      rw [hchecked]
      dsimp only
      split
      · refine holds_still (calls_device (calls_emitDiagnostics _ _) (by decide)) hstill
          (fun _ => .inl) fun _ code history' hruns _ h => ?_
        rcases runs_emitDiagnostics hruns with ⟨rfl, -⟩ | ⟨rfl, -⟩
        · exact h.internal
        · exact h.refused (by decide)
      · next hclean =>
        rw [eq_of_not_hasErrors hclean] at hchecked hsuite
        obtain ⟨suite, hsome⟩ := Option.isSome_iff_exists.mp (hsuite rfl)
        rw [show checked.suite = some suite from hsome] at hchecked ⊢
        refine holds_runSuite ⟨hstill, ⟨before, ?_, hprepared, hchecked⟩, ?_⟩ hapart
        · rw [htrace]
        · rw [htrace]
          exact executed_of_calls (calls_device (calls_prepareSource _) (by decide)) hprepared

/-- **What is left behind** wherever a run is cut off, also while a call is under way, and after a
power failure: the files are as before, or those of the reports are each as before or hold the
complete report of one and the same result, which is that of the execution of the suite that the
run read, and what this suite means against some client. Only temporary files may be left over. -/
theorem run_leaves (hapart : fs.Apart arguments)
    (hsynced : ∀ e file, d e = some file → file.synced = true)
    (h : fs.effects.recorded.Leaves (run crate arguments) (.start d) history)
    (hdamaged : Damaged history.states d') : fs.RunLeaves arguments history.trace d d' := by
  rcases (holds_run hapart).leaves h with hstill | ⟨source, result, code, hjudged, hintact⟩
  · refine .inl (funext fun e => ?_)
    obtain ⟨d₁, hd, heq | ⟨file, hfile, hunsynced⟩⟩ := hdamaged e
    · rw [heq, hstill d₁ hd]
    · rw [hstill d₁ hd] at hfile
      rw [hsynced e file hfile] at hunsynced
      cases hunsynced
  · exact .inr ⟨source, result, code, hjudged, .damaged hintact hsynced hdamaged⟩

/-- **What a whole run leaves**: if it is refused, rejected or interrupted, the disk is as before,
and if the exit code is that of a suite, exactly the requested files are written, with the reports
of the result of the run, which has this exit code. -/
theorem run_finishes {trace : List (Process.Event SystemCall.Answer)} {code : Nat}
    (hapart : fs.Apart arguments) (h : (run crate arguments).Runs trace code)
    (hfollows : fs.effects.Follows d trace d') : fs.RunFinishes arguments trace d code d' := by
  obtain ⟨history, hrecorded, htrace, rfl, -⟩ :=
    hfollows.recorded (show (Process.History.start d : DiskHistory Entry).now = d from rfl)
  have htrace : history.trace = trace := htrace
  have hfinished : fs.Finished arguments d code history := (holds_run hapart).runs h hrecorded
  rwa [Finished, htrace] at hfinished

/-! ## A run -/

omit [Platform]

/-- Files are named by their paths. -/
def plainFiles : FileSystem FilePath := ⟨id, {path | path.getLast? = some ".tmp"}⟩

/-- A run with its reports in two directories. -/
def filedArguments : RunArgs :=
  { tokenArguments with
    jsonFile := some ["json", "report.json"]
    junitFile := some ["junit", "report.xml"] }

/-- A disk with a report of an earlier run. -/
def usedDisk : Disk FilePath := fun path =>
  if path = ["json", "report.json"] then some ⟨"{}".toUTF8, true⟩ else none

/-- Surroundings with a disk where nothing fails. -/
def calmDisk (s : Async.Seen × Disk FilePath) (c : SystemCall) :
    c.Answer × (Async.Seen × Disk FilePath) :=
  match c with
  | .newTempFile parent =>
    let temporary := parent ++ [".tmp"]
    if (s.2 temporary).isNone then (.ok temporary, s.1, plainFiles.created s.2 temporary)
    else (.error "file exists", s)
  | .io (.writeAll temporary content) =>
    (.ok (), s.1, plainFiles.extended s.2 temporary content.toUTF8)
  | .io (.syncAll temporary) => (.ok (), s.1, plainFiles.synced s.2 temporary)
  | .io (.persist temporary path) => (.ok (), s.1, plainFiles.renamed s.2 temporary path)
  | .io (.remove temporary) => (.ok (), s.1, plainFiles.removed s.2 temporary)
  | c => ((tokenSurroundings s.1 c).1, (tokenSurroundings s.1 c).2, s.2)

/-- A disk on which nothing fails. -/
theorem calmDisk_step (s : Async.Seen × Disk FilePath) (c : SystemCall) :
    plainFiles.effects.step s.2 c (calmDisk s c).1 (calmDisk s c).2.2 := by
  cases c with
  | newTempFile parent =>
    unfold calmDisk
    dsimp only
    split
    · next hfree => exact ⟨⟨List.getLast?_concat, Option.isNone_iff_eq_none.mp hfree⟩, rfl⟩
    · exact rfl
  | io call => cases call <;> exact rfl
  | _ => exact rfl

/-- The two report files are no temporary ones. -/
theorem filedArguments_apart : plainFiles.Apart filedArguments := by
  rintro path (h | h)
  · cases h
    exact show ["json", "report.json"].getLast? ≠ some ".tmp" by decide
  · cases h
    exact show ["junit", "report.xml"].getLast? ≠ some ".tmp" by decide

/-- What was there before is stored. -/
theorem usedDisk_synced (e : FilePath) (file : File) (h : usedDisk e = some file) :
    file.synced = true := by
  unfold usedDisk at h
  split at h
  · cases h
    rfl
  · cases h

/-- The name of the temporary file of the second report. -/
def secondTemporary : FilePath := ["junit", ".tmp"]

/-- The call writes the temporary file of the second report. -/
def writesSecond : SystemCall → Bool
  | .io (.writeAll temporary _) => temporary = secondTemporary
  | _ => false

/-- The call gives a file this name. -/
def renamesTo (path : FilePath) : SystemCall → Bool
  | .io (.persist _ path') => path' = path
  | _ => false

/-- Which call it is. -/
theorem eq_of_writesSecond {c : SystemCall} (h : writesSecond c = true) :
    ∃ content, c = .io (.writeAll secondTemporary content) := by
  unfold writesSecond at h
  split at h
  · obtain rfl := of_decide_eq_true h
    exact ⟨_, rfl⟩
  · cases h

/-- The second report is to be written: its file is there, and the first report has its name. -/
def atSecond (moment : List (Process.Event SystemCall.Answer) × Cli Nat × Async.Seen × Disk FilePath) :
    Bool :=
  moment.2.1.first.any writesSecond &&
    (moment.2.2.2 secondTemporary).isSome &&
    moment.1.any fun event => renamesTo ["json", "report.json"] event.1

/-- The moment before the second report is written. -/
theorem after_atSecond {p : Cli Nat} {s : Async.Seen × Disk FilePath}
    (h : atSecond (p.performTo calmDisk writesSecond s) = true) :
    ∃ trace content next d,
      p.After trace (.call (.io (.writeAll secondTemporary content)) next) ∧
      plainFiles.effects.Follows s.2 trace d ∧ (d secondTemporary).isSome = true ∧
      (trace.any fun event => renamesTo ["json", "report.json"] event.1) = true := by
  obtain ⟨hafter, hfollows⟩ := Process.Effects.follows_performTo Prod.snd calmDisk_step
    writesSecond p s
  rw [atSecond, Bool.and_eq_true, Bool.and_eq_true] at h
  obtain ⟨⟨hfirst, hfile⟩, hrenamed⟩ := h
  cases hrest : (p.performTo calmDisk writesSecond s).2.1 with
  | done code =>
    rw [hrest] at hfirst
    cases hfirst
  | call c next =>
    rw [hrest] at hfirst hafter
    obtain ⟨content, rfl⟩ := eq_of_writesSecond hfirst
    exact ⟨_, content, next, _, hafter, hfollows, hfile, hrenamed⟩

/-- What the power failure leaves: the first report is the older one again, and the temporary file
of the second one holds something else. -/
def tornDisk (d : Disk FilePath) : Disk FilePath :=
  Function.update (Function.update d ["json", "report.json"] (usedDisk ["json", "report.json"]))
    secondTemporary (some ⟨"?".toUTF8, false⟩)

/-- Both can happen: the report was renamed without its directory being stored, and the temporary
file was not stored. -/
theorem damaged_tornDisk {disks : List (Disk FilePath)} {d : Disk FilePath} {file : File}
    (hstart : usedDisk ∈ disks) (hnow : d ∈ disks) (hfile : d secondTemporary = some file)
    (hunsynced : file.synced = false) : Damaged disks (tornDisk d) := by
  intro e
  by_cases htemporary : e = secondTemporary
  · subst htemporary
    exact ⟨d, hnow, .inr ⟨file, hfile, hunsynced⟩⟩
  · have hother : tornDisk d e = Function.update d ["json", "report.json"]
        (usedDisk ["json", "report.json"]) e := Function.update_of_ne htemporary _ _
    by_cases hreport : e = ["json", "report.json"]
    · subst hreport
      exact ⟨usedDisk, hstart, .inl (hother.trans (Function.update_self _ _ _))⟩
    · exact ⟨d, hnow, .inl (hother.trans (Function.update_of_ne hreport _ _))⟩

/-- The run is cut off while it writes the second report, with ten bytes in its temporary file at
most; then the power fails, so that the first report is the older one again and the temporary file
holds something else. -/
theorem run_leaves_torn :
    letI := asciiPlatform
    ∃ (history : DiskHistory FilePath) (d' : Disk FilePath),
      plainFiles.effects.recorded.Leaves (run plainCrate filedArguments) (.start usedDisk) history ∧
      Damaged history.states d' ∧
      (history.trace.any fun event => renamesTo ["json", "report.json"] event.1) = true ∧
      (history.now secondTemporary).map (·.synced) = some false ∧
      d' ["json", "report.json"] = usedDisk ["json", "report.json"] ∧
      d' secondTemporary = some ⟨"?".toUTF8, false⟩ ∧
      plainFiles.RunLeaves filedArguments history.trace usedDisk d' := by
  let := asciiPlatform
  have hmoment : atSecond ((run plainCrate filedArguments).performTo calmDisk writesSecond
      (([], 0), usedDisk)) = true := by
    decide +kernel
  obtain ⟨trace, content, next, d, hafter, hfollows, hsome, hrenamed⟩ := after_atSecond hmoment
  obtain ⟨history, hrecorded, htrace, rfl, hstates⟩ := hfollows.recorded
    (show (Process.History.start usedDisk : DiskHistory FilePath).now = usedDisk from rfl)
  have htrace : history.trace = trace := htrace
  obtain ⟨file, hfile⟩ := Option.isSome_iff_exists.mp hsome
  -- the call that is cut off has written ten bytes
  let torn := plainFiles.extended history.now secondTemporary (content.toUTF8.extract 0 10)
  have htorn : torn secondTemporary = some ⟨file.bytes ++ content.toUTF8.extract 0 10, false⟩ := by
    show Function.update history.now secondTemporary _ secondTemporary = _
    rw [Function.update_self]
    exact congrArg (Option.map _) hfile
  have hleaves : plainFiles.effects.recorded.Leaves (run plainCrate filedArguments)
      (.start usedDisk) (history.moved torn) :=
    .during hafter hrecorded ⟨torn, .inr ⟨10, rfl⟩, rfl⟩
  have hdamaged : Damaged (history.moved torn).states (tornDisk torn) :=
    damaged_tornDisk
      (Process.History.mem_states_moved.mpr (.inl (hstates _ (List.mem_singleton_self _))))
      (Process.History.mem_states_moved.mpr (.inr rfl)) htorn rfl
  have hne : ["json", "report.json"] ≠ secondTemporary := by decide
  refine ⟨history.moved torn, tornDisk torn, hleaves, hdamaged, htrace ▸ hrenamed, ?_, ?_,
    Function.update_self _ _ _, run_leaves filedArguments_apart usedDisk_synced hleaves hdamaged⟩
  · show (torn secondTemporary).map _ = _
    rw [htorn, Option.map_some]
  · exact (Function.update_of_ne hne _ _).trans (Function.update_self _ _ _)

/-- The suite with the token writes both reports. -/
theorem run_finishes_token :
    letI := asciiPlatform
    ∃ trace d', (run plainCrate filedArguments).Runs trace successCode ∧
      plainFiles.effects.Follows usedDisk trace d' ∧
      plainFiles.RunFinishes filedArguments trace usedDisk successCode d' := by
  let := asciiPlatform
  have hcode : ((run plainCrate filedArguments).perform calmDisk (([], 0), usedDisk)).1 = 0 := by
    decide +kernel
  have hruns := Process.runs_performed calmDisk (run plainCrate filedArguments)
    (([], 0), usedDisk)
  rw [hcode] at hruns
  have hfollows := Process.Effects.follows_performed Prod.snd calmDisk_step
    (run plainCrate filedArguments) (([], 0), usedDisk)
  exact ⟨_, _, hruns, hfollows, run_finishes filedArguments_apart hruns hfollows⟩

end FileSystem

end Rettp
