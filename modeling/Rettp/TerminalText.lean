import Rettp.Terminal

/-!
# What a terminal shows

Every text of a report reaches the terminal through one of two escapes, so a line of the
rendering has no control character but the line feed at its end, and colors stand around the
labels of statuses only. A terminal that removes them shows the plain rendering
(`terminal_unforged`).
-/

namespace Rettp
namespace Terminal

/-! ## Removing colors -/

/-- All of them. -/
def statuses : List ReportStatus := [.passed, .failed, .skipped, .aborted]

/-- The status whose colored label a text begins with. -/
def coloredLabel? (text : List Char) : Option ReportStatus :=
  statuses.find? fun s => (status .ansi s).toList.isPrefixOf text

/-- A text with every colored label of a status replaced by the label. -/
def uncolor (text : List Char) : List Char :=
  match text with
  | [] => []
  | c :: rest =>
    match coloredLabel? (c :: rest) with
    | some s => (status .plain s).toList ++ uncolor (rest.drop ((status .ansi s).toList.length - 1))
    | none => c :: uncolor rest
  termination_by text.length
  decreasing_by
    · rw [List.length_drop, List.length_cons]
      omega
    · exact Nat.lt_succ_self _

/-- The character that starts a color sequence. -/
def escape : Char := Char.ofNat 0x1b

theorem uncolor_cons {c : Char} (hc : c ≠ escape) (text : List Char) :
    uncolor (c :: text) = c :: uncolor text := by
  have hnone : coloredLabel? (c :: text) = none := by
    refine List.find?_eq_none.mpr fun s _ => ?_
    have hhead : ∃ label, (status .ansi s).toList = escape :: label := by cases s <;> exact ⟨_, rfl⟩
    obtain ⟨label, hlabel⟩ := hhead
    rw [hlabel, List.isPrefixOf, beq_false_of_ne (Ne.symm hc)]
    exact Bool.false_ne_true
  rw [uncolor, hnone]

theorem uncolor_append {s : List Char} (hs : escape ∉ s) (text : List Char) :
    uncolor (s ++ text) = s ++ uncolor text := by
  induction s with
  | nil => rfl
  | cons c s ih =>
    rw [List.mem_cons, not_or] at hs
    rw [List.cons_append, uncolor_cons (Ne.symm hs.1), ih hs.2, List.cons_append]

/-- The status loses its color. -/
theorem uncolor_status (s : ReportStatus) (text : List Char) :
    uncolor ((status .ansi s).toList ++ text) = (status .plain s).toList ++ uncolor text := by
  have hlabel : coloredLabel? ((status .ansi s).toList ++ text) = some s := by cases s <;> rfl
  have hlength (rest : List Char) (c : Char) (h : (status .ansi s).toList ++ text = c :: rest) :
      rest.drop ((status .ansi s).toList.length - 1) = text := by
    cases s <;>
    · obtain ⟨-, rfl⟩ := List.cons.inj h
      rfl
  cases htext : (status .ansi s).toList ++ text with
  | nil => cases s <;> cases htext
  | cons c rest =>
    rw [uncolor, ← htext, hlabel]
    dsimp only
    rw [hlength rest c htext]

/-! ## Texts without control characters -/

/-- A text without control characters. -/
def ControlFree (text : String) : Prop := ∀ c ∈ text.toList, isControl c = false

/-- What is written for a control character is none. -/
theorem escapeDefault_controlFree {c : Char} (h : isControl c = true) :
    ∀ d ∈ escapeDefault c, isControl d = false := by
  have hall : ∀ n : Fin 0xa0, (escapeDefault (Char.ofNat n)).all (!isControl ·) = true := by
    decide +kernel
  have hlt : c.toNat < 0xa0 := by
    simp only [isControl, Bool.or_eq_true, Bool.and_eq_true, decide_eq_true_eq] at h
    omega
  have hc := List.all_eq_true.mp (hall ⟨c.toNat, hlt⟩)
  rw [Char.ofNat_toNat] at hc
  exact fun d hd => Bool.not_eq_true' _ |>.mp (hc d hd)

/-- **Names are written without control characters.** -/
theorem escapeControlCharacters_controlFree (value : String) :
    ControlFree (escapeControlCharacters value) := by
  intro c hc
  rw [escapeControlCharacters, String.toList_ofList] at hc
  obtain ⟨d, -, hd⟩ := List.mem_flatMap.mp hc
  split at hd
  · next h => exact escapeDefault_controlFree h c hd
  · next h =>
    rw [List.mem_singleton.mp hd]
    exact Bool.eq_false_iff.mpr h

/-- Numbers are written without control characters. -/
theorem toString_controlFree (n : Nat) : ControlFree (toString n) := by
  intro c hc
  rw [show (toString n).toList = Nat.toDigits 10 n from Nat.toList_repr] at hc
  have hdigit : 48 ≤ c.toNat ∧ c.toNat ≤ 57 :=
    Char.isDigit_iff_toNat.mp (Nat.isDigit_of_mem_toDigits (by decide) (by decide) hc)
  simp only [isControl, Bool.or_eq_false_iff, Bool.and_eq_false_iff, decide_eq_false_iff_not]
  omega

/-- A text of the colored rendering, and what is shown for it. -/
structure Shows (colored shown : String) : Prop where
  controlFree : ControlFree shown
  uncolored : ∀ text, uncolor (colored.toList ++ text) = shown.toList ++ uncolor text

namespace Shows

/-- A text without control characters is shown as it is. -/
theorem plain {text : String} (h : ControlFree text) : Shows text text where
  controlFree := h
  uncolored := uncolor_append fun hmem => by cases h escape hmem

/-- So is a fixed text. -/
theorem literal {text : String} (h : text.toList.all (!isControl ·) = true) : Shows text text :=
  plain fun c hc => Bool.not_eq_true' _ |>.mp (List.all_eq_true.mp h c hc)

/-- Texts are shown one after the other. -/
theorem append {a b a' b' : String} (h : Shows a b) (h' : Shows a' b') :
    Shows (a ++ a') (b ++ b') where
  controlFree c hc := by
    rw [String.toList_append, List.mem_append] at hc
    exact hc.elim (h.controlFree c) (h'.controlFree c)
  uncolored text := by
    rw [String.toList_append, List.append_assoc, h.uncolored, h'.uncolored, String.toList_append,
      List.append_assoc]

/-- A status is shown without its color. -/
theorem status (s : ReportStatus) : Shows (status .ansi s) (status .plain s) where
  controlFree c hc := by
    have hall : ((Terminal.status .plain s).toList.all (!isControl ·)) = true := by cases s <;> decide
    exact Bool.not_eq_true' _ |>.mp (List.all_eq_true.mp hall c hc)
  uncolored := uncolor_status s

/-- A number is shown as it is. -/
theorem nat (n : Nat) : Shows (toString n) (toString n) := plain (toString_controlFree n)

/-- An escaped name is shown as it is. -/
theorem escaped (value : String) :
    Shows (escapeControlCharacters value) (escapeControlCharacters value) :=
  plain (escapeControlCharacters_controlFree value)

end Shows

/-- The word for a kind of failure is shown as it is. -/
theorem Shows.failureKind (kind : ReportFailureKind) : Shows kind.asStr kind.asStr := by
  cases kind <;> exact .literal (by decide)

/-- The word for a kind of error is shown as it is. -/
theorem Shows.errorKind (kind : ReportErrorKind) : Shows kind.asStr kind.asStr := by
  cases kind <;> exact .literal (by decide)

/-- The word for a kind of block is shown as it is. -/
theorem Shows.blockKind (kind : ReportBlockKind) : Shows kind.asStr kind.asStr := by
  cases kind <;> exact .literal (by decide)

/-! ## The lines of a rendering -/

/-- Lines of the colored rendering, and the lines shown for them. -/
abbrev ShowsLines (colored shown : List String) : Prop := List.Forall₂ Shows colored shown

/-- Lines are shown one after the other. -/
theorem ShowsLines.append {a b a' b' : List String} (h : ShowsLines a b) (h' : ShowsLines a' b') :
    ShowsLines (a ++ a') (b ++ b') := List.rel_append h h'

/-- The lines of each of some things are shown. -/
theorem ShowsLines.flatMap {α : Type} {f g : α → List String} (h : ∀ x, ShowsLines (f x) (g x))
    (xs : List α) : ShowsLines (xs.flatMap f) (xs.flatMap g) := by
  induction xs with
  | nil => exact .nil
  | cons x xs ih =>
    rw [List.flatMap_cons, List.flatMap_cons]
    exact (h x).append ih

/-- A line is shown if there is one. -/
theorem ShowsLines.option {α : Type} {line : α → String} (h : ∀ x, Shows (line x) (line x))
    (x : Option α) : ShowsLines (x.map line).toList (x.map line).toList := by
  cases x with
  | none => exact .nil
  | some x => exact .cons (h x) .nil

/-- The lines of a failure are shown. -/
theorem showsLines_failure (failure : ReportAssertionFailure) :
    ShowsLines (failureLines failure) (failureLines failure) := by
  refine .cons ?_ (ShowsLines.append (.option (fun expected => ?_) _)
    (.option (fun actual => ?_) _))
  · exact .append (.append (.append (.append (.append (.literal (by decide)) (.escaped _))
      (.literal (by decide))) (.failureKind _)) (.literal (by decide))) (.escaped _)
  · exact .append (.literal (by decide)) (.escaped _)
  · exact .append (.literal (by decide)) (.escaped _)

variable [Platform]

/-- What is known of the `{:?}` text of a string: every control character is escaped. -/
def DebugEscapes : Prop := ∀ value : String, ControlFree (Platform.debugStr value)

/-- The lines of a test are shown. -/
theorem showsLines_test (hdebug : DebugEscapes) (test : ReportTest) :
    ShowsLines (renderTest .ansi test) (renderTest .plain test) := by
  refine .cons ?_ (ShowsLines.append (.flatMap showsLines_failure _)
    (.option (fun error => ?_) _))
  · exact .append (.append (.append (.append (.append (.append (.literal (by decide)) (.status _))
      (.literal (by decide))) (.plain (hdebug _))) (.literal (by decide))) (.nat _))
      (.literal (by decide))
  · exact .append (.append (.append (.literal (by decide)) (.errorKind _)) (.literal (by decide)))
      (.escaped _)

/-- The kind of a block and its name, if it has one. -/
def blockTitle (block : ReportBlock) : String :=
  match block.name with
  | some name => s!"{block.kind.asStr} {Platform.debugStr name}"
  | none => block.kind.asStr

/-- The lines of a block are shown. -/
theorem showsLines_block (hdebug : DebugEscapes) (block : ReportBlock) :
    ShowsLines (renderBlock .ansi block) (renderBlock .plain block) := by
  have hname : Shows (blockTitle block) (blockTitle block) := by
    unfold blockTitle
    cases block.name with
    | none => exact .blockKind _
    | some name =>
      exact .append (.append (.blockKind _) (.literal (by decide))) (.plain (hdebug name))
  refine .cons ?_ (ShowsLines.flatMap (showsLines_test hdebug) _)
  exact .append (.append (.append (.append (.append (.append (.append (.append
    (.literal (by decide)) (.status _)) (.literal (by decide))) hname) (.literal (by decide)))
    (.nat _)) (.literal (by decide))) (.nat _)) (.literal (by decide))

/-- **The lines of a report are shown.** -/
theorem showsLines_report (hdebug : DebugEscapes) (report : RunReport) :
    ShowsLines (renderLines .ansi report) (renderLines .plain report) := by
  refine ShowsLines.append (.append (.append (.cons ?_ (.cons ?_ .nil))
    (.flatMap (showsLines_block hdebug) _)) (.cons ?_ .nil)) (.option (fun error => ?_) _)
  · exact .append (.literal (by decide)) (.plain (hdebug _))
  · exact .append (.append (.append (.append (.append (.status _) (.literal (by decide)))
      (.plain (hdebug _))) (.literal (by decide))) (.nat _)) (.literal (by decide))
  · exact .append (.append (.append (.append (.append (.append (.append (.append (.append (.append
      (.literal (by decide)) (.nat _)) (.literal (by decide))) (.nat _)) (.literal (by decide)))
      (.nat _)) (.literal (by decide))) (.nat _)) (.literal (by decide))) (.nat _))
      (.literal (by decide))
  · exact .append (.append (.append (.literal (by decide)) (.errorKind _)) (.literal (by decide)))
      (.escaped _)

/-! ## Lines put together -/

omit [Platform] in
/-- A text is its first line and the others. -/
theorem toList_render_cons (line : String) (lines : List String) :
    (String.join ((line :: lines).map (· ++ "\n"))).toList =
      line.toList ++ '\n' :: (String.join (lines.map (· ++ "\n"))).toList := by
  simp [String.toList_join]

omit [Platform] in
/-- A text ends its last line. -/
theorem getLast?_render {lines : List String} (h : lines ≠ []) :
    (String.join (lines.map (· ++ "\n"))).toList.getLast? = some '\n' := by
  induction lines with
  | nil => exact absurd rfl h
  | cons line lines ih =>
    rw [toList_render_cons]
    cases lines with
    | nil => exact List.getLast?_concat
    | cons next lines =>
      rw [List.getLast?_append_of_ne_nil _ (List.cons_ne_nil _ _), List.getLast?_cons,
        ih (List.cons_ne_nil _ _)]
      rfl

omit [Platform] in
/-- What is shown of lines: one line feed for each of them, and no other control character. -/
theorem ShowsLines.joined {colored shown : List String} (h : ShowsLines colored shown) :
    (∀ c ∈ (String.join (shown.map (· ++ "\n"))).toList, isControl c = true → c = '\n') ∧
      (String.join (shown.map (· ++ "\n"))).toList.count '\n' = shown.length ∧
      uncolor (String.join (colored.map (· ++ "\n"))).toList =
        (String.join (shown.map (· ++ "\n"))).toList := by
  induction h with
  | nil =>
    refine ⟨fun c hc => absurd hc ?_, rfl, ?_⟩
    · exact List.not_mem_nil
    · exact uncolor.eq_1
  | @cons line shownLine lines shown hline _ ih =>
    obtain ⟨hcontrol, hcount, hcolor⟩ := ih
    rw [toList_render_cons, toList_render_cons]
    refine ⟨?_, ?_, ?_⟩
    · intro c hc hctl
      rcases List.mem_append.mp hc with hc | hc
      · rw [hline.controlFree c hc] at hctl
        cases hctl
      · rcases List.mem_cons.mp hc with hc | hc
        · exact hc
        · exact hcontrol c hc hctl
    · have hnone : shownLine.toList.count '\n' = 0 := by
        refine List.count_eq_zero.mpr fun hmem => ?_
        have := hline.controlFree _ hmem
        cases this
      rw [List.count_append, hnone, List.count_cons_self, hcount, List.length_cons, Nat.zero_add]
    · rw [hline.uncolored, uncolor_cons (by decide), hcolor]

/-! ## Counting lines -/

/-- The number of lines that a report takes: three, and one for each part that it has. -/
def lineCount (report : RunReport) : Nat :=
  let tests := report.blocks.flatMap (·.tests)
  let failures := tests.flatMap (·.failures)
  3 + report.blocks.length + tests.length + failures.length +
    (failures.filterMap (·.expected)).length + (failures.filterMap (·.actual)).length +
    (tests.filterMap (·.error)).length + report.error.toList.length

omit [Platform] in
/-- How many lines failures have. -/
theorem length_failures (failures : List ReportAssertionFailure) :
    (failures.flatMap failureLines).length = failures.length +
      (failures.filterMap (·.expected)).length + (failures.filterMap (·.actual)).length := by
  induction failures with
  | nil => rfl
  | cons failure failures ih =>
    rw [List.flatMap_cons, List.length_append, ih, failureLines]
    cases he : failure.expected <;> cases ha : failure.actual <;>
      simp [he, ha] <;> omega

/-- How many lines tests have. -/
theorem length_tests (color : ColorMode) (tests : List ReportTest) :
    (tests.flatMap (renderTest color)).length = tests.length +
      ((tests.flatMap (·.failures)).flatMap failureLines).length +
      (tests.filterMap (·.error)).length := by
  induction tests with
  | nil => rfl
  | cons test tests ih =>
    rw [List.flatMap_cons, List.length_append, ih, renderTest]
    cases he : test.error <;> simp [he] <;> omega

/-- How many lines blocks have. -/
theorem length_blocks (color : ColorMode) (blocks : List ReportBlock) :
    (blocks.flatMap (renderBlock color)).length = blocks.length +
      ((blocks.flatMap (·.tests)).flatMap (renderTest color)).length := by
  induction blocks with
  | nil => rfl
  | cons block blocks ih =>
    rw [List.flatMap_cons, List.length_append, ih, renderBlock]
    simp
    omega

/-- How many lines a report has. -/
theorem length_renderLines (color : ColorMode) (report : RunReport) :
    (renderLines color report).length = lineCount report := by
  have herror : (report.error.map fun error => s!"Suite error [{error.kind.asStr}]: {
      escapeControlCharacters error.message}").toList.length = report.error.toList.length := by
    cases report.error <;> rfl
  rw [renderLines, lineCount]
  simp only [List.length_append, length_blocks, length_tests, length_failures, List.length_cons,
    List.length_nil, herror]
  omega

/-- **Terminal output cannot be forged.** -/
theorem terminal_unforged (hdebug : DebugEscapes) (report : RunReport) :
    (∀ c ∈ (render .plain report).toList, isControl c = true → c = '\n') ∧
      (render .plain report).toList.count '\n' = lineCount report ∧
      (render .plain report).toList.getLast? = some '\n' ∧
      uncolor (render .ansi report).toList = (render .plain report).toList ∧
      escape ∉ uncolor (render .ansi report).toList := by
  obtain ⟨hcontrol, hcount, hcolor⟩ := (showsLines_report hdebug report).joined
  refine ⟨hcontrol, hcount.trans (length_renderLines _ _), getLast?_render ?_, hcolor, ?_⟩
  · exact List.cons_ne_nil _ _
  · intro hmem
    rw [render, hcolor] at hmem
    cases hcontrol escape hmem rfl

/-- What the `{:?}` text of a string has for a character. -/
def debugChar (c : Char) : List Char :=
  if c = '"' then ['\\', '"']
  else if c = '\\' then ['\\', '\\']
  else if c = Char.ofNat 0 then ['\\', '0']
  else if isControl c then escapeDefault c
  else [c]

/-- The platform with the texts of strings that `{:?}` writes. -/
@[reducible] def debugPlatform : Platform where
  __ := asciiPlatform
  debugStr value := String.ofList ('"' :: value.toList.flatMap debugChar ++ ['"'])

omit [Platform] in
/-- A platform whose quoted texts are escaped. -/
theorem debugPlatform_escapes : @DebugEscapes debugPlatform := by
  intro value c hc
  have hpair {x y : Char} (hx : isControl x = false) (hy : isControl y = false) (h : c ∈ [x, y]) :
      isControl c = false := by
    rcases List.mem_pair.mp h with rfl | rfl
    · exact hx
    · exact hy
  change c ∈ (String.ofList _).toList at hc
  rw [String.toList_ofList, List.cons_append, List.mem_cons, List.mem_append] at hc
  rcases hc with rfl | hc | hc
  · rfl
  · obtain ⟨d, -, hd⟩ := List.mem_flatMap.mp hc
    rw [debugChar] at hd
    split at hd
    · exact hpair rfl rfl hd
    split at hd
    · exact hpair rfl rfl hd
    split at hd
    · exact hpair rfl rfl hd
    split at hd
    · next h => exact escapeDefault_controlFree h c hd
    · next h =>
      rw [List.mem_singleton.mp hd]
      exact Bool.eq_false_iff.mpr h
  · rw [List.mem_singleton.mp hc]
    rfl

/-- A report whose texts try to add a line of their own and to color it. -/
def forgingReport : RunReport where
  schemaVersion := 1
  source := "a\nSummary: 0 total"
  name := some "\x1b[32m[PASS]\x1b[0m"
  status := .failed
  durationMs := 3
  summary := ⟨1, 0, 1, 0, 0⟩
  blocks := [⟨.test, some "t", .failed, 3, [⟨"t\r\n", .failed, 3,
    [⟨"$[\"\n\"]", .typeMismatch, some "string", none, "\x1b[0m"⟩], none⟩]⟩]
  error := none

omit [Platform] in
/-- Names that try to forge a line and a color. -/
theorem terminal_unforged_forging : letI := debugPlatform
    (render .plain forgingReport).toList.count '\n' = 7 :=
  letI := debugPlatform
  (terminal_unforged debugPlatform_escapes forgingReport).2.1

end Terminal
end Rettp
