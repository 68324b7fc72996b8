import Rettp.Junit
import Rettp.Xml

/-!
# Reading JUnit documents

What a reader of XML finds in a JUnit document is the tree of the report (`reportNode`): the names
and messages stand in attributes, the failed assertions in the text of their element. So no text of
a report can open or close an element, or add one.

The tree is written from the report alone, its counts from the tree itself. Two things are not read
as they were meant. The reporter writes tabs, line feeds and carriage returns as they are, and XML
normalizes them (`Reading.normalized`); and it writes the path and the message of a failed assertion
into one text, which does not tell where one of them ends (`read_render_tab`).

Every line of the document but those of a failure is a tag, and between two tags there is only
white space; the lines are read one after the other, from one line feed to the next (`Adds`).
-/

namespace Rettp

namespace Junit

/-! ## The tree of a report -/

/-- What XML can show of a character. -/
def shownCharacter (c : Char) : Char := if Xml.isChar c then c else Char.ofNat 0xfffd

/-- What XML can show of a text. -/
def shown (value : String) : String := String.ofList (value.toList.map shownCharacter)

/-- What is to be read for the value of an attribute, and what for the text of an element. -/
structure Reading where
  value : String → String
  text : String → String

/-- Texts as XML can show them. -/
def Reading.verbatim : Reading := ⟨shown, shown⟩

/-- The same, with the white space and the ends of lines that XML normalizes. -/
def Reading.normalized : Reading where
  value value := String.ofList (Xml.normalize (shown value).toList)
  text text := String.ofList (Xml.lineEnds (shown text).toList)

/-- Seconds with three decimals. -/
def decimal (durationMs : Nat) : String :=
  s!"{durationMs / 1000}.{durationMs / 100 % 10}{durationMs / 10 % 10}{durationMs % 10}"

/-- An element that counts the tests inside it: all of them, and those with each outcome. -/
def countingNode (element name : String) (durationMs : Nat) (tests children : List Xml.Node) :
    Xml.Node :=
  let count (outcome : String) := toString (tests.countP (Xml.Node.hasChild outcome))
  .element element
    [("name", name), ("tests", toString tests.length), ("failures", count "failure"),
      ("errors", count "error"), ("skipped", count "skipped"), ("time", decimal durationMs)]
    children

/-- An error. -/
def errorNode (r : Reading) (kind : ReportErrorKind) (message : String) : Xml.Node :=
  .element "error" [("type", kind.asStr), ("message", r.value message)] []

/-- A test that was not run, with the reason. -/
def skippedNode (r : Reading) (message : String) : Xml.Node :=
  .element "skipped" [("message", r.value message)] []

/-- The lines about a failed assertion. -/
def assertionLines (failure : ReportAssertionFailure) : List String :=
  s!"{failure.path} [{failure.kind.asStr}]: {failure.message}" ::
    ((failure.expected.map fun expected => s!"expected: {expected}").toList ++
      (failure.actual.map fun actual => s!"actual: {actual}").toList)

/-- The text about failed assertions, between the brackets of two tags. -/
def failureText (failures : List ReportAssertionFailure) : String :=
  "\n" ++ String.join ((failures.flatMap assertionLines).map (· ++ "\n")) ++ "      "

/-- What a test found, one failure after the other. -/
def failureNode (r : Reading) (failures : List ReportAssertionFailure) : Xml.Node :=
  .element "failure"
    [("type", "assertion"), ("message", s!"{failures.length} assertion failure(s)")]
    [.text (r.text (failureText failures))]

/-- **The outcome of a test**, inside its element: nothing for a test that passed, and one child for
any other. -/
def outcomeNodes (r : Reading) (test : ReportTest) : List Xml.Node :=
  match test.status, test.error, test.failures with
  | .passed, _, _ => []
  | .skipped, none, _ => [skippedNode r "dependency failed"]
  | .skipped, some error, _ => [skippedNode r error.message]
  | .failed, none, failure :: failures => [failureNode r (failure :: failures)]
  | .failed, none, [] => [errorNode r .internal "test execution failed"]
  | .failed, some error, _ => [errorNode r error.kind error.message]
  | .aborted, none, _ => [errorNode r .internal "test execution failed"]
  | .aborted, some error, _ => [errorNode r error.kind error.message]

/-- A test with its outcome. -/
def testNode (r : Reading) (className : String) (test : ReportTest) : Xml.Node :=
  .element "testcase"
    [("classname", r.value className), ("name", r.value test.name), ("time", decimal test.durationMs)]
    (outcomeNodes r test)

/-- The name of a block, with its kind in front of it. -/
def blockName : ReportBlockKind → Option String → String
  | .core, _ => "core"
  | .pipeline, some name => "pipeline:" ++ name
  | .pipeline, none => "pipeline:unnamed"
  | .test, some name => "test:" ++ name
  | .test, none => "test:unnamed"

/-- The suite of a block. -/
def blockNode (r : Reading) (block : ReportBlock) : Xml.Node :=
  let name := blockName block.kind block.name
  let tests := block.tests.map (testNode r name)
  countingNode "testsuite" (r.value name) block.durationMs tests tests

/-- The suite that stands for an error of the run as a whole. -/
def syntheticNode (r : Reading) (error : ReportExecutionError) : Xml.Node :=
  let tests := [.element "testcase" [("name", "suite"), ("time", "0.000")]
    [errorNode r error.kind error.message]]
  countingNode "testsuite" "rettp" 0 tests tests

/-- **The tree of a report.** -/
def reportNode (r : Reading) (report : RunReport) : Xml.Node :=
  let suites := report.blocks.map (blockNode r) ++ (report.error.map (syntheticNode r)).toList
  countingNode "testsuites" (r.value (report.name.getD report.source)) report.durationMs
    (suites.flatMap Xml.Node.children) suites

/-! ## The counts of a tree -/

/-- The counts that an element states of the tests inside it. -/
def nodeCounts (tests : List Xml.Node) : Counts :=
  ⟨tests.length, tests.countP (Xml.Node.hasChild "failure"),
    tests.countP (Xml.Node.hasChild "error"), tests.countP (Xml.Node.hasChild "skipped")⟩

/-- Counts of more elements. -/
theorem nodeCounts_append (tests tests' : List Xml.Node) :
    nodeCounts (tests ++ tests') = (nodeCounts tests).add (nodeCounts tests') := by
  simp only [nodeCounts, Counts.add, List.length_append, List.countP_append]

/-- **One more test** is counted as the element that is written for it. -/
theorem addTest_testNode (r : Reading) (className : String) (c : Counts) (test : ReportTest) :
    c.addTest test = c.add (nodeCounts [testNode r className test]) := by
  obtain ⟨name, status, durationMs, failures, error⟩ := test
  unfold Counts.addTest
  cases status with
  | passed => rfl
  | skipped => cases error <;> rfl
  | aborted => cases error <;> rfl
  | failed =>
    cases error with
    | some error => rfl
    | none => cases failures <;> rfl

/-- The loop over the tests of a block counts their elements. -/
theorem foldl_addTest (r : Reading) (className : String) (tests : List ReportTest) (c : Counts) :
    tests.foldl .addTest c = c.add (nodeCounts (tests.map (testNode r className))) := by
  induction tests generalizing c with
  | nil => rfl
  | cons test tests ih =>
    rw [List.foldl_cons, ih, addTest_testNode r className, Counts.add_assoc, ← nodeCounts_append]
    rfl

/-- The counts of a block are those of its elements. -/
theorem blockCounts_eq (r : Reading) (className : String) (block : ReportBlock) :
    blockCounts block = nodeCounts (block.tests.map (testNode r className)) := by
  rw [blockCounts, foldl_addTest r className, Counts.zero_add]

/-- The counts of all blocks are those of all their elements. -/
theorem foldl_blockNode (r : Reading) (blocks : List ReportBlock) (c : Counts) :
    (blocks.map blockCounts).foldl .add c =
      c.add (nodeCounts ((blocks.map (blockNode r)).flatMap Xml.Node.children)) := by
  induction blocks generalizing c with
  | nil => rfl
  | cons block blocks ih =>
    have hchildren : (blockNode r block).children =
        block.tests.map (testNode r (blockName block.kind block.name)) := rfl
    rw [List.map_cons, List.foldl_cons, ih, List.map_cons, List.flatMap_cons, nodeCounts_append,
      ← Counts.add_assoc, hchildren, ← blockCounts_eq]

/-- **The counts of the root** are those of all tests in the document. -/
theorem rootCounts_eq (r : Reading) (report : RunReport) :
    rootCounts report = nodeCounts ((reportNode r report).children.flatMap Xml.Node.children) := by
  have hblocks : reportCounts report =
      nodeCounts ((report.blocks.map (blockNode r)).flatMap Xml.Node.children) := by
    rw [reportCounts, foldl_blockNode r, Counts.zero_add]
  show _ = nodeCounts ((report.blocks.map (blockNode r) ++
    (report.error.map (syntheticNode r)).toList).flatMap Xml.Node.children)
  rw [List.flatMap_append, nodeCounts_append, ← hblocks]
  unfold rootCounts synthetic
  cases report.error <;> rfl

/-! ## Texts are read as they are shown -/

/-- The renderer and XML agree on what a character is. -/
theorem isXmlCharacter_eq (c : Char) : isXmlCharacter c = Xml.isChar c := by
  have heq (d : Char) : (c.toNat == d.toNat) = decide (c = d) := by
    rw [Bool.beq_eq_decide_eq, decide_eq_decide]
    exact Char.toNat_inj
  have htab := heq '\t'
  have hfeed := heq '\n'
  have hreturn := heq '\r'
  unfold isXmlCharacter Xml.isChar
  rw [← htab, ← hfeed, ← hreturn]
  rfl

/-- A text is shown character by character. -/
theorem shown_toList (value : String) : (shown value).toList = value.toList.map shownCharacter :=
  String.toList_ofList

/-- A fact about the characters of a fixed text is computed. -/
theorem forall_mem_of_all {text : List Char} {p : Char → Prop} [DecidablePred p]
    (h : text.all (fun c => decide (p c)) = true) : ∀ c ∈ text, p c :=
  fun c hc => of_decide_eq_true (List.all_eq_true.mp h c hc)

/-- Characters of escaped texts. -/
theorem mem_escapeCharacter {inAttribute : Bool} {c d : Char}
    (h : d ∈ escapeCharacter inAttribute c) :
    Xml.InText d ∧ d ≠ '>' ∧ (inAttribute = true → d ≠ '"') := by
  have hall (text : List Char) (hd : d ∈ text)
    (htext : ∀ d ∈ text, Xml.isChar d = true ∧ d ≠ '<' ∧ d ≠ '>' ∧ d ≠ '"') :
      Xml.InText d ∧ d ≠ '>' ∧ (inAttribute = true → d ≠ '"') := 
    ⟨⟨(htext d hd).1, (htext d hd).2.1⟩, (htext d hd).2.2.1, fun _ => (htext d hd).2.2.2⟩
  unfold escapeCharacter at h
  repeat' split at h
  · exact hall _ h (forall_mem_of_all (by decide))
  · exact hall _ h (forall_mem_of_all (by decide))
  · exact hall _ h (forall_mem_of_all (by decide))
  · exact hall _ h (forall_mem_of_all (by decide))
  · exact hall _ h (forall_mem_of_all (by decide))
  · next _ hopen hclose hquote _ hchar =>
    rw [List.mem_singleton] at h
    rw [isXmlCharacter_eq] at hchar
    rw [h]
    exact ⟨⟨hchar, hopen⟩, hclose, fun hattribute hc => hquote ⟨hc, hattribute⟩⟩
  · exact hall _ h (forall_mem_of_all (by decide))

/-- What is written for a character stands for what is shown of it. -/
theorem decode_escapeCharacter (inAttribute : Bool) (c : Char) :
    Xml.decode (escapeCharacter inAttribute c) = some [shownCharacter c] := by
  unfold escapeCharacter
  split
  · next hc => rw [hc]; rfl
  split
  · next hc => rw [hc]; rfl
  split
  · next hc => rw [hc]; rfl
  split
  · next hc => rw [hc.1]; rfl
  split
  · next hc => rw [hc.1]; rfl
  next hamp _ _ _ _ =>
  rw [isXmlCharacter_eq, shownCharacter]
  split
  · rw [Xml.decode_cons hamp]
    rfl
  · rfl

/-- A text is escaped character by character. -/
theorem escape_toList (value : String) (inAttribute : Bool) :
    (escape value inAttribute).toList = value.toList.flatMap (escapeCharacter inAttribute) :=
  String.toList_ofList

/-- What is written for a text stands for what is shown of it. -/
theorem decode_escape (value : String) (inAttribute : Bool) :
    Xml.decode (escape value inAttribute).toList = some (value.toList.map shownCharacter) := by
  rw [escape_toList]
  induction value.toList with
  | nil => rfl
  | cons c text ih =>
    rw [List.flatMap_cons, Xml.decode_append (decode_escapeCharacter inAttribute c), ih]
    rfl

/-- **An escaped value** is read as it is shown, with its white space normalized. -/
theorem writes_escape (value : String) :
    Xml.Writes (escapeAttribute value) (Reading.normalized.value value) := by
  refine ⟨?_, ?_⟩
  · rw [escapeAttribute, escape_toList]
    intro c hc
    obtain ⟨d, -, hd⟩ := List.mem_flatMap.mp hc
    obtain ⟨⟨hchar, hbracket⟩, -, hquote⟩ := mem_escapeCharacter hd
    exact ⟨hchar, hbracket, hquote rfl⟩
  · rw [escapeAttribute, Xml.decode_normalize (decode_escape value true), ← shown_toList]
    exact congrArg some String.toList_ofList.symm

/-- A character that is written and read as it is. -/
def Plain (c : Char) : Prop := Xml.InValue c ∧ c ≠ '&' ∧ c ≠ '\t' ∧ c ≠ '\n' ∧ c ≠ '\r'

instance (c : Char) : Decidable (Plain c) :=
  inferInstanceAs (Decidable ((_ ∧ _ ∧ _) ∧ _ ∧ _ ∧ _ ∧ _))

/-- A text that needs no escape. -/
theorem writes_plain {value : String} (h : ∀ c ∈ value.toList, Plain c) :
    Xml.Writes value value := by
  refine ⟨fun c hc => (h c hc).1, ?_⟩
  rw [Xml.normalize_eq_self.mpr fun c hc => (h c hc).2.2]
  exact Xml.decode_plain fun hamp => (h _ hamp).2.1 rfl

/-- A digit stands for itself. -/
theorem digit_plain {c : Char} (h : c.isDigit = true) : Plain c := by
  have hne (d : Char) (hd : d.isDigit = false) : c ≠ d := by
    rintro rfl
    rw [h] at hd
    cases hd
  refine ⟨⟨?_, hne '<' (by decide), hne '"' (by decide)⟩, hne '&' (by decide),
    hne '\t' (by decide), hne '\n' (by decide), hne '\r' (by decide)⟩
  have hrange : 48 ≤ c.toNat ∧ c.toNat ≤ 57 := Char.isDigit_iff_toNat.mp h
  have hchar : 0x20 ≤ c.toNat ∧ c.toNat ≤ 0xd7ff := by omega
  simp [Xml.isChar, hchar]

/-- Numbers need no escape. -/
theorem repr_plain (n : Nat) : ∀ c ∈ (toString n).toList, Plain c := by
  intro c hc
  have hdigits : (toString n).toList = Nat.toDigits 10 n := Nat.toList_repr
  rw [hdigits] at hc
  exact digit_plain (Nat.isDigit_of_mem_toDigits (by decide) (by decide) hc)

/-- A number as an attribute value. -/
theorem writes_nat (n : Nat) : Xml.Writes (toString n) (toString n) := writes_plain (repr_plain n)

/-- Three digits are padded in the same way. -/
theorem padding_eq : ∀ n : Fin 1000,
    (String.ofList (List.replicate (3 - (toString n.val).length) '0') ++ toString n.val) =
      toString (n.val / 100) ++ toString (n.val / 10 % 10) ++ toString (n.val % 10) := by
  decide +kernel

/-- A duration is written in seconds with three decimals. -/
theorem seconds_eq (durationMs : Nat) : seconds durationMs = decimal durationMs := by
  have hpadding := padding_eq ⟨durationMs % 1000, Nat.mod_lt _ (by decide)⟩
  have hhundreds : durationMs % 1000 / 100 = durationMs / 100 % 10 := by omega
  have htens : durationMs % 1000 / 10 % 10 = durationMs / 10 % 10 := by omega
  have hones : durationMs % 1000 % 10 = durationMs % 10 := by omega
  dsimp only at hpadding
  rw [hhundreds, htens, hones] at hpadding
  unfold seconds decimal
  simp only [toString, String.append_assoc] at hpadding ⊢
  rw [hpadding]

/-- A duration as an attribute value. -/
theorem writes_seconds (durationMs : Nat) :
    Xml.Writes (seconds durationMs) (decimal durationMs) := by
  rw [seconds_eq]
  refine writes_plain fun c hc => ?_
  simp only [decimal, String.toList_append, List.mem_append] at hc
  rcases hc with (((hc | hc) | hc) | hc) | hc
  · exact repr_plain _ c hc
  · rw [List.mem_singleton.mp hc]
    decide
  · exact repr_plain _ c hc
  · exact repr_plain _ c hc
  · exact repr_plain _ c hc

/-! ## Lines -/

open Xml

/-- Add nodes to an element. -/
def addAll (frame : Frame) (nodes : List Node) : Frame :=
  { frame with children := frame.children ++ nodes }

/-- A line with its end. -/
def lineText (line : String) : List Char := line.toList ++ ['\n']

/-- A line as it comes to the reader. -/
def lineRead (line : String) : List Char := lineEnds (lineText line)

/-- The ends of lines are normalized line by line. -/
theorem lineEnds_lines (lines : List String) (more : List Char) :
    lineEnds (lines.flatMap lineText ++ more) = lines.flatMap lineRead ++ lineEnds more := by
  induction lines with
  | nil => rfl
  | cons line lines ih =>
    rw [List.flatMap_cons, List.flatMap_cons, List.append_assoc, lineText, List.append_assoc,
      List.singleton_append, lineEnds_feed, ih, List.append_assoc]
    rfl

/-- Lines that add nodes to the element they stand in. -/
def Adds (lines : List String) (nodes : List Node) : Prop :=
  ∀ frame stack, run ⟨.text ['\n'], frame :: stack⟩ (lines.flatMap lineRead) =
    some ⟨.text ['\n'], addAll frame nodes :: stack⟩

/-- No lines add no nodes. -/
theorem Adds.nil : Adds [] [] := by
  intro frame stack
  rw [addAll, List.append_nil]
  rfl

/-- Lines after lines add nodes after nodes. -/
theorem Adds.append {lines lines' : List String} {nodes nodes' : List Node} (h : Adds lines nodes)
    (h' : Adds lines' nodes') : Adds (lines ++ lines') (nodes ++ nodes') := by
  intro frame stack
  rw [List.flatMap_append, run_append, h, Option.bind_some, h', addAll, addAll, List.append_assoc]
  rfl

/-- Lines for each of some things add a node for each of them. -/
theorem Adds.flatMap {α : Type} {xs : List α} {f : α → List String} {g : α → Node}
    (h : ∀ x, Adds (f x) [g x]) : Adds (xs.flatMap f) (xs.map g) := by
  induction xs with
  | nil => exact .nil
  | cons x xs ih => exact (h x).append ih

/-- A tag that opens an element. -/
def Opens (line : String) (name : String) (attributes : List (String × String)) : Prop :=
  ∀ parent stack, run ⟨.text ['\n'], parent :: stack⟩ (lineRead line) =
    some ⟨.text ['\n'], ⟨name, attributes, []⟩ :: parent :: stack⟩

/-- A tag that closes an element. -/
def Closes (line : String) (name : String) : Prop :=
  ∀ attributes children parent stack,
    run ⟨.text ['\n'], ⟨name, attributes, children⟩ :: parent :: stack⟩ (lineRead line) =
      some ⟨.text ['\n'], parent.add (.element name attributes children) :: stack⟩

/-- A line that opens an element, its contents, and a line that closes it. -/
theorem Opens.element {first last name : String} {attributes : List (String × String)}
    {lines : List String} {nodes : List Node} (hopen : Opens first name attributes)
    (hlines : Adds lines nodes) (hclose : Closes last name) :
    Adds (first :: (lines ++ [last])) [.element name attributes nodes] := by
  intro frame stack
  rw [List.flatMap_cons, List.flatMap_append, List.flatMap_singleton, run_append, hopen,
    Option.bind_some, run_append, hlines, Option.bind_some]
  exact hclose attributes nodes frame stack

/-! ## Tags -/

/-- The beginning of a tag, up to its attributes. -/
def Begins (text : String) (name : String) : Prop :=
  '\r' ∉ text.toList ∧ ∀ parent stack more,
    run ⟨.text ['\n'], parent :: stack⟩ (text.toList ++ ' ' :: more) =
      run ⟨.tag name [], parent :: stack⟩ (' ' :: more)

/-- Attributes start with a blank. -/
theorem flatMap_text {written : List Written} (h : written ≠ []) (more : List Char) :
    ∃ more', written.flatMap Written.text ++ more = ' ' :: more' := by
  obtain ⟨a, rest, rfl⟩ := List.exists_cons_of_ne_nil h
  exact ⟨_, rfl⟩

/-- A line that consists of the beginning of a tag and of its attributes. -/
theorem Begins.run_line {text name line : String} (h : Begins text name) {written : List Written}
    {last : List Char} (hline : lineText line = text.toList ++ (written.flatMap Written.text ++ last))
    (hne : written ≠ []) (parent : Frame) (stack : List Frame) :
    run ⟨.text ['\n'], parent :: stack⟩ (lineRead line) =
      run ⟨.tag name [], parent :: stack⟩ (lineEnds (written.flatMap Written.text ++ last)) := by
  obtain ⟨more, hmore⟩ := flatMap_text hne last
  rw [lineRead, hline, lineEnds_plain h.1, hmore, lineEnds_cons (by decide), h.2]

/-- A tag with its attributes opens an element. -/
theorem Begins.opens {text name line : String} (h : Begins text name) (written : List Written)
    (hline : lineText line = text.toList ++ (written.flatMap Written.text ++ ['>', '\n']))
    (hne : written ≠ []) (hok : ∀ a ∈ written, a.Ok) (hkeys : (written.map Written.key).Nodup) :
    Opens line name (written.map fun a => (a.key, a.value)) := by
  intro parent stack
  rw [h.run_line hline hne, run_open hok hkeys]
  rfl

/-- A tag that is closed at once adds an element without contents. -/
theorem Begins.adds {text name line : String} (h : Begins text name) (written : List Written)
    (hline : lineText line = text.toList ++ (written.flatMap Written.text ++ [' ', '/', '>', '\n']))
    (hne : written ≠ []) (hok : ∀ a ∈ written, a.Ok) (hkeys : (written.map Written.key).Nodup) :
    Adds [line] [.element name (written.map fun a => (a.key, a.value)) []] := by
  intro frame stack
  rw [List.flatMap_singleton, h.run_line hline hne, run_empty hok hkeys]
  rfl

/-- The last line of a suite. -/
theorem closes_suite : Closes closeSuite "testsuite" := fun _ _ _ _ => rfl

/-- The last line of a test. -/
theorem closes_test : Closes "    </testcase>" "testcase" := fun _ _ _ _ => rfl

/-- The last line of the document. -/
theorem closes_root : Closes "</testsuites>" "testsuites" := fun _ _ _ _ => rfl

/-- The attributes of an element that counts tests. -/
def suiteAttributes (name : String) (counts : Counts) (durationMs : Nat) :
    List (String × String) :=
  [("name", name), ("tests", toString counts.tests), ("failures", toString counts.failures),
    ("errors", toString counts.errors), ("skipped", toString counts.skipped),
    ("time", decimal durationMs)]

/-- An element that counts has the attributes of the counts of its tests. -/
theorem countingNode_eq (element name : String) (durationMs : Nat) (tests children : List Node) :
    countingNode element name durationMs tests children =
      .element element (suiteAttributes name (nodeCounts tests) durationMs) children := rfl

/-- The attributes of a suite, as they are written. -/
def suiteWritten (name : String) (counts : Counts) (durationMs : Nat) : List Written :=
  [⟨"name", escapeAttribute name, Reading.normalized.value name⟩,
    ⟨"tests", toString counts.tests, toString counts.tests⟩,
    ⟨"failures", toString counts.failures, toString counts.failures⟩,
    ⟨"errors", toString counts.errors, toString counts.errors⟩,
    ⟨"skipped", toString counts.skipped, toString counts.skipped⟩,
    ⟨"time", seconds durationMs, decimal durationMs⟩]

/-- The attributes of a suite are well formed. -/
theorem suiteWritten_ok (name : String) (counts : Counts) (durationMs : Nat) :
    ∀ a ∈ suiteWritten name counts durationMs, a.Ok := by
  simp only [suiteWritten, List.forall_mem_cons]
  exact ⟨.mk (by decide) (writes_escape name), .mk (by decide) (writes_nat _),
    .mk (by decide) (writes_nat _), .mk (by decide) (writes_nat _), .mk (by decide) (writes_nat _),
    .mk (by decide) (writes_seconds _), nofun⟩

/-- The attributes of a suite have distinct names. -/
theorem suiteWritten_keys (name : String) (counts : Counts) (durationMs : Nat) :
    ((suiteWritten name counts durationMs).map Written.key).Nodup := by
  show ["name", "tests", "failures", "errors", "skipped", "time"].Nodup
  decide

/-- The first line of a suite. -/
theorem opens_suite (name : String) (counts : Counts) (durationMs : Nat) :
    Opens (openSuite name counts (seconds durationMs)) "testsuite"
      (suiteAttributes (Reading.normalized.value name) counts durationMs) := by
  have hbegins : Begins "  <testsuite" "testsuite" := ⟨by decide, fun _ _ _ => rfl⟩
  refine hbegins.opens (suiteWritten name counts durationMs) ?_ (List.cons_ne_nil _ _)
    (suiteWritten_ok name counts durationMs) (suiteWritten_keys name counts durationMs)
  unfold openSuite
  simp only [lineText, suiteWritten, Written.text, List.flatMap_cons, List.flatMap_nil,
    String.toList_append, toString, String.reduceToList, List.cons_append, List.nil_append,
    List.append_assoc]

/-- The first line of the document. -/
theorem opens_root (name : String) (counts : Counts) (durationMs : Nat) :
    Opens (openRoot name counts (seconds durationMs)) "testsuites"
      (suiteAttributes (Reading.normalized.value name) counts durationMs) := by
  have hbegins : Begins "<testsuites" "testsuites" := ⟨by decide, fun _ _ _ => rfl⟩
  refine hbegins.opens (suiteWritten name counts durationMs) ?_ (List.cons_ne_nil _ _)
    (suiteWritten_ok name counts durationMs) (suiteWritten_keys name counts durationMs)
  unfold openRoot
  simp only [lineText, suiteWritten, Written.text, List.flatMap_cons, List.flatMap_nil,
    String.toList_append, toString, String.reduceToList, List.cons_append, List.nil_append,
    List.append_assoc]

/-- The line that opens a test. -/
theorem opens_test (className name : String) (durationMs : Nat) :
    Opens s!"    <testcase classname=\"{escapeAttribute className}\" name=\"{escapeAttribute name}\" time=\"{seconds durationMs}\">"
      "testcase" [("classname", Reading.normalized.value className),
        ("name", Reading.normalized.value name), ("time", decimal durationMs)] := by
  have hbegins : Begins "    <testcase" "testcase" := ⟨by decide, fun _ _ _ => rfl⟩
  refine hbegins.opens [⟨"classname", escapeAttribute className, Reading.normalized.value className⟩,
    ⟨"name", escapeAttribute name, Reading.normalized.value name⟩,
    ⟨"time", seconds durationMs, decimal durationMs⟩] ?_ (List.cons_ne_nil _ _) ?_ ?_
  · simp only [lineText, Written.text, List.flatMap_cons, List.flatMap_nil, String.toList_append,
      toString, String.reduceToList, List.cons_append, List.nil_append, List.append_assoc]
  · simp only [List.forall_mem_cons]
    exact ⟨.mk (by decide) (writes_escape _), .mk (by decide) (writes_escape _),
      .mk (by decide) (writes_seconds _), List.forall_mem_nil _⟩
  · show ["classname", "name", "time"].Nodup
    decide

/-- The word for a kind of error needs no escape. -/
theorem escapeAttribute_asStr (kind : ReportErrorKind) :
    escapeAttribute kind.asStr = kind.asStr := by
  cases kind <;> decide +kernel

/-- The word for a kind of error as an attribute value. -/
theorem writes_asStr (kind : ReportErrorKind) : Writes kind.asStr kind.asStr := by
  refine writes_plain ?_
  cases kind <;> exact forall_mem_of_all (by decide)

/-- The line of an error. -/
theorem adds_error (kind : ReportErrorKind) (message : String) :
    Adds [errorLine kind.asStr message] [errorNode .normalized kind message] := by
  have hbegins : Begins "      <error" "error" := ⟨by decide, fun _ _ _ => rfl⟩
  refine hbegins.adds [⟨"type", kind.asStr, kind.asStr⟩,
    ⟨"message", escapeAttribute message, Reading.normalized.value message⟩] ?_
    (List.cons_ne_nil _ _) ?_ ?_
  · unfold errorLine
    simp only [lineText, Written.text, List.flatMap_cons, List.flatMap_nil, String.toList_append,
      toString, String.reduceToList, List.cons_append, List.nil_append, List.append_assoc]
  · simp only [List.forall_mem_cons]
    exact ⟨.mk (by decide) (writes_asStr kind), .mk (by decide) (writes_escape _),
      List.forall_mem_nil _⟩
  · show ["type", "message"].Nodup
    decide

/-- The line of a test that was not run. -/
theorem adds_skipped (message : String) :
    Adds [s!"      <skipped message=\"{escapeAttribute message}\" />"]
      [skippedNode .normalized message] := by
  have hbegins : Begins "      <skipped" "skipped" := ⟨by decide, fun _ _ _ => rfl⟩
  refine hbegins.adds [⟨"message", escapeAttribute message, Reading.normalized.value message⟩] ?_
    (List.cons_ne_nil _ _) ?_ ?_
  · simp only [lineText, Written.text, List.flatMap_cons, List.flatMap_nil, String.toList_append,
      toString, String.reduceToList, List.cons_append, List.nil_append, List.append_assoc]
  · simp only [List.forall_mem_cons]
    exact ⟨.mk (by decide) (writes_escape _), List.forall_mem_nil _⟩
  · show ["message"].Nodup
    decide

/-! ## Failures -/

/-- A text inside an element, as it is written and as it was meant. -/
def Shows (raw original : List Char) : Prop :=
  (∀ c ∈ raw, InText c ∧ c ≠ '>') ∧ decode raw = some (original.map shownCharacter)

/-- Nothing is shown as nothing. -/
theorem Shows.nil : Shows [] [] := ⟨nofun, rfl⟩

/-- Texts are shown one after the other. -/
theorem Shows.append {raw raw' original original' : List Char} (h : Shows raw original)
    (h' : Shows raw' original') : Shows (raw ++ raw') (original ++ original') := by
  refine ⟨fun c hc => ?_, ?_⟩
  · rcases List.mem_append.mp hc with hc | hc
    · exact h.1 c hc
    · exact h'.1 c hc
  · rw [decode_append h.2, h'.2, Option.map_some, List.map_append]

/-- Texts for each of some things are shown one after the other. -/
theorem Shows.flatMap {α : Type} {xs : List α} {f g : α → List Char}
    (h : ∀ x, Shows (f x) (g x)) : Shows (xs.flatMap f) (xs.flatMap g) := by
  induction xs with
  | nil => exact .nil
  | cons x xs ih => exact (h x).append ih

/-- An escaped text is shown. -/
theorem shows_escape (value : String) : Shows (escapeText value).toList value.toList := by
  refine ⟨?_, decode_escape value false⟩
  rw [escapeText, escape_toList]
  intro c hc
  obtain ⟨d, -, hd⟩ := List.mem_flatMap.mp hc
  obtain ⟨htext, hbracket, -⟩ := mem_escapeCharacter hd
  exact ⟨htext, hbracket⟩

/-- A text that is written as it is. -/
theorem shows_plain {raw : List Char} (h : ∀ c ∈ raw, isChar c = true ∧ c ≠ '<' ∧ c ≠ '>' ∧ c ≠ '&') :
    Shows raw raw := by
  have hshown : raw.map shownCharacter = raw :=
    (List.map_congr_left fun c hc => if_pos (h c hc).1).trans (List.map_id raw)
  refine ⟨fun c hc => ⟨⟨(h c hc).1, (h c hc).2.1⟩, (h c hc).2.2.1⟩, ?_⟩
  rw [hshown]
  exact decode_plain fun hamp => (h _ hamp).2.2.2 rfl

/-- The word for a kind of failure is shown as it is. -/
theorem shows_kind (kind : ReportFailureKind) : Shows kind.asStr.toList kind.asStr.toList := by
  refine shows_plain ?_
  cases kind <;> exact forall_mem_of_all (by decide)

/-- A line that shows a text behind a label. -/
theorem shows_labelled {label : String} (value : String)
    (h : ∀ c ∈ label.toList, isChar c = true ∧ c ≠ '<' ∧ c ≠ '>' ∧ c ≠ '&') :
    Shows (lineText (label ++ escapeText value)) (lineText (label ++ value)) := by
  rw [lineText, lineText, String.toList_append, String.toList_append]
  exact ((shows_plain h).append (shows_escape value)).append
    (shows_plain (forall_mem_of_all (by decide)))

/-- The lines of a failure are shown. -/
theorem shows_failure (failure : ReportAssertionFailure) :
    Shows ((failureLines failure).flatMap lineText) ((assertionLines failure).flatMap lineText) := by
  rw [failureLines, assertionLines, List.flatMap_cons, List.flatMap_cons, List.flatMap_append,
    List.flatMap_append]
  have hfirst : Shows
      (lineText s!"{escapeText failure.path} [{failure.kind.asStr}]: {escapeText failure.message}")
      (lineText s!"{failure.path} [{failure.kind.asStr}]: {failure.message}") := by
    simp only [lineText, String.toList_append]
    exact (((((shows_escape failure.path).append (shows_plain (forall_mem_of_all (by decide)))).append
      (shows_kind failure.kind)).append (shows_plain (forall_mem_of_all (by decide)))).append
      (shows_escape failure.message)).append (shows_plain (forall_mem_of_all (by decide)))
  have hpreview {label : String} (value : Option String)
      (h : ∀ c ∈ label.toList, isChar c = true ∧ c ≠ '<' ∧ c ≠ '>' ∧ c ≠ '&') :
      Shows ((value.map fun v => label ++ escapeText v).toList.flatMap lineText)
        ((value.map fun v => label ++ v).toList.flatMap lineText) := by
    cases value with
    | none => exact .nil
    | some v =>
      simp only [Option.map_some, Option.toList_some, List.flatMap_singleton]
      exact shows_labelled v h
  have hexpected := @hpreview "expected: " failure.expected (forall_mem_of_all (by decide))
  have hactual := @hpreview "actual: " failure.actual (forall_mem_of_all (by decide))
  exact hfirst.append (hexpected.append hactual)

/-- The text about failures is not only white space. -/
theorem bracket_mem_failureLines {failures : List ReportAssertionFailure} (h : failures ≠ []) :
    '[' ∈ (failures.flatMap failureLines).flatMap lineText := by
  obtain ⟨failure, rest, rfl⟩ := List.exists_cons_of_ne_nil h
  have hline : '[' ∈ lineText
      s!"{escapeText failure.path} [{failure.kind.asStr}]: {escapeText failure.message}" := by
    simp only [lineText, String.toList_append, List.mem_append]
    exact .inl (.inl (.inl (.inl (.inr (by decide)))))
  rw [List.flatMap_cons, failureLines, List.cons_append, List.flatMap_cons]
  exact List.mem_append_left _ hline

/-- The first line of what a test found. -/
theorem opens_failure (n : Nat) :
    Opens s!"      <failure type=\"assertion\" message=\"{n} assertion failure(s)\">" "failure"
      [("type", "assertion"), ("message", s!"{n} assertion failure(s)")] := by
  have hbegins : Begins "      <failure" "failure" := ⟨by decide, fun _ _ _ => rfl⟩
  have hmessage : Writes s!"{n} assertion failure(s)" s!"{n} assertion failure(s)" := by
    refine writes_plain fun c hc => ?_
    simp only [String.toList_append, List.mem_append] at hc
    rcases hc with hc | hc
    · exact repr_plain n c hc
    · have hall : ∀ c ∈ " assertion failure(s)".toList, Plain c := forall_mem_of_all (by decide)
      exact hall c hc
  refine hbegins.opens [⟨"type", "assertion", "assertion"⟩,
    ⟨"message", s!"{n} assertion failure(s)", s!"{n} assertion failure(s)"⟩] ?_
    (List.cons_ne_nil _ _) ?_ ?_
  · simp only [lineText, Written.text, List.flatMap_cons, List.flatMap_nil, String.toList_append,
      toString, String.reduceToList, List.cons_append, List.nil_append, List.append_assoc]
  · have hassertion : ∀ c ∈ "assertion".toList, Plain c := forall_mem_of_all (by decide)
    simp only [List.forall_mem_cons]
    exact ⟨.mk (by decide) (writes_plain hassertion), .mk (by decide) hmessage,
      List.forall_mem_nil _⟩
  · show ["type", "message"].Nodup
    decide

/-- The text between the two tags of what a test found. -/
theorem failureText_toList (failures : List ReportAssertionFailure) :
    (failureText failures).toList =
      ['\n'] ++ failures.flatMap (fun failure => (assertionLines failure).flatMap lineText) ++
        "      ".toList := by
  rw [failureText, String.toList_append, String.toList_append, String.toList_join, List.flatMap_map,
    List.flatMap_assoc]
  simp only [String.toList_append]
  rfl

/-- What is written between the tags of a failure. -/
def writtenFailures (failures : List ReportAssertionFailure) : List Char :=
  ['\n'] ++ (failures.flatMap failureLines).flatMap lineText ++ "      ".toList

/-- **The text about failures**, between the tags of its element. -/
theorem shows_failures (failures : List ReportAssertionFailure) :
    Shows (writtenFailures failures) (failureText failures).toList := by
  have hplain (text : List Char)
      (h : text.all (fun c => decide (isChar c = true ∧ c ≠ '<' ∧ c ≠ '>' ∧ c ≠ '&')) = true) :
      Shows text text :=
    shows_plain (forall_mem_of_all h)
  rw [failureText_toList, writtenFailures, List.flatMap_assoc]
  exact ((hplain ['\n'] (by decide)).append (.flatMap shows_failure)).append
    (hplain "      ".toList (by decide))

/-- It is read line by line. -/
theorem lineEnds_writtenFailures (failures : List ReportAssertionFailure) :
    lineEnds (writtenFailures failures) =
      ['\n'] ++ (failures.flatMap failureLines).flatMap lineRead ++ "      ".toList := by
  rw [writtenFailures, List.append_assoc, lineEnds_plain (by decide), lineEnds_lines,
    List.append_assoc]
  rfl

/-- None of its characters ends the text. -/
theorem mem_writtenFailures {failures : List ReportAssertionFailure} {c : Char}
    (h : c ∈ lineEnds (writtenFailures failures)) : InText c ∧ c ≠ '>' := by
  rcases mem_lineEnds h with h | rfl
  · exact (shows_failures failures).1 c h.1
  · exact ⟨⟨by decide, by decide⟩, by decide⟩

/-- It has a bracket, so the reader does not drop it as layout. -/
theorem writtenFailures_not_blank {failures : List ReportAssertionFailure} (h : failures ≠ []) :
    (lineEnds (writtenFailures failures)).all isSpace = false := by
  rw [List.all_eq_false]
  refine ⟨'[', mem_lineEnds_of_mem ?_ (by decide), by decide⟩
  exact List.mem_append_left _ (List.mem_append_right _ (bracket_mem_failureLines h))

/-- Its references stand for what is shown, with the ends of lines normalized. -/
theorem decode_writtenFailures (failures : List ReportAssertionFailure) :
    decode (lineEnds (writtenFailures failures)) =
      some (lineEnds (shown (failureText failures)).toList) := by
  rw [shown_toList]
  exact decode_lineEnds (shows_failures failures).2

/-- The lines of what a test found. -/
theorem adds_failure {failures : List ReportAssertionFailure} (h : failures ≠ []) :
    Adds (s!"      <failure type=\"assertion\" message=\"{failures.length} assertion failure(s)\">" ::
      (failures.flatMap failureLines ++ ["      </failure>"]))
      [failureNode .normalized failures] := by
  intro frame stack
  have hclose : lineRead "      </failure>" = "      ".toList ++ '<' :: "/failure>\n".toList := rfl
  have hmarkup := step_markup (writtenFailures_not_blank h)
    (fun hmem => (mem_writtenFailures hmem).2 rfl) (decode_writtenFailures failures)
    ⟨"failure", [("type", "assertion"),
      ("message", s!"{failures.length} assertion failure(s)")], []⟩ (frame :: stack)
  rw [lineEnds_writtenFailures] at hmarkup
  rw [List.flatMap_cons, List.flatMap_append, List.flatMap_singleton, run_append, opens_failure,
    Option.bind_some, hclose, ← List.append_assoc, run_append, run_text, Option.bind_some,
    ← List.append_assoc, run, hmarkup, Option.bind_some]
  · rfl
  · intro c hc
    refine (@mem_writtenFailures failures c ?_).1
    rw [lineEnds_writtenFailures, List.append_assoc]
    exact List.mem_append_right _ hc

/-! ## The document -/

/-- **The outcome of a test** is read as the one child that it has, or as none. -/
theorem adds_outcome (test : ReportTest) :
    Adds (outcomeLines test) (outcomeNodes .normalized test) := by
  have hinternal : Adds [errorLine (escapeAttribute "internal") "test execution failed"]
      [errorNode .normalized .internal "test execution failed"] := by
    have hkind : escapeAttribute "internal" = "internal" := escapeAttribute_asStr .internal
    rw [hkind]
    exact adds_error .internal "test execution failed"
  have herror (error : ReportExecutionError) :
      Adds [errorLine (escapeAttribute error.kind.asStr) error.message]
        [errorNode .normalized error.kind error.message] := by
    rw [escapeAttribute_asStr]
    exact adds_error error.kind error.message
  obtain ⟨name, status, durationMs, failures, error⟩ := test
  cases status with
  | passed => exact .nil
  | skipped =>
    cases error with
    | none => exact adds_skipped "dependency failed"
    | some error => exact adds_skipped error.message
  | failed =>
    cases error with
    | some error => exact herror error
    | none =>
      cases failures with
      | nil => exact hinternal
      | cons failure failures => exact adds_failure (List.cons_ne_nil failure failures)
  | aborted =>
    cases error with
    | none => exact hinternal
    | some error => exact herror error

/-- The lines of a test. -/
theorem adds_test (className : String) (test : ReportTest) :
    Adds (renderTest className test) [testNode .normalized className test] :=
  (opens_test className test.name test.durationMs).element (adds_outcome test) closes_test

/-- The name of a suite is that of its block. -/
theorem suiteName_eq (block : ReportBlock) : suiteName block = blockName block.kind block.name := by
  obtain ⟨kind, name, durationMs, tests⟩ := block
  cases kind <;> cases name <;> rfl

/-- The lines of a block. -/
theorem adds_block (block : ReportBlock) :
    Adds (renderBlock block) [blockNode .normalized block] := by
  have htests : Adds (block.tests.flatMap (renderTest (suiteName block)))
      (block.tests.map (testNode .normalized (suiteName block))) :=
    .flatMap (adds_test (suiteName block))
  rw [blockNode, ← suiteName_eq, countingNode_eq, ← blockCounts_eq]
  exact (opens_suite _ _ _).element htests closes_suite

/-- The lines of an error of the run as a whole. -/
theorem adds_synthetic (error : ReportExecutionError) :
    Adds (renderError error) [syntheticNode .normalized error] := by
  have hline : openSuite "rettp" ⟨1, 0, 1, 0⟩ (seconds 0) =
      "  <testsuite name=\"rettp\" tests=\"1\" failures=\"0\" errors=\"1\" skipped=\"0\" time=\"0.000\">" := by
    decide +kernel
  have hname : Reading.normalized.value "rettp" = "rettp" := by decide +kernel
  have hsuite := opens_suite "rettp" ⟨1, 0, 1, 0⟩ 0
  have htest : Opens "    <testcase name=\"suite\" time=\"0.000\">" "testcase"
      [("name", "suite"), ("time", "0.000")] := fun _ _ => rfl
  rw [hline, hname] at hsuite
  have hadds := hsuite.element (htest.element (adds_error error.kind error.message) closes_test)
    closes_suite
  unfold renderError
  exact hadds

/-- A document is its lines. -/
theorem render_toList (report : RunReport) :
    (render report).toList = (renderLines report).flatMap lineText := by
  unfold render
  rw [String.toList_join, List.flatMap_map]
  simp only [String.toList_append]
  rfl

/-- The lines behind the declaration. -/
def bodyLines (report : RunReport) : List String :=
  openRoot (report.name.getD report.source) (rootCounts report) (seconds report.durationMs) ::
    ((report.blocks.flatMap renderBlock ++
      (match report.error with
        | some error => renderError error
        | none => [])) ++ ["</testsuites>"])

/-- The lines of a report. -/
theorem adds_body (report : RunReport) :
    Adds (bodyLines report) [reportNode .normalized report] := by
  have hopens := opens_root (report.name.getD report.source) (rootCounts report) report.durationMs
  have hsuites : Adds (report.blocks.flatMap renderBlock ++
      (match report.error with
        | some error => renderError error
        | none => [])) (reportNode .normalized report).children := by
    refine .append (.flatMap adds_block) ?_
    cases report.error with
    | none => exact .nil
    | some error => exact adds_synthetic error
  have hadds := hopens.element hsuites closes_root
  rw [rootCounts_eq .normalized] at hadds
  unfold bodyLines
  rw [rootCounts_eq .normalized]
  exact hadds

/-- The first line is the declaration. -/
theorem renderLines_body (report : RunReport) :
    renderLines report = "<?xml version=\"1.0\" encoding=\"UTF-8\"?>" :: bodyLines report := by
  unfold renderLines bodyLines
  rw [List.cons_append, List.cons_append, List.cons_append]
  rfl

/-- The reader behind the declaration. -/
theorem run_start (more : List Char) :
    run start ('\n' :: more) = run ⟨.text ['\n'], [⟨"", [], []⟩]⟩ more := rfl

/-- What a reader finds in the document of a report. -/
theorem read_document (report : RunReport) :
    Xml.read (render report).toList = some (reportNode .normalized report) := by
  have hlines : (render report).toList =
      declaration ++ '\n' :: (bodyLines report).flatMap lineText := by
    have hfirst : lineText "<?xml version=\"1.0\" encoding=\"UTF-8\"?>" = declaration ++ ['\n'] := rfl
    rw [render_toList, renderLines_body, List.flatMap_cons, hfirst, List.append_assoc,
      List.singleton_append]
  have hprefix : declaration.isPrefixOf (render report).toList = true := by
    rw [List.isPrefixOf_iff_prefix, hlines]
    exact List.prefix_append _ _
  have hbody : lineEnds ((bodyLines report).flatMap lineText) =
      (bodyLines report).flatMap lineRead := by
    have hends := lineEnds_lines (bodyLines report) []
    rwa [List.append_nil, lineEnds, List.append_nil] at hends
  rw [Xml.read, if_pos hprefix, hlines, List.drop_left, lineEnds_cons (by decide), hbody, run_start,
    adds_body, Option.bind_some]
  rfl

/-- Only a character that XML does not allow is shown as another one. -/
theorem shownCharacter_eq {c d : Char} (hchar : Xml.isChar d = true) (hd : d ≠ Char.ofNat 0xfffd) :
    shownCharacter c = d ↔ c = d := by
  unfold shownCharacter
  split
  · rfl
  · next hc =>
    refine iff_of_false (fun h => hd h.symm) ?_
    rintro rfl
    exact hc hchar

/-- White space is shown as it is, and nothing else is shown as white space. -/
theorem mem_shown {value : String} {d : Char} (hchar : Xml.isChar d = true)
    (hd : d ≠ Char.ofNat 0xfffd) : d ∈ (shown value).toList ↔ d ∈ value.toList := by
  rw [shown_toList, List.mem_map]
  refine ⟨?_, ?_⟩
  · rintro ⟨c, hc, heq⟩
    rwa [← (shownCharacter_eq hchar hd).mp heq]
  · intro hmem
    exact ⟨d, hmem, (shownCharacter_eq hchar hd).mpr rfl⟩

/-- **Values** are read as they are shown exactly when they have no white space but blanks. -/
theorem normalized_value (value : String) :
    Reading.normalized.value value = shown value ↔
      '\t' ∉ value.toList ∧ '\n' ∉ value.toList ∧ '\r' ∉ value.toList := by
  have hvalue : Reading.normalized.value value = shown value ↔
      Xml.normalize (shown value).toList = (shown value).toList := by
    rw [← String.toList_inj, Reading.normalized, String.toList_ofList]
  have htab := @mem_shown value '\t' (by decide) (by decide)
  have hfeed := @mem_shown value '\n' (by decide) (by decide)
  have hreturn := @mem_shown value '\r' (by decide) (by decide)
  rw [hvalue, Xml.normalize_eq_self, ← htab, ← hfeed, ← hreturn]
  refine ⟨?_, ?_⟩
  · exact fun h => ⟨fun hc => (h _ hc).1 rfl, fun hc => (h _ hc).2.1 rfl, fun hc => (h _ hc).2.2 rfl⟩
  · rintro ⟨htab, hfeed, hreturn⟩ c hc
    exact ⟨ne_of_mem_of_not_mem hc htab, ne_of_mem_of_not_mem hc hfeed,
      ne_of_mem_of_not_mem hc hreturn⟩

/-- **Texts** are read as they are shown exactly when they have no carriage return. -/
theorem normalized_text (text : String) :
    Reading.normalized.text text = shown text ↔ '\r' ∉ text.toList := by
  have htext : Reading.normalized.text text = shown text ↔
      Xml.lineEnds (shown text).toList = (shown text).toList := by
    rw [← String.toList_inj, Reading.normalized, String.toList_ofList]
  have hreturn := @mem_shown text '\r' (by decide) (by decide)
  rw [htext, Xml.lineEnds_eq_self_iff, hreturn]

/-- **A JUnit document is read as the tree of its report**, with the white space that XML
normalizes. Only that is lost: a value without tabs and ends of lines, and a text without carriage
returns, are read as they are shown. -/
theorem read_render (report : RunReport) :
    Xml.read (render report).toList = some (reportNode .normalized report) ∧
      (∀ c ∈ (render report).toList, Xml.isChar c = true) ∧
      (∀ value, Reading.normalized.value value = shown value ↔
        '\t' ∉ value.toList ∧ '\n' ∉ value.toList ∧ '\r' ∉ value.toList) ∧
      ∀ text, Reading.normalized.text text = shown text ↔ '\r' ∉ text.toList :=
  ⟨read_document report, Xml.isChar_of_read (read_document report), normalized_value,
    normalized_text⟩

/-- A report about one test with one failed assertion. -/
def failedReport (name path message : String) : RunReport where
  schemaVersion := reportSchemaVersion
  source := "suite.rttp"
  name := none
  status := .failed
  durationMs := 0
  summary := ⟨1, 0, 1, 0, 0⟩
  blocks := [⟨.test, some name, .failed, 0,
    [⟨name, .failed, 0, [⟨path, .valueMismatch, none, none, message⟩], none⟩]⟩]
  error := none

/-- The names of the tests in a tree. -/
def testNames (root : Node) : List (Option String) :=
  (root.children.flatMap Node.children).map (Node.attribute "name")

/-- A tab in the name of a test is read as a blank, and two reports with different paths and
messages can have one document. -/
theorem read_render_tab :
    Xml.read (render (failedReport "a\tb" "$.id" "differs")).toList ≠
        some (reportNode .verbatim (failedReport "a\tb" "$.id" "differs")) ∧
      render (failedReport "a" "$.x [value_mismatch]: y" "z") =
        render (failedReport "a" "$.x" "y [value_mismatch]: z") := by
  refine ⟨?_, ?_⟩
  · rw [read_document]
    intro h
    have hnames := congrArg testNames (Option.some.inj h)
    revert hnames
    decide +kernel
  · have hlines : failureLines ⟨"$.x [value_mismatch]: y", .valueMismatch, none, none, "z"⟩ =
        failureLines ⟨"$.x", .valueMismatch, none, none, "y [value_mismatch]: z"⟩ := by
      decide +kernel
    simp only [render, renderLines, failedReport, renderBlock, renderTest, outcomeLines,
      List.flatMap_cons, List.flatMap_nil, hlines]
    rfl

end Junit

end Rettp
