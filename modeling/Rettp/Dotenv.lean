import Rettp.EnvFile
import Rettp.VariableNames

/-!
# The dotenv format

The format of a line by itself, without the parser: `DotenvLine line assignment`. The parser
accepts the lines of the format and no others (`parseLine_eq_ok`), so a file that was written in
the format is read back, and a file with another line is refused there (`dotenv_roundtrip`).
-/

namespace Rettp
namespace EnvFile

/-! ## The format -/

/-- A text of white space only. -/
def Blanks (s : List Char) : Prop := ∀ c ∈ s, isWhitespace c = true

/-- What may stand behind a quoted value, and a line without an assignment. -/
inductive Trailing : List Char → Prop
  | blanks {s : List Char} (h : Blanks s) : Trailing s
  | comment {s : List Char} (h : Blanks s) (text : List Char) : Trailing (s ++ '#' :: text)

/-- What stands between double quotes for a value. -/
inductive Escaped : List Char → List Char → Prop
  | nil : Escaped [] []
  | plain {c : Char} {s value : List Char} (hquote : c ≠ '"') (hslash : c ≠ '\\')
      (h : Escaped s value) : Escaped (c :: s) (c :: value)
  | escape {c e : Char} {s value : List Char} (he : unescape e = some c) (h : Escaped s value) :
      Escaped ('\\' :: e :: s) (c :: value)

/-- A `#` of the text begins a comment: it stands in front, or behind white space. -/
def CommentAt (before : List Char) : Prop := ∀ c ∈ before.getLast?, isWhitespace c = true

/-- A value without quotes ends at the first comment. -/
inductive Bare : List Char → List Char → Prop
  | value {value blanks : List Char} (hblanks : Blanks blanks)
      (hvalue : ∀ c ∈ value.getLast?, isWhitespace c = false)
      (hfirst : ∀ before rest, value ++ blanks = before ++ '#' :: rest → ¬ CommentAt before) :
      Bare (value ++ blanks) value
  | commented {value blanks : List Char} (hblanks : Blanks blanks)
      (hvalue : ∀ c ∈ value.getLast?, isWhitespace c = false)
      (hfirst : ∀ before rest, value ++ blanks = before ++ '#' :: rest → ¬ CommentAt before)
      (hcomment : CommentAt (value ++ blanks)) (text : List Char) :
      Bare (value ++ blanks ++ '#' :: text) value

/-- What stands behind `=` for a value. -/
inductive ValueText : List Char → List Char → Prop
  | single {blanks value trailing : List Char} (hblanks : Blanks blanks) (hvalue : '\'' ∉ value)
      (h : Trailing trailing) : ValueText (blanks ++ '\'' :: (value ++ '\'' :: trailing)) value
  | double {blanks s value trailing : List Char} (hblanks : Blanks blanks)
      (hvalue : Escaped s value) (h : Trailing trailing) :
      ValueText (blanks ++ '"' :: (s ++ '"' :: trailing)) value
  | bare {blanks s value : List Char} (hblanks : Blanks blanks)
      (hhead : ∀ c ∈ s.head?, isWhitespace c = false ∧ c ≠ '\'' ∧ c ≠ '"') (h : Bare s value) :
      ValueText (blanks ++ s) value

section

variable [Platform]

/-- `NAME=VALUE`, with white space around the name allowed behind it only. -/
inductive Assigns : List Char → VariableAssignment → Prop
  | intro {rawName blanks rawValue value : List Char} {name : VariableName}
      (hname : VariableName.new (String.ofList rawName) = .ok name) (hblanks : Blanks blanks)
      (hvalue : ValueText rawValue value) :
      Assigns (rawName ++ blanks ++ '=' :: rawValue) ⟨name, String.ofList value⟩

/-- A line begins with the word `export` and white space. -/
def Exports (line : List Char) : Prop :=
  ∃ c rest, line = "export".toList ++ c :: rest ∧ isWhitespace c = true

/-- **The format of a line.** -/
inductive DotenvLine : List Char → Option VariableAssignment → Prop
  | skipped {line : List Char} (h : Trailing line) : DotenvLine line none
  | assigned {blanks text : List Char} {a : VariableAssignment} (hblanks : Blanks blanks)
      (h : Assigns text a) (hexport : ¬ Exports text) : DotenvLine (blanks ++ text) (some a)
  | exported {blanks between text : List Char} {a : VariableAssignment} (hblanks : Blanks blanks)
      (hbetween : Blanks between) (hne : between ≠ []) (h : Assigns text a) :
      DotenvLine (blanks ++ "export".toList ++ between ++ text) (some a)

end

/-! ## White space in front -/

/-- Blanks at the start are cut off. -/
theorem trimStart_append {blanks : List Char} (h : Blanks blanks) (s : List Char) :
    trimStart (blanks ++ s) = trimStart s := by
  rw [trimStart, List.dropWhile_append_of_pos h, trimStart]

/-- A text that begins with a visible character. -/
def Starts (s : List Char) : Prop := ∀ c ∈ s.head?, isWhitespace c = false

/-- Where no blank is, nothing is cut off. -/
theorem trimStart_of_starts {s : List Char} (h : Starts s) : trimStart s = s := by
  cases s with
  | nil => rfl
  | cons c s => rw [trimStart, List.dropWhile_cons_of_neg (by rw [h c rfl]; exact Bool.false_ne_true)]

/-- What is cut off is blank, and what is left does not start with a blank. -/
theorem trimStart_spec (s : List Char) :
    ∃ blanks, Blanks blanks ∧ s = blanks ++ trimStart s ∧ Starts (trimStart s) := by
  refine ⟨s.takeWhile isWhitespace, fun c hc => List.mem_takeWhile_imp hc,
    List.takeWhile_append_dropWhile.symm, fun c hc => ?_⟩
  have h := List.head?_dropWhile_not isWhitespace s
  rw [trimStart] at hc
  rw [Option.mem_def.mp hc] at h
  exact h

/-- What may follow a quoted value. -/
theorem validateTrailing_eq_ok {raw : List Char} {line : Nat} :
    validateTrailing raw line = .ok () ↔ Trailing raw := by
  obtain ⟨blanks, hblanks, hraw, -⟩ := trimStart_spec raw
  rw [validateTrailing]
  refine ⟨?_, ?_⟩
  · intro h
    split at h
    · next hnil =>
      rw [hnil, List.append_nil] at hraw
      rw [hraw]
      exact .blanks hblanks
    · next c rest hcons =>
      split at h
      · next hc =>
        rw [hraw, hcons, hc]
        exact .comment hblanks rest
      · cases h
  · rintro (h | ⟨h, text⟩)
    · have hnil : trimStart raw = [] := List.dropWhile_eq_nil_iff.mpr h
      rw [hnil]
    · rw [trimStart_append h]
      rfl

/-! ## Values -/

theorem parseDoubleQuoted_close (line : Nat) (output rest : List Char) :
    parseDoubleQuoted line output ('"' :: rest) = (validateTrailing rest line).map fun _ => output := by
  rw [parseDoubleQuoted.eq_def]
  dsimp only
  rw [if_pos rfl]
  cases validateTrailing rest line <;> rfl

theorem parseDoubleQuoted_escape (line : Nat) (output rest : List Char) (e : Char) :
    parseDoubleQuoted line output ('\\' :: e :: rest) =
      match unescape e with
      | none => .error (.invalidEntry line "unsupported escape in double-quoted value")
      | some c => parseDoubleQuoted line (output ++ [c]) rest := by
  rw [parseDoubleQuoted.eq_def]
  rfl

theorem parseDoubleQuoted_plain {c : Char} (hquote : c ≠ '"') (hslash : c ≠ '\\') (line : Nat)
    (output rest : List Char) :
    parseDoubleQuoted line output (c :: rest) = parseDoubleQuoted line (output ++ [c]) rest := by
  rw [parseDoubleQuoted.eq_def]
  dsimp only
  rw [if_neg hquote, if_neg hslash]

theorem parseDoubleQuoted_eq_ok {line : Nat} {raw output result : List Char} :
    parseDoubleQuoted line output raw = .ok result ↔
      ∃ s value trailing, raw = s ++ '"' :: trailing ∧ Escaped s value ∧ Trailing trailing ∧
        result = output ++ value := by
  refine ⟨?_, ?_⟩
  · intro h
    induction output, raw using parseDoubleQuoted.induct with
    | case1 => cases h
    | case2 output rest =>
      rw [parseDoubleQuoted_close, Except.map_eq_ok] at h
      obtain ⟨_, htrailing, rfl⟩ := h
      exact ⟨[], [], rest, rfl, .nil, validateTrailing_eq_ok.mp htrailing, by rw [List.append_nil]⟩
    | case3 => cases h
    | case4 output e rest he =>
      rw [parseDoubleQuoted_escape, he] at h
      cases h
    | case5 output e rest c he _ ih =>
      rw [parseDoubleQuoted_escape, he] at h
      obtain ⟨s, value, trailing, rfl, hs, htrailing, rfl⟩ := ih h
      exact ⟨_, _, trailing, rfl, .escape he hs, htrailing, by rw [List.append_assoc]; rfl⟩
    | case6 output c rest hquote hslash ih =>
      rw [parseDoubleQuoted_plain hquote hslash] at h
      obtain ⟨s, value, trailing, rfl, hs, htrailing, rfl⟩ := ih h
      exact ⟨_, _, trailing, rfl, .plain hquote hslash hs, htrailing,
        by rw [List.append_assoc]; rfl⟩
  · rintro ⟨s, value, trailing, rfl, hs, htrailing, rfl⟩
    induction hs generalizing output with
    | nil =>
      rw [List.nil_append, parseDoubleQuoted_close, validateTrailing_eq_ok.mpr htrailing,
        List.append_nil]
      rfl
    | @plain c s value hquote hslash _ ih =>
      rw [List.cons_append, parseDoubleQuoted_plain hquote hslash, ih, List.append_assoc]
      rfl
    | @escape c e s value he _ ih =>
      rw [List.cons_append, List.cons_append, parseDoubleQuoted_escape, he]
      dsimp only
      rw [ih, List.append_assoc]
      rfl

theorem parseSingleQuoted_eq_ok {line : Nat} {raw value : List Char} :
    parseSingleQuoted raw line = .ok value ↔
      ∃ trailing, raw = value ++ '\'' :: trailing ∧ '\'' ∉ value ∧ Trailing trailing := by
  rw [parseSingleQuoted.eq_def]
  refine ⟨?_, ?_⟩
  · intro h
    split at h
    · cases h
    · next v trailing hsplit =>
      obtain ⟨_, htrailing, hv⟩ := Except.bind_eq_ok.mp h
      obtain rfl := Except.ok.inj hv
      obtain ⟨hraw, hmem⟩ := splitAtChar_eq_some hsplit
      exact ⟨trailing, hraw, hmem, validateTrailing_eq_ok.mp htrailing⟩
  · rintro ⟨trailing, rfl, hmem, htrailing⟩
    rw [splitAtChar_first hmem]
    dsimp only
    rw [validateTrailing_eq_ok.mpr htrailing]
    rfl

/-- No comment begins in a text that stands behind `done`. -/
def NoComment (done s : List Char) : Prop :=
  ∀ before rest, s = before ++ '#' :: rest → ¬ CommentAt (done ++ before)

theorem NoComment.tail {done s : List Char} {c : Char} (h : NoComment done (c :: s)) :
    NoComment (done ++ [c]) s := by
  intro before rest hs hat
  refine h (c :: before) rest (by rw [hs]; rfl) ?_
  rwa [List.append_assoc] at hat

theorem commentAt_iff {done : List Char} : CommentAt done ↔ done.getLast?.all isWhitespace = true := by
  rw [CommentAt]
  cases done.getLast? <;> simp

/-- The text up to the first comment has no comment, and a comment stands behind it unless it is
the whole text. -/
theorem beforeComment_spec (done s : List Char) :
    NoComment done (beforeComment done.getLast? s) ∧
      (s = beforeComment done.getLast? s ∨ ∃ text,
        s = beforeComment done.getLast? s ++ '#' :: text ∧
          CommentAt (done ++ beforeComment done.getLast? s)) := by
  induction s generalizing done with
  | nil => exact ⟨fun before rest h => by simp [beforeComment] at h, .inl rfl⟩
  | cons c s ih =>
    rw [beforeComment]
    split
    · next h =>
      refine ⟨fun before rest hs => by simp at hs, .inr ⟨s, by rw [h.1]; rfl, ?_⟩⟩
      rw [List.append_nil]
      exact commentAt_iff.mpr h.2
    · next h =>
      obtain ⟨hno, hrest⟩ := ih (done ++ [c])
      rw [List.getLast?_concat] at hno hrest
      refine ⟨?_, hrest.imp (congrArg (c :: ·)) fun ⟨text, hs, hat⟩ => ⟨text, congrArg (c :: ·) hs, ?_⟩⟩
      · intro before rest hs hat
        cases before with
        | nil =>
          rw [List.append_nil] at hat
          exact h ⟨(List.cons.inj hs).1, commentAt_iff.mp hat⟩
        | cons d before =>
          obtain ⟨rfl, htail⟩ := List.cons.inj hs
          rw [← List.singleton_append, ← List.append_assoc] at hat
          exact hno before rest htail hat
      · rwa [List.append_assoc] at hat

theorem beforeComment_eq {done s rest : List Char} (hno : NoComment done s)
    (hrest : rest = [] ∨ ∃ text, rest = '#' :: text ∧ CommentAt (done ++ s)) :
    beforeComment done.getLast? (s ++ rest) = s := by
  induction s generalizing done with
  | nil =>
    rcases hrest with rfl | ⟨text, rfl, hat⟩
    · rfl
    · rw [List.append_nil] at hat
      exact if_pos ⟨rfl, commentAt_iff.mp hat⟩
  | cons c s ih =>
    have hc : ¬ (c = '#' ∧ done.getLast?.all isWhitespace = true) := fun ⟨hc, hall⟩ => by
      refine hno [] s (by rw [hc]; rfl) ?_
      rw [List.append_nil]
      exact commentAt_iff.mpr hall
    have hi := ih hno.tail (by rwa [List.append_assoc])
    rw [List.getLast?_concat] at hi
    rw [List.cons_append, beforeComment, if_neg hc, hi]

/-- A text that does not end in white space. -/
def Ends (s : List Char) : Prop := ∀ c ∈ s.getLast?, isWhitespace c = false

/-- What is cut off is blank, and what is left does not end with a blank. -/
theorem trimEnd_spec (s : List Char) :
    ∃ blanks, Blanks blanks ∧ s = trimEnd s ++ blanks ∧ Ends (trimEnd s) := by
  refine ⟨s.rtakeWhile isWhitespace, fun c hc => List.mem_rtakeWhile_imp hc,
    List.rdropWhile_append_rtakeWhile.symm, fun c hc => ?_⟩
  obtain ⟨hne, rfl⟩ := List.mem_getLast?_eq_getLast hc
  exact Bool.eq_false_iff.mpr (List.rdropWhile_last_not _ _ hne)

theorem trimEnd_append {value blanks : List Char} (hblanks : Blanks blanks) (h : Ends value) :
    trimEnd (value ++ blanks) = value := by
  rw [trimEnd, List.rdropWhile, List.reverse_append,
    List.dropWhile_append_of_pos fun c hc => hblanks c (List.mem_reverse.mp hc)]
  have hstarts : Starts value.reverse := fun c hc => h c (by rwa [List.head?_reverse] at hc)
  rw [← trimStart, trimStart_of_starts hstarts, List.reverse_reverse]

/-- The reader finds a value that the text writes without quotes. -/
theorem parseUnquoted_bare (raw : List Char) : Bare raw (parseUnquoted raw) := by
  obtain ⟨hno, hraw⟩ := beforeComment_spec [] raw
  obtain ⟨blanks, hblanks, hkept, hends⟩ := trimEnd_spec (beforeComment none raw)
  change NoComment [] (beforeComment none raw) at hno
  change raw = beforeComment none raw ∨ _ at hraw
  have hvalue : parseUnquoted raw ++ blanks = beforeComment none raw := hkept.symm
  have hfirst : NoComment [] (parseUnquoted raw ++ blanks) := by rwa [hvalue]
  rcases hraw with hraw | ⟨text, hraw, hat⟩
  · have h : Bare (parseUnquoted raw ++ blanks) (parseUnquoted raw) :=
      .value hblanks hends hfirst
    rw [show parseUnquoted raw ++ blanks = raw from hvalue.trans hraw.symm] at h
    exact h
  · have hcomment : CommentAt (parseUnquoted raw ++ blanks) := by
      rw [hvalue]
      exact hat
    have h : Bare (parseUnquoted raw ++ blanks ++ '#' :: text) (parseUnquoted raw) :=
      .commented hblanks hends hfirst hcomment text
    rw [hvalue, show beforeComment none raw ++ '#' :: text = raw from hraw.symm] at h
    exact h

/-- A value that is written without quotes is found. -/
theorem Bare.parseUnquoted {raw value : List Char} (h : Bare raw value) :
    EnvFile.parseUnquoted raw = value := by
  rw [EnvFile.parseUnquoted]
  cases h with
  | value hblanks hvalue hfirst =>
    have hkept := @beforeComment_eq [] _ _ hfirst (.inl rfl)
    rw [List.append_nil] at hkept
    rw [show beforeComment none _ = _ from hkept]
    exact trimEnd_append hblanks hvalue
  | commented hblanks hvalue hfirst hcomment text =>
    have hkept := @beforeComment_eq [] _ _ hfirst (.inr ⟨text, rfl, hcomment⟩)
    rw [show beforeComment none _ = _ from hkept]
    exact trimEnd_append hblanks hvalue

/-- **Values**: the reader finds what the text writes. -/
theorem parseValue_eq_ok {raw value : List Char} {line : Nat} :
    parseValue raw line = .ok value ↔ ValueText raw value := by
  obtain ⟨blanks, hblanks, hraw, hstarts⟩ := trimStart_spec raw
  rw [parseValue]
  refine ⟨?_, ?_⟩
  · intro h
    rw [hraw]
    split at h
    · next quoted hquoted =>
      obtain ⟨trailing, rfl, hvalue, htrailing⟩ := parseSingleQuoted_eq_ok.mp h
      rw [hquoted]
      exact .single hblanks hvalue htrailing
    · next quoted hquoted =>
      obtain ⟨s, v, trailing, rfl, hs, htrailing, rfl⟩ := parseDoubleQuoted_eq_ok.mp h
      rw [hquoted]
      exact .double hblanks hs htrailing
    · next hsingle hdouble =>
      obtain rfl := Except.ok.inj h
      refine .bare hblanks (fun c hc => ⟨hstarts c hc, ?_, ?_⟩) (parseUnquoted_bare _)
      · rintro rfl
        obtain ⟨rest, hrest⟩ := List.head?_eq_some_iff.mp hc
        exact hsingle rest hrest
      · rintro rfl
        obtain ⟨rest, hrest⟩ := List.head?_eq_some_iff.mp hc
        exact hdouble rest hrest
  · rintro (⟨hb, hvalue, htrailing⟩ | ⟨hb, hvalue, htrailing⟩ | ⟨hb, hhead, h⟩)
    · rw [trimStart_append hb]
      exact parseSingleQuoted_eq_ok.mpr ⟨_, rfl, hvalue, htrailing⟩
    · rw [trimStart_append hb]
      exact parseDoubleQuoted_eq_ok.mpr ⟨_, _, _, rfl, hvalue, htrailing, rfl⟩
    · rw [trimStart_append hb, trimStart_of_starts fun c hc => (hhead c hc).1]
      split
      · exact absurd rfl (hhead _ rfl).2.1
      · exact absurd rfl (hhead _ rfl).2.2
      · rw [h.parseUnquoted]

/-! ## Names -/

variable [Platform]

/-- What is known of letters and digits: they are neither white space nor punctuation of the
format. -/
def PlainLetters : Prop :=
  ∀ c, Platform.isAlphabetic c = true ∨ Platform.isAlphanumeric c = true →
    isWhitespace c = false ∧ c ≠ '=' ∧ c ≠ '#'

/-- The characters of a valid name, of which there is one at least. -/
theorem nameChars (hletters : PlainLetters) {raw : List Char} {name : VariableName}
    (h : VariableName.new (String.ofList raw) = .ok name) :
    raw ≠ [] ∧ ∀ c ∈ raw, isWhitespace c = false ∧ c ≠ '=' ∧ c ≠ '#' := by
  have hunderscore : isWhitespace '_' = false ∧ '_' ≠ '=' ∧ '_' ≠ '#' := by decide
  rw [VariableName.new, String.toList_ofList] at h
  cases raw with
  | nil => cases h
  | cons first rest =>
    obtain ⟨hfirst, h⟩ := Except.ite_error_eq_ok.mp h
    obtain ⟨hrest, -⟩ := Except.ite_error_eq_ok.mp h
    refine ⟨List.cons_ne_nil _ _, fun c hc => ?_⟩
    rcases List.mem_cons.mp hc with rfl | hc
    · by_cases hc : c = '_'
      · rwa [hc]
      · refine hletters c (.inl ?_)
        simpa [hc] using hfirst
    · have hall : rest.all (fun c => Platform.isAlphanumeric c || c == '_') = true := by
        rwa [Bool.not_eq_true, Bool.not_eq_false'] at hrest
      rcases (Bool.or_eq_true _ _).mp (List.all_eq_true.mp hall c hc) with h | h
      · exact hletters c (.inr h)
      · rwa [beq_iff_eq.mp h]

omit [Platform] in
/-- Blanks are cut off at both ends. -/
theorem trim_eq (s : List Char) : trim s = trimEnd (trimStart s) := rfl

/-- **Assignments**: the reader finds what the text assigns. -/
theorem parseAssignment_eq_ok (hletters : PlainLetters) {text : List Char} {line : Nat}
    {a : VariableAssignment} (hstarts : Starts text) :
    parseAssignment text line = .ok a ↔ Assigns text a := by
  rw [parseAssignment]
  refine ⟨?_, ?_⟩
  · intro h
    split at h
    · cases h
    · next rawName rawValue hsplit =>
      obtain ⟨rfl, -⟩ := splitAtChar_eq_some hsplit
      split at h
      · cases h
      · next name hname =>
        obtain ⟨value, hvalue, ha⟩ := Except.bind_eq_ok.mp h
        obtain rfl := Except.ok.inj ha
        have hname_starts : Starts rawName := fun c hc => hstarts c (by
          obtain ⟨rest, rfl⟩ := List.head?_eq_some_iff.mp hc
          rfl)
        rw [trim_eq, trimStart_of_starts hname_starts] at hname
        obtain ⟨blanks, hblanks, hraw, -⟩ := trimEnd_spec rawName
        rw [hraw]
        exact .intro hname hblanks (parseValue_eq_ok.mp hvalue)
  · rintro ⟨hname, hblanks, hvalue⟩
    rename_i rawName blanks rawValue value name
    obtain ⟨hne, hchars⟩ := nameChars hletters hname
    have hequal : '=' ∉ rawName ++ blanks := by
      intro hmem
      rcases List.mem_append.mp hmem with hmem | hmem
      · exact (hchars _ hmem).2.1 rfl
      · cases hblanks _ hmem
    have htrim : trim (rawName ++ blanks) = rawName := by
      have hstart : Starts (rawName ++ blanks) := by
        obtain ⟨c, rest, rfl⟩ := List.exists_cons_of_ne_nil hne
        intro d hd
        obtain rfl := Option.some.inj hd
        exact (hchars _ List.mem_cons_self).1
      rw [trim_eq, trimStart_of_starts hstart]
      exact trimEnd_append hblanks fun c hc => (hchars c (List.mem_of_getLast? hc)).1
    rw [splitAtChar_first hequal]
    dsimp only
    rw [htrim, hname]
    dsimp only
    rw [parseValue_eq_ok.mpr hvalue]
    rfl

/-! ## Lines -/

omit [Platform] in
/-- The word `export` is cut off. -/
theorem stripExport_of_exports {line : List Char} (h : Exports line) :
    stripExport line = trimStart (line.drop "export".length) := by
  obtain ⟨c, rest, rfl, hc⟩ := h
  rw [stripExport, if_pos (by simp)]
  exact if_pos hc

omit [Platform] in
/-- Without the word nothing is cut off. -/
theorem stripExport_of_not_exports {line : List Char} (h : ¬ Exports line) :
    stripExport line = line := by
  rw [stripExport]
  split
  · next hprefix =>
    obtain ⟨remainder, rfl⟩ := List.isPrefixOf_iff_prefix.mp hprefix
    refine if_neg fun hws => h ?_
    cases remainder with
    | nil => cases hws
    | cons c rest => exact ⟨c, rest, rfl, hws⟩
  · rfl

/-- An assignment starts with no blank and is no comment. -/
theorem Assigns.starts (hletters : PlainLetters) {text : List Char} {a : VariableAssignment}
    (h : Assigns text a) : ∃ c rest, text = c :: rest ∧ isWhitespace c = false ∧ c ≠ '#' := by
  obtain ⟨hname, -, -⟩ := h
  obtain ⟨hne, hchars⟩ := nameChars hletters hname
  obtain ⟨c, rest, rfl⟩ := List.exists_cons_of_ne_nil hne
  obtain ⟨hvisible, -, hcomment⟩ := hchars c List.mem_cons_self
  exact ⟨c, _, rfl, hvisible, hcomment⟩

/-- **The parser accepts the format of a line.** -/
theorem parseLine_eq_ok (hletters : PlainLetters) {raw : List Char} {line : Nat}
    {o : Option VariableAssignment} : parseLine raw line = .ok o ↔ DotenvLine raw o := by
  obtain ⟨blanks, hblanks, hraw, hstarts⟩ := trimStart_spec raw
  rw [parseLine]
  refine ⟨?_, ?_⟩
  · intro h
    split at h
    · next hskip =>
      obtain rfl := Except.ok.inj h
      refine .skipped ?_
      rw [hraw]
      cases htext : trimStart raw with
      | nil =>
        rw [List.append_nil]
        exact .blanks hblanks
      | cons c rest =>
        rw [htext] at hskip
        obtain rfl : c = '#' := by simpa using hskip
        exact .comment hblanks rest
    · obtain ⟨a, ha, rfl⟩ := Except.map_eq_ok.mp h
      -- `export` is a word of its own only before white space
      by_cases hexports : Exports (trimStart raw)
      · rw [stripExport_of_exports hexports] at ha
        obtain ⟨c, rest, htext, hc⟩ := hexports
        rw [htext, show ("export".toList ++ c :: rest).drop "export".length = c :: rest from rfl] at ha
        obtain ⟨between, hbetween, hrest, hstarts'⟩ := trimStart_spec (c :: rest)
        have hne : between ≠ [] := by
          rintro rfl
          rw [← show c :: rest = trimStart (c :: rest) from hrest] at hstarts'
          rw [hstarts' c rfl] at hc
          cases hc
        have h := DotenvLine.exported hblanks hbetween hne
          ((parseAssignment_eq_ok hletters hstarts').mp ha)
        rwa [List.append_assoc, ← hrest, List.append_assoc, ← htext, ← hraw] at h
      · rw [stripExport_of_not_exports hexports] at ha
        have h := DotenvLine.assigned hblanks ((parseAssignment_eq_ok hletters hstarts).mp ha) hexports
        rwa [← hraw] at h
  · intro h
    cases h with
    | skipped h =>
      cases h with
      | blanks h =>
        rw [show trimStart raw = [] from List.dropWhile_eq_nil_iff.mpr h]
        rfl
      | comment h text =>
        rw [trimStart_append h]
        rfl
    | @assigned b text a hb h hexports =>
      obtain ⟨c, rest, htext, hvisible, hcomment⟩ := h.starts hletters
      have hstart : Starts text := by
        rw [htext]
        rintro d hd
        rwa [← Option.some.inj hd]
      rw [trimStart_append hb, trimStart_of_starts hstart, stripExport_of_not_exports hexports,
        (parseAssignment_eq_ok hletters hstart).mpr h, htext]
      exact if_neg (by simpa using hcomment)
    | @exported b between text a hb hbetween hne h =>
      obtain ⟨c, rest, htext, hvisible, -⟩ := h.starts hletters
      have hstart : Starts text := by
        rw [htext]
        rintro d hd
        rwa [← Option.some.inj hd]
      have hexports : Exports ("export".toList ++ (between ++ text)) := by
        obtain ⟨d, between, rfl⟩ := List.exists_cons_of_ne_nil hne
        exact ⟨d, between ++ text, rfl, hbetween d List.mem_cons_self⟩
      have htrim : trimStart (b ++ "export".toList ++ between ++ text) =
          "export".toList ++ (between ++ text) := by
        rw [List.append_assoc, List.append_assoc, trimStart_append hb]
        rfl
      rw [htrim, stripExport_of_exports hexports,
        show ("export".toList ++ (between ++ text)).drop "export".length = between ++ text from rfl,
        trimStart_append hbetween, trimStart_of_starts hstart,
        (parseAssignment_eq_ok hletters hstart).mpr h]
      rfl

/-! ## Lines of a source -/

omit [Platform] in
/-- A line up to its end. -/
theorem linesFrom_append {text : List Char} (h : '\n' ∉ text) (line rest : List Char) :
    linesFrom line (text ++ '\n' :: rest) = stripReturn (line ++ text) :: lines rest := by
  induction text generalizing line with
  | nil =>
    rw [List.append_nil]
    exact if_pos rfl
  | cons c text ih =>
    rw [List.mem_cons, not_or] at h
    rw [List.cons_append, linesFrom, if_neg (Ne.symm h.1), ih h.2, List.append_assoc]
    rfl

omit [Platform] in
/-- The last line, if there is one. -/
theorem linesFrom_last {text : List Char} (h : '\n' ∉ text) (line : List Char) :
    linesFrom line text = if (line ++ text).isEmpty then [] else [line ++ text] := by
  induction text generalizing line with
  | nil => rw [linesFrom, List.append_nil]
  | cons c text ih =>
    rw [List.mem_cons, not_or] at h
    rw [linesFrom, if_neg (Ne.symm h.1), ih h.2, List.append_assoc]
    rfl

omit [Platform] in
/-- Only the end of a line loses its carriage return. -/
theorem stripReturn_append {t : List Char} (h : t ≠ []) (s : List Char) :
    stripReturn (s ++ t) = s ++ stripReturn t := by
  rw [stripReturn, stripReturn, List.getLast?_append_of_ne_nil _ h, List.dropLast_append_of_ne_nil h]
  split <;> rfl

omit [Platform] in
theorem stripReturn_concat (line : List Char) : stripReturn (line ++ ['\r']) = line := by
  rw [stripReturn, if_pos List.getLast?_concat, List.dropLast_concat]

omit [Platform] in
theorem stripReturn_subset (line : List Char) : stripReturn line ⊆ line := by
  rw [stripReturn]
  split
  · exact List.dropLast_subset line
  · exact List.Subset.refl line

omit [Platform] in
/-- A carriage return may end what follows a value. -/
theorem Trailing.stripReturn {t : List Char} (h : Trailing t) : Trailing (stripReturn t) := by
  cases h with
  | blanks h => exact .blanks fun c hc => h c (stripReturn_subset _ hc)
  | @comment s h text =>
    rw [stripReturn_append (List.cons_ne_nil _ _)]
    cases text with
    | nil => exact .comment h []
    | cons c text =>
      have hcomment := stripReturn_append (List.cons_ne_nil c text) ['#']
      rw [List.singleton_append] at hcomment
      rw [hcomment]
      exact .comment h _

/-! ## Writing -/

/-- A character between double quotes. -/
def escapeChar (c : Char) : List Char :=
  if c = '\\' then ['\\', '\\']
  else if c = '"' then ['\\', '"']
  else if c = '\n' then ['\\', 'n']
  else if c = '\r' then ['\\', 'r']
  else if c = '\t' then ['\\', 't']
  else [c]

/-- What stands in front of a name. -/
inductive Front : List Char → Prop
  | blanks {s : List Char} (h : Blanks s) : Front s
  | exported {s between : List Char} (h : Blanks s) (hbetween : Blanks between)
      (hne : between ≠ []) : Front (s ++ "export".toList ++ between)

/-- A value in quotes. -/
inductive Quoted : List Char → List Char → Prop
  | double (value : List Char) : Quoted ('"' :: (value.flatMap escapeChar ++ ['"'])) value
  | single {value : List Char} (hquote : '\'' ∉ value) (hbreak : '\n' ∉ value) :
      Quoted ('\'' :: (value ++ ['\''])) value

/-- **A line as it is written**: blank, a comment, or an assignment with its value in quotes. -/
inductive Writes : List Char → Option VariableAssignment → Prop
  | skipped {line : List Char} (h : Trailing line) (hline : '\n' ∉ line) : Writes line none
  | assigned {front quoted trailing : List Char} {name : VariableName} {value : String}
      (hfront : Front front) (hfrontLine : '\n' ∉ front)
      (hname : VariableName.new name.raw = .ok name) (hquoted : Quoted quoted value.toList)
      (h : Trailing trailing) (hline : '\n' ∉ trailing) :
      Writes (front ++ name.raw.toList ++ '=' :: (quoted ++ trailing)) (some ⟨name, value⟩)

/-- A file of written lines, each ended by a line feed with or without a carriage return; the
last line needs no end. -/
inductive WritesFile : List Char → List VariableAssignment → Prop
  | nil : WritesFile [] []
  | last {line : List Char} {o : Option VariableAssignment} (h : Writes line o) :
      WritesFile line o.toList
  | line {line ending rest : List Char} {o : Option VariableAssignment}
      {assignments : List VariableAssignment} (h : Writes line o)
      (hending : ending = ['\n'] ∨ ending = ['\r', '\n']) (hrest : WritesFile rest assignments) :
      WritesFile (line ++ ending ++ rest) (o.toList ++ assignments)

omit [Platform] in
/-- A value that is escaped character by character. -/
theorem escaped_flatMap (value : List Char) : Escaped (value.flatMap escapeChar) value := by
  induction value with
  | nil => exact .nil
  | cons c value ih =>
    rw [List.flatMap_cons, escapeChar]
    split
    · next h => rw [h]; exact .escape rfl ih
    split
    · next h => rw [h]; exact .escape rfl ih
    split
    · next h => rw [h]; exact .escape rfl ih
    split
    · next h => rw [h]; exact .escape rfl ih
    split
    · next h => rw [h]; exact .escape rfl ih
    · next hslash hquote _ _ _ => exact .plain hquote hslash ih

omit [Platform] in
/-- No escape contains the end of a line. -/
theorem escapeChar_no_break (c : Char) : '\n' ∉ escapeChar c := by
  rw [escapeChar]
  split
  · decide
  split
  · decide
  split
  · decide
  split
  · decide
  split
  · decide
  · next hbreak _ _ => exact fun hmem => hbreak (List.mem_singleton.mp hmem).symm

omit [Platform] in
/-- A value in quotes has no line feed, and ends in a quote. -/
theorem Quoted.spec {quoted value : List Char} (h : Quoted quoted value) :
    '\n' ∉ quoted ∧ quoted ≠ [] ∧ stripReturn quoted = quoted := by
  cases h with
  | double =>
    refine ⟨?_, List.cons_ne_nil _ _, ?_⟩
    · simp [escapeChar_no_break]
    · rw [stripReturn, ← List.cons_append, List.getLast?_concat]
      rfl
  | single hquote hbreak =>
    refine ⟨by simp [hbreak], List.cons_ne_nil _ _, ?_⟩
    rw [stripReturn, ← List.cons_append, List.getLast?_concat]
    rfl

omit [Platform] in
/-- A quoted value and what may follow it. -/
theorem Quoted.valueText {quoted value trailing : List Char} (h : Quoted quoted value)
    (htrailing : Trailing trailing) : ValueText (quoted ++ trailing) value := by
  have hnone : Blanks [] := nofun
  cases h with
  | double =>
    rw [List.cons_append, List.append_assoc]
    exact .double hnone (escaped_flatMap value) htrailing
  | single hquote hbreak =>
    rw [List.cons_append, List.append_assoc]
    exact .single hnone hquote htrailing

/-- What is written is one line. -/
theorem Writes.no_break (hletters : PlainLetters) {line : List Char}
    {o : Option VariableAssignment} (h : Writes line o) : '\n' ∉ line := by
  cases h with
  | skipped h hline => exact hline
  | @assigned front quoted trailing name value hfront hfrontLine hname hquoted h hline =>
    rw [← String.ofList_toList (s := name.raw)] at hname
    have hnameLine : '\n' ∉ name.raw.toList := fun hmem => by
      cases ((nameChars hletters hname).2 _ hmem).1
    simp [hfrontLine, hnameLine, hquoted.spec.1, hline]

omit [Platform] in
theorem append_cons_ne_nil {α : Type} (s : List α) (c : α) (t : List α) : s ++ c :: t ≠ [] :=
  List.append_ne_nil_of_right_ne_nil _ (List.cons_ne_nil _ _)

theorem Writes.eq_none {line : List Char} {o : Option VariableAssignment} (h : Writes line o)
    (hline : line = []) : o = none := by
  cases h with
  | skipped => rfl
  | assigned => exact absurd hline (append_cons_ne_nil _ _ _)

/-- A carriage return before a line feed does not matter. -/
theorem Writes.stripReturn {line : List Char} {o : Option VariableAssignment} (h : Writes line o) :
    Writes (stripReturn line) o := by
  cases h with
  | skipped h hline => exact .skipped h.stripReturn fun hmem => hline (stripReturn_subset _ hmem)
  | @assigned front quoted trailing name value hfront hfrontLine hname hquoted h hline =>
    obtain ⟨-, hne, hend⟩ := hquoted.spec
    have hquotedLine : EnvFile.stripReturn (quoted ++ trailing) =
        quoted ++ EnvFile.stripReturn trailing := by
      cases trailing with
      | nil => rw [List.append_nil, hend]; exact (List.append_nil _).symm
      | cons c trailing => exact stripReturn_append (List.cons_ne_nil _ _) _
    have hequal : EnvFile.stripReturn ('=' :: (quoted ++ trailing)) =
        '=' :: (quoted ++ EnvFile.stripReturn trailing) := by
      rw [← hquotedLine]
      exact stripReturn_append (List.append_ne_nil_of_left_ne_nil hne _) ['=']
    rw [stripReturn_append (List.cons_ne_nil _ _), hequal]
    exact .assigned hfront hfrontLine hname hquoted h.stripReturn
      fun hmem => hline (stripReturn_subset _ hmem)

/-- A written line has the format. -/
theorem Writes.dotenvLine (hletters : PlainLetters) {line : List Char}
    {o : Option VariableAssignment} (h : Writes line o) : DotenvLine line o := by
  cases h with
  | skipped h _ => exact .skipped h
  | @assigned front quoted trailing name value hfront _ hname hquoted h _ =>
    have hofList : VariableName.new (String.ofList name.raw.toList) = .ok name := by
      rwa [String.ofList_toList]
    have hnone : Blanks [] := nofun
    have hassigns := Assigns.intro hofList hnone (hquoted.valueText h)
    rw [String.ofList_toList, List.append_nil] at hassigns
    rw [List.append_assoc]
    cases hfront with
    | blanks hblanks =>
      refine .assigned hblanks hassigns fun ⟨c, rest, htext, hc⟩ => ?_
      -- neither the name nor the `=` behind it is white space
      have hvisible := (nameChars hletters hofList).2
      rcases List.append_eq_append_iff.mp htext with ⟨as, hexport, htail⟩ | ⟨as, hname, htail⟩
      · cases as with
        | nil =>
          rw [← (List.cons.inj htail).1] at hc
          cases hc
        | cons d as =>
          have hmem : '=' ∈ "export".toList := by
            rw [hexport, (List.cons.inj htail).1]
            exact List.mem_append_right _ List.mem_cons_self
          exact absurd hmem (by decide)
      · cases as with
        | nil =>
          rw [(List.cons.inj htail).1] at hc
          cases hc
        | cons d as =>
          obtain ⟨rfl, -⟩ := List.cons.inj htail
          have hd := (hvisible c (by rw [hname]; simp)).1
          rw [hc] at hd
          cases hd
    | exported hblanks hbetween hne => exact .exported hblanks hbetween hne hassigns

/-! ## Files -/

/-- The assignments of good lines. -/
theorem parseLines_ok (hletters : PlainLetters) {rawLines : List (List Char)}
    {os : List (Option VariableAssignment)} (h : List.Forall₂ DotenvLine rawLines os) (line : Nat) :
    parseLines line rawLines = .ok (os.flatMap Option.toList) := by
  induction h generalizing line with
  | nil => rfl
  | cons h _ ih =>
    rw [parseLines, (parseLine_eq_ok hletters).mpr h, ih]
    rfl

/-- The lines of a written file have the format, and the assignments of the file are theirs. -/
theorem WritesFile.lines (hletters : PlainLetters) {source : List Char}
    {assignments : List VariableAssignment} (h : WritesFile source assignments) :
    ∃ os, List.Forall₂ DotenvLine (lines source) os ∧ os.flatMap Option.toList = assignments := by
  induction h with
  | nil => exact ⟨[], .nil, rfl⟩
  | @last line o h =>
    rw [EnvFile.lines, linesFrom_last (h.no_break hletters), List.nil_append]
    have hline := h.dotenvLine hletters
    cases line with
    | nil =>
      rw [h.eq_none rfl]
      exact ⟨[], .nil, rfl⟩
    | cons c line => exact ⟨[o], .cons hline .nil, List.flatMap_singleton _ _⟩
  | @line line ending rest o assignments h hending _ ih =>
    obtain ⟨os, hos, rfl⟩ := ih
    refine ⟨o :: os, ?_, List.flatMap_cons ..⟩
    have hno := h.no_break hletters
    rcases hending with rfl | rfl
    · rw [List.append_assoc, List.singleton_append, EnvFile.lines, linesFrom_append hno]
      exact .cons (h.stripReturn.dotenvLine hletters) hos
    · have hreturn : '\n' ∉ line ++ ['\r'] := by simp [hno]
      have hsource : line ++ ['\r', '\n'] ++ rest = (line ++ ['\r']) ++ '\n' :: rest := by simp
      rw [hsource, EnvFile.lines, linesFrom_append hreturn, List.nil_append, stripReturn_concat]
      exact .cons (h.dotenvLine hletters) hos

/-- A line that the format has no reading for. -/
def Malformed (line : List Char) : Prop := ∀ o, ¬ DotenvLine line o

/-- Every failure is about the given line. -/
def AtLine (line : Nat) (e : EnvFileError) : Prop := ∃ reason, e = .invalidEntry line reason

omit [Platform] in
/-- What follows a value is refused with its line. -/
theorem validateTrailing_fails (raw : List Char) (line : Nat) :
    (validateTrailing raw line).Fails (AtLine line) := by
  rw [validateTrailing]
  split
  · exact .ok _
  · split
    · exact .ok _
    · exact .error ⟨_, rfl⟩

omit [Platform] in
/-- A value in double quotes is refused with its line. -/
theorem parseDoubleQuoted_fails (line : Nat) (output raw : List Char) :
    (parseDoubleQuoted line output raw).Fails (AtLine line) := by
  induction output, raw using parseDoubleQuoted.induct with
  | case1 => exact .error ⟨_, rfl⟩
  | case2 =>
    rw [parseDoubleQuoted_close]
    exact (validateTrailing_fails _ _).map
  | case3 => exact .error ⟨_, rfl⟩
  | case4 output e rest he =>
    rw [parseDoubleQuoted_escape, he]
    exact .error ⟨_, rfl⟩
  | case5 output e rest c he _ ih =>
    rw [parseDoubleQuoted_escape, he]
    exact ih
  | case6 output c rest hquote hslash ih =>
    rw [parseDoubleQuoted_plain hquote hslash]
    exact ih

omit [Platform] in
/-- A value is refused with its line. -/
theorem parseValue_fails (raw : List Char) (line : Nat) :
    (parseValue raw line).Fails (AtLine line) := by
  rw [parseValue]
  split
  · rw [parseSingleQuoted]
    split
    · exact .error ⟨_, rfl⟩
    · exact (validateTrailing_fails _ _).bind fun _ _ => .ok _
  · exact parseDoubleQuoted_fails _ _ _
  · exact .ok _

/-- A line is refused with its number. -/
theorem parseLine_fails (raw : List Char) (line : Nat) :
    (parseLine raw line).Fails (AtLine line) := by
  rw [parseLine]
  split
  · exact .ok _
  · refine Except.Fails.map ?_
    rw [parseAssignment]
    split
    · exact .error ⟨_, rfl⟩
    · split
      · exact .error ⟨_, rfl⟩
      · exact (parseValue_fails _ _).bind fun _ _ => .ok _

/-- The first malformed line is the one that is reported. -/
theorem parseLines_malformed (hletters : PlainLetters) {good : List (List Char)}
    (hgood : ∀ raw ∈ good, ¬ Malformed raw) {bad : List Char} (hbad : Malformed bad)
    (rest : List (List Char)) (line : Nat) :
    ∃ reason, parseLines line (good ++ bad :: rest) =
      .error (.invalidEntry (line + good.length) reason) := by
  induction good generalizing line with
  | nil =>
    cases h : parseLine bad line with
    | ok o => exact absurd ((parseLine_eq_ok hletters).mp h) (hbad o)
    | error e =>
      obtain ⟨reason, rfl⟩ := parseLine_fails bad line e h
      exact ⟨reason, by rw [List.nil_append, parseLines, h]; rfl⟩
  | cons raw good ih =>
    obtain ⟨o, ho⟩ := not_forall_not.mp (hgood raw List.mem_cons_self)
    obtain ⟨reason, hreason⟩ := ih (fun raw hraw => hgood raw (List.mem_cons_of_mem _ hraw)) (line + 1)
    refine ⟨reason, ?_⟩
    rw [List.cons_append, parseLines, (parseLine_eq_ok hletters).mpr ho, Except.ok_bind, hreason,
      List.length_cons, Nat.add_comm good.length 1, Nat.add_assoc]
    rfl

/-- **Dotenv parsing undoes dotenv writing.** -/
theorem dotenv_roundtrip (hletters : PlainLetters) :
    (∀ source assignments, WritesFile source assignments → parse source = .ok assignments) ∧
    (∀ source good bad rest, lines source = good ++ bad :: rest →
      (∀ raw ∈ good, ¬ Malformed raw) → Malformed bad →
      ∃ reason, parse source = .error (.invalidEntry (good.length + 1) reason)) := by
  refine ⟨fun source assignments h => ?_, fun source good bad rest hlines hgood hbad => ?_⟩
  · obtain ⟨os, hos, rfl⟩ := h.lines hletters
    exact parseLines_ok hletters hos 1
  · rw [parse, hlines, Nat.add_comm]
    exact parseLines_malformed hletters hgood hbad rest 1

omit [Platform] in
/-- ASCII letters are plain. -/
theorem asciiPlatform_plainLetters : @PlainLetters asciiPlatform := by
  intro c h
  have hrange : 48 ≤ c.toNat ∧ c.toNat ≤ 57 ∨ 65 ≤ c.toNat ∧ c.toNat ≤ 90 ∨
      97 ≤ c.toNat ∧ c.toNat ≤ 122 := by
    change ((decide ('a' ≤ c) && decide (c ≤ 'z')) || (decide ('A' ≤ c) && decide (c ≤ 'Z'))) = true ∨
      ((decide ('a' ≤ c) && decide (c ≤ 'z')) || (decide ('A' ≤ c) && decide (c ≤ 'Z')) ||
        (decide ('0' ≤ c) && decide (c ≤ '9'))) = true at h
    simp only [Bool.or_eq_true, Bool.and_eq_true, decide_eq_true_eq, Char.le_def,
      UInt32.le_iff_toNat_le] at h
    change (97 ≤ c.toNat ∧ c.toNat ≤ 122 ∨ 65 ≤ c.toNat ∧ c.toNat ≤ 90) ∨
      ((97 ≤ c.toNat ∧ c.toNat ≤ 122 ∨ 65 ≤ c.toNat ∧ c.toNat ≤ 90) ∨
        48 ≤ c.toNat ∧ c.toNat ≤ 57) at h
    omega
  refine ⟨?_, ?_, ?_⟩
  · simp only [isWhitespace, Bool.or_eq_false_iff, Bool.and_eq_false_iff, decide_eq_false_iff_not,
      beq_eq_false_iff_ne]
    omega
  · rintro rfl
    revert hrange
    decide
  · rintro rfl
    revert hrange
    decide

/-- A line that the parser refuses is malformed. -/
theorem malformed_of_error (hletters : PlainLetters) {raw : List Char} {line : Nat} {e : EnvFileError}
    (h : parseLine raw line = .error e) : Malformed raw := by
  intro o ho
  rw [(parseLine_eq_ok hletters).mpr ho] at h
  cases h

omit [Platform] in
/-- A comment, an exported value with an escape, and a variable whose name is `export`. -/
theorem exampleFile_written : letI := asciiPlatform
    WritesFile ("# values".toList ++ ['\n'] ++
      ("export ".toList ++ "A".toList ++ '=' ::
        ('"' :: ("a\n".toList.flatMap escapeChar ++ ['"']) ++ " # one".toList) ++ ['\r', '\n'] ++
      ([] ++ "export".toList ++ '=' :: ('\'' :: ("#=".toList ++ ['\'']) ++ []))))
      (none.toList ++ ((some ⟨⟨"A"⟩, "a\n"⟩ : Option VariableAssignment).toList ++
        (some ⟨⟨"export"⟩, "#="⟩ : Option VariableAssignment).toList)) := by
  let _ := asciiPlatform
  have hspace : Blanks [' '] := fun c hc => by rw [List.mem_singleton.mp hc]; rfl
  have hnone : Blanks [] := nofun
  have hcomment : Writes "# values".toList none :=
    .skipped (.comment hnone " values".toList) (by decide)
  have hexported : Front "export ".toList := .exported hnone hspace (List.cons_ne_nil _ _)
  have htrailing : Trailing " # one".toList := .comment hspace " one".toList
  refine .line hcomment (.inl rfl) (.line (.assigned hexported (by decide) rfl (.double _)
    htrailing (by decide)) (.inr rfl) (.last (.assigned (.blanks hnone) (by decide) rfl
    (.single (by decide) (by decide)) (.blanks hnone) (by decide))))

omit [Platform] in
/-- A file with both kinds of quotes and a comment. -/
theorem dotenv_roundtrip_example : letI := asciiPlatform
    (∃ source, parse source = .ok [⟨⟨"A"⟩, "a\n"⟩, ⟨⟨"export"⟩, "#="⟩]) ∧
      ∃ reason, parse "A=1\n9=2\nB".toList = .error (.invalidEntry 2 reason) := by
  let _ := asciiPlatform
  have hletters := asciiPlatform_plainLetters
  refine ⟨⟨_, (dotenv_roundtrip hletters).1 _ _ exampleFile_written⟩, ?_⟩
  refine (dotenv_roundtrip hletters).2 _ ["A=1".toList] "9=2".toList ["B".toList] (by decide) ?_
    (malformed_of_error hletters (by decide : parseLine _ 2 = .error (.invalidEntry 2 "invalid variable name")))
  intro raw hraw hbad
  rw [List.mem_singleton.mp hraw] at hbad
  exact hbad _ ((parseLine_eq_ok hletters).mp (by decide : parseLine _ 1 = .ok (some ⟨⟨"A"⟩, "1"⟩)))

end EnvFile
end Rettp
