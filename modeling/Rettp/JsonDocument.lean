import Rettp.JsonString

/-!
# JSON documents

Documents of natural numbers, strings, `null`, arrays and objects, and the grammar of their texts
(`Reads`), with white space wherever JSON allows it. A text stands for one document at most
(`IsText.unique`). `Writes` says that a text stands for a document whatever follows it, with a rule
for each way to put a text together.
-/

namespace Rettp.JsonText

/-- The tree of a JSON text; its numbers are natural ones. -/
inductive Document where
  | null
  | nat (n : Nat)
  | string (value : String)
  | array (items : List Document)
  | object (entries : List (String × Document))

/-! ## The grammar -/

/-- White space of JSON. -/
def isBlank (c : Char) : Bool := c == ' ' || c == '\t' || c == '\n' || c == '\r'

/-- A text without the white space in front of it. -/
def skip (text : List Char) : List Char := text.dropWhile isBlank

/-- A character that would go on with a number. -/
def continuesNumber (c : Char) : Bool := c.isDigit || c == '.' || c == 'e' || c == 'E'

mutual

/-- A text begins with that of a document, and `rest` stands behind it. -/
inductive Reads : List Char → Document → List Char → Prop
  | null (rest : List Char) : Reads ('n' :: 'u' :: 'l' :: 'l' :: rest) .null rest
  | nat {text rest : List Char} {n : Nat} (htext : text = Nat.toDigits 10 n ++ rest)
      (hrest : ∀ c ∈ rest.head?, continuesNumber c = false) : Reads text (.nat n) rest
  | string {text value rest : List Char} (h : ReadsString text value rest) :
      Reads ('"' :: text) (.string (String.ofList value)) rest
  | noItems {text rest : List Char} (h : skip text = ']' :: rest) :
      Reads ('[' :: text) (.array []) rest
  | items {text rest : List Char} {items : List Document} (h : ReadsItems text items rest) :
      Reads ('[' :: text) (.array items) rest
  | noEntries {text rest : List Char} (h : skip text = '}' :: rest) :
      Reads ('{' :: text) (.object []) rest
  | entries {text rest : List Char} {entries : List (String × Document)}
      (h : ReadsEntries text entries rest) : Reads ('{' :: text) (.object entries) rest

/-- The items of an array and its closing bracket. -/
inductive ReadsItems : List Char → List Document → List Char → Prop
  | last {text after rest : List Char} {item : Document} (h : Reads (skip text) item after)
      (hclose : skip after = ']' :: rest) : ReadsItems text [item] rest
  | cons {text after text' rest : List Char} {item : Document} {items : List Document}
      (h : Reads (skip text) item after) (hcomma : skip after = ',' :: text')
      (hitems : ReadsItems text' items rest) : ReadsItems text (item :: items) rest

/-- One entry of an object. -/
inductive ReadsEntry : List Char → String → Document → List Char → Prop
  | entry {text key name colon value rest : List Char} {document : Document}
      (hquote : skip text = '"' :: key) (hkey : ReadsString key name colon)
      (hcolon : skip colon = ':' :: value) (h : Reads (skip value) document rest) :
      ReadsEntry text (String.ofList name) document rest

/-- The entries of an object and its closing brace. -/
inductive ReadsEntries : List Char → List (String × Document) → List Char → Prop
  | last {text after rest : List Char} {name : String} {document : Document}
      (h : ReadsEntry text name document after) (hclose : skip after = '}' :: rest) :
      ReadsEntries text [(name, document)] rest
  | cons {text after text' rest : List Char} {name : String} {document : Document}
      {entries : List (String × Document)} (h : ReadsEntry text name document after)
      (hcomma : skip after = ',' :: text') (hentries : ReadsEntries text' entries rest) :
      ReadsEntries text ((name, document) :: entries) rest

end

/-- The whole text is that of a document. -/
def IsText (text : List Char) (document : Document) : Prop :=
  ∃ rest, Reads (skip text) document rest ∧ skip rest = []

/-! ## A text stands for one document -/

/-- Decimal digits are digits. -/
theorem isDigit_of_mem_toDigits {n : Nat} {c : Char} (hc : c ∈ Nat.toDigits 10 n) :
    c.isDigit = true :=
  Nat.isDigit_of_mem_toDigits (by decide) (by decide) hc

/-- A number is read up to its end. -/
theorem takeWhile_toDigits (n : Nat) {rest : List Char}
    (hrest : ∀ c ∈ rest.head?, continuesNumber c = false) :
    (Nat.toDigits 10 n ++ rest).takeWhile Char.isDigit = Nat.toDigits 10 n := by
  rw [List.takeWhile_append_of_pos fun c => isDigit_of_mem_toDigits]
  cases rest with
  | nil => exact List.append_nil _
  | cons c rest =>
    have hc : c.isDigit = false := by
      have hcontinues := hrest c rfl
      simp only [continuesNumber, Bool.or_eq_false_iff] at hcontinues
      exact hcontinues.1.1.1
    rw [List.takeWhile_cons_of_neg (by rw [hc]; exact Bool.false_ne_true), List.append_nil]

/-- A number ends where its digits end. -/
theorem toDigits_append_inj {m n : Nat} {rest rest' : List Char}
    (h : Nat.toDigits 10 m ++ rest = Nat.toDigits 10 n ++ rest')
    (hrest : ∀ c ∈ rest.head?, continuesNumber c = false)
    (hrest' : ∀ c ∈ rest'.head?, continuesNumber c = false) : m = n ∧ rest = rest' := by
  have hdigits : Nat.toDigits 10 m = Nat.toDigits 10 n := by
    rw [← takeWhile_toDigits m hrest, h, takeWhile_toDigits n hrest']
  rw [hdigits] at h
  refine ⟨?_, List.append_cancel_left h⟩
  have hm := Nat.ofDigitChars_toDigits (b := 10) (n := m) (by decide) (by decide)
  rwa [hdigits, Nat.ofDigitChars_toDigits (by decide) (by decide), eq_comm] at hm

/-- A number begins with a digit. -/
theorem isDigit_of_toDigits_append {n : Nat} {c : Char} {rest text : List Char}
    (h : c :: text = Nat.toDigits 10 n ++ rest) : c.isDigit = true := by
  cases hdigits : Nat.toDigits 10 n with
  | nil => exact absurd hdigits Nat.toDigits_ne_nil
  | cons d digits =>
    rw [hdigits] at h
    obtain rfl := (List.cons.inj h).1
    exact isDigit_of_mem_toDigits (by rw [hdigits]; exact List.mem_cons_self)

/-- No document begins with what closes an array. -/
theorem not_reads_bracket {text rest : List Char} {document : Document} :
    ¬ Reads (']' :: text) document rest := by
  intro h
  cases h with
  | nat htext => exact absurd (isDigit_of_toDigits_append htext) (by decide)

/-- Items do not start with the end of an array. -/
theorem ReadsItems.not_closed {text rest rest' : List Char} {items : List Document}
    (h : ReadsItems text items rest) : skip text ≠ ']' :: rest' := by
  intro hclose
  cases h with
  | last h => exact not_reads_bracket (hclose ▸ h)
  | cons h => exact not_reads_bracket (hclose ▸ h)

/-- Entries do not start with the end of an object. -/
theorem ReadsEntries.not_closed {text rest rest' : List Char} {entries : List (String × Document)}
    (h : ReadsEntries text entries rest) : skip text ≠ '}' :: rest' := by
  intro hclose
  cases h with
  | last h =>
    cases h with
    | entry hquote => exact absurd (List.cons.inj (hclose.symm.trans hquote)).1 (by decide)
  | cons h =>
    cases h with
    | entry hquote => exact absurd (List.cons.inj (hclose.symm.trans hquote)).1 (by decide)

mutual

/-- A text begins with one document at most. -/
theorem Reads.unique {text rest rest' : List Char} {document document' : Document} :
    Reads text document rest → Reads text document' rest' → document = document' ∧ rest = rest'
  | .null _, h' => by
    cases h' with
    | null => exact ⟨rfl, rfl⟩
    | nat htext => exact absurd (isDigit_of_toDigits_append htext) (by decide)
  | .nat htext hrest, h' => by
    cases h' with
    | nat htext' hrest' =>
      obtain ⟨rfl, rfl⟩ := toDigits_append_inj (htext.symm.trans htext') hrest hrest'
      exact ⟨rfl, rfl⟩
    | _ => exact absurd (isDigit_of_toDigits_append htext) (by decide)
  | .string h, h' => by
    cases h' with
    | nat htext => exact absurd (isDigit_of_toDigits_append htext) (by decide)
    | string h' =>
      obtain ⟨rfl, rfl⟩ := h.unique h'
      exact ⟨rfl, rfl⟩
  | .noItems h, h' => by
    cases h' with
    | nat htext => exact absurd (isDigit_of_toDigits_append htext) (by decide)
    | noItems h' =>
      obtain ⟨-, rfl⟩ := List.cons.inj (h.symm.trans h')
      exact ⟨rfl, rfl⟩
    | items h' => exact absurd h h'.not_closed
  | .items h, h' => by
    cases h' with
    | nat htext => exact absurd (isDigit_of_toDigits_append htext) (by decide)
    | noItems h' => exact absurd h' h.not_closed
    | items h' =>
      obtain ⟨rfl, rfl⟩ := h.unique h'
      exact ⟨rfl, rfl⟩
  | .noEntries h, h' => by
    cases h' with
    | nat htext => exact absurd (isDigit_of_toDigits_append htext) (by decide)
    | noEntries h' =>
      obtain ⟨-, rfl⟩ := List.cons.inj (h.symm.trans h')
      exact ⟨rfl, rfl⟩
    | entries h' => exact absurd h h'.not_closed
  | .entries h, h' => by
    cases h' with
    | nat htext => exact absurd (isDigit_of_toDigits_append htext) (by decide)
    | noEntries h' => exact absurd h' h.not_closed
    | entries h' =>
      obtain ⟨rfl, rfl⟩ := h.unique h'
      exact ⟨rfl, rfl⟩
termination_by structural h => h

/-- Items are read in one way. -/
theorem ReadsItems.unique {text rest rest' : List Char} {items items' : List Document} :
    ReadsItems text items rest → ReadsItems text items' rest' → items = items' ∧ rest = rest'
  | .last h hclose, h' => by
    cases h' with
    | last h' hclose' =>
      obtain ⟨rfl, rfl⟩ := h.unique h'
      obtain ⟨-, rfl⟩ := List.cons.inj (hclose.symm.trans hclose')
      exact ⟨rfl, rfl⟩
    | cons h' hcomma =>
      obtain ⟨-, rfl⟩ := h.unique h'
      exact absurd (List.cons.inj (hclose.symm.trans hcomma)).1 (by decide)
  | .cons h hcomma hitems, h' => by
    cases h' with
    | last h' hclose =>
      obtain ⟨-, rfl⟩ := h.unique h'
      exact absurd (List.cons.inj (hclose.symm.trans hcomma)).1 (by decide)
    | cons h' hcomma' hitems' =>
      obtain ⟨rfl, rfl⟩ := h.unique h'
      obtain ⟨-, rfl⟩ := List.cons.inj (hcomma.symm.trans hcomma')
      obtain ⟨rfl, rfl⟩ := hitems.unique hitems'
      exact ⟨rfl, rfl⟩
termination_by structural h => h

/-- An entry is read in one way. -/
theorem ReadsEntry.unique {text rest rest' : List Char} {name name' : String}
    {document document' : Document} :
    ReadsEntry text name document rest → ReadsEntry text name' document' rest' →
      name = name' ∧ document = document' ∧ rest = rest'
  | .entry hquote hkey hcolon h, .entry hquote' hkey' hcolon' h' => by
    obtain ⟨-, rfl⟩ := List.cons.inj (hquote.symm.trans hquote')
    obtain ⟨rfl, rfl⟩ := hkey.unique hkey'
    obtain ⟨-, rfl⟩ := List.cons.inj (hcolon.symm.trans hcolon')
    obtain ⟨rfl, rfl⟩ := h.unique h'
    exact ⟨rfl, rfl, rfl⟩
termination_by structural h => h

/-- Entries are read in one way. -/
theorem ReadsEntries.unique {text rest rest' : List Char}
    {entries entries' : List (String × Document)} :
    ReadsEntries text entries rest → ReadsEntries text entries' rest' →
      entries = entries' ∧ rest = rest'
  | .last h hclose, h' => by
    cases h' with
    | last h' hclose' =>
      obtain ⟨rfl, rfl, rfl⟩ := h.unique h'
      obtain ⟨-, rfl⟩ := List.cons.inj (hclose.symm.trans hclose')
      exact ⟨rfl, rfl⟩
    | cons h' hcomma =>
      obtain ⟨-, -, rfl⟩ := h.unique h'
      exact absurd (List.cons.inj (hclose.symm.trans hcomma)).1 (by decide)
  | .cons h hcomma hentries, h' => by
    cases h' with
    | last h' hclose =>
      obtain ⟨-, -, rfl⟩ := h.unique h'
      exact absurd (List.cons.inj (hclose.symm.trans hcomma)).1 (by decide)
    | cons h' hcomma' hentries' =>
      obtain ⟨rfl, rfl, rfl⟩ := h.unique h'
      obtain ⟨-, rfl⟩ := List.cons.inj (hcomma.symm.trans hcomma')
      obtain ⟨rfl, rfl⟩ := hentries.unique hentries'
      exact ⟨rfl, rfl⟩
termination_by structural h => h

end

/-- **A text stands for one document at most.** -/
theorem IsText.unique {text : List Char} {document document' : Document} (h : IsText text document)
    (h' : IsText text document') : document = document' := by
  obtain ⟨rest, h, -⟩ := h
  obtain ⟨rest', h', -⟩ := h'
  exact (h.unique h').1

/-! ## Texts that stand for a document -/

theorem skip_of_not_blank {c : Char} (h : isBlank c = false) (text : List Char) :
    skip (c :: text) = c :: text :=
  List.dropWhile_cons_of_neg (by rw [h]; exact Bool.false_ne_true)

/-- Blanks in front are skipped. -/
theorem skip_append {blank : List Char} (h : ∀ c ∈ blank, isBlank c = true) (text : List Char) :
    skip (blank ++ text) = skip text :=
  List.dropWhile_append_of_pos h

/-- What may stand behind a number. -/
def EndsNumber (rest : List Char) : Prop := ∀ c ∈ rest.head?, continuesNumber c = false

/-- The text stands for a document, whatever follows it. -/
def Writes (text : List Char) (document : Document) : Prop :=
  ∀ rest, EndsNumber rest → Reads (skip (text ++ rest)) document rest

/-- The text stands for an entry of an object, whatever follows it. -/
def WritesEntry (text : List Char) (entry : String × Document) : Prop :=
  ∀ rest, EndsNumber rest → ReadsEntry (text ++ rest) entry.1 entry.2 rest

/-- Blanks in front of a text do not matter. -/
theorem Writes.blank {blank text : List Char} {document : Document} (h : Writes text document)
    (hblank : ∀ c ∈ blank, isBlank c = true) : Writes (blank ++ text) document := by
  intro rest hrest
  rw [List.append_assoc, skip_append hblank]
  exact h rest hrest

theorem writes_null : Writes ['n', 'u', 'l', 'l'] .null := fun rest _ => .null rest

/-- The digits of a number write it. -/
theorem writes_nat (n : Nat) : Writes (Nat.toDigits 10 n) (.nat n) := by
  intro rest hrest
  have hskip : skip (Nat.toDigits 10 n ++ rest) = Nat.toDigits 10 n ++ rest := by
    cases hdigits : Nat.toDigits 10 n with
    | nil => exact absurd hdigits Nat.toDigits_ne_nil
    | cons c digits =>
      have hc : c.isDigit = true :=
        isDigit_of_mem_toDigits (n := n) (by rw [hdigits]; exact List.mem_cons_self)
      refine skip_of_not_blank ?_ _
      by_contra hblank
      simp only [isBlank, Bool.not_eq_false, Bool.or_eq_true, beq_iff_eq] at hblank
      rcases hblank with ((rfl | rfl) | rfl) | rfl <;> exact absurd hc (by decide)
  rw [hskip]
  exact .nat rfl hrest

/-- A literal in front of a text. -/
theorem IsLiteral.reads {literal value : List Char} (h : IsLiteral literal value)
    (rest : List Char) :
    ∃ contents, literal ++ rest = '"' :: contents ∧ ReadsString contents value rest := by
  obtain ⟨contents, rfl, hread⟩ := h
  exact ⟨contents ++ rest, rfl, hread.append rest⟩

/-- A string literal writes its string. -/
theorem writes_string {literal : List Char} {value : String}
    (h : IsLiteral literal value.toList) : Writes literal (.string value) := by
  intro rest _
  obtain ⟨contents, hliteral, hread⟩ := h.reads rest
  rw [hliteral, skip_of_not_blank rfl]
  have hstring := Reads.string hread
  rwa [String.ofList_toList] at hstring

theorem writes_noItems : Writes ['[', ']'] (.array []) :=
  fun _ _ => .noItems (skip_of_not_blank rfl _)

theorem writes_noEntries : Writes ['{', '}'] (.object []) :=
  fun _ _ => .noEntries (skip_of_not_blank rfl _)

/-- A name, a colon and a text write an entry. -/
theorem writesEntry {literal text : List Char} {name : String} {document : Document}
    (hname : IsLiteral literal name.toList) (h : Writes text document) :
    WritesEntry (literal ++ ':' :: ' ' :: text) (name, document) := by
  intro rest hrest
  obtain ⟨contents, hliteral, hread⟩ := hname.reads (':' :: ' ' :: (text ++ rest))
  have hquote : skip (literal ++ ':' :: ' ' :: text ++ rest) = '"' :: contents := by
    rw [List.append_assoc]
    exact (congrArg skip hliteral).trans (skip_of_not_blank rfl contents)
  have hentry := ReadsEntry.entry hquote hread (skip_of_not_blank rfl _)
    (show Reads (skip (' ' :: (text ++ rest))) document rest from h rest hrest)
  rwa [String.ofList_toList] at hentry

/-- Blanks in front of an entry do not matter. -/
theorem WritesEntry.blank {blank text : List Char} {entry : String × Document}
    (h : WritesEntry text entry) (hblank : ∀ c ∈ blank, isBlank c = true) :
    WritesEntry (blank ++ text) entry := by
  obtain ⟨name, document⟩ := entry
  intro rest hrest
  have hentry : ReadsEntry (text ++ rest) name document rest := h rest hrest
  have hskip := skip_append hblank (text ++ rest)
  rw [List.append_assoc]
  cases hentry with
  | entry hquote hkey hcolon h => exact .entry (hskip.trans hquote) hkey hcolon h

/-- A number ends at a blank. -/
theorem endsNumber_of_blank {blank : List Char} (h : ∀ c ∈ blank, isBlank c = true) {c : Char}
    (hc : continuesNumber c = false) (rest : List Char) : EndsNumber (blank ++ c :: rest) := by
  cases blank with
  | nil =>
    rintro _ ⟨⟩
    exact hc
  | cons d blank =>
    rintro _ ⟨⟩
    have hd := h d List.mem_cons_self
    simp only [isBlank, Bool.or_eq_true, beq_iff_eq] at hd
    rcases hd with ((rfl | rfl) | rfl) | rfl <;> rfl

/-- Items between commas, with white space in front of the bracket that closes them. -/
theorem readsItems_intercalate {text : List Char} {document : Document}
    {texts : List (List Char)} {documents : List Document} (h : Writes text document)
    (hs : List.Forall₂ Writes texts documents) {blank : List Char}
    (hblank : ∀ c ∈ blank, isBlank c = true) (rest : List Char) :
    ReadsItems ([','].intercalate (text :: texts) ++ (blank ++ ']' :: rest))
      (document :: documents) rest := by
  induction hs generalizing text document with
  | nil =>
    rw [List.intercalate_singleton]
    refine .last (h _ (endsNumber_of_blank hblank rfl rest)) ?_
    rw [skip_append hblank]
    exact skip_of_not_blank rfl rest
  | @cons text' document' texts documents h' _ ih =>
    rw [List.intercalate_cons_cons, List.append_assoc, List.append_assoc]
    refine .cons (h _ ?_) (skip_of_not_blank rfl _) (ih h')
    rintro _ ⟨⟩
    rfl

/-- Entries between commas, with white space in front of the brace that closes them. -/
theorem readsEntries_intercalate {text : List Char} {entry : String × Document}
    {texts : List (List Char)} {entries : List (String × Document)} (h : WritesEntry text entry)
    (hs : List.Forall₂ WritesEntry texts entries) {blank : List Char}
    (hblank : ∀ c ∈ blank, isBlank c = true) (rest : List Char) :
    ReadsEntries ([','].intercalate (text :: texts) ++ (blank ++ '}' :: rest))
      (entry :: entries) rest := by
  induction hs generalizing text entry with
  | nil =>
    rw [List.intercalate_singleton]
    refine .last (h _ (endsNumber_of_blank hblank rfl rest)) ?_
    rw [skip_append hblank]
    exact skip_of_not_blank rfl rest
  | @cons text' entry' texts entries h' _ ih =>
    rw [List.intercalate_cons_cons, List.append_assoc, List.append_assoc]
    refine .cons (h _ ?_) (skip_of_not_blank rfl _) (ih h')
    rintro _ ⟨⟩
    rfl

/-- An array, its items between commas. -/
theorem writes_items {text : List Char} {document : Document} {texts : List (List Char)}
    {documents : List Document} (h : Writes text document)
    (hs : List.Forall₂ Writes texts documents) {blank : List Char}
    (hblank : ∀ c ∈ blank, isBlank c = true) :
    Writes ('[' :: ([','].intercalate (text :: texts) ++ (blank ++ [']'])))
      (.array (document :: documents)) := by
  intro rest _
  rw [List.cons_append, skip_of_not_blank rfl, List.append_assoc, List.append_assoc]
  exact .items (readsItems_intercalate h hs hblank rest)

/-- An object, its entries between commas. -/
theorem writes_entries {text : List Char} {entry : String × Document} {texts : List (List Char)}
    {entries : List (String × Document)} (h : WritesEntry text entry)
    (hs : List.Forall₂ WritesEntry texts entries) {blank : List Char}
    (hblank : ∀ c ∈ blank, isBlank c = true) :
    Writes ('{' :: ([','].intercalate (text :: texts) ++ (blank ++ ['}'])))
      (.object (entry :: entries)) := by
  intro rest _
  rw [List.cons_append, skip_of_not_blank rfl, List.append_assoc, List.append_assoc]
  exact .entries (readsEntries_intercalate h hs hblank rest)

/-! ## White space behind a text -/

theorem skip_append_of_ne_nil {text : List Char} (h : skip text ≠ []) (more : List Char) :
    skip (text ++ more) = skip text ++ more := by
  rw [skip, List.dropWhile_append, if_neg]
  · rfl
  · rw [List.isEmpty_iff]
    exact h

theorem skip_append_cons {text rest : List Char} {c : Char} (h : skip text = c :: rest)
    (more : List Char) : skip (text ++ more) = c :: (rest ++ more) := by
  have hne : skip text ≠ [] := by
    rw [h]
    exact List.cons_ne_nil c rest
  rw [skip_append_of_ne_nil hne, h, List.cons_append]

theorem not_reads_nil {rest : List Char} {document : Document} : ¬ Reads [] document rest := by
  intro h
  cases h with
  | nat htext => exact absurd (List.append_eq_nil_iff.mp htext.symm).1 Nat.toDigits_ne_nil

/-- What is skipped does not depend on what follows. -/
theorem skip_append_reads {text rest : List Char} {document : Document}
    (h : Reads (skip text) document rest) (more : List Char) :
    skip (text ++ more) = skip text ++ more := by
  refine skip_append_of_ne_nil (fun hnil => ?_) more
  rw [hnil] at h
  exact not_reads_nil h

mutual

/-- What stands behind the text of a document does not matter, unless it goes on with a number. -/
theorem Reads.append {text rest more : List Char} {document : Document}
    (hmore : EndsNumber more) :
    Reads text document rest → Reads (text ++ more) document (rest ++ more)
  | .null _ => .null _
  | .nat htext hrest => by
    refine .nat (by rw [htext, List.append_assoc]) fun c hc => ?_
    cases rest with
    | nil => exact hmore c hc
    | cons d rest => exact hrest c hc
  | .string h => .string (h.append more)
  | .noItems h => .noItems (skip_append_cons h more)
  | .items h => .items (h.append hmore)
  | .noEntries h => .noEntries (skip_append_cons h more)
  | .entries h => .entries (h.append hmore)
termination_by structural h => h

/-- Items are read as before if more follows. -/
theorem ReadsItems.append {text rest more : List Char} {items : List Document}
    (hmore : EndsNumber more) :
    ReadsItems text items rest → ReadsItems (text ++ more) items (rest ++ more)
  | .last h hclose => by
    refine .last ?_ (skip_append_cons hclose more)
    rw [skip_append_reads h]
    exact h.append hmore
  | .cons h hcomma hitems => by
    refine .cons ?_ (skip_append_cons hcomma more) (hitems.append hmore)
    rw [skip_append_reads h]
    exact h.append hmore
termination_by structural h => h

/-- An entry is read as before if more follows. -/
theorem ReadsEntry.append {text rest more : List Char} {name : String} {document : Document}
    (hmore : EndsNumber more) :
    ReadsEntry text name document rest → ReadsEntry (text ++ more) name document (rest ++ more)
  | .entry hquote hkey hcolon h => by
    refine .entry (skip_append_cons hquote more) (hkey.append more)
      (skip_append_cons hcolon more) ?_
    rw [skip_append_reads h]
    exact h.append hmore
termination_by structural h => h

/-- Entries are read as before if more follows. -/
theorem ReadsEntries.append {text rest more : List Char} {entries : List (String × Document)}
    (hmore : EndsNumber more) :
    ReadsEntries text entries rest → ReadsEntries (text ++ more) entries (rest ++ more)
  | .last h hclose => .last (h.append hmore) (skip_append_cons hclose more)
  | .cons h hcomma hentries =>
    .cons (h.append hmore) (skip_append_cons hcomma more) (hentries.append hmore)
termination_by structural h => h

end

/-- A number ends where only blanks are left. -/
theorem EndsNumber.of_blank {blank : List Char} (hblank : ∀ c ∈ blank, isBlank c = true) :
    EndsNumber blank := by
  intro c hc
  cases blank with
  | nil => cases hc
  | cons d blank => exact endsNumber_of_blank hblank (c := ',') rfl [] c hc

/-- **White space** behind a text does not change what it stands for. -/
theorem IsText.append {text blank : List Char} {document : Document} (h : IsText text document)
    (hblank : ∀ c ∈ blank, isBlank c = true) : IsText (text ++ blank) document := by
  obtain ⟨rest, hreads, hrest⟩ := h
  refine ⟨rest ++ blank, ?_, ?_⟩
  · rw [skip_append_reads hreads]
    exact hreads.append (.of_blank hblank)
  · have hempty : (rest.dropWhile isBlank).isEmpty = true := List.isEmpty_iff.mpr hrest
    rw [skip, List.dropWhile_append, if_pos hempty, ← List.append_nil blank]
    exact skip_append hblank []

/-- **A whole text.** -/
theorem Writes.isText {text : List Char} {document : Document} (h : Writes text document) :
    IsText text document := by
  have hreads := h [] nofun
  rw [List.append_nil] at hreads
  exact ⟨[], hreads, rfl⟩

end Rettp.JsonText
