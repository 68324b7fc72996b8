import Mathlib.Data.List.Basic

/-!
# Reading XML

A reader for the XML 1.0 documents that consist of a declaration, elements with attributes in
double quotes, and text. It refuses what is not well formed: characters that XML does not have,
references that are not one of the five predefined ones, tags that do not match, an attribute
given twice, and text outside the root.

As XML prescribes, the ends of lines are normalized before anything else (`lineEnds`, section 2.11)
and the values of attributes before their references are decoded (`normalize`, section 3.3.3). White
space between elements is dropped; all other text is kept as it is written, with its references
decoded.

The reader goes through a document character by character, so a document can be read piece by
piece (`Xml.run_append`).
-/

namespace Xml

/-! ## Texts -/

/-- `Char` of XML 1.0. -/
def isChar (c : Char) : Bool :=
  c = '\t' || c = '\n' || c = '\r' || (0x20 ≤ c.toNat && c.toNat ≤ 0xd7ff) ||
    (0xe000 ≤ c.toNat && c.toNat ≤ 0xfffd) || (0x10000 ≤ c.toNat && c.toNat ≤ 0x10ffff)

/-- `S` of XML 1.0. -/
def isSpace (c : Char) : Bool := c = ' ' || c = '\t' || c = '\n' || c = '\r'

/-- The names that the reader knows begin with a letter, a colon or an underscore. -/
def isNameStart (c : Char) : Bool :=
  ('a' ≤ c && c ≤ 'z') || ('A' ≤ c && c ≤ 'Z') || c = ':' || c = '_'

/-- A further character of a name. -/
def isNameChar (c : Char) : Bool := isNameStart c || ('0' ≤ c && c ≤ '9') || c = '-' || c = '.'

/-- Replace the predefined references. -/
def decode : List Char → Option (List Char)
  | [] => some []
  | '&' :: 'a' :: 'm' :: 'p' :: ';' :: rest => (decode rest).map ('&' :: ·)
  | '&' :: 'l' :: 't' :: ';' :: rest => (decode rest).map ('<' :: ·)
  | '&' :: 'g' :: 't' :: ';' :: rest => (decode rest).map ('>' :: ·)
  | '&' :: 'q' :: 'u' :: 'o' :: 't' :: ';' :: rest => (decode rest).map ('"' :: ·)
  | '&' :: 'a' :: 'p' :: 'o' :: 's' :: ';' :: rest => (decode rest).map ('\'' :: ·)
  | '&' :: _ => none
  | c :: rest => (decode rest).map (c :: ·)

/-- **Ends of lines.** A carriage return in front of a line feed is dropped, and any other one is
a line feed. -/
def lineEnds : List Char → List Char
  | [] => []
  | c :: rest =>
    if c = '\r' then if rest.head? = some '\n' then lineEnds rest else '\n' :: lineEnds rest
    else c :: lineEnds rest

/-- White space in the value of an attribute is a blank. -/
def spaced (c : Char) : Char := if isSpace c then ' ' else c

/-- The value of an attribute, from the characters between its quotes. -/
def normalize (raw : List Char) : List Char := (lineEnds raw).map spaced

/-- The text has the end of a `CDATA` section, which no text may have. -/
def hasSectionEnd : List Char → Bool
  | ']' :: ']' :: '>' :: _ => true
  | _ :: rest => hasSectionEnd rest
  | [] => false

/-! ## Elements -/

/-- A part of a document that has been read. -/
inductive Node where
  | element (name : String) (attributes : List (String × String)) (children : List Node)
  | text (content : String)

/-- The nodes directly inside an element. -/
def Node.children : Node → List Node
  | .element _ _ children => children
  | .text _ => []

/-- The node is an element of this name. -/
def Node.named (name : String) : Node → Bool
  | .element name' _ _ => name' = name
  | .text _ => false

/-- The value of an attribute. -/
def Node.attribute (key : String) : Node → Option String
  | .element _ attributes _ => attributes.lookup key
  | .text _ => none

/-- Read a text that consists of decimal digits. -/
def natural (text : String) : Option Nat :=
  if text.toList ≠ [] ∧ text.toList.all Char.isDigit then some (Nat.ofDigitChars 10 text.toList 0)
  else none

/-- The number that an attribute has as its value. -/
def Node.number (key : String) (node : Node) : Option Nat := (node.attribute key).bind natural

/-- The node has an element of this name as a child. -/
def Node.hasChild (name : String) (node : Node) : Bool := node.children.any (Node.named name)

/-- An element whose end has not been read. -/
structure Frame where
  name : String
  attributes : List (String × String)
  children : List Node

/-- One more node inside an open element. -/
def Frame.add (frame : Frame) (node : Node) : Frame :=
  { frame with children := frame.children ++ [node] }

/-- What the reader is in the middle of. -/
inductive Mode where
  /-- in the contents of an element -/
  | text (raw : List Char)
  /-- behind the opening bracket of a tag -/
  | markup
  | openName (name : List Char)
  | closeName (name : List Char)
  /-- in a start tag, behind its name or the value of an attribute -/
  | tag (name : String) (attributes : List (String × String))
  /-- the same, behind white space -/
  | space (name : String) (attributes : List (String × String))
  | attribute (name : String) (attributes : List (String × String)) (key : List Char)
  | equals (name : String) (attributes : List (String × String)) (key : String)
  | value (name : String) (attributes : List (String × String)) (key : String) (raw : List Char)
  /-- behind the slash of an empty element -/
  | slash (name : String) (attributes : List (String × String))

/-- The elements that are open are those around the place that has been reached, innermost first;
the last one stands for the document. -/
structure State where
  mode : Mode
  stack : List Frame

/-! ## Steps -/

/-- Add the text in front of a tag. -/
def flush (raw : List Char) : List Frame → Option (List Frame)
  | [] => none
  | frame :: stack =>
    if raw.all isSpace then some (frame :: stack)
    else if hasSectionEnd raw then none
    else (decode raw).map fun content => frame.add (.text (String.ofList content)) :: stack

/-- Go on in a start tag. -/
def inTag (name : String) (attributes : List (String × String)) (stack : List Frame) (c : Char) :
    Option State :=
  if c = '>' then
    if (attributes.map Prod.fst).Nodup then some ⟨.text [], ⟨name, attributes, []⟩ :: stack⟩ else none
  else if c = '/' then some ⟨.slash name attributes, stack⟩
  else if isSpace c then some ⟨.space name attributes, stack⟩
  else none

/-- Close the innermost element. -/
def close (name : String) : List Frame → Option State
  | frame :: parent :: stack =>
    if frame.name = name then
      some ⟨.text [], parent.add (.element name frame.attributes frame.children) :: stack⟩
    else none
  | _ => none

/-- What a character means in each state. -/
def next : State → Char → Option State
  | ⟨.text raw, stack⟩, c =>
    if c = '<' then (flush raw stack).map fun stack => ⟨.markup, stack⟩
    else some ⟨.text (raw ++ [c]), stack⟩
  | ⟨.markup, stack⟩, c =>
    if c = '/' then some ⟨.closeName [], stack⟩
    else if isNameStart c then some ⟨.openName [c], stack⟩
    else none
  | ⟨.openName name, stack⟩, c =>
    if isNameChar c then some ⟨.openName (name ++ [c]), stack⟩
    else inTag (String.ofList name) [] stack c
  | ⟨.closeName name, stack⟩, c =>
    if c = '>' then close (String.ofList name) stack
    else if isNameChar c then some ⟨.closeName (name ++ [c]), stack⟩
    else none
  | ⟨.tag name attributes, stack⟩, c => inTag name attributes stack c
  | ⟨.space name attributes, stack⟩, c =>
    if isNameStart c then some ⟨.attribute name attributes [c], stack⟩
    else inTag name attributes stack c
  | ⟨.attribute name attributes key, stack⟩, c =>
    if isNameChar c then some ⟨.attribute name attributes (key ++ [c]), stack⟩
    else if c = '=' then some ⟨.equals name attributes (String.ofList key), stack⟩
    else none
  | ⟨.equals name attributes key, stack⟩, c =>
    if c = '"' then some ⟨.value name attributes key [], stack⟩ else none
  | ⟨.value name attributes key raw, stack⟩, c =>
    if c = '"' then
      -- the ends of lines have been normalized already
      (decode (raw.map spaced)).map fun value =>
        ⟨.tag name (attributes ++ [(key, String.ofList value)]), stack⟩
    else if c = '<' then none
    else some ⟨.value name attributes key (raw ++ [c]), stack⟩
  | ⟨.slash name attributes, stack⟩, c =>
    if c = '>' ∧ (attributes.map Prod.fst).Nodup then
      match stack with
      | frame :: stack => some ⟨.text [], frame.add (.element name attributes []) :: stack⟩
      | [] => none
    else none

/-- One character that XML allows. -/
def step (s : State) (c : Char) : Option State := if isChar c then next s c else none

/-- A text, character by character. -/
def run (s : State) : List Char → Option State
  | [] => some s
  | c :: text => (step s c).bind fun s => run s text

/-- The declaration at the start of a document. -/
def declaration : List Char := "<?xml version=\"1.0\" encoding=\"UTF-8\"?>".toList

/-- The state at the beginning of a document. -/
def start : State := ⟨.text [], [⟨"", [], []⟩]⟩

/-- The root of a document that has been read to its end. -/
def finish : State → Option Node
  | ⟨.text raw, [⟨_, _, [.element name attributes children]⟩]⟩ =>
    if raw.all isSpace then some (.element name attributes children) else none
  | _ => none

/-- Read a document. -/
def read (document : List Char) : Option Node :=
  if declaration.isPrefixOf document then
    (run start (lineEnds (document.drop declaration.length))).bind finish
  else none

/-! ## Runs -/

theorem run_append (s : State) (text text' : List Char) :
    run s (text ++ text') = (run s text).bind fun s => run s text' := by
  induction text generalizing s with
  | nil => rfl
  | cons c text ih =>
    rw [List.cons_append, run, run, Option.bind_assoc]
    exact Option.bind_congr fun s' _ => ih s'

/-- **Characters.** A document that can be read has the characters of XML. -/
theorem isChar_of_run {s s' : State} {text : List Char} (h : run s text = some s') :
    ∀ c ∈ text, isChar c = true := by
  induction text generalizing s with
  | nil => exact fun c hc => absurd hc List.not_mem_nil
  | cons c text ih =>
    obtain ⟨t, ht, hrest⟩ := Option.bind_eq_some_iff.mp h
    rw [List.forall_mem_cons]
    refine ⟨?_, ih hrest⟩
    by_contra hc
    rw [step, if_neg hc] at ht
    cases ht

/-! ## Ends of lines -/

theorem lineEnds_cons {c : Char} (h : c ≠ '\r') (rest : List Char) :
    lineEnds (c :: rest) = c :: lineEnds rest := by
  rw [lineEnds, if_neg h]

/-- A text without carriage returns stays what it is. -/
theorem lineEnds_plain {text : List Char} (h : '\r' ∉ text) (more : List Char) :
    lineEnds (text ++ more) = text ++ lineEnds more := by
  induction text with
  | nil => rfl
  | cons c text ih =>
    rw [List.mem_cons, not_or] at h
    rw [List.cons_append, lineEnds_cons (Ne.symm h.1), ih h.2, List.cons_append]

theorem lineEnds_eq_self {text : List Char} (h : '\r' ∉ text) : lineEnds text = text := by
  have hplain := lineEnds_plain h []
  rwa [List.append_nil, lineEnds, List.append_nil] at hplain

/-- A text and what does not begin with a line feed are normalized one after the other. -/
theorem lineEnds_append (text : List Char) {more : List Char} (h : more.head? ≠ some '\n') :
    lineEnds (text ++ more) = lineEnds text ++ lineEnds more := by
  induction text with
  | nil => rfl
  | cons c text ih =>
    have hhead : ((text ++ more).head? = some '\n') = (text.head? = some '\n') := by
      cases text with
      | nil => simp [h]
      | cons d text => rfl
    simp only [List.cons_append, lineEnds, hhead, ih]
    repeat' split
    all_goals rfl

/-- So are two texts of which the first one ends with a line feed. -/
theorem lineEnds_feed (text more : List Char) :
    lineEnds (text ++ '\n' :: more) = lineEnds (text ++ ['\n']) ++ lineEnds more := by
  induction text with
  | nil => rfl
  | cons c text ih =>
    have hhead : (text ++ '\n' :: more).head? = (text ++ ['\n']).head? := by
      cases text with
      | nil => rfl
      | cons d text => rfl
    simp only [List.cons_append, lineEnds, hhead, ih]
    repeat' split
    all_goals rfl

/-- What is there after the normalization was there before, except for line feeds. -/
theorem mem_lineEnds {text : List Char} {c : Char} (h : c ∈ lineEnds text) :
    c ∈ text ∧ c ≠ '\r' ∨ c = '\n' := by
  induction text with
  | nil => cases h
  | cons d text ih =>
    have hlater (h : c ∈ lineEnds text) : c ∈ d :: text ∧ c ≠ '\r' ∨ c = '\n' :=
      (ih h).imp (fun hc => ⟨List.mem_cons_of_mem d hc.1, hc.2⟩) id
    rw [lineEnds] at h
    split at h
    · split at h
      · exact hlater h
      · exact (List.mem_cons.mp h).elim .inr hlater
    · next hd =>
      rcases List.mem_cons.mp h with rfl | h
      · exact .inl ⟨List.mem_cons_self, hd⟩
      · exact hlater h

theorem return_not_mem_lineEnds (text : List Char) : '\r' ∉ lineEnds text := by
  intro h
  rcases mem_lineEnds h with h | h
  · exact h.2 rfl
  · cases h

/-- Only carriage returns are lost. -/
theorem mem_lineEnds_of_mem {text : List Char} {c : Char} (h : c ∈ text) (hc : c ≠ '\r') :
    c ∈ lineEnds text := by
  induction text with
  | nil => cases h
  | cons d text ih =>
    rw [lineEnds]
    rcases List.mem_cons.mp h with rfl | h
    · rw [if_neg hc]
      exact List.mem_cons_self
    · repeat' split
      · exact ih h
      · exact List.mem_cons_of_mem _ (ih h)
      · exact List.mem_cons_of_mem _ (ih h)

theorem spaced_eq_self {c : Char} : spaced c = c ↔ c ≠ '\t' ∧ c ≠ '\n' ∧ c ≠ '\r' := by
  by_cases hspace : isSpace c = true
  · rw [spaced, if_pos hspace]
    refine ⟨?_, ?_⟩
    · rintro rfl
      decide
    · rintro ⟨htab, hfeed, hreturn⟩
      simp [isSpace, htab, hfeed, hreturn] at hspace
      exact hspace.symm
  · rw [spaced, if_neg hspace]
    simp only [isSpace, Bool.or_eq_true, decide_eq_true_eq, not_or] at hspace
    exact ⟨fun _ => ⟨hspace.1.1.2, hspace.1.2, hspace.2⟩, fun _ => rfl⟩

theorem spaced_spaced (c : Char) : spaced (spaced c) = spaced c := by
  by_cases hspace : isSpace c = true
  · have hblank : spaced c = ' ' := if_pos hspace
    rw [hblank]
    rfl
  · have hsame : spaced c = c := if_neg hspace
    rw [hsame, hsame]

/-- **What a normalization loses** is white space other than blanks. -/
theorem normalize_eq_self {raw : List Char} :
    normalize raw = raw ↔ ∀ c ∈ raw, c ≠ '\t' ∧ c ≠ '\n' ∧ c ≠ '\r' := by
  refine ⟨?_, ?_⟩
  · intro h c hc
    rw [← h] at hc
    obtain ⟨d, -, rfl⟩ := List.mem_map.mp hc
    exact spaced_eq_self.mp (spaced_spaced d)
  · intro h
    rw [normalize, lineEnds_eq_self fun hreturn => (h _ hreturn).2.2 rfl]
    exact (List.map_congr_left fun c hc => spaced_eq_self.mpr (h c hc)).trans (List.map_id raw)

theorem lineEnds_eq_self_iff {text : List Char} : lineEnds text = text ↔ '\r' ∉ text :=
  ⟨fun h => h ▸ return_not_mem_lineEnds text, lineEnds_eq_self⟩

theorem isChar_of_read {document : List Char} {root : Node} (h : read document = some root) :
    ∀ c ∈ document, isChar c = true := by
  unfold read at h
  split at h
  · next hprefix =>
    obtain ⟨s, hrun, -⟩ := Option.bind_eq_some_iff.mp h
    intro c hc
    have hdocument := List.take_append_drop declaration.length document
    rw [← List.prefix_iff_eq_take.mp (List.isPrefixOf_iff_prefix.mp hprefix)] at hdocument
    rw [← hdocument, List.mem_append] at hc
    rcases hc with hc | hc
    · have hall : ∀ c ∈ declaration, isChar c = true := List.all_eq_true.mp (by decide)
      exact hall c hc
    · by_cases hreturn : c = '\r'
      · rw [hreturn]
        decide
      · exact isChar_of_run hrun c (mem_lineEnds_of_mem hc hreturn)
  · cases h

/-- Characters that stay in a text. -/
def InText (c : Char) : Prop := isChar c = true ∧ c ≠ '<'

/-- Characters that stay in the value of an attribute. -/
def InValue (c : Char) : Prop := isChar c = true ∧ c ≠ '<' ∧ c ≠ '"'

theorem run_text {text : List Char} (h : ∀ c ∈ text, InText c) (raw : List Char)
    (stack : List Frame) : run ⟨.text raw, stack⟩ text = some ⟨.text (raw ++ text), stack⟩ := by
  induction text generalizing raw with
  | nil => rw [List.append_nil, run]
  | cons c text ih =>
    rw [List.forall_mem_cons] at h
    rw [run, step, if_pos h.1.1, next, if_neg h.1.2, Option.bind_some, ih h.2,
      List.append_assoc, List.singleton_append]

theorem run_value {text : List Char} (h : ∀ c ∈ text, InValue c) (name : String)
    (attributes : List (String × String)) (key : String) (raw : List Char) (stack : List Frame) :
    run ⟨.value name attributes key raw, stack⟩ text =
      some ⟨.value name attributes key (raw ++ text), stack⟩ := by
  induction text generalizing raw with
  | nil => rw [List.append_nil, run]
  | cons c text ih =>
    rw [List.forall_mem_cons] at h
    rw [run, step, if_pos h.1.1, next, if_neg h.1.2.2, if_neg h.1.2.1, Option.bind_some, ih h.2,
      List.append_assoc, List.singleton_append]

/-! ## References -/

theorem decode_cons {c : Char} (h : c ≠ '&') (rest : List Char) :
    decode (c :: rest) = (decode rest).map (c :: ·) :=
  decode.eq_8 c rest (fun _ hc => absurd hc h) (fun _ hc => absurd hc h) (fun _ hc => absurd hc h)
    (fun _ hc => absurd hc h) (fun _ hc => absurd hc h) (fun hc => absurd hc h)

/-- A text without references is decoded to itself. -/
theorem decode_plain {text : List Char} (h : '&' ∉ text) : decode text = some text := by
  induction text with
  | nil => rfl
  | cons c text ih =>
    rw [List.mem_cons, not_or] at h
    rw [decode_cons (Ne.symm h.1), ih h.2, Option.map_some]

/-- Texts are decoded piece by piece. -/
theorem decode_append {text content : List Char} (h : decode text = some content)
    (text' : List Char) : decode (text ++ text') = (decode text').map (content ++ ·) := by
  induction text using decode.induct generalizing content with
  | case1 =>
    obtain rfl := Option.some.inj h
    simp
  | case7 tail hamp hlt hgt hquot hapos =>
    rw [decode.eq_7 tail hamp hlt hgt hquot hapos] at h
    cases h
  | case8 c rest _ _ _ _ _ hc ih =>
    rw [decode_cons hc] at h
    obtain ⟨content', hrest, rfl⟩ := Option.map_eq_some_iff.mp h
    rw [List.cons_append, decode_cons hc, ih hrest, Option.map_map]
    rfl
  | _ rest ih =>
    rw [decode] at h
    obtain ⟨content', hrest, rfl⟩ := Option.map_eq_some_iff.mp h
    simp only [List.cons_append, decode, ih hrest, Option.map_map]
    rfl

theorem head?_of_decode {raw content : List Char} (h : decode raw = some content) :
    content.head? = some '\n' ↔ raw.head? = some '\n' := by
  cases raw using decode.fun_cases with
  | case1 =>
    obtain rfl := Option.some.inj h
    rfl
  | case7 tail hamp hlt hgt hquot hapos =>
    rw [decode.eq_7 tail hamp hlt hgt hquot hapos] at h
    cases h
  | case8 c rest _ _ _ _ _ hc =>
    rw [decode_cons hc] at h
    obtain ⟨content', -, rfl⟩ := Option.map_eq_some_iff.mp h
    rfl
  | _ rest =>
    rw [decode] at h
    obtain ⟨content', -, rfl⟩ := Option.map_eq_some_iff.mp h
    simp

/-- **Ends of lines** can be normalized before the references are replaced, or after it. -/
theorem decode_lineEnds {raw content : List Char} (h : decode raw = some content) :
    decode (lineEnds raw) = some (lineEnds content) := by
  induction raw using decode.induct generalizing content with
  | case1 =>
    obtain rfl := Option.some.inj h
    rfl
  | case7 tail hamp hlt hgt hquot hapos =>
    rw [decode.eq_7 tail hamp hlt hgt hquot hapos] at h
    cases h
  | case8 c rest _ _ _ _ _ hc ih =>
    rw [decode_cons hc] at h
    obtain ⟨content', hrest, rfl⟩ := Option.map_eq_some_iff.mp h
    simp only [lineEnds, head?_of_decode hrest]
    split
    · split
      · exact ih hrest
      · rw [decode_cons (by decide), ih hrest, Option.map_some]
    · rw [decode_cons hc, ih hrest, Option.map_some]
  | _ rest ih =>
    rw [decode] at h
    obtain ⟨content', hrest, rfl⟩ := Option.map_eq_some_iff.mp h
    simp [lineEnds, decode, ih hrest]

/-- So can the white space in the value of an attribute. -/
theorem decode_spaced {raw content : List Char} (h : decode raw = some content) :
    decode (raw.map spaced) = some (content.map spaced) := by
  induction raw using decode.induct generalizing content with
  | case1 =>
    obtain rfl := Option.some.inj h
    rfl
  | case7 tail hamp hlt hgt hquot hapos =>
    rw [decode.eq_7 tail hamp hlt hgt hquot hapos] at h
    cases h
  | case8 c rest _ _ _ _ _ hc ih =>
    rw [decode_cons hc] at h
    obtain ⟨content', hrest, rfl⟩ := Option.map_eq_some_iff.mp h
    have hspaced : spaced c ≠ '&' := by
      unfold spaced
      split
      · decide
      · exact hc
    rw [List.map_cons, decode_cons hspaced, ih hrest, Option.map_some, List.map_cons]
  | _ rest ih =>
    rw [decode] at h
    obtain ⟨content', hrest, rfl⟩ := Option.map_eq_some_iff.mp h
    have hplain (c : Char) (hc : isSpace c = false) : spaced c = c := by rw [spaced, hc]; rfl
    simp [decode, ih hrest, hplain, isSpace]

theorem decode_normalize {raw content : List Char} (h : decode raw = some content) :
    decode (normalize raw) = some (normalize content) :=
  decode_spaced (decode_lineEnds h)

/-- A text without brackets does not end a section. -/
theorem hasSectionEnd_eq_false {text : List Char} (h : '>' ∉ text) : hasSectionEnd text = false := by
  induction text with
  | nil => rfl
  | cons c text ih =>
    rw [List.mem_cons, not_or] at h
    unfold hasSectionEnd
    split
    · next hcons =>
      obtain ⟨-, rfl⟩ := List.cons.inj hcons
      simp at h
    · next hcons =>
      obtain ⟨-, rfl⟩ := List.cons.inj hcons
      exact ih h.2
    · rfl

/-- Text up to the next tag. -/
theorem step_markup {raw content : List Char} (hblank : raw.all isSpace = false) (hraw : '>' ∉ raw)
    (hdecode : decode raw = some content) (frame : Frame) (stack : List Frame) :
    step ⟨.text raw, frame :: stack⟩ '<' =
      some ⟨.markup, frame.add (.text (String.ofList content)) :: stack⟩ := by
  show (flush raw (frame :: stack)).map _ = _
  rw [flush, if_neg (by simp [hblank]), hasSectionEnd_eq_false hraw, if_neg Bool.false_ne_true,
    hdecode]
  rfl

/-! ## Attributes -/

/-- A name. -/
def isName : List Char → Bool
  | [] => false
  | first :: rest => isNameStart first && rest.all isNameChar && (first :: rest).all isChar

/-- A value and how it is written. -/
def Writes (raw value : String) : Prop :=
  (∀ c ∈ raw.toList, InValue c) ∧ decode (normalize raw.toList) = some value.toList

/-- An attribute: its name, its value as it is written, and its value. -/
structure Written where
  key : String
  raw : String
  value : String

/-- The attribute in its tag, with the blank in front of it. -/
def Written.text (a : Written) : List Char :=
  ' ' :: (a.key.toList ++ '=' :: '"' :: (a.raw.toList ++ ['"']))

/-- An attribute whose name is one and whose text stands for its value. -/
def Written.Ok (a : Written) : Prop := isName a.key.toList = true ∧ Writes a.raw a.value

theorem Written.Ok.mk {key raw value : String} (hkey : isName key.toList = true)
    (h : Writes raw value) : (⟨key, raw, value⟩ : Written).Ok :=
  ⟨hkey, h⟩

theorem run_key {rest : List Char} (hname : rest.all isNameChar = true)
    (hchar : rest.all isChar = true) (name : String) (attributes : List (String × String))
    (key : List Char) (stack : List Frame) (more : List Char) :
    run ⟨.attribute name attributes key, stack⟩ (rest ++ '=' :: '"' :: more) =
      run ⟨.value name attributes (String.ofList (key ++ rest)) [], stack⟩ more := by
  induction rest generalizing key with
  | nil =>
    rw [List.append_nil]
    rfl
  | cons c rest ih =>
    rw [List.all_cons, Bool.and_eq_true] at hname hchar
    rw [List.cons_append, run, step, if_pos hchar.1, next, if_pos hname.1, Option.bind_some,
      ih hname.2 hchar.2, List.append_assoc, List.singleton_append]

/-- The ends of lines in the text of an attribute. -/
theorem lineEnds_attribute {key : List Char} (hkey : key.all isNameChar = true) (raw more : List Char) :
    lineEnds (' ' :: (key ++ '=' :: '"' :: (raw ++ ['"'])) ++ more) =
      ' ' :: (key ++ '=' :: '"' :: (lineEnds raw ++ '"' :: lineEnds more)) := by
  have hreturn : '\r' ∉ key := fun hmem => absurd (List.all_eq_true.mp hkey _ hmem) (by decide)
  have hquote (text : List Char) : lineEnds ('"' :: text) = '"' :: lineEnds text :=
    lineEnds_cons (by decide) text
  have hhead : ('"' :: more).head? ≠ some '\n' := by simp
  rw [List.cons_append, lineEnds_cons (by decide), List.append_assoc, lineEnds_plain hreturn,
    List.cons_append, lineEnds_cons (by decide), List.cons_append, hquote, List.append_assoc,
    List.singleton_append, lineEnds_append raw hhead, hquote]

/-- **An attribute** is read as it is written. -/
theorem run_attribute {a : Written} (h : a.Ok) (name : String)
    (attributes : List (String × String)) (stack : List Frame) (more : List Char) :
    run ⟨.tag name attributes, stack⟩ (lineEnds (a.text ++ more)) =
      run ⟨.tag name (attributes ++ [(a.key, a.value)]), stack⟩ (lineEnds more) := by
  obtain ⟨key, raw, value⟩ := a
  obtain ⟨hkey, hraw, hdecode⟩ := h
  obtain ⟨first, rest, hfirst⟩ : ∃ first rest, key.toList = first :: rest := by
    cases hlist : key.toList with
    | nil =>
      rw [hlist] at hkey
      cases hkey
    | cons first rest => exact ⟨first, rest, rfl⟩
  have hname : key = String.ofList ([first] ++ rest) := by
    rw [List.singleton_append, ← hfirst, String.ofList_toList]
  rw [hfirst, isName, Bool.and_eq_true, Bool.and_eq_true, List.all_cons, Bool.and_eq_true] at hkey
  obtain ⟨⟨hstart, hrest⟩, hchar, hchars⟩ := hkey
  have hall : (first :: rest).all isNameChar = true := by
    rw [List.all_cons, isNameChar, hstart, hrest]
    rfl
  have hspace : step ⟨.tag name attributes, stack⟩ ' ' = some ⟨.space name attributes, stack⟩ := rfl
  have hquote : step ⟨.value name attributes key (lineEnds raw.toList), stack⟩ '"' =
      some ⟨.tag name (attributes ++ [(key, value)]), stack⟩ := by
    show (decode (normalize raw.toList)).map _ = _
    rw [hdecode, Option.map_some, String.ofList_toList]
  have hvalue : ∀ c ∈ lineEnds raw.toList, InValue c := by
    intro c hc
    rcases mem_lineEnds hc with hc | rfl
    · exact hraw c hc.1
    · exact ⟨by decide, by decide, by decide⟩
  show run _ (lineEnds (' ' :: (key.toList ++ '=' :: '"' :: (raw.toList ++ ['"'])) ++ more)) = _
  rw [hfirst, lineEnds_attribute hall, List.cons_append, run, hspace, Option.bind_some, run, step,
    if_pos hchar, next, if_pos hstart, Option.bind_some, run_key hrest hchars, ← hname, run_append,
    run_value hvalue, List.nil_append, Option.bind_some, run, hquote, Option.bind_some]

/-- **Attributes** are read as they are written. -/
theorem run_attributes {written : List Written} (h : ∀ a ∈ written, a.Ok) (name : String)
    (attributes : List (String × String)) (stack : List Frame) (more : List Char) :
    run ⟨.tag name attributes, stack⟩ (lineEnds (written.flatMap Written.text ++ more)) =
      run ⟨.tag name (attributes ++ written.map fun a => (a.key, a.value)), stack⟩
        (lineEnds more) := by
  induction written generalizing attributes with
  | nil => rw [List.flatMap_nil, List.nil_append, List.map_nil, List.append_nil]
  | cons a written ih =>
    rw [List.forall_mem_cons] at h
    rw [List.flatMap_cons, List.append_assoc, run_attribute h.1, ih h.2, List.append_assoc,
      List.map_cons, List.singleton_append]

/-- A start tag, up to its bracket. -/
theorem run_open {written : List Written} (h : ∀ a ∈ written, a.Ok)
    (hkeys : (written.map Written.key).Nodup) (name : String) (stack : List Frame)
    (more : List Char) :
    run ⟨.tag name [], stack⟩ (lineEnds (written.flatMap Written.text ++ '>' :: more)) =
      run ⟨.text [], ⟨name, written.map fun a => (a.key, a.value), []⟩ :: stack⟩
        (lineEnds more) := by
  have hnodup : ((written.map fun a => (a.key, a.value)).map Prod.fst).Nodup := by
    rw [List.map_map]
    exact hkeys
  rw [run_attributes h, List.nil_append, lineEnds_cons (by decide), run]
  show (inTag _ _ _ '>').bind _ = _
  rw [inTag, if_pos rfl, if_pos hnodup, Option.bind_some]

/-- The tag of an empty element, up to its bracket. -/
theorem run_empty {written : List Written} (h : ∀ a ∈ written, a.Ok)
    (hkeys : (written.map Written.key).Nodup) (name : String) (frame : Frame) (stack : List Frame)
    (more : List Char) :
    run ⟨.tag name [], frame :: stack⟩
        (lineEnds (written.flatMap Written.text ++ ' ' :: '/' :: '>' :: more)) =
      run ⟨.text [], frame.add (.element name (written.map fun a => (a.key, a.value)) []) :: stack⟩
        (lineEnds more) := by
  have hnodup : ((written.map fun a => (a.key, a.value)).map Prod.fst).Nodup := by
    rw [List.map_map]
    exact hkeys
  have hclose : step ⟨.slash name (written.map fun a => (a.key, a.value)), frame :: stack⟩ '>' =
      some ⟨.text [],
        frame.add (.element name (written.map fun a => (a.key, a.value)) []) :: stack⟩ := by
    show (if '>' = '>' ∧ _ then _ else none) = _
    rw [if_pos ⟨rfl, hnodup⟩]
  rw [run_attributes h, List.nil_append, lineEnds_cons (by decide), lineEnds_cons (by decide),
    lineEnds_cons (by decide)]
  show (step ⟨.slash _ _, _⟩ '>').bind _ = _
  rw [hclose, Option.bind_some]

end Xml
