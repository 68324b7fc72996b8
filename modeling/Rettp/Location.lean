import Mathlib.Data.List.DropRight
import Mathlib.Data.Prod.Lex
import Mathlib.Order.Bounds.Basic
import Rettp.ByteOffset
import Rettp.Token

/-!
# Locations in a source

A diagnostic shows a byte offset as a line and a column. The source finds them by searching the
text before the offset; a reader of the source counts on from one character to the next
(`SourceLocation.step`). Counting on only ever increases the location, so the two agree, and the
location leads back to the offset (`location_faithful`).
-/

namespace Rettp

/-- A one-based line and a one-based column in characters. -/
structure SourceLocation where
  line : Nat
  column : Nat
  deriving DecidableEq

namespace SourceText

/-- The length of a source in bytes. -/
def len (source : SourceText) : Nat := utf8Len source.content.toList

/-- The text of a span, if its ends are boundaries inside the source. -/
def slice (source : SourceText) (span : SourceSpan) : Option (List Char) :=
  getRange source.content.toList span.start span.end_

/-- The loop that moves an offset backward to a boundary. -/
def backToBoundary (content : List Char) : Nat → Nat
  | 0 => 0
  | value + 1 =>
    if isCharBoundary content (value + 1) then value + 1 else backToBoundary content value

/-- The location of an offset; `none` is a panic of one of the two slicings. -/
def location (source : SourceText) (offset : Nat) : Option SourceLocation := do
  let content := source.content.toList
  let offset := min offset source.len
  let safeOffset :=
    if isCharBoundary content offset then offset else backToBoundary content offset
  let prefix_ ← getRange content 0 safeOffset
  let line := (prefix_.filter (· == '\n')).length + 1
  let lineStart := ((rfindChar '\n' prefix_).map (· + 1)).getD 0
  let lastLine ← getRange content lineStart safeOffset
  let column := lastLine.length + 1
  some ⟨line, column⟩

/-- The text before an offset, after it is moved back into the source and between characters. -/
def before (source : SourceText) (offset : Nat) : List Char :=
  fitting source.content.toList offset

/-- The offset that stands for `offset`: the greatest boundary that is not behind it. -/
def clamped (source : SourceText) (offset : Nat) : Nat := utf8Len (source.before offset)

theorem backToBoundary_eq (content : List Char) (offset : Nat) :
    backToBoundary content offset = utf8Len (fitting content offset) := by
  induction offset with
  | zero => exact (Nat.eq_zero_of_le_zero (utf8Len_fitting_le content 0)).symm
  | succ offset ih =>
    rw [backToBoundary]
    split
    · next h => exact (isCharBoundary_iff_fitting.mp h).symm
    · next h => rw [ih, fitting_succ_of_not_boundary (Bool.eq_false_iff.mpr h)]

theorem safeOffset_eq (source : SourceText) (offset : Nat) :
    (if isCharBoundary source.content.toList (min offset source.len) then min offset source.len
      else backToBoundary source.content.toList (min offset source.len)) =
      source.clamped offset := by
  rw [clamped, before, ← fitting_min, len, backToBoundary_eq]
  split
  · next h => exact (isCharBoundary_iff_fitting.mp h).symm
  · rfl

end SourceText

/-! ## The search for the last line -/

/-- What stands behind the last line feed of a text. -/
def lastLine (text : List Char) : List Char := text.rtakeWhile (· != '\n')

theorem lastLine_of_not_mem {text : List Char} (h : '\n' ∉ text) : lastLine text = text := by
  rw [lastLine, List.rtakeWhile_eq_self_iff]
  intro c hc
  rw [bne_iff_ne]
  rintro rfl
  exact h hc

theorem lastLine_append {a b : List Char} (h : '\n' ∉ b) : lastLine (a ++ '\n' :: b) = b := by
  rw [lastLine, List.rtakeWhile, List.reverse_append, List.reverse_cons, List.append_assoc,
    List.takeWhile_append_of_pos (fun c hc => by
      rw [bne_iff_ne]
      rintro rfl
      exact h (List.mem_reverse.mp hc))]
  simp

theorem lastLine_concat {text : List Char} {c : Char} (h : c ≠ '\n') :
    lastLine (text ++ [c]) = lastLine text ++ [c] :=
  List.rtakeWhile_concat_pos _ _ _ (bne_iff_ne.mpr h)

/-- The line start that the reverse search finds has the last line behind it. -/
theorem getRange_lineStart (text rest : List Char) :
    getRange (text ++ rest) (((rfindChar '\n' text).map (· + 1)).getD 0) (utf8Len text) =
      some (lastLine text) := by
  rw [getRange_eq_some]
  cases h : rfindChar '\n' text with
  | none =>
    rw [lastLine_of_not_mem (rfindChar_eq_none.mp h)]
    exact ⟨[], rest, rfl, rfl, rfl⟩
  | some n =>
    obtain ⟨a, b, rfl, hb, hlen⟩ := rfindChar_eq_some h
    refine ⟨a ++ ['\n'], rest, ?_, ?_, ?_⟩
    · rw [lastLine_append hb]
      simp
    · rw [utf8Len_append, hlen]
      rfl
    · rw [lastLine_append hb]
      simp

/-! ## Counting on -/

namespace SourceLocation

/-- The first place of a source. -/
def start : SourceLocation := ⟨1, 1⟩

/-- The location behind a character. -/
def step (here : SourceLocation) (c : Char) : SourceLocation :=
  if c = '\n' then ⟨here.line + 1, 1⟩ else ⟨here.line, here.column + 1⟩

/-- The location behind a text. -/
def ofText (text : List Char) : SourceLocation := text.foldl step start

/-- Go along a text from `here` to a target, and count the bytes on the way. -/
def walkTo (target : SourceLocation) : SourceLocation → List Char → Option Nat
  | here, [] => if here = target then some 0 else none
  | here, c :: text =>
    if here = target then some 0 else (walkTo target (here.step c) text).map (c.utf8Size + ·)

/-- Lines count more than columns. -/
def key (here : SourceLocation) : Nat ×ₗ Nat := toLex (here.line, here.column)

theorem ofText_append (a b : List Char) : ofText (a ++ b) = b.foldl step (ofText a) :=
  List.foldl_append

theorem key_step (here : SourceLocation) (c : Char) : here.key < (here.step c).key := by
  rw [key, key, Prod.Lex.toLex_lt_toLex, step]
  split
  · exact .inl (Nat.lt_succ_self _)
  · exact .inr ⟨rfl, Nat.lt_succ_self _⟩

theorem key_foldl_le (text : List Char) (here : SourceLocation) :
    here.key ≤ (text.foldl step here).key := by
  induction text generalizing here with
  | nil => exact le_rfl
  | cons c text ih => exact (key_step here c).le.trans (ih _)

theorem key_foldl_lt {text : List Char} (h : text ≠ []) (here : SourceLocation) :
    here.key < (text.foldl step here).key := by
  cases text with
  | nil => exact absurd rfl h
  | cons c text => exact (key_step here c).trans_le (key_foldl_le text _)

theorem ofText_mono {a b : List Char} (h : a <+: b) : (ofText a).key ≤ (ofText b).key := by
  obtain ⟨t, rfl⟩ := h
  rw [ofText_append]
  exact key_foldl_le t _

theorem ofText_strict {a b : List Char} (h : a <+: b) (hne : a ≠ b) :
    (ofText a).key < (ofText b).key := by
  obtain ⟨t, rfl⟩ := h
  rw [ofText_append]
  exact key_foldl_lt (fun ht => hne (by rw [ht, List.append_nil])) _

/-- The walk stops behind `text`, since no earlier place has the same location. -/
theorem walkTo_foldl (here : SourceLocation) (text rest : List Char) :
    walkTo (text.foldl step here) here (text ++ rest) = some (utf8Len text) := by
  induction text generalizing here with
  | nil => cases rest <;> exact if_pos rfl
  | cons c text ih =>
    have hne : here ≠ (c :: text).foldl step here := fun he =>
      (key_foldl_lt (List.cons_ne_nil c text) here).ne (congrArg key he)
    rw [List.cons_append, walkTo, if_neg hne, List.foldl_cons, ih]
    rfl

/-- Counting on keeps the number of line feeds and the length of the last line. -/
theorem ofText_eq (text : List Char) :
    ofText text = ⟨1 + text.count '\n', 1 + (lastLine text).length⟩ := by
  induction text using List.reverseRecOn with
  | nil => rfl
  | append_singleton text c ih =>
    rw [ofText_append, ih, List.foldl_cons, List.foldl_nil, step, List.count_append]
    split
    · next hc =>
      rw [hc, lastLine_append List.not_mem_nil]
      simp [Nat.add_assoc]
    · next hc =>
      rw [lastLine_concat hc, List.length_append]
      simp [hc, Nat.add_assoc]

end SourceLocation

namespace SourceText

theorem location_eq (source : SourceText) (offset : Nat) :
    source.location offset = some (.ofText (source.before offset)) := by
  obtain ⟨rest, hrest⟩ := fitting_initial source.content.toList offset
  rw [location]
  simp only [safeOffset_eq, clamped]
  have hbefore : getRange source.content.toList 0 (utf8Len (source.before offset)) =
      some (source.before offset) :=
    getRange_eq_some.mpr ⟨[], rest, hrest.symm, rfl, rfl⟩
  have hline := getRange_lineStart (source.before offset) rest
  rw [show source.before offset ++ rest = _ from hrest] at hline
  rw [hbefore, Option.bind_eq_bind, Option.bind_some, hline, Option.bind_some,
    SourceLocation.ofText_eq, List.count_eq_length_filter, Nat.add_comm 1, Nat.add_comm 1]

/-- The clamped offset is the last boundary up to `offset`. -/
theorem clamped_isGreatest (source : SourceText) (offset : Nat) :
    IsGreatest {b | isCharBoundary source.content.toList b = true ∧ b ≤ offset}
      (source.clamped offset) := by
  obtain ⟨rest, hrest⟩ := fitting_initial source.content.toList offset
  refine ⟨⟨isCharBoundary_iff.mpr ⟨_, rest, hrest.symm, rfl⟩, utf8Len_fitting_le _ _⟩, ?_⟩
  rintro b ⟨hb, hle⟩
  rw [isCharBoundary_iff_fitting] at hb
  rw [← hb]
  exact utf8Len_mono (fitting_mono _ hle)

/-- **Source locations are faithful.** -/
theorem location_faithful (source : SourceText) :
    (∀ offset, ∃ here, source.location offset = some here ∧
      IsGreatest {b | isCharBoundary source.content.toList b = true ∧ b ≤ offset}
        (source.clamped offset) ∧
      here.line = 1 + (source.before offset).count '\n' ∧
      here.column = 1 + (lastLine (source.before offset)).length ∧
      SourceLocation.walkTo here .start source.content.toList = some (source.clamped offset)) ∧
    (∀ a b, a ≤ b → ∀ here there, source.location a = some here → source.location b = some there →
      here.key ≤ there.key) ∧
    (∀ a b, a < b → b ≤ source.len → isCharBoundary source.content.toList a →
      isCharBoundary source.content.toList b → ∀ here there,
      source.location a = some here → source.location b = some there → here.key < there.key) := by
  refine ⟨fun offset => ⟨_, source.location_eq offset, source.clamped_isGreatest offset,
    ?_, ?_, ?_⟩, ?_, ?_⟩
  · rw [SourceLocation.ofText_eq]
  · rw [SourceLocation.ofText_eq]
  · obtain ⟨rest, hrest⟩ := fitting_initial source.content.toList offset
    have hwalk := SourceLocation.walkTo_foldl .start (source.before offset) rest
    rwa [before, hrest] at hwalk
  · intro a b hab here there ha hb
    rw [location_eq] at ha hb
    rw [← Option.some.inj ha, ← Option.some.inj hb]
    exact SourceLocation.ofText_mono (fitting_mono _ hab)
  · intro a b hab _ hba hbb here there ha hb
    rw [location_eq] at ha hb
    rw [← Option.some.inj ha, ← Option.some.inj hb]
    refine SourceLocation.ofText_strict (fitting_mono _ hab.le) fun he => ?_
    -- two boundaries with the same text before them are one
    rw [isCharBoundary_iff_fitting] at hba hbb
    have hlen := congrArg utf8Len he
    rw [before, before, hba, hbb] at hlen
    exact hab.ne hlen

/-- A text whose first character takes three bytes. -/
def unicodeSource : SourceText := ⟨"unicode.rttp", "你a\nxy"⟩

example : [1, 3, 4, 99].map unicodeSource.location =
    [some ⟨1, 1⟩, some ⟨1, 2⟩, some ⟨1, 3⟩, some ⟨2, 3⟩] := by decide

/-- The places behind the first character and in the second line. -/
theorem location_faithful_unicode :
    (⟨1, 2⟩ : SourceLocation).key ≤ (⟨1, 2⟩ : SourceLocation).key ∧
      (⟨1, 2⟩ : SourceLocation).key < (⟨2, 1⟩ : SourceLocation).key :=
  ⟨(location_faithful unicodeSource).2.1 3 3 (by decide) ⟨1, 2⟩ ⟨1, 2⟩ (by decide) (by decide),
    (location_faithful unicodeSource).2.2 3 5 (by decide) (by decide) (by decide) (by decide)
      ⟨1, 2⟩ ⟨2, 1⟩ (by decide) (by decide)⟩

end SourceText
end Rettp
