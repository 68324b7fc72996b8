import Mathlib.Data.List.Basic

/-!
# JSON string literals

The grammar of a JSON string literal and the value it stands for. The closing quote tells where
a literal ends, so what stands behind a literal does not matter to its value
(`ReadsString.unique`).
-/

namespace Rettp.JsonText

/-- The value of a hexadecimal digit. -/
def hexDigit (c : Char) : Option Nat :=
  if '0' ≤ c ∧ c ≤ '9' then some (c.toNat - '0'.toNat)
  else if 'a' ≤ c ∧ c ≤ 'f' then some (c.toNat - 'a'.toNat + 10)
  else if 'A' ≤ c ∧ c ≤ 'F' then some (c.toNat - 'A'.toNat + 10)
  else none

/-- Read four hexadecimal digits. -/
def readHex : List Char → Option (Nat × List Char)
  | a :: b :: c :: d :: text => do
    let a ← hexDigit a
    let b ← hexDigit b
    let c ← hexDigit c
    let d ← hexDigit d
    some (((a * 16 + b) * 16 + c) * 16 + d, text)
  | _ => none

/-- Read the second half of a character outside the basic plane. -/
def readLowSurrogate (high : Nat) : List Char → Option (Char × List Char)
  | '\\' :: 'u' :: text => do
    let (low, text) ← readHex text
    if 0xdc00 ≤ low ∧ low ≤ 0xdfff then
      some (Char.ofNat (0x10000 + (high - 0xd800) * 0x400 + (low - 0xdc00)), text)
    else none
  | _ => none

/-- The character of an escape of one letter. -/
def unescape : Char → Option Char
  | '"' => some '"'
  | '\\' => some '\\'
  | '/' => some '/'
  | 'b' => some (Char.ofNat 0x08)
  | 'f' => some (Char.ofNat 0x0c)
  | 'n' => some '\n'
  | 'r' => some '\r'
  | 't' => some '\t'
  | _ => none

/-- Read an escape, behind its backslash. -/
def readEscape : List Char → Option (Char × List Char)
  | 'u' :: text => do
    let (code, text) ← readHex text
    if 0xd800 ≤ code ∧ code ≤ 0xdbff then readLowSurrogate code text
    else if 0xdc00 ≤ code ∧ code ≤ 0xdfff then none
    else some (Char.ofNat code, text)
  | c :: text => (unescape c).map (·, text)
  | [] => none

/-- Read one character of the contents of a literal. -/
def readChar : List Char → Option (Char × List Char)
  | [] => none
  | c :: text =>
    if c = '\\' then readEscape text
    else if c = '"' ∨ c.toNat < 0x20 then none
    else some (c, text)

/-- A text begins with the contents of a literal for `value` and its closing quote, and `rest`
stands behind them. -/
inductive ReadsString : List Char → List Char → List Char → Prop
  | close (rest : List Char) : ReadsString ('"' :: rest) [] rest
  | char {text text' value rest : List Char} {c : Char} (h : readChar text = some (c, text'))
      (hrest : ReadsString text' value rest) : ReadsString text (c :: value) rest

/-- The text is a string literal, and `value` is what it decodes to. -/
def IsLiteral (literal value : List Char) : Prop :=
  ∃ contents, literal = '"' :: contents ∧ ReadsString contents value []

/-! ## What stands behind a literal -/

theorem readHex_append {text rest : List Char} {n : Nat} (h : readHex text = some (n, rest))
    (t : List Char) : readHex (text ++ t) = some (n, rest ++ t) := by
  match text with
  | a :: b :: c :: d :: text =>
    simp only [readHex, List.cons_append, Option.bind_eq_bind, Option.bind_eq_some_iff,
      Option.some.injEq, Prod.mk.injEq] at h ⊢
    obtain ⟨a', ha, b', hb, c', hc, d', hd, hn, rfl⟩ := h
    exact ⟨a', ha, b', hb, c', hc, d', hd, hn, rfl⟩
  | [] | [_] | [_, _] | [_, _, _] => cases h

theorem readLowSurrogate_append {high : Nat} {text rest : List Char} {c : Char}
    (h : readLowSurrogate high text = some (c, rest)) (t : List Char) :
    readLowSurrogate high (text ++ t) = some (c, rest ++ t) := by
  rw [readLowSurrogate.eq_def] at h
  split at h
  · next text =>
    obtain ⟨⟨low, text'⟩, hlow, h⟩ := Option.bind_eq_some_iff.mp h
    rw [List.cons_append, List.cons_append, readLowSurrogate, readHex_append hlow,
      Option.bind_eq_bind, Option.bind_some]
    dsimp only at h ⊢
    split at h
    · next hrange =>
      obtain ⟨rfl, rfl⟩ := Prod.mk.inj (Option.some.inj h)
      rw [if_pos hrange]
    · cases h
  · cases h

theorem readEscape_append {text rest : List Char} {c : Char}
    (h : readEscape text = some (c, rest)) (t : List Char) :
    readEscape (text ++ t) = some (c, rest ++ t) := by
  rw [readEscape.eq_def] at h
  split at h
  · next text =>
    obtain ⟨⟨code, text'⟩, hcode, h⟩ := Option.bind_eq_some_iff.mp h
    rw [List.cons_append, readEscape, readHex_append hcode, Option.bind_eq_bind, Option.bind_some]
    dsimp only at h ⊢
    split at h
    · next hhigh =>
      rw [if_pos hhigh]
      exact readLowSurrogate_append h t
    · next hhigh =>
      split at h
      · cases h
      · next hlow =>
        obtain ⟨rfl, rfl⟩ := Prod.mk.inj (Option.some.inj h)
        rw [if_neg hhigh, if_neg hlow]
  · next c' text hu =>
    obtain ⟨d, hd, he⟩ := Option.map_eq_some_iff.mp h
    obtain ⟨rfl, rfl⟩ := Prod.mk.inj he
    rw [List.cons_append, readEscape, hd]
    · rfl
    · exact hu
  · cases h

theorem readChar_append {text rest : List Char} {c : Char} (h : readChar text = some (c, rest))
    (t : List Char) : readChar (text ++ t) = some (c, rest ++ t) := by
  cases text with
  | nil => cases h
  | cons d text =>
    rw [readChar] at h
    rw [List.cons_append, readChar]
    split at h
    · next hd =>
      rw [if_pos hd]
      exact readEscape_append h t
    · next hd =>
      split at h
      · cases h
      · next hplain =>
        obtain ⟨rfl, rfl⟩ := Prod.mk.inj (Option.some.inj h)
        rw [if_neg hd, if_neg hplain]

theorem ReadsString.append {text value rest : List Char} (h : ReadsString text value rest)
    (t : List Char) : ReadsString (text ++ t) value (rest ++ t) := by
  induction h with
  | close rest => exact .close _
  | char h _ ih => exact .char (readChar_append h t) ih

/-- A text begins with one literal at most. -/
theorem ReadsString.unique {text value rest value' rest' : List Char}
    (h : ReadsString text value rest) (h' : ReadsString text value' rest') :
    value = value' ∧ rest = rest' := by
  induction h generalizing value' with
  | close rest =>
    cases h' with
    | close => exact ⟨rfl, rfl⟩
    | char h' _ => cases h'
  | char h _ ih =>
    cases h' with
    | close => cases h
    | char h' hrest' =>
      obtain ⟨rfl, rfl⟩ := Prod.mk.inj (Option.some.inj (h.symm.trans h'))
      obtain ⟨rfl, rfl⟩ := ih hrest'
      exact ⟨rfl, rfl⟩

/-- Two literals in front of two texts agree when the whole texts do. -/
theorem IsLiteral.append_inj {literal value literal' value' t t' : List Char}
    (h : IsLiteral literal value) (h' : IsLiteral literal' value')
    (ht : literal ++ t = literal' ++ t') : value = value' ∧ t = t' := by
  obtain ⟨contents, rfl, hread⟩ := h
  obtain ⟨contents', rfl, hread'⟩ := h'
  have hcontents := (List.cons.inj ht).2
  have hboth := hread.append t
  rw [show contents ++ t = _ from hcontents] at hboth
  exact hboth.unique (hread'.append t')

/-! ## Writing a literal -/

/-- A hexadecimal digit. -/
def hexChar (n : Nat) : Char := if n < 10 then Char.ofNat (48 + n) else Char.ofNat (87 + n)

/-- One character of a literal. -/
def writeChar (c : Char) : List Char :=
  if c = '"' then ['\\', '"']
  else if c = '\\' then ['\\', '\\']
  else if c = Char.ofNat 0x08 then ['\\', 'b']
  else if c = '\t' then ['\\', 't']
  else if c = '\n' then ['\\', 'n']
  else if c = Char.ofNat 0x0c then ['\\', 'f']
  else if c = '\r' then ['\\', 'r']
  else if c.toNat < 0x20 then ['\\', 'u', '0', '0', hexChar (c.toNat / 16), hexChar (c.toNat % 16)]
  else [c]

/-- The literal of a text. -/
def write (value : List Char) : List Char := '"' :: value.flatMap writeChar ++ ['"']

theorem readChar_control (n : Fin 32) (text : List Char) :
    readChar (['\\', 'u', '0', '0', hexChar (n / 16), hexChar (n % 16)] ++ text) =
      some (Char.ofNat n, text) := by
  have h : ∀ n : Fin 32, readChar ['\\', 'u', '0', '0', hexChar (n / 16), hexChar (n % 16)] =
      some (Char.ofNat n, []) := by decide
  exact readChar_append (h n) text

theorem readChar_writeChar (c : Char) (text : List Char) :
    readChar (writeChar c ++ text) = some (c, text) := by
  rw [writeChar]
  split
  · next h => rw [h]; rfl
  split
  · next h => rw [h]; rfl
  split
  · next h => rw [h]; rfl
  split
  · next h => rw [h]; rfl
  split
  · next h => rw [h]; rfl
  split
  · next h => rw [h]; rfl
  split
  · next h => rw [h]; rfl
  split
  · next h =>
    have hread := readChar_control ⟨c.toNat, h⟩ text
    rwa [Char.ofNat_toNat] at hread
  · next hquote hslash _ _ _ _ _ hcontrol =>
    rw [List.singleton_append, readChar, if_neg hslash, if_neg (not_or.mpr ⟨hquote, hcontrol⟩)]

theorem write_isLiteral (value : List Char) : IsLiteral (write value) value := by
  refine ⟨value.flatMap writeChar ++ ['"'], rfl, ?_⟩
  induction value with
  | nil => exact .close []
  | cons c value ih =>
    rw [List.flatMap_cons, List.append_assoc]
    exact .char (readChar_writeChar c _) ih

end Rettp.JsonText
