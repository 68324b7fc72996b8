import Mathlib.Algebra.GroupWithZero.Nat
import Mathlib.Data.List.Basic
import Rettp.Serialized

/-!
# What the language and its crates supply

The program rests on a few functions whose code is not in the repository and which are not
worth restating: the Unicode character tables, reading a double, and the texts that formatting
produces for doubles, quoted strings and serialized values. They are the fields of `Platform`; a
result that relies on how one of them behaves says so in a hypothesis.

The rest of the standard library that the program touches is exact here: white space, control
characters, ASCII case, and the search functions on strings, which work on the list of
characters of a string.
-/

namespace Rettp

/-- The functions outside the repository that the program calls. -/
class Platform where
  /-- `char::is_alphabetic` -/
  isAlphabetic : Char → Bool
  /-- `char::is_alphanumeric` -/
  isAlphanumeric : Char → Bool
  /-- `f64::to_string` -/
  displayF64 : Float → String
  /-- the text of a floating-point `serde_json::Number` -/
  displayJsonFloat : Float → String
  /-- the `{:?}` text of a string -/
  debugStr : String → String
  /-- `serde_json::to_string` on a string -/
  jsonQuote : String → String
  /-- `serde_json::to_string_pretty` on a value that is serialized -/
  jsonPretty : Serialized → String
  /-- `str::parse::<f64>` -/
  parseF64 : String → Option Float

/-- The platform functions on ASCII text without characters that need an escape. -/
@[reducible] def asciiPlatform : Platform where
  isAlphabetic c := ('a' ≤ c && c ≤ 'z') || ('A' ≤ c && c ≤ 'Z')
  isAlphanumeric c := ('a' ≤ c && c ≤ 'z') || ('A' ≤ c && c ≤ 'Z') || ('0' ≤ c && c ≤ '9')
  displayF64 := toString
  displayJsonFloat := toString
  debugStr s := "\"" ++ s ++ "\""
  jsonQuote s := "\"" ++ s ++ "\""
  jsonPretty := Serialized.indented (fun s => "\"" ++ s ++ "\"") ""
  parseF64 s :=
    match s.splitOn "." with
    | [whole, fraction] =>
      (whole ++ fraction).toInt?.map fun n =>
        let magnitude := Float.ofScientific n.natAbs true fraction.length
        if whole.startsWith "-" then -magnitude else magnitude
    | _ => s.toInt?.map Float.ofInt

/-- `char::is_whitespace`: the Unicode `White_Space` property. -/
def isWhitespace (c : Char) : Bool :=
  let n := c.toNat
  (9 ≤ n && n ≤ 13) || n == 0x20 || n == 0x85 || n == 0xa0 || n == 0x1680 ||
    (0x2000 ≤ n && n ≤ 0x200a) || n == 0x2028 || n == 0x2029 || n == 0x202f || n == 0x205f ||
    n == 0x3000

/-- `char::is_control`: the Unicode category `Cc`. -/
def isControl (c : Char) : Bool :=
  let n := c.toNat
  n < 0x20 || (0x7f ≤ n && n ≤ 0x9f)

/-- `str::trim`. -/
def trim (s : List Char) : List Char :=
  ((s.dropWhile isWhitespace).reverse.dropWhile isWhitespace).reverse

/-- `char::is_ascii_alphabetic` -/
def isAsciiAlphabetic (c : Char) : Bool := ('a' ≤ c && c ≤ 'z') || ('A' ≤ c && c ≤ 'Z')

/-- `char::is_ascii_digit` -/
def isAsciiDigit (c : Char) : Bool := '0' ≤ c && c ≤ '9'

/-- `char::is_ascii_alphanumeric` -/
def isAsciiAlphanumeric (c : Char) : Bool := isAsciiAlphabetic c || isAsciiDigit c

/-- `char::to_ascii_lowercase`. -/
def asciiLower (c : Char) : Char :=
  if 'A' ≤ c ∧ c ≤ 'Z' then Char.ofNat (c.toNat + 32) else c

/-- `str::to_ascii_lowercase`. -/
def toAsciiLowercase (s : String) : String := String.ofList (s.toList.map asciiLower)

/-- `str::contains` with a string pattern. -/
def containsStr : List Char → List Char → Bool
  | [], pattern => pattern.isEmpty
  | c :: s, pattern => pattern.isPrefixOf (c :: s) || containsStr s pattern

/-- `str::find` with a string pattern: the text before the first occurrence and the text
from it on. -/
def splitAtStr (pattern : List Char) : List Char → Option (List Char × List Char)
  | [] => if pattern.isEmpty then some ([], []) else none
  | c :: s =>
    if pattern.isPrefixOf (c :: s) then some ([], c :: s)
    else (splitAtStr pattern s).map fun r => (c :: r.1, r.2)

/-- `str::find` with a character pattern: the text before the first occurrence and the text
after it. -/
def splitAtChar (c : Char) : List Char → Option (List Char × List Char)
  | [] => none
  | d :: s => if d = c then some ([], s) else (splitAtChar c s).map fun r => (d :: r.1, r.2)

/-- The length in UTF-8 bytes. -/
def utf8Len (s : List Char) : Nat := (s.map Char.utf8Size).sum

theorem utf8Len_append (s t : List Char) : utf8Len (s ++ t) = utf8Len s + utf8Len t := by
  rw [utf8Len, utf8Len, utf8Len, List.map_append, List.sum_append]

theorem containsStr_iff {s pattern : List Char} : containsStr s pattern = true ↔ pattern <:+: s := by
  induction s with
  | nil => simp [containsStr]
  | cons c s ih =>
    rw [containsStr, Bool.or_eq_true, List.isPrefixOf_iff_prefix, ih, List.infix_cons_iff]

theorem splitAtStr_eq_some {pattern s before rest : List Char}
    (h : splitAtStr pattern s = some (before, rest)) : s = before ++ rest ∧ pattern <+: rest := by
  induction s generalizing before with
  | nil =>
    rw [splitAtStr] at h
    split at h
    · next hp =>
      obtain ⟨rfl, rfl⟩ := Prod.mk.inj (Option.some.inj h)
      exact ⟨rfl, by simp [List.isEmpty_iff.mp hp]⟩
    · cases h
  | cons c s ih =>
    rw [splitAtStr] at h
    split at h
    · next hp =>
      obtain ⟨rfl, rfl⟩ := Prod.mk.inj (Option.some.inj h)
      exact ⟨rfl, List.isPrefixOf_iff_prefix.mp hp⟩
    · obtain ⟨⟨b, r⟩, hr, he⟩ := Option.map_eq_some_iff.mp h
      obtain ⟨rfl, rfl⟩ := Prod.mk.inj he
      obtain ⟨hs, hp⟩ := ih hr
      exact ⟨by rw [hs, List.cons_append], hp⟩

theorem splitAtChar_eq_some {c : Char} {s before rest : List Char}
    (h : splitAtChar c s = some (before, rest)) : s = before ++ c :: rest ∧ c ∉ before := by
  induction s generalizing before with
  | nil => cases h
  | cons d s ih =>
    rw [splitAtChar] at h
    split at h
    · next hd =>
      obtain ⟨rfl, rfl⟩ := Prod.mk.inj (Option.some.inj h)
      exact ⟨by rw [hd]; rfl, List.not_mem_nil⟩
    · next hd =>
      obtain ⟨⟨b, r⟩, hr, he⟩ := Option.map_eq_some_iff.mp h
      obtain ⟨rfl, rfl⟩ := Prod.mk.inj he
      obtain ⟨hs, hb⟩ := ih hr
      refine ⟨by rw [hs, List.cons_append], ?_⟩
      rw [List.mem_cons, not_or]
      exact ⟨fun h => hd h.symm, hb⟩

end Rettp
