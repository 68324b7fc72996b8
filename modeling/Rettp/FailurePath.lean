import Rettp.Assertion
import Rettp.JsonString

/-!
# The paths of failures

A failure names the place it is about by a path: `$` for the body, and for each step a key after
a dot, a quoted key in brackets or an index in brackets. No separator stands between the steps,
but the first character of a step tells its kind, and each kind tells where it ends. So a path
can be read in one way only (`failurePath_injective`).
-/

namespace Rettp

/-- A step from a JSON value into one of its parts. -/
inductive PathStep where
  | key (name : String)
  | index (n : Nat)
  deriving DecidableEq

/-- What is known of `serde_json::to_string` on a string: it writes a literal of that string. -/
def QuotesJson [Platform] : Prop :=
  ∀ value : String, JsonText.IsLiteral (Platform.jsonQuote value).toList value.toList

/-- The platform with the string literals that `serde_json` writes. -/
@[reducible] def jsonPlatform : Platform where
  __ := asciiPlatform
  jsonQuote value := String.ofList (JsonText.write value.toList)
  jsonPretty := Serialized.indented (fun value => String.ofList (JsonText.write value.toList)) ""

theorem jsonPlatform_quotesJson : @QuotesJson jsonPlatform := by
  intro value
  change JsonText.IsLiteral (String.ofList _).toList _
  rw [String.toList_ofList]
  exact JsonText.write_isLiteral _

variable [Platform]

namespace PathStep

/-- The path of a part below the path of the whole. -/
def extend (parent : String) : PathStep → String
  | .key name => childPath parent name
  | .index n => elementPath parent n

/-- What a step adds to a path. -/
def text : PathStep → List Char
  | .key name =>
    if isIdentifier name then '.' :: name.toList
    else '[' :: (Platform.jsonQuote name).toList ++ [']']
  | .index n => '[' :: Nat.toDigits 10 n ++ [']']

theorem toList_extend (parent : String) (step : PathStep) :
    (step.extend parent).toList = parent.toList ++ step.text := by
  have htext (s : String) : toString s = s := rfl
  cases step with
  | key name =>
    rw [extend, childPath, text]
    split <;> simp [htext]
  | index n =>
    rw [extend, elementPath, text]
    simp [htext]

end PathStep

/-- The path of a place in the body. -/
def failurePath (steps : List PathStep) : String := steps.foldl PathStep.extend "$"

theorem toList_foldl_extend (steps : List PathStep) (parent : String) :
    (steps.foldl PathStep.extend parent).toList = parent.toList ++ steps.flatMap PathStep.text := by
  induction steps generalizing parent with
  | nil => rw [List.foldl_nil, List.flatMap_nil, List.append_nil]
  | cons step steps ih =>
    rw [List.foldl_cons, ih, PathStep.toList_extend, List.flatMap_cons, List.append_assoc]

/-! ## Where a step ends -/

/-- A character that can stand in a key behind a dot. -/
def isIdentifierChar (c : Char) : Bool := c == '_' || isAsciiAlphanumeric c

omit [Platform] in
theorem isIdentifier_all {name : String} (h : isIdentifier name = true) :
    ∀ c ∈ name.toList, isIdentifierChar c = true := by
  rw [isIdentifier] at h
  split at h
  · cases h
  · next first chars htext =>
    rw [htext]
    obtain ⟨hfirst, hrest⟩ := (Bool.and_eq_true _ _).mp h
    intro c hc
    rcases List.mem_cons.mp hc with rfl | hc
    · rw [isIdentifierChar, isAsciiAlphanumeric]
      rcases (Bool.or_eq_true _ _).mp hfirst with h | h <;> rw [h] <;> simp
    · exact List.all_eq_true.mp hrest c hc

omit [Platform] in
/-- Two words over one alphabet agree when letters outside it, or nothing, follow. -/
theorem append_inj_of_all {p : Char → Bool} {a b s t : List Char} (ha : ∀ c ∈ a, p c = true)
    (hb : ∀ c ∈ b, p c = true) (hs : ∀ c ∈ s.head?, p c = false) (ht : ∀ c ∈ t.head?, p c = false)
    (h : a ++ s = b ++ t) : a = b ∧ s = t := by
  have htake {a s : List Char} (ha : ∀ c ∈ a, p c = true) (hs : ∀ c ∈ s.head?, p c = false) :
      (a ++ s).takeWhile p = a := by
    rw [List.takeWhile_append_of_pos ha]
    cases s with
    | nil => exact List.append_nil a
    | cons c s => rw [List.takeWhile_cons_of_neg (by simp [hs c rfl]), List.append_nil]
  have hab : a = b := by rw [← htake ha hs, h, htake hb ht]
  subst hab
  exact ⟨rfl, List.append_cancel_left h⟩

/-- A path goes on with a dot or a bracket. -/
theorem head_steps (steps : List PathStep) :
    ∀ c ∈ (steps.flatMap PathStep.text).head?, c = '.' ∨ c = '[' := by
  intro c hc
  cases steps with
  | nil => cases hc
  | cons step steps =>
    rw [List.flatMap_cons] at hc
    cases step with
    | key name =>
      rw [PathStep.text] at hc
      split at hc
      · exact .inl (Option.some.inj hc).symm
      · exact .inr (Option.some.inj hc).symm
    | index n => exact .inr (Option.some.inj hc).symm

namespace PathStep

/-- **A step shows where it ends.** -/
theorem text_append_inj (hquotes : QuotesJson) {a b : PathStep} {p q : List PathStep}
    (h : a.text ++ p.flatMap text = b.text ++ q.flatMap text) :
    a = b ∧ p.flatMap text = q.flatMap text := by
  have hend (steps : List PathStep) : ∀ c ∈ (steps.flatMap text).head?, isIdentifierChar c = false := by
    intro c hc
    rcases head_steps steps c hc with rfl | rfl <;> rfl
  have hquote (name : String) : ∃ contents, (Platform.jsonQuote name).toList = '"' :: contents :=
    (hquotes name).imp fun _ h => h.1
  have hdigit (n : Nat) : ∀ c ∈ Nat.toDigits 10 n, c.isDigit = true := fun _ hc =>
    Nat.isDigit_of_mem_toDigits (by decide) (by decide) hc
  -- an index does not begin with a quote
  have hquote_ne (name : String) (n : Nat) (s t : List Char) :
      (Platform.jsonQuote name).toList ++ s ≠ Nat.toDigits 10 n ++ t := by
    intro he
    obtain ⟨contents, hcontents⟩ := hquote name
    cases hn : Nat.toDigits 10 n with
    | nil => exact Nat.toDigits_ne_nil hn
    | cons d digits =>
      rw [hcontents, hn] at he
      have hd := hdigit n d (by rw [hn]; exact List.mem_cons_self)
      rw [← (List.cons.inj he).1] at hd
      cases hd
  cases a with
  | key name =>
    cases b with
    | key name' =>
      rw [text, text] at h
      split at h <;> split at h
      · next hname hname' =>
        obtain ⟨heq, hrest⟩ := append_inj_of_all (isIdentifier_all hname) (isIdentifier_all hname')
          (hend p) (hend q) (List.cons.inj h).2
        exact ⟨by rw [String.toList_inj.mp heq], hrest⟩
      · cases (List.cons.inj h).1
      · cases (List.cons.inj h).1
      · simp only [List.cons_append, List.append_assoc] at h
        obtain ⟨heq, hrest⟩ := (hquotes name).append_inj (hquotes name') (List.cons.inj h).2
        exact ⟨by rw [String.toList_inj.mp heq], (List.cons.inj hrest).2⟩
    | index n =>
      rw [text, text] at h
      split at h
      · cases (List.cons.inj h).1
      · simp only [List.cons_append, List.append_assoc] at h
        exact absurd (List.cons.inj h).2 (hquote_ne name n _ _)
  | index n =>
    cases b with
    | key name =>
      rw [text, text] at h
      split at h
      · cases (List.cons.inj h).1
      · simp only [List.cons_append, List.append_assoc] at h
        exact absurd (List.cons.inj h).2.symm (hquote_ne name n _ _)
    | index m =>
      simp only [text, List.cons_append, List.append_assoc] at h
      obtain ⟨heq, hrest⟩ := append_inj_of_all (hdigit n) (hdigit m)
        (fun c hc => by rw [← Option.some.inj hc]; rfl)
        (fun c hc => by rw [← Option.some.inj hc]; rfl) (List.cons.inj h).2
      refine ⟨?_, (List.cons.inj hrest).2⟩
      have hn := Nat.ofDigitChars_toDigits (b := 10) (n := n) (by decide) (by decide)
      rw [heq, Nat.ofDigitChars_toDigits (by decide) (by decide)] at hn
      rw [hn]

theorem text_ne_nil (step : PathStep) : step.text ≠ [] := by
  cases step with
  | key name =>
    rw [text]
    split <;> exact List.cons_ne_nil _ _
  | index n => exact List.cons_ne_nil _ _

/-- The texts of the steps can be told apart in their concatenation. -/
theorem flatMap_text_inj (hquotes : QuotesJson) {p q : List PathStep}
    (h : p.flatMap text = q.flatMap text) : p = q := by
  induction p generalizing q with
  | nil =>
    cases q with
    | nil => rfl
    | cons b q => exact absurd (List.append_eq_nil_iff.mp h.symm).1 b.text_ne_nil
  | cons a p ih =>
    cases q with
    | nil => exact absurd (List.append_eq_nil_iff.mp h).1 a.text_ne_nil
    | cons b q =>
      obtain ⟨rfl, hrest⟩ := text_append_inj hquotes h
      rw [ih hrest]

end PathStep

/-- **Failure paths identify one place.** -/
theorem failurePath_injective (hquotes : QuotesJson) : Function.Injective failurePath := by
  intro p q h
  have htext := congrArg String.toList h
  rw [failurePath, failurePath, toList_foldl_extend, toList_foldl_extend] at htext
  exact PathStep.flatMap_text_inj hquotes (List.append_cancel_left htext)

omit [Platform] in
/-- A key that looks like the rest of a path is not taken for it. -/
theorem failurePath_injective_dotted : letI := jsonPlatform
    failurePath [.key "a.b"] ≠ failurePath [.key "a", .key "b"] :=
  letI := jsonPlatform
  fun h => absurd (failurePath_injective jsonPlatform_quotesJson h) (by decide)

end Rettp
