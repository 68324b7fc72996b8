import Rettp.Domain
import Rettp.ExceptRel

/-!
# Placeholders in a text

The scan for `${name}` placeholders that semantic validation makes, and what it accepts:
a text in which every `${` opens a placeholder with a name and a closing brace (`Template`).

The loop is a recursion on the text after the cursor; its fuel is the length of that text, which
every round shortens.
-/

namespace Rettp

/-- What is wrong with the placeholders of a text. -/
inductive InterpolationError where
  | empty | unterminated
  deriving DecidableEq

/-- The rounds of `variableNames` on the text after the cursor. -/
def variableNamesLoop : Nat → List Char → Except InterpolationError (List (List Char))
  | 0, _ => .ok []
  | fuel + 1, rest =>
    match splitAtStr ['$', '{'] rest with
    | none => .ok []
    | some (_, marked) =>
      match splitAtChar '}' (marked.drop 2) with
      | none => .error .unterminated
      | some (name, rest) =>
        if name.isEmpty then .error .empty
        else do return name :: (← variableNamesLoop fuel rest)

/-- The names in the placeholders of a text, in order. -/
def variableNames (raw : String) : Except InterpolationError (List String) :=
  (variableNamesLoop raw.toList.length raw.toList).map (·.map String.ofList)

/-! ## Well-formed texts -/

/-- A text and the names in its placeholders: nothing opens a placeholder before the first one,
and a name ends at the next closing brace. -/
inductive Template : List Char → List (List Char) → Prop
  | text {s : List Char} (h : ¬ ['$', '{'] <:+: s) : Template s []
  | placeholder {before name rest : List Char} {names : List (List Char)}
      (hbefore : ¬ ['$', '{'] <:+: before) (hname : name ≠ []) (hclosed : '}' ∉ name)
      (h : Template rest names) :
      Template (before ++ '$' :: '{' :: (name ++ '}' :: rest)) (name :: names)

theorem splitAtStr_eq_none_iff {pattern s : List Char} :
    splitAtStr pattern s = none ↔ ¬ pattern <:+: s := by
  induction s with
  | nil =>
    rw [splitAtStr, List.infix_nil]
    cases pattern <;> simp
  | cons c s ih =>
    rw [splitAtStr, List.infix_cons_iff, not_or]
    split
    · next h => simp [List.isPrefixOf_iff_prefix.mp h]
    · next h =>
      rw [Option.map_eq_none_iff, ih]
      exact ⟨fun hs => ⟨fun hp => h (List.isPrefixOf_iff_prefix.mpr hp), hs⟩, And.right⟩

/-- The scan finds the first opening of a placeholder. -/
theorem splitAtStr_first {before : List Char} (h : ¬ ['$', '{'] <:+: before) (rest : List Char) :
    splitAtStr ['$', '{'] (before ++ '$' :: '{' :: rest) = some (before, '$' :: '{' :: rest) := by
  induction before with
  | nil => rfl
  | cons c before ih =>
    rw [List.infix_cons_iff, not_or] at h
    have hnot : ¬ (['$', '{'].isPrefixOf (c :: (before ++ '$' :: '{' :: rest)) = true) := by
      intro hprefix
      obtain ⟨rfl, hrest⟩ := List.cons_prefix_cons.mp (List.isPrefixOf_iff_prefix.mp hprefix)
      cases before with
      | nil => exact absurd (List.cons_prefix_cons.mp hrest).1 (by decide)
      | cons d before =>
        obtain ⟨rfl, -⟩ := List.cons_prefix_cons.mp hrest
        exact h.1 ⟨before, rfl⟩
    rw [List.cons_append, splitAtStr, if_neg hnot, ih h.2]
    rfl

theorem splitAtStr_before {pattern s before rest : List Char} (hpattern : pattern ≠ [])
    (h : splitAtStr pattern s = some (before, rest)) : ¬ pattern <:+: before := by
  induction s generalizing before with
  | nil => 
    rw [splitAtStr, if_neg (by simpa using hpattern)] at h
    cases h
  | cons c s ih =>
    rw [splitAtStr] at h
    split at h
    · obtain ⟨rfl, -⟩ := Prod.mk.inj (Option.some.inj h)
      simpa using hpattern
    · next hp =>
      obtain ⟨⟨b, r⟩, hr, he⟩ := Option.map_eq_some_iff.mp h
      obtain ⟨rfl, rfl⟩ := Prod.mk.inj he
      rw [List.infix_cons_iff, not_or]
      refine ⟨fun hprefix => hp ?_, ih hr⟩
      obtain ⟨hs, -⟩ := splitAtStr_eq_some hr
      rw [hs, List.isPrefixOf_iff_prefix, ← List.cons_append]
      exact hprefix.trans (List.prefix_append _ _)

theorem splitAtChar_first {c : Char} {before : List Char} (h : c ∉ before) (rest : List Char) :
    splitAtChar c (before ++ c :: rest) = some (before, rest) := by
  induction before with
  | nil => simp [splitAtChar]
  | cons d before ih =>
    rw [List.mem_cons, not_or] at h
    rw [List.cons_append, splitAtChar, if_neg (Ne.symm h.1), ih h.2]
    rfl

/-- A round of the scan at a placeholder. -/
theorem variableNamesLoop_placeholder {before name : List Char} (fuel : Nat) (rest : List Char)
    (hbefore : ¬ ['$', '{'] <:+: before) (hname : name ≠ []) (hclosed : '}' ∉ name) :
    variableNamesLoop (fuel + 1) (before ++ '$' :: '{' :: (name ++ '}' :: rest)) =
      do return name :: (← variableNamesLoop fuel rest) := by
  rw [variableNamesLoop, splitAtStr_first hbefore]
  dsimp only
  rw [List.drop_succ_cons, List.drop_succ_cons, List.drop_zero, splitAtChar_first hclosed]
  dsimp only
  rw [if_neg (by simpa using hname)]

/-- **The scan accepts well-formed texts** and finds their names. -/
theorem variableNamesLoop_eq_ok_iff {fuel : Nat} {s : List Char} {names : List (List Char)}
    (hfuel : s.length ≤ fuel) : variableNamesLoop fuel s = .ok names ↔ Template s names := by
  refine ⟨?_, ?_⟩
  · intro h
    induction fuel generalizing s names with
    | zero =>
      obtain rfl := List.length_eq_zero_iff.mp (Nat.le_zero.mp hfuel)
      obtain rfl := Except.ok.inj h
      exact .text (by simp)
    | succ fuel ih =>
      cases hopen : splitAtStr ['$', '{'] s with
      | none =>
        rw [variableNamesLoop, hopen] at h
        obtain rfl := Except.ok.inj h
        exact .text (splitAtStr_eq_none_iff.mp hopen)
      | some parts =>
        obtain ⟨before, marked⟩ := parts
        have hbefore := splitAtStr_before (List.cons_ne_nil _ _) hopen
        obtain ⟨hs, inner, hmarked⟩ := splitAtStr_eq_some hopen
        subst hmarked
        have hdrop : (['$', '{'] ++ inner).drop 2 = inner := rfl
        rw [variableNamesLoop, hopen] at h
        dsimp only at h
        rw [hdrop] at h
        cases hclose : splitAtChar '}' inner with
        | none =>
          rw [hclose] at h
          cases h
        | some parts =>
          obtain ⟨name, rest⟩ := parts
          obtain ⟨rfl, hclosed⟩ := splitAtChar_eq_some hclose
          rw [hclose] at h
          dsimp only at h
          split at h
          · cases h
          · next hname =>
            simp only [Except.bind_eq_ok, Except.pure_eq_ok, Except.ok.injEq] at h
            obtain ⟨names, hnames, rfl⟩ := h
            rw [hs]
            -- what is left after a placeholder is shorter, so the fuel lasts
            refine .placeholder hbefore (by simpa using hname) hclosed (ih ?_ hnames)
            rw [hs] at hfuel
            simp only [List.length_append, List.length_cons] at hfuel
            omega
  · intro h
    induction h generalizing fuel with
    | text h =>
      cases fuel with
      | zero => rfl
      | succ fuel => rw [variableNamesLoop, splitAtStr_eq_none_iff.mpr h]
    | @placeholder before name rest names hbefore hname hclosed _ ih =>
      obtain ⟨fuel, rfl⟩ := Nat.exists_eq_add_one_of_ne_zero (n := fuel) (by
        rintro rfl
        simp at hfuel)
      rw [variableNamesLoop_placeholder fuel rest hbefore hname hclosed, ih]
      · rfl
      · simp only [List.length_append, List.length_cons] at hfuel
        omega

theorem variableNames_eq_ok_iff {text : String} {found : List String} :
    variableNames text = .ok found ↔
      ∃ names, Template text.toList names ∧ names.map String.ofList = found := by
  unfold variableNames
  cases h : variableNamesLoop text.toList.length text.toList with
  | ok names =>
    have hnames := (variableNamesLoop_eq_ok_iff (Nat.le_refl _)).mp h
    refine ⟨?_, ?_⟩
    · intro hfound
      exact ⟨names, hnames, Except.ok.inj hfound⟩
    · rintro ⟨names', hnames', rfl⟩
      rw [← variableNamesLoop_eq_ok_iff (Nat.le_refl _), h] at hnames'
      obtain rfl := Except.ok.inj hnames'
      rfl
  | error e =>
    refine iff_of_false nofun ?_
    rintro ⟨names, hnames, -⟩
    rw [← variableNamesLoop_eq_ok_iff (Nat.le_refl _), h] at hnames
    cases hnames

end Rettp
