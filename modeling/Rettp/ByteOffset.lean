import Rettp.Platform

/-!
# Byte offsets in a text

A text is a list of characters, and an offset counts the bytes of its UTF-8 encoding. An offset
is a boundary when it stands between two characters, and every offset has a greatest boundary
that does not lie behind it: the length of the part of the text that fits in front of it.
-/

namespace Rettp

/-- The text before an offset and the text from it on, when it is a boundary. -/
def splitAtByte : List Char → Nat → Option (List Char × List Char)
  | s, 0 => some ([], s)
  | [], _ + 1 => none
  | c :: s, n + 1 =>
    if c.utf8Size ≤ n + 1 then
      (splitAtByte s (n + 1 - c.utf8Size)).map fun r => (c :: r.1, r.2)
    else none

/-- `str::is_char_boundary` -/
def isCharBoundary (s : List Char) (n : Nat) : Bool := (splitAtByte s n).isSome

/-- `str::get` with a range. -/
def getRange (s : List Char) (start end_ : Nat) : Option (List Char) :=
  if start ≤ end_ then
    (splitAtByte s end_).bind fun r => (splitAtByte r.1 start).map (·.2)
  else none

/-- `str::rfind` with a character pattern. -/
def rfindChar (c : Char) : List Char → Option Nat
  | [] => none
  | d :: s =>
    match rfindChar c s with
    | some n => some (d.utf8Size + n)
    | none => if d = c then some 0 else none

/-- The longest part of a text in front that takes no more than `n` bytes. -/
def fitting : List Char → Nat → List Char
  | [], _ => []
  | c :: s, n => if c.utf8Size ≤ n then c :: fitting s (n - c.utf8Size) else []

theorem utf8Len_cons (c : Char) (s : List Char) : utf8Len (c :: s) = c.utf8Size + utf8Len s := rfl

theorem utf8Len_eq_zero {s : List Char} (h : utf8Len s = 0) : s = [] := by
  cases s with
  | nil => rfl
  | cons c s =>
    have := c.utf8Size_pos
    rw [utf8Len_cons] at h
    omega

theorem splitAtByte_eq_some {s a b : List Char} {n : Nat} :
    splitAtByte s n = some (a, b) ↔ s = a ++ b ∧ utf8Len a = n := by
  induction s, n using splitAtByte.induct generalizing a with
  | case1 s =>
    rw [splitAtByte, Option.some.injEq, Prod.mk.injEq]
    refine ⟨fun h => ⟨by rw [← h.1, ← h.2, List.nil_append], by rw [← h.1]; rfl⟩, fun h => ?_⟩
    obtain rfl := utf8Len_eq_zero h.2
    exact ⟨rfl, h.1⟩
  | case2 n =>
    rw [splitAtByte]
    refine ⟨fun h => (nomatch h), fun h => ?_⟩
    rw [(List.append_eq_nil_iff.mp h.1.symm).1] at h
    cases h.2
  | case3 c s n hle ih =>
    rw [splitAtByte, if_pos hle, Option.map_eq_some_iff]
    refine ⟨?_, ?_⟩
    · rintro ⟨⟨a', b'⟩, hs, he⟩
      obtain ⟨rfl, rfl⟩ := Prod.mk.inj he
      obtain ⟨rfl, hlen⟩ := ih.mp hs
      exact ⟨rfl, by rw [utf8Len_cons, hlen]; omega⟩
    · rintro ⟨hs, hlen⟩
      cases a with
      | nil => cases hlen
      | cons d a =>
        obtain ⟨rfl, rfl⟩ := List.cons.inj hs
        rw [utf8Len_cons] at hlen
        exact ⟨(a, b), ih.mpr ⟨rfl, by omega⟩, rfl⟩
  | case4 c s n hle =>
    rw [splitAtByte, if_neg hle]
    refine ⟨fun h => (nomatch h), fun ⟨hs, hlen⟩ => ?_⟩
    cases a with
    | nil => cases hlen
    | cons d a =>
      obtain ⟨rfl, rfl⟩ := List.cons.inj hs
      rw [utf8Len_cons] at hlen
      omega

theorem isCharBoundary_iff {s : List Char} {n : Nat} :
    isCharBoundary s n = true ↔ ∃ a b, s = a ++ b ∧ utf8Len a = n := by
  rw [isCharBoundary, Option.isSome_iff_exists]
  exact ⟨fun ⟨r, hr⟩ => ⟨r.1, r.2, splitAtByte_eq_some.mp hr⟩,
    fun ⟨a, b, h⟩ => ⟨(a, b), splitAtByte_eq_some.mpr h⟩⟩

theorem getRange_eq_some {s r : List Char} {start end_ : Nat} :
    getRange s start end_ = some r ↔
      ∃ a b, s = a ++ r ++ b ∧ utf8Len a = start ∧ utf8Len (a ++ r) = end_ := by
  rw [getRange]
  refine ⟨?_, ?_⟩
  · intro h
    split at h
    · obtain ⟨⟨before, b⟩, hb, hr⟩ := Option.bind_eq_some_iff.mp h
      obtain ⟨⟨a, r'⟩, ha, rfl⟩ := Option.map_eq_some_iff.mp hr
      obtain ⟨hs, hend⟩ := splitAtByte_eq_some.mp hb
      obtain ⟨rfl, hstart⟩ := splitAtByte_eq_some.mp ha
      exact ⟨a, b, hs, hstart, hend⟩
    · cases h
  · rintro ⟨a, b, hs, hstart, hend⟩
    have hle : start ≤ end_ := by
      rw [← hstart, ← hend, utf8Len_append]
      exact Nat.le_add_right _ _
    rw [if_pos hle, splitAtByte_eq_some.mpr ⟨hs, hend⟩, Option.bind_some,
      splitAtByte_eq_some.mpr ⟨rfl, hstart⟩]
    rfl

theorem rfindChar_eq_none {c : Char} {s : List Char} : rfindChar c s = none ↔ c ∉ s := by
  induction s with
  | nil => exact ⟨fun _ => List.not_mem_nil, fun _ => rfl⟩
  | cons d s ih =>
    rw [rfindChar, List.mem_cons, not_or]
    cases h : rfindChar c s with
    | some n =>
      have hmem : ¬ c ∉ s := fun hs => by rw [ih.mpr hs] at h; cases h
      exact ⟨fun h' => (nomatch h'), fun h' => absurd h'.2 hmem⟩
    | none =>
      dsimp only
      rw [ite_eq_right_iff]
      exact ⟨fun h' => ⟨fun hd => (nomatch h' hd.symm), ih.mp h⟩, fun h' hd => absurd hd.symm h'.1⟩

theorem rfindChar_eq_some {c : Char} {s : List Char} {n : Nat} (h : rfindChar c s = some n) :
    ∃ a b, s = a ++ c :: b ∧ c ∉ b ∧ utf8Len a = n := by
  induction s generalizing n with
  | nil => cases h
  | cons d s ih =>
    rw [rfindChar] at h
    split at h
    · next m hm =>
      obtain ⟨a, b, rfl, hb, hlen⟩ := ih hm
      obtain rfl := Option.some.inj h
      exact ⟨d :: a, b, rfl, hb, by rw [utf8Len_cons, hlen]⟩
    · next hs =>
      split at h
      · next hd =>
        obtain rfl := Option.some.inj h
        exact ⟨[], s, by rw [hd]; rfl, rfindChar_eq_none.mp hs, rfl⟩
      · cases h

/-! ## The part of a text that fits -/

theorem fitting_initial (s : List Char) (n : Nat) : fitting s n <+: s := by
  induction s generalizing n with
  | nil => exact List.prefix_rfl
  | cons c s ih =>
    rw [fitting]
    split
    · exact (List.prefix_cons_inj c).mpr (ih _)
    · exact List.nil_prefix

theorem utf8Len_fitting_le (s : List Char) (n : Nat) : utf8Len (fitting s n) ≤ n := by
  induction s generalizing n with
  | nil => exact Nat.zero_le n
  | cons c s ih =>
    rw [fitting]
    split
    · have := ih (n - c.utf8Size)
      rw [utf8Len_cons]
      omega
    · exact Nat.zero_le n

/-- Nothing longer fits. -/
theorem prefix_fitting {p s : List Char} {n : Nat} (hp : p <+: s) (hn : utf8Len p ≤ n) :
    p <+: fitting s n := by
  induction p generalizing s n with
  | nil => exact List.nil_prefix
  | cons c p ih =>
    obtain ⟨t, rfl⟩ := hp
    rw [utf8Len_cons] at hn
    rw [List.cons_append, fitting, if_pos (by omega), List.prefix_cons_inj]
    exact ih (List.prefix_append p t) (by omega)

theorem utf8Len_mono {p s : List Char} (h : p <+: s) : utf8Len p ≤ utf8Len s := by
  obtain ⟨t, rfl⟩ := h
  rw [utf8Len_append]
  exact Nat.le_add_right _ _

theorem eq_of_prefix_of_utf8Len {p s : List Char} (h : p <+: s) (hlen : utf8Len s ≤ utf8Len p) :
    p = s := by
  obtain ⟨t, rfl⟩ := h
  rw [utf8Len_append] at hlen
  rw [utf8Len_eq_zero (by omega : utf8Len t = 0), List.append_nil]

theorem fitting_mono (s : List Char) {m n : Nat} (h : m ≤ n) : fitting s m <+: fitting s n :=
  prefix_fitting (fitting_initial s m) (Nat.le_trans (utf8Len_fitting_le s m) h)

theorem fitting_boundary {p s : List Char} (h : p <+: s) : fitting s (utf8Len p) = p :=
  (eq_of_prefix_of_utf8Len (prefix_fitting h (Nat.le_refl _)) (utf8Len_fitting_le s _)).symm

theorem isCharBoundary_iff_fitting {s : List Char} {n : Nat} :
    isCharBoundary s n = true ↔ utf8Len (fitting s n) = n := by
  rw [isCharBoundary_iff]
  refine ⟨?_, ?_⟩
  · rintro ⟨a, b, rfl, rfl⟩
    rw [fitting_boundary (List.prefix_append a b)]
  · intro h
    obtain ⟨b, hb⟩ := fitting_initial s n
    exact ⟨_, b, hb.symm, h⟩

/-- Between two offsets with no boundary at the second, no more of the text fits. -/
theorem fitting_succ_of_not_boundary {s : List Char} {n : Nat}
    (h : isCharBoundary s (n + 1) = false) : fitting s (n + 1) = fitting s n := by
  have hne : utf8Len (fitting s (n + 1)) ≠ n + 1 := fun he => by
    rw [isCharBoundary_iff_fitting.mpr he] at h
    cases h
  have hle := utf8Len_fitting_le s (n + 1)
  have hback := prefix_fitting (n := n) (fitting_initial s (n + 1)) (by omega)
  exact eq_of_prefix_of_utf8Len hback (utf8Len_mono (fitting_mono s n.le_succ))

/-- An offset behind the text is as good as its end. -/
theorem fitting_min (s : List Char) (n : Nat) : fitting s (min n (utf8Len s)) = fitting s n := by
  rcases Nat.le_total n (utf8Len s) with h | h
  · rw [Nat.min_eq_left h]
  · rw [Nat.min_eq_right h, fitting_boundary List.prefix_rfl]
    exact eq_of_prefix_of_utf8Len (prefix_fitting List.prefix_rfl h)
      (utf8Len_mono (fitting_initial s n))

end Rettp
