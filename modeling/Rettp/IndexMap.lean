import Mathlib.Order.Lattice
import Mathlib.Data.List.Nodup
import Mathlib.Data.List.Forall2

/-!
# Ordered maps as association lists

Two map types are used by programs that care about iteration order: the
*insertion-ordered* map (`IndexMap`), which replaces an existing entry in place and
appends a new one, and the *sorted* map (`SortedMap`), which keeps its keys strictly
increasing. Both are lists of entries here, so that iteration is the list itself.

* `ofEntries` collects entries left to right, a later entry replacing an earlier one;
* an entry list without repeated keys collects to itself (`IndexMap.ofEntries_of_nodup`),
  and a sorted one collects to itself in a sorted map (`SortedMap.ofEntries_of_sorted`);
* a sorted map is determined by its lookups (`SortedMap.ext`), so collecting through an
  insertion-ordered map first changes nothing (`SortedMap.ofEntries_indexMap`).
-/

universe u v w

/-- Entries in insertion order. -/
abbrev IndexMap (κ : Type u) (α : Type v) := List (κ × α)

namespace IndexMap

variable {κ : Type u} {α : Type v} {β : Type w}

/-- The keys in iteration order. -/
def keys (m : IndexMap κ α) : List κ := m.map Prod.fst

@[simp] theorem keys_nil : keys ([] : IndexMap κ α) = [] := rfl

@[simp] theorem keys_cons (e : κ × α) (m : IndexMap κ α) : keys (e :: m) = e.1 :: keys m := rfl

@[simp] theorem keys_append (m m' : IndexMap κ α) : keys (m ++ m') = keys m ++ keys m' :=
  List.map_append

variable [DecidableEq κ]

/-- The value of the first entry under `k`. -/
def get : IndexMap κ α → κ → Option α
  | [], _ => none
  | (k', v) :: m, k => if k' = k then some v else get m k

/-- Replace the value under `k` in place, or append a new entry. -/
def insert : IndexMap κ α → κ → α → IndexMap κ α
  | [], k, v => [(k, v)]
  | (k', v') :: m, k, v => if k' = k then (k', v) :: m else (k', v') :: insert m k v

/-- Insert entries from left to right. -/
def extend (m : IndexMap κ α) (entries : List (κ × α)) : IndexMap κ α :=
  entries.foldl (fun m e => m.insert e.1 e.2) m

/-- Collect entries into a map. -/
def ofEntries (entries : List (κ × α)) : IndexMap κ α := extend [] entries

@[simp] theorem get_nil (k : κ) : get ([] : IndexMap κ α) k = none := rfl

theorem get_cons (e : κ × α) (m : IndexMap κ α) (k : κ) :
    get (e :: m) k = if e.1 = k then some e.2 else get m k := rfl

theorem get_eq_none_iff {m : IndexMap κ α} {k : κ} : get m k = none ↔ k ∉ keys m := by
  induction m with
  | nil => simp
  | cons e m ih =>
    obtain ⟨k', v⟩ := e
    by_cases hk : k' = k
    · simp [get_cons, hk]
    · simp [get_cons, hk, ih, Ne.symm hk]

theorem get_isSome_iff {m : IndexMap κ α} {k : κ} : (get m k).isSome ↔ k ∈ keys m := by
  rw [← not_iff_not, Bool.not_eq_true, Option.isSome_eq_false_iff, Option.isNone_iff_eq_none,
    get_eq_none_iff]

theorem mem_of_get_eq_some {m : IndexMap κ α} {k : κ} {v : α} (h : get m k = some v) :
    (k, v) ∈ m := by
  induction m with
  | nil => simp at h
  | cons e m ih =>
    obtain ⟨k', v'⟩ := e
    rw [get_cons] at h
    split at h
    · next hk =>
      obtain rfl : k' = k := hk
      obtain rfl : v' = v := Option.some.inj h
      exact List.mem_cons_self
    · exact List.mem_cons_of_mem _ (ih h)

/-- Without repeated keys, a lookup finds every entry. -/
theorem get_eq_some_of_mem {m : IndexMap κ α} (hm : (keys m).Nodup) {k : κ} {v : α}
    (h : (k, v) ∈ m) : get m k = some v := by
  induction m with
  | nil => simp at h
  | cons e m ih =>
    obtain ⟨k', v'⟩ := e
    rw [keys_cons, List.nodup_cons] at hm
    rw [get_cons]
    rcases List.mem_cons.mp h with h | h
    · obtain ⟨rfl, rfl⟩ := Prod.mk.inj h
      simp
    · have hne : k' ≠ k := by
        rintro rfl
        exact hm.1 (List.mem_map.mpr ⟨_, h, rfl⟩)
      rw [if_neg hne]
      exact ih hm.2 h

/-- Without repeated keys, what the entries of a key hold together is what a lookup finds. -/
theorem flatMap_get {β : Type*} {m : IndexMap κ (List β)} (hm : (keys m).Nodup) (k : κ) :
    (m.flatMap fun entry => if entry.1 = k then entry.2 else []) = (get m k).getD [] := by
  induction m with
  | nil => rfl
  | cons e m ih =>
    obtain ⟨k', vs⟩ := e
    rw [keys_cons, List.nodup_cons] at hm
    rw [List.flatMap_cons, ih hm.2, get_cons]
    by_cases hk : k' = k
    · subst hk
      rw [if_pos rfl, if_pos rfl, get_eq_none_iff.mpr hm.1, Option.getD_none, List.append_nil]
      rfl
    · rw [if_neg hk, if_neg hk, List.nil_append]

theorem get_append (m m' : IndexMap κ α) (k : κ) :
    get (m ++ m') k = (get m k).or (get m' k) := by
  induction m with
  | nil => simp
  | cons e m ih =>
    obtain ⟨k', v⟩ := e
    rw [List.cons_append, get_cons, get_cons]
    split
    · simp
    · exact ih

theorem get_insert (m : IndexMap κ α) (k : κ) (v : α) (l : κ) :
    get (insert m k v) l = if k = l then some v else get m l := by
  induction m with
  | nil => simp [insert, get_cons]
  | cons e m ih =>
    obtain ⟨k', v'⟩ := e
    rw [insert]
    by_cases hk : k' = k
    · subst hk
      by_cases hl : k' = l <;> simp [get_cons, hl]
    · rw [if_neg hk, get_cons, get_cons, ih]
      by_cases hl : k' = l
      · have : k ≠ l := fun h => hk (hl.trans h.symm)
        simp [hl, this]
      · simp [hl]

/-- A new key is appended. -/
theorem insert_of_not_mem {m : IndexMap κ α} {k : κ} (h : k ∉ keys m) (v : α) :
    insert m k v = m ++ [(k, v)] := by
  induction m with
  | nil => rfl
  | cons e m ih =>
    obtain ⟨k', v'⟩ := e
    simp only [keys_cons, List.mem_cons, not_or] at h
    rw [insert, if_neg (Ne.symm h.1), ih h.2, List.cons_append]

/-- Inserting under a present key keeps the keys. -/
theorem keys_insert_of_mem {m : IndexMap κ α} {k : κ} (h : k ∈ keys m) (v : α) :
    keys (insert m k v) = keys m := by
  induction m with
  | nil => simp at h
  | cons e m ih =>
    obtain ⟨k', v'⟩ := e
    rw [insert]
    by_cases hk : k' = k
    · simp [hk]
    · rw [if_neg hk]
      simp only [keys_cons, List.mem_cons] at h ⊢
      rw [ih (h.resolve_left (Ne.symm hk))]

theorem nodup_insert {m : IndexMap κ α} (hm : (keys m).Nodup) (k : κ) (v : α) :
    (keys (insert m k v)).Nodup := by
  by_cases h : k ∈ keys m
  · rwa [keys_insert_of_mem h]
  · rw [insert_of_not_mem h, keys_append, List.nodup_append]
    refine ⟨hm, by simp [keys], ?_⟩
    intro a ha b hb
    simp only [keys_cons, keys_nil, List.mem_singleton] at hb
    rintro rfl
    exact h (hb ▸ ha)

@[simp] theorem extend_nil (m : IndexMap κ α) : extend m [] = m := rfl

theorem extend_cons (m : IndexMap κ α) (e : κ × α) (entries : List (κ × α)) :
    extend m (e :: entries) = extend (m.insert e.1 e.2) entries := rfl

theorem nodup_extend {m : IndexMap κ α} (hm : (keys m).Nodup) (entries : List (κ × α)) :
    (keys (extend m entries)).Nodup := by
  induction entries generalizing m with
  | nil => exact hm
  | cons e entries ih => rw [extend_cons]; exact ih (nodup_insert hm _ _)

theorem nodup_ofEntries (entries : List (κ × α)) : (keys (ofEntries entries)).Nodup :=
  nodup_extend (by simp) entries

/-- Extending by new, pairwise distinct keys appends the entries. -/
theorem extend_of_nodup {m : IndexMap κ α} {entries : List (κ × α)}
    (h : (keys m ++ keys entries).Nodup) : extend m entries = m ++ entries := by
  induction entries generalizing m with
  | nil => simp
  | cons e entries ih =>
    obtain ⟨k, v⟩ := e
    have hk : k ∉ keys m := fun hmem =>
      (List.nodup_append.mp h).2.2 k hmem k (by simp) rfl
    rw [extend_cons, insert_of_not_mem hk, ih, List.append_assoc, List.singleton_append]
    simpa [List.append_assoc] using h

/-- Entries with distinct keys collect to themselves. -/
theorem ofEntries_of_nodup {entries : List (κ × α)} (h : (keys entries).Nodup) :
    ofEntries entries = entries := by
  rw [ofEntries, extend_of_nodup (by simpa using h), List.nil_append]

/-- A lookup after extending finds the last entry under the key. -/
theorem get_extend (m : IndexMap κ α) (entries : List (κ × α)) (k : κ) :
    get (extend m entries) k = (get entries.reverse k).or (get m k) := by
  induction entries generalizing m with
  | nil => simp
  | cons e entries ih =>
    rw [extend_cons, ih, get_insert, List.reverse_cons, get_append, Option.or_assoc]
    congr 1
    by_cases hk : e.1 = k <;> simp [get_cons, hk]

theorem get_ofEntries (entries : List (κ × α)) (k : κ) :
    get (ofEntries entries) k = get entries.reverse k := by
  rw [ofEntries, get_extend]; simp

/-- Collected entries are among the given ones. -/
theorem mem_of_mem_ofEntries {entries : List (κ × α)} {e : κ × α} (h : e ∈ ofEntries entries) :
    e ∈ entries := by
  have hget := get_eq_some_of_mem (nodup_ofEntries entries) h
  rw [get_ofEntries] at hget
  exact List.mem_reverse.mp (mem_of_get_eq_some hget)

/-- Entry by entry the same keys, with related values. -/
abbrev EntriesRel (R : α → β → Prop) : List (κ × α) → List (κ × β) → Prop :=
  List.Forall₂ fun e e' => e.1 = e'.1 ∧ R e.2 e'.2

/-- A lookup in related entries finds related values. -/
theorem EntriesRel.get {R : α → β → Prop} {m : IndexMap κ α} {m' : IndexMap κ β}
    (h : EntriesRel R m m') {k : κ} {v : α} (hv : IndexMap.get m k = some v) :
    ∃ v', IndexMap.get m' k = some v' ∧ R v v' := by
  induction h with
  | nil => cases hv
  | @cons e e' m m' he _ ih =>
    obtain ⟨l, w⟩ := e
    obtain ⟨l', w'⟩ := e'
    obtain ⟨rfl, hw⟩ : l = l' ∧ R w w' := he
    rw [get_cons] at hv ⊢
    split at hv
    · next hk =>
      cases hv
      exact ⟨w', if_pos hk, hw⟩
    · next hk =>
      rw [if_neg hk]
      exact ih hv

/-- Related entries insert to related maps. -/
theorem forall₂_insert {R : α → β → Prop} {m : IndexMap κ α} {m' : IndexMap κ β}
    (h : EntriesRel R m m') (k : κ) {v : α} {v' : β} (hv : R v v') :
    EntriesRel R (insert m k v) (insert m' k v') := by
  induction h with
  | nil => exact .cons ⟨rfl, hv⟩ .nil
  | @cons e e' m m' he hm ih =>
    obtain ⟨l, w⟩ := e
    obtain ⟨l', w'⟩ := e'
    obtain ⟨rfl, hw⟩ : l = l' ∧ R w w' := he
    rw [insert, insert]
    split
    · exact .cons ⟨rfl, hv⟩ hm
    · exact .cons ⟨rfl, hw⟩ ih

/-- Related entries collect to related maps. -/
theorem forall₂_ofEntries {R : α → β → Prop} {entries : List (κ × α)} {entries' : List (κ × β)}
    (h : EntriesRel R entries entries') : EntriesRel R (ofEntries entries) (ofEntries entries') := by
  suffices hext : ∀ (m : IndexMap κ α) (m' : IndexMap κ β), EntriesRel R m m' →
      EntriesRel R (extend m entries) (extend m' entries') from hext [] [] .nil
  induction h with
  | nil => intro m m' hm; exact hm
  | @cons e e' entries entries' he _ ih =>
    intro m m' hm
    rw [extend_cons, extend_cons, ← he.1]
    exact ih _ _ (forall₂_insert hm _ he.2)

end IndexMap

/-- Entries with strictly increasing keys. -/
abbrev SortedMap (κ : Type u) (α : Type v) := List (κ × α)

namespace SortedMap

open IndexMap (keys get)

variable {κ : Type u} {α : Type v} [LinearOrder κ]

/-- The keys are strictly increasing. -/
def Sorted (m : SortedMap κ α) : Prop := (keys m).Pairwise (· < ·)

/-- Put an entry at its place, replacing the value of an equal key. -/
def insert : SortedMap κ α → κ → α → SortedMap κ α
  | [], k, v => [(k, v)]
  | (k', v') :: m, k, v =>
    if k < k' then (k, v) :: (k', v') :: m
    else if k = k' then (k', v) :: m
    else (k', v') :: insert m k v

/-- Insert entries from left to right into an empty map. -/
def ofEntries (entries : List (κ × α)) : SortedMap κ α :=
  entries.foldl (fun m e => insert m e.1 e.2) []

theorem mem_keys_insert {m : SortedMap κ α} {k : κ} {v : α} {l : κ} :
    l ∈ keys (insert m k v) ↔ l = k ∨ l ∈ keys m := by
  induction m with
  | nil => simp [insert]
  | cons e m ih =>
    obtain ⟨k', v'⟩ := e
    rw [insert]
    split
    · simp
    · split
      · next hk => simp [hk]
      · simp only [IndexMap.keys_cons, List.mem_cons, ih]
        tauto

theorem sorted_insert {m : SortedMap κ α} (hm : Sorted m) (k : κ) (v : α) :
    Sorted (insert m k v) := by
  induction m with
  | nil => simp [insert, Sorted]
  | cons e m ih =>
    obtain ⟨k', v'⟩ := e
    have hm' : (∀ l ∈ keys m, k' < l) ∧ Sorted m := List.pairwise_cons.mp hm
    rw [insert]
    split
    · next hlt =>
      refine List.pairwise_cons.mpr ⟨?_, hm⟩
      intro l hl
      rcases List.mem_cons.mp hl with rfl | hl
      · exact hlt
      · exact hlt.trans (hm'.1 l hl)
    · next hge =>
      split
      · exact hm
      · next hne =>
        refine List.pairwise_cons.mpr ⟨?_, ih hm'.2⟩
        intro l hl
        rcases mem_keys_insert.mp hl with rfl | hl
        · exact lt_of_le_of_ne (not_lt.mp hge) (Ne.symm hne)
        · exact hm'.1 l hl

theorem get_insert {m : SortedMap κ α} (hm : Sorted m) (k : κ) (v : α) (l : κ) :
    get (insert m k v) l = if k = l then some v else get m l := by
  induction m with
  | nil => simp [insert, IndexMap.get_cons]
  | cons e m ih =>
    obtain ⟨k', v'⟩ := e
    have hm' : (∀ l ∈ keys m, k' < l) ∧ Sorted m := List.pairwise_cons.mp hm
    rw [insert]
    split
    · rw [IndexMap.get_cons]
    · split
      · next hk => subst hk; by_cases hl : k = l <;> simp [IndexMap.get_cons, hl]
      · next hne =>
        rw [IndexMap.get_cons, IndexMap.get_cons, ih hm'.2]
        by_cases hl : k' = l
        · have : k ≠ l := fun h => hne (h.trans hl.symm)
          simp [hl, this]
        · simp [hl]

/-- A sorted map is determined by its lookups. -/
theorem ext {m m' : SortedMap κ α} (hm : Sorted m) (hm' : Sorted m')
    (h : ∀ k, get m k = get m' k) : m = m' := by
  induction m generalizing m' with
  | nil =>
    cases m' with
    | nil => rfl
    | cons e m' => exact absurd (h e.1) (by simp [IndexMap.get_cons])
  | cons e m ih =>
    obtain ⟨k, v⟩ := e
    cases m' with
    | nil => exact absurd (h k) (by simp [IndexMap.get_cons])
    | cons e' m' =>
      obtain ⟨k', v'⟩ := e'
      have h1 : (∀ l ∈ keys m, k < l) ∧ Sorted m := List.pairwise_cons.mp hm
      have h2 : (∀ l ∈ keys m', k' < l) ∧ Sorted m' := List.pairwise_cons.mp hm'
      -- the two least keys bound each other
      have hle : ∀ {a b : κ} {x y : α} {s t : SortedMap κ α}, (∀ l ∈ keys t, b < l) →
          get ((a, x) :: s) a = get ((b, y) :: t) a → b ≤ a := by
        intro a b x y s t hb hget
        have hmem : a ∈ keys ((b, y) :: t) := by
          rw [← IndexMap.get_isSome_iff, ← hget]
          simp [IndexMap.get_cons]
        rcases List.mem_cons.mp hmem with rfl | hmem
        · exact le_refl _
        · exact le_of_lt (hb a hmem)
      have hk : k = k' := le_antisymm (hle h1.1 (h k').symm) (hle h2.1 (h k))
      subst hk
      have hv : v = v' := by simpa [IndexMap.get_cons] using h k
      subst hv
      rw [ih h1.2 h2.2]
      intro l
      by_cases hl : k = l
      · subst hl
        rw [IndexMap.get_eq_none_iff.mpr fun hmem => lt_irrefl _ (h1.1 _ hmem),
          IndexMap.get_eq_none_iff.mpr fun hmem => lt_irrefl _ (h2.1 _ hmem)]
      · simpa [IndexMap.get_cons, hl] using h l

theorem sorted_nil : Sorted ([] : SortedMap κ α) := List.Pairwise.nil

private theorem foldl_insert (entries : List (κ × α)) {m : SortedMap κ α} (hm : Sorted m) :
    Sorted (entries.foldl (fun m e => insert m e.1 e.2) m) ∧
      ∀ k, get (entries.foldl (fun m e => insert m e.1 e.2) m) k =
        (get entries.reverse k).or (get m k) := by
  induction entries generalizing m with
  | nil => exact ⟨hm, fun k => by simp⟩
  | cons e entries ih =>
    obtain ⟨hs, hg⟩ := ih (sorted_insert hm e.1 e.2)
    refine ⟨hs, fun k => ?_⟩
    rw [List.foldl_cons, hg, get_insert hm, List.reverse_cons, IndexMap.get_append,
      Option.or_assoc]
    congr 1
    by_cases hk : e.1 = k <;> simp [IndexMap.get_cons, hk]

theorem sorted_ofEntries (entries : List (κ × α)) : Sorted (ofEntries entries) :=
  (foldl_insert entries sorted_nil).1

/-- A lookup after collecting finds the last entry under the key. -/
theorem get_ofEntries (entries : List (κ × α)) (k : κ) :
    get (ofEntries entries) k = get entries.reverse k := by
  rw [ofEntries, (foldl_insert entries sorted_nil).2]; simp

theorem nodup_of_sorted {m : SortedMap κ α} (hm : Sorted m) : (keys m).Nodup :=
  List.Pairwise.imp (fun h => ne_of_lt h) hm

theorem mem_of_mem_ofEntries {entries : List (κ × α)} {e : κ × α} (h : e ∈ ofEntries entries) :
    e ∈ entries := by
  have hget : get (ofEntries entries) e.1 = some e.2 :=
    IndexMap.get_eq_some_of_mem (nodup_of_sorted (sorted_ofEntries entries)) h
  rw [get_ofEntries] at hget
  exact List.mem_reverse.mp (IndexMap.mem_of_get_eq_some hget)

/-- Sorted entries collect to themselves. -/
theorem ofEntries_of_sorted {m : SortedMap κ α} (hm : Sorted m) : ofEntries m = m := by
  refine ext (sorted_ofEntries m) hm fun k => ?_
  rw [get_ofEntries, ← IndexMap.get_ofEntries, IndexMap.ofEntries_of_nodup (nodup_of_sorted hm)]

/-- Collecting through an insertion-ordered map first changes nothing. -/
theorem ofEntries_indexMap (entries : List (κ × α)) :
    ofEntries (IndexMap.ofEntries entries) = ofEntries entries := by
  refine ext (sorted_ofEntries _) (sorted_ofEntries _) fun k => ?_
  rw [get_ofEntries, get_ofEntries, ← IndexMap.get_ofEntries,
    IndexMap.ofEntries_of_nodup (IndexMap.nodup_ofEntries entries), IndexMap.get_ofEntries]

end SortedMap
