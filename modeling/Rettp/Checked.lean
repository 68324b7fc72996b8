import Mathlib.Data.Finset.Basic
import Mathlib.Data.Finset.Lattice.Lemmas
import Mathlib.Data.List.Basic

/-!
# Checks that collect their findings

A program in `Checked ε` computes a value and reports findings on the way; it never stops early
and never looks at what has been reported. So a sequence is clean exactly when its parts are
(`errors_bind`, `clean_bind`), and what it computes does not depend on its findings.

`Meets x P v` says what a program checks: it is clean exactly when `P` holds, and then computes
`v`. It composes along sequences (`Meets.bind`), so that a checker is compared with its rules
function by function. `Fresh` is the rule of a checker that passes along the names already used.
-/

/-- A value, and what was reported on the way to it. -/
structure Checked (ε α : Type) where
  value : α
  errors : List ε

namespace Checked

variable {ε α β : Type}

instance : Monad (Checked ε) where
  pure a := ⟨a, []⟩
  bind x k := ⟨(k x.value).value, x.errors ++ (k x.value).errors⟩

/-- One finding. -/
def report (e : ε) : Checked ε Unit := ⟨(), [e]⟩

/-- A finding, if a condition holds. -/
def reportIf (c : Bool) (e : ε) : Checked ε Unit := if c then report e else pure ()

/-- Nothing has been reported. -/
def Clean (x : Checked ε α) : Prop := x.errors = []

@[simp] theorem value_pure (a : α) : (pure a : Checked ε α).value = a := rfl

@[simp] theorem value_bind (x : Checked ε α) (k : α → Checked ε β) :
    (x >>= k).value = (k x.value).value := rfl

/-- The errors of both parts, in order. -/
theorem errors_bind (x : Checked ε α) (k : α → Checked ε β) :
    (x >>= k).errors = x.errors ++ (k x.value).errors := rfl

@[simp] theorem clean_pure (a : α) : (pure a : Checked ε α).Clean := rfl

/-- Both parts are without errors. -/
@[simp] theorem clean_bind {x : Checked ε α} {k : α → Checked ε β} :
    (x >>= k).Clean ↔ x.Clean ∧ (k x.value).Clean := by
  rw [Clean, errors_bind, List.append_eq_nil_iff]
  rfl

@[simp] theorem not_clean_report (e : ε) : ¬ (report e).Clean := List.cons_ne_nil _ _

@[simp] theorem clean_reportIf {c : Bool} {e : ε} : (reportIf c e).Clean ↔ c = false := by
  cases c <;> simp [reportIf]

/-- Check a list from left to right, passing a value along. -/
def foldM (f : β → α → Checked ε β) : β → List α → Checked ε β
  | b, [] => pure b
  | b, a :: as => do
    let b ← f b a
    foldM f b as

/-- Check every element of a list. -/
def forEach (f : α → Checked ε Unit) (as : List α) : Checked ε Unit := foldM (fun _ => f) () as

@[simp] theorem foldM_nil (f : β → α → Checked ε β) (b : β) : foldM f b [] = pure b := rfl

theorem foldM_cons (f : β → α → Checked ε β) (b : β) (a : α) (as : List α) :
    foldM f b (a :: as) = f b a >>= fun b => foldM f b as := rfl

/-- A list is clean when each element is, with what was passed to it. -/
theorem clean_foldM_cons {f : β → α → Checked ε β} {b : β} {a : α} {as : List α} :
    (foldM f b (a :: as)).Clean ↔ (f b a).Clean ∧ (foldM f (f b a).value as).Clean := by
  rw [foldM_cons, clean_bind]

/-- No round finds an error. -/
@[simp] theorem clean_forEach {f : α → Checked ε Unit} {as : List α} :
    (forEach f as).Clean ↔ ∀ a ∈ as, (f a).Clean := by
  induction as with
  | nil => simp [forEach]
  | cons a as ih =>
    rw [forEach, clean_foldM_cons, List.forall_mem_cons]
    exact and_congr_right fun _ => ih

/-- The findings along a list, when nothing is passed along. -/
theorem errors_forEach (f : α → Checked ε Unit) (as : List α) :
    (forEach f as).errors = as.flatMap fun a => (f a).errors := by
  induction as with
  | nil => rfl
  | cons a as ih =>
    rw [List.flatMap_cons, ← ih]
    rfl

/-! ## What is reported -/

/-- Every finding has a property. -/
def Reports (P : ε → Prop) (x : Checked ε α) : Prop := ∀ e ∈ x.errors, P e

namespace Reports

variable {P : ε → Prop} {x : Checked ε α}

theorem pure (a : α) : Reports P (Pure.pure a : Checked ε α) := List.forall_mem_nil _

theorem report {e : ε} (h : P e) : Reports P (Checked.report e) := List.forall_mem_singleton.mpr h

theorem reportIf {c : Bool} {e : ε} (h : c = true → P e) : Reports P (Checked.reportIf c e) := by
  cases c with
  | true => exact report (h rfl)
  | false => exact pure ()

/-- Errors of both parts. -/
theorem bind {k : α → Checked ε β} (hx : Reports P x) (hk : ∀ a, Reports P (k a)) :
    Reports P (x >>= k) :=
  List.forall_mem_append.mpr ⟨hx, hk x.value⟩

/-- Errors of all rounds. -/
theorem foldM {f : β → α → Checked ε β} {as : List α} (hf : ∀ b, ∀ a ∈ as, Reports P (f b a))
    (b : β) : Reports P (Checked.foldM f b as) := by
  induction as generalizing b with
  | nil => exact pure b
  | cons a as ih =>
    have hrest : ∀ b, ∀ a ∈ as, Reports P (f b a) := fun b a ha =>
      hf b a (List.mem_cons_of_mem _ ha)
    exact (hf b a List.mem_cons_self).bind (ih hrest)

/-- Errors of all rounds. -/
theorem forEach {f : α → Checked ε Unit} {as : List α} (hf : ∀ a ∈ as, Reports P (f a)) :
    Reports P (Checked.forEach f as) :=
  foldM (fun _ => hf) ()

end Reports

/-! ## What a check establishes -/

/-- Clean exactly when `P` holds, and then with the value `v`. -/
structure Meets (x : Checked ε α) (P : Prop) (v : α) : Prop where
  clean : x.Clean ↔ P
  value : P → x.value = v

namespace Meets

variable {x : Checked ε α} {P Q : Prop} {v : α}

/-- The same rule in other words. -/
theorem congr (h : Meets x P v) (hPQ : P ↔ Q) : Meets x Q v :=
  ⟨h.clean.trans hPQ, fun hQ => h.value (hPQ.mpr hQ)⟩

theorem pure (a : α) : Meets (Pure.pure a : Checked ε α) True a :=
  ⟨iff_of_true rfl trivial, fun _ => rfl⟩

theorem report (e : ε) : Meets (Checked.report e) False () :=
  ⟨iff_of_false (not_clean_report e) id, False.elim⟩

theorem reportIf (c : Bool) (e : ε) : Meets (Checked.reportIf c e) (c = false) () :=
  ⟨clean_reportIf, fun _ => rfl⟩

/-- **Sequencing.** What follows is only looked at where the first part is clean. -/
theorem bind {k : α → Checked ε β} {w : β} (hx : Meets x P v) (hk : P → Meets (k v) Q w) :
    Meets (x >>= k) (P ∧ Q) w where
  clean := by
    rw [clean_bind, hx.clean]
    exact and_congr_right fun hP => by rw [hx.value hP]; exact (hk hP).clean
  value := fun ⟨hP, hQ⟩ => by
    rw [value_bind, hx.value hP]
    exact (hk hP).value hQ

/-- A result that is changed afterwards. -/
theorem map {g : α → β} (hx : Meets x P v) : Meets (x >>= fun a => Pure.pure (g a)) P (g v) :=
  (hx.bind fun _ => pure (g v)).congr (iff_of_eq (and_true P))

/-- One of two checks. -/
theorem ite {c : Prop} [Decidable c] {y : Checked ε α} (hx : c → Meets x P v)
    (hy : ¬ c → Meets y P v) : Meets (if c then x else y) P v := by
  split
  · next h => exact hx h
  · next h => exact hy h

/-- A rule for every element. -/
theorem forEach {f : α → Checked ε Unit} {R : α → Prop} (hf : ∀ a, Meets (f a) (R a) ())
    (as : List α) : Meets (Checked.forEach f as) (∀ a ∈ as, R a) () :=
  ⟨clean_forEach.trans (forall₂_congr fun a _ => (hf a).clean), fun _ => rfl⟩

end Meets

/-! ## Lists that pass a value along -/

/-- `R` holds of every element with what was passed to it, where `g` says what is passed on. -/
def Along (R : β → α → Prop) (g : β → α → β) : β → List α → Prop
  | _, [] => True
  | b, a :: as => R b a ∧ Along R g (g b a) as

/-- A rule along a loop, round by round. -/
theorem Along.iff_forall {R : β → α → Prop} {g : β → α → β} {b : β} {as : List α} :
    Along R g b as ↔ ∀ i (h : i < as.length), R ((as.take i).foldl g b) as[i] := by
  induction as generalizing b with
  | nil => simp [Along]
  | cons a as ih =>
    rw [Along, ih]
    refine ⟨?_, ?_⟩
    · rintro ⟨ha, has⟩ i hi
      cases i with
      | zero => exact ha
      | succ i => exact has i (by simpa using hi)
    · intro h
      exact ⟨h 0 (by simp), fun i hi => h (i + 1) (by simpa using hi)⟩

/-- **Loops.** A loop meets what its rounds meet, along the values that they compute. -/
theorem Meets.foldM {f : β → α → Checked ε β} {R : β → α → Prop} {g : β → α → β}
    (hf : ∀ b a, Meets (f b a) (R b a) (g b a)) (b : β) (as : List α) :
    Meets (Checked.foldM f b as) (Along R g b as) (as.foldl g b) := by
  induction as generalizing b with
  | nil => exact .pure b
  | cons a as ih => exact (hf b a).bind fun _ => ih (g b a)

end Checked

/-! ## Names that are used once -/

/-- New names, each there once. -/
def Fresh {α : Type} (used : Finset α) (names : List α) : Prop :=
  names.Nodup ∧ ∀ a ∈ names, a ∉ used

namespace Fresh

variable {α : Type} {used : Finset α} {names : List α}

@[simp] theorem nil : Fresh used [] := ⟨List.nodup_nil, by simp⟩

/-- From nothing, new means distinct. -/
theorem empty_iff : Fresh ∅ names ↔ names.Nodup := by simp [Fresh]

variable [DecidableEq α]

/-- One new element before the others. -/
theorem cons_iff {a : α} : Fresh used (a :: names) ↔ a ∉ used ∧ Fresh (insert a used) names := by
  simp only [Fresh, List.nodup_cons, List.forall_mem_cons, Finset.mem_insert, not_or]
  refine ⟨?_, ?_⟩
  · rintro ⟨⟨ha, hnodup⟩, hnew, hnames⟩
    exact ⟨hnew, hnodup, fun b hb => ⟨fun he => ha (he ▸ hb), hnames b hb⟩⟩
  · rintro ⟨hnew, hnodup, hnames⟩
    exact ⟨⟨fun ha => (hnames a ha).1 rfl, hnodup⟩, hnew, fun b hb => (hnames b hb).2⟩

/-- New elements after other ones. -/
theorem append_iff {more : List α} :
    Fresh used (names ++ more) ↔ Fresh used names ∧ Fresh (used ∪ names.toFinset) more := by
  induction names generalizing used with
  | nil => simp
  | cons a names ih =>
    rw [List.cons_append, cons_iff, cons_iff, ih, and_assoc, List.toFinset_cons,
      Finset.union_insert, Finset.insert_union]

end Fresh
