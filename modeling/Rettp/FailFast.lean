import Mathlib.Data.List.Forall2

/-!
# Fail-fast sequences

Items are run one after the other, each step transforming a state; after the first result that
is not `ok` the remaining items are not run and get a `skip` result instead.

* `attempted` lists the items that are run, with the state each one starts from;
* `run_skipped_iff`: a result is a skip exactly when an earlier one is not `ok`;
* `map_fst_attempted`: the attempted items are those whose result is not a skip;
* `run_log`: what every step appends to a log is appended in the order of the attempts;
* `run_rel_of_mem`, `run_rel`: related steps give related runs.
-/

namespace FailFast

universe u v w

variable {α : Type u} {σ : Type v} {ρ : Type w}

section Run

variable (step : α → σ → ρ × σ) (ok : ρ → Bool) (skip : α → ρ)

/-- Run the items until one is not `ok`, and skip the rest. -/
def run : List α → σ → List ρ × σ
  | [], s => ([], s)
  | a :: as, s =>
    let (r, s) := step a s
    if ok r then
      let (rs, s) := run as s
      (r :: rs, s)
    else (r :: as.map skip, s)

/-- The items that are run, each with the state it starts from. -/
def attempted : List α → σ → List (α × σ)
  | [], _ => []
  | a :: as, s => (a, s) :: if ok (step a s).1 then attempted as (step a s).2 else []

end Run

variable {step : α → σ → ρ × σ} {ok : ρ → Bool} {skip : α → ρ}

@[simp] theorem run_nil (s : σ) : run step ok skip [] s = ([], s) := rfl

theorem run_cons_ok {a : α} {as : List α} {s : σ} (h : ok (step a s).1 = true) :
    run step ok skip (a :: as) s =
      ((step a s).1 :: (run step ok skip as (step a s).2).1,
        (run step ok skip as (step a s).2).2) := by
  rw [run]
  simp only [h, if_true]

theorem run_cons_fail {a : α} {as : List α} {s : σ} (h : ok (step a s).1 = false) :
    run step ok skip (a :: as) s = ((step a s).1 :: as.map skip, (step a s).2) := by
  rw [run]
  simp only [h, Bool.false_eq_true, if_false]

theorem attempted_cons_ok {a : α} {as : List α} {s : σ} (h : ok (step a s).1 = true) :
    attempted step ok (a :: as) s = (a, s) :: attempted step ok as (step a s).2 := by
  rw [attempted, if_pos h]

theorem attempted_cons_fail {a : α} {as : List α} {s : σ} (h : ok (step a s).1 = false) :
    attempted step ok (a :: as) s = [(a, s)] := by
  rw [attempted, if_neg (by rw [h]; exact Bool.false_ne_true)]

variable (step ok skip) in
/-- Every item gets a result, and the result keeps what both kinds of results keep. -/
theorem forall₂_run (P : α → ρ → Prop) (hstep : ∀ a s, P a (step a s).1)
    (hskip : ∀ a, P a (skip a)) (as : List α) (s : σ) :
    List.Forall₂ P as (run step ok skip as s).1 := by
  induction as generalizing s with
  | nil => exact .nil
  | cons a as ih =>
    cases h : ok (step a s).1 with
    | true =>
      rw [run_cons_ok h]
      exact .cons (hstep a s) (ih _)
    | false =>
      rw [run_cons_fail h]
      refine .cons (hstep a s) ?_
      rw [List.forall₂_map_right_iff]
      exact List.forall₂_same.mpr fun a _ => hskip a

section Skipped

variable (step ok skip) (isSkip : ρ → Bool) (hskip : ∀ a, isSkip (skip a) = true)
  (hstep : ∀ a s, isSkip (step a s).1 = false)

include hskip hstep in
/-- **Skips.** A result is a skip exactly when some earlier result is not `ok`. -/
theorem run_skipped_iff (as : List α) (s : σ) {i : Nat} {r : ρ}
    (hr : (run step ok skip as s).1[i]? = some r) :
    isSkip r = true ↔
      ∃ j < i, ∃ r', (run step ok skip as s).1[j]? = some r' ∧ ok r' = false := by
  induction as generalizing s i with
  | nil => cases hr
  | cons a as ih =>
    cases h : ok (step a s).1 with
    | true =>
      rw [run_cons_ok h] at hr ⊢
      cases i with
      | zero =>
        obtain rfl : (step a s).1 = r := by simpa using hr
        simp [hstep]
      | succ i =>
        rw [ih _ (by simpa using hr)]
        refine ⟨?_, ?_⟩
        · rintro ⟨j, hj, r', hr', hf⟩
          exact ⟨j + 1, by omega, r', by simpa using hr', hf⟩
        · rintro ⟨j, hj, r', hr', hf⟩
          cases j with
          | zero =>
            obtain rfl : (step a s).1 = r' := by simpa using hr'
            rw [h] at hf
            cases hf
          | succ j => exact ⟨j, by omega, r', by simpa using hr', hf⟩
    | false =>
      rw [run_cons_fail h] at hr ⊢
      cases i with
      | zero =>
        obtain rfl : (step a s).1 = r := by simpa using hr
        simp [hstep]
      | succ i =>
        obtain ⟨b, -, rfl⟩ : ∃ b, as[i]? = some b ∧ skip b = r := by simpa using hr
        simp only [hskip, true_iff]
        exact ⟨0, by omega, _, rfl, h⟩

include hskip hstep in
/-- The attempted items are those whose result is not a skip. -/
theorem map_fst_attempted (as : List α) (s : σ) :
    (attempted step ok as s).map Prod.fst =
      ((as.zip (run step ok skip as s).1).filter fun e => !isSkip e.2).map Prod.fst := by
  induction as generalizing s with
  | nil => rfl
  | cons a as ih =>
    cases h : ok (step a s).1 with
    | true =>
      rw [run_cons_ok h, attempted_cons_ok h]
      simp [hstep, ih]
    | false =>
      rw [run_cons_fail h, attempted_cons_fail h]
      have hrest : (as.zip (as.map skip)).filter (fun e => !isSkip e.2) = [] := by
        rw [List.filter_eq_nil_iff]
        intro e he
        obtain ⟨b, -, hb⟩ := List.mem_map.mp (List.of_mem_zip he).2
        simp [← hb, hskip]
      simp [hstep, hrest]

end Skipped

variable (step ok skip) in
/-- **Logs.** Entries that every step appends are appended in the order of the attempts. -/
theorem run_log {ε : Type*} (log : σ → List ε) (entries : α → σ → List ε)
    (h : ∀ a s, log (step a s).2 = log s ++ entries a s) (as : List α) (s : σ) :
    log (run step ok skip as s).2 =
      log s ++ (attempted step ok as s).flatMap fun e => entries e.1 e.2 := by
  induction as generalizing s with
  | nil => simp [attempted]
  | cons a as ih =>
    cases hs : ok (step a s).1 with
    | true =>
      rw [run_cons_ok hs, attempted_cons_ok hs, ih, h]
      simp
    | false =>
      rw [run_cons_fail hs, attempted_cons_fail hs, h]
      simp

variable (step ok skip) in
/-- **Simulation.** Related steps over the given items give related results and related final
states. -/
theorem run_rel_of_mem {σ' : Type*} {ρ' : Type*} (step' : α → σ' → ρ' × σ') (ok' : ρ' → Bool)
    (skip' : α → ρ') (S : σ → σ' → Prop) (R : ρ → ρ' → Prop) (as : List α)
    (hstep : ∀ a ∈ as, ∀ s s', S s s' →
      R (step a s).1 (step' a s').1 ∧ S (step a s).2 (step' a s').2)
    (hskip : ∀ a, R (skip a) (skip' a)) (hok : ∀ r r', R r r' → ok r = ok' r') (s : σ) (s' : σ')
    (hs : S s s') :
    List.Forall₂ R (run step ok skip as s).1 (run step' ok' skip' as s').1 ∧
      S (run step ok skip as s).2 (run step' ok' skip' as s').2 := by
  induction as generalizing s s' with
  | nil => exact ⟨.nil, hs⟩
  | cons a as ih =>
    rw [List.forall_mem_cons] at hstep
    obtain ⟨hr, hs'⟩ := hstep.1 s s' hs
    cases h : ok (step a s).1 with
    | true =>
      rw [run_cons_ok h, run_cons_ok ((hok _ _ hr).symm.trans h)]
      exact ⟨.cons hr (ih hstep.2 _ _ hs').1, (ih hstep.2 _ _ hs').2⟩
    | false =>
      rw [run_cons_fail h, run_cons_fail ((hok _ _ hr).symm.trans h)]
      refine ⟨.cons hr ?_, hs'⟩
      rw [List.forall₂_map_left_iff, List.forall₂_map_right_iff]
      exact List.forall₂_same.mpr fun a _ => hskip a

variable (step ok skip) in
theorem run_rel {σ' : Type*} {ρ' : Type*} (step' : α → σ' → ρ' × σ') (ok' : ρ' → Bool)
    (skip' : α → ρ') (S : σ → σ' → Prop) (R : ρ → ρ' → Prop)
    (hstep : ∀ a s s', S s s' → R (step a s).1 (step' a s').1 ∧ S (step a s).2 (step' a s').2)
    (hskip : ∀ a, R (skip a) (skip' a)) (hok : ∀ r r', R r r' → ok r = ok' r')
    (as : List α) (s : σ) (s' : σ') (hs : S s s') :
    List.Forall₂ R (run step ok skip as s).1 (run step' ok' skip' as s').1 ∧
      S (run step ok skip as s).2 (run step' ok' skip' as s').2 :=
  run_rel_of_mem step ok skip step' ok' skip' S R as (fun a _ => hstep a) hskip hok s s' hs

end FailFast
