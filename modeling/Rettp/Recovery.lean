import Mathlib.Data.List.Basic

/-!
# Programs that record errors and go on

A program over a state that collects errors (a parser with recovery) does two jobs at once: on
good input it computes a result, on bad input it records errors and carries on. This file
separates the two.

* `Recording` is a state with a list of errors and the ways it may move, all of which append to
  the errors; `Recorder` is the monad of programs that move a state so. What every program does
  to the state is part of its type, and composing programs needs no proof.
* `repeatWhile` is a loop with a bound on its rounds, in any monad.
* `Reports f` says that `f` appends at least one error, whatever the state.
* `Recognition` is the monad of programs that stop at the first failure; they read an
  environment and change a view of the state.
* `Simulates env view R f g` compares a program `f` with such a program `g`: where `g` has a
  result, `f` appends no error, has a result related to it, keeps the environment and ends in
  the same view; where `g` fails, `f` appends an error.

What follows a report does not matter (`Reports.bind_left`), so recovery is dealt with once.
-/

/-- Repeat a body while a condition holds, for at most the given number of rounds. -/
def repeatWhile {m : Type → Type} [Monad m] {α : Type} (cond : α → m Bool) (body : α → m α) :
    Nat → α → m α
  | 0, a => pure a
  | fuel + 1, a => do
    if ← cond a then
      let a ← body a
      repeatWhile cond body fuel a
    else pure a

/-- A state that collects errors, and how programs may move it. -/
structure Recording (σ ε : Type) where
  errors : σ → List ε
  moves : σ → σ → Prop
  refl : ∀ s, moves s s
  trans : ∀ {s t u}, moves s t → moves t u → moves s u
  appends : ∀ {s t}, moves s t → errors s <+: errors t

/-- A program over a recording state. -/
structure Recorder {σ ε : Type} (M : Recording σ ε) (α : Type) where
  run : σ → α × σ
  moves : ∀ s, M.moves s (run s).2

/-- A program that reads an environment, changes a state and may fail. -/
abbrev Recognition (ρ τ : Type) := ReaderT ρ (StateT τ Option)

namespace Recognition

variable {ρ τ α β : Type}

/-- Accept nothing. -/
def fail : Recognition ρ τ α := fun _ _ => none

/-- Look at the environment and the state. -/
def look (get : ρ → τ → α) : Recognition ρ τ α := fun e t => some (get e t, t)

@[simp] theorem run_pure (a : α) (e : ρ) (t : τ) :
    (pure a : Recognition ρ τ α) e t = some (a, t) := rfl

@[simp] theorem run_fail (e : ρ) (t : τ) : (fail : Recognition ρ τ α) e t = none := rfl

@[simp] theorem run_look (get : ρ → τ → α) (e : ρ) (t : τ) :
    (look get : Recognition ρ τ α) e t = some (get e t, t) := rfl

/-- A sequence, once its first part has run. -/
theorem run_bind {g : Recognition ρ τ α} {k : α → Recognition ρ τ β} {e : ρ} {t u : τ} {a : α}
    (h : g e t = some (a, u)) : (g >>= k) e t = k a e u := by
  change (g e t).bind _ = _
  rw [h]
  rfl

/-- A sequence succeeds exactly when both of its parts do. -/
theorem bind_eq_some {g : Recognition ρ τ α} {k : α → Recognition ρ τ β} {e : ρ} {t : τ}
    {r : β × τ} :
    (g >>= k) e t = some r ↔ ∃ a u, g e t = some (a, u) ∧ k a e u = some r := by
  change (g e t).bind _ = _ ↔ _
  rw [Option.bind_eq_some_iff]
  exact ⟨fun ⟨⟨a, u⟩, h, h'⟩ => ⟨a, u, h, h'⟩, fun ⟨a, u, h, h'⟩ => ⟨(a, u), h, h'⟩⟩

theorem bind_eq_none {g : Recognition ρ τ α} {k : α → Recognition ρ τ β} {e : ρ} {t : τ} :
    (g >>= k) e t = none ↔ ∀ a u, g e t = some (a, u) → k a e u = none := by
  change (g e t).bind _ = _ ↔ _
  rw [Option.bind_eq_none_iff]
  exact ⟨fun h a u => h (a, u), fun h r => h r.1 r.2⟩

end Recognition

namespace Recorder

variable {σ ρ τ ε α β α' β' : Type} {M : Recording σ ε}

instance : Monad (Recorder M) where
  pure a := ⟨fun s => (a, s), M.refl⟩
  bind f k := ⟨fun s => (k (f.run s).1).run (f.run s).2,
    fun s => M.trans (f.moves s) ((k _).moves _)⟩

@[simp] theorem run_pure (a : α) (s : σ) : (pure a : Recorder M α).run s = (a, s) := rfl

@[simp] theorem run_bind (f : Recorder M α) (k : α → Recorder M β) (s : σ) :
    (f >>= k).run s = (k (f.run s).1).run (f.run s).2 := rfl

/-- Look at the state. -/
def read (get : σ → α) : Recorder M α := ⟨fun s => (get s, s), M.refl⟩

@[simp] theorem run_read (get : σ → α) (s : σ) : (read get : Recorder M α).run s = (get s, s) :=
  rfl

theorem appends (f : Recorder M α) (s : σ) : M.errors s <+: M.errors (f.run s).2 :=
  M.appends (f.moves s)

/-! ## Reports -/

/-- The program appends at least one error. -/
def Reports (f : Recorder M α) : Prop := ∀ s, M.errors (f.run s).2 ≠ M.errors s

/-- Errors that have grown do not shrink back. -/
theorem errors_ne {f : Recorder M α} {k : Recorder M β} {s : σ}
    (h : M.errors (f.run s).2 ≠ M.errors s) :
    M.errors (k.run (f.run s).2).2 ≠ M.errors s := by
  intro heq
  have hk := k.appends (f.run s).2
  rw [heq] at hk
  exact h (hk.eq_of_length_le (f.appends s).length_le)

/-- After a report anything may follow. -/
theorem Reports.bind_left {f : Recorder M α} (hf : Reports f) (k : α → Recorder M β) :
    Reports (f >>= k) :=
  fun s => errors_ne (hf s)

/-- Before a report anything may happen. -/
theorem Reports.bind_right (f : Recorder M α) {k : α → Recorder M β} (hk : ∀ a, Reports (k a)) :
    Reports (f >>= k) := by
  intro s heq
  have hf := f.appends s
  rw [run_bind] at heq
  rw [← heq] at hf
  exact hk _ _ (((k _).appends _).eq_of_length_le hf.length_le).symm

theorem Reports.ite {c : Prop} [Decidable c] {f g : Recorder M α} (hf : Reports f)
    (hg : Reports g) : Reports (if c then f else g) := by
  split
  · exact hf
  · exact hg

/-! ## Simulation -/

/-- **Simulation.** `f` does what `g` does on the view, and reports an error where `g` fails. -/
structure Simulates (env : σ → ρ) (view : σ → τ) (R : α → β → Prop) (f : Recorder M α)
    (g : Recognition ρ τ β) : Prop where
  agrees : ∀ (s : σ) (b : β) (t : τ), g (env s) (view s) = some (b, t) →
    M.errors (f.run s).2 = M.errors s ∧ R (f.run s).1 b ∧ env (f.run s).2 = env s ∧
      view (f.run s).2 = t
  reports : ∀ s : σ, g (env s) (view s) = none → M.errors (f.run s).2 ≠ M.errors s

namespace Simulates

variable {env : σ → ρ} {view : σ → τ} {R : α → β → Prop} {R' : α' → β' → Prop}

theorem pure {a : α} {b : β} (h : R a b) :
    Simulates env view R (Pure.pure a : Recorder M α) (Pure.pure b) where
  agrees := by
    intro s b' t hg
    obtain ⟨rfl, rfl⟩ := Prod.mk.inj (Option.some.inj hg)
    exact ⟨rfl, h, rfl, rfl⟩
  reports := fun s hg => by cases hg

/-- **Sequencing.** -/
theorem bind {f : Recorder M α} {g : Recognition ρ τ β} {k : α → Recorder M α'}
    {l : β → Recognition ρ τ β'} (hf : Simulates env view R f g)
    (hk : ∀ a b, R a b → Simulates env view R' (k a) (l b)) :
    Simulates env view R' (f >>= k) (g >>= l) where
  agrees := by
    intro s b' t hg
    obtain ⟨b, u, hgb, hl⟩ := Recognition.bind_eq_some.mp hg
    obtain ⟨herr, hR, henv, hview⟩ := hf.agrees s b u hgb
    rw [← henv, ← hview] at hl
    obtain ⟨herr', hR', henv', hview'⟩ := (hk _ b hR).agrees (f.run s).2 b' t hl
    exact ⟨herr'.trans herr, hR', henv'.trans henv, hview'⟩
  reports := by
    intro s hg
    cases hgs : g (env s) (view s) with
    | none => exact errors_ne (hf.reports s hgs)
    | some r =>
      obtain ⟨herr, hR, henv, hview⟩ := hf.agrees s r.1 r.2 hgs
      have hnone := Recognition.bind_eq_none.mp hg r.1 r.2 hgs
      rw [← henv, ← hview] at hnone
      intro heq
      exact (hk _ r.1 hR).reports (f.run s).2 hnone (heq.trans herr.symm)

/-- More work on the result of the failing program only. -/
theorem map_right {f : Recorder M α} {g : Recognition ρ τ β} {h : β → β'} {R' : α → β' → Prop}
    (hf : Simulates env view R f g) (hR : ∀ a b, R a b → R' a (h b)) :
    Simulates env view R' f (g >>= fun b => Pure.pure (h b)) := by
  have hbind : Simulates env view R' (f >>= Pure.pure) (g >>= fun b => Pure.pure (h b)) :=
    .bind hf fun a b hab => .pure (hR a b hab)
  exact hbind

/-- A look at the state with a counterpart in the view. -/
theorem read {get : σ → α} {get' : ρ → τ → β} (h : ∀ s, R (get s) (get' (env s) (view s))) :
    Simulates env view R (Recorder.read get : Recorder M α) (Recognition.look get') where
  agrees := by
    intro s b t hg
    obtain ⟨rfl, rfl⟩ := Prod.mk.inj (Option.some.inj hg)
    exact ⟨rfl, h s, rfl, rfl⟩
  reports := fun s hg => by cases hg

/-- A look at the state without a counterpart. -/
theorem skip {get : σ → α} {k : α → Recorder M α'} {g : Recognition ρ τ β'}
    (hk : ∀ a, Simulates env view R' (k a) g) :
    Simulates env view R' (Recorder.read get >>= k) g where
  agrees := fun s b t hg => (hk (get s)).agrees s b t hg
  reports := fun s hg => (hk (get s)).reports s hg

/-- A program that reports simulates failure. -/
theorem fail {f : Recorder M α} (hf : Reports f) :
    Simulates env view R f Recognition.fail where
  agrees := fun s b t hg => by cases hg
  reports := fun s _ => hf s

theorem ite {c : Prop} [Decidable c] {f f' : Recorder M α} {g g' : Recognition ρ τ β}
    (hf : c → Simulates env view R f g) (hf' : ¬ c → Simulates env view R f' g') :
    Simulates env view R (if c then f else f') (if c then g else g') := by
  split
  · next h => exact hf h
  · next h => exact hf' h

/-- **Loops** with the same number of rounds. -/
theorem loop {cond : α → Recorder M Bool} {cond' : β → Recognition ρ τ Bool}
    {body : α → Recorder M α} {body' : β → Recognition ρ τ β}
    (hcond : ∀ a b, R a b → Simulates env view Eq (cond a) (cond' b))
    (hbody : ∀ a b, R a b → Simulates env view R (body a) (body' b)) (fuel : Nat) {a : α} {b : β}
    (h : R a b) : Simulates env view R (repeatWhile cond body fuel a)
      (repeatWhile cond' body' fuel b) := by
  induction fuel generalizing a b with
  | zero => exact .pure h
  | succ fuel ih =>
    refine .bind (hcond a b h) ?_
    rintro again _ rfl
    exact .ite (fun _ => .bind (hbody a b h) fun a b hab => ih hab) fun _ => .pure h

end Simulates

end Recorder
