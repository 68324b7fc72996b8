import Rettp.Recovery

/-!
# Runs in lockstep

Two runs of recording programs, compared step by step, and the rounds of a loop.

* `Lockstep S T f g` says that from states related by `S` the programs `f` and `g` have the same
  result and end in states related by `T`. With `S` a relation between two states it compares
  runs on different inputs; with `S s s'` a property of `s = s'` it is an invariant of one run.
* `repeatWhile_ends` is the rule of a loop whose rounds all make progress: with enough rounds it
  ends because its condition fails, and it keeps whatever a round keeps.
-/

namespace Recorder

variable {σ ε α β : Type} {M : Recording σ ε} {S S' T T' U : σ → σ → Prop}

/-- From states related by `S`, both programs have the same result and end in states related by
`T`. -/
def Lockstep (S T : σ → σ → Prop) (f g : Recorder M α) : Prop :=
  ∀ s s', S s s' → (f.run s).1 = (g.run s').1 ∧ T (f.run s).2 (g.run s').2

namespace Lockstep

theorem pure (a : α) : Lockstep S S (Pure.pure a : Recorder M α) (Pure.pure a) :=
  fun _ _ h => ⟨rfl, h⟩

theorem bind {f g : Recorder M α} {k l : α → Recorder M β} (hf : Lockstep S T f g)
    (hk : ∀ a, Lockstep T U (k a) (l a)) : Lockstep S U (f >>= k) (g >>= l) := by
  intro s s' h
  obtain ⟨heq, hT⟩ := hf s s' h
  rw [run_bind, run_bind, ← heq]
  exact hk _ _ _ hT

theorem conseq {f g : Recorder M α} (hpre : ∀ s s', S' s s' → S s s')
    (hpost : ∀ s s', T s s' → T' s s') (hf : Lockstep S T f g) : Lockstep S' T' f g := by
  intro s s' h
  obtain ⟨heq, hT⟩ := hf s s' (hpre s s' h)
  exact ⟨heq, hpost _ _ hT⟩

theorem ite {c : Prop} [Decidable c] {f f' g g' : Recorder M α} (hf : c → Lockstep S T f g)
    (hf' : ¬ c → Lockstep S T f' g') :
    Lockstep S T (if c then f else f') (if c then g else g') := by
  split
  · next h => exact hf h
  · next h => exact hf' h

/-- **Loops** with the same number of rounds, whose condition reads the state. -/
theorem loop (again : α → σ → Bool) (body : α → Recorder M α)
    (hagain : ∀ a s s', S s s' → again a s = again a s')
    (hbody : ∀ a, Lockstep (fun s s' => S s s' ∧ again a s = true) S (body a) (body a))
    (fuel : Nat) (a : α) :
    Lockstep S S (repeatWhile (fun a => Recorder.read (again a)) body fuel a)
      (repeatWhile (fun a => Recorder.read (again a)) body fuel a) := by
  induction fuel generalizing a with
  | zero => exact pure a
  | succ fuel ih =>
    intro s s' hS
    rw [repeatWhile, run_bind, run_bind, run_read, run_read, ← hagain a s s' hS]
    cases h : again a s with
    | true =>
      rw [if_pos rfl]
      exact (bind (hbody a) ih) s s' ⟨hS, h⟩
    | false => exact ⟨rfl, hS⟩

end Lockstep

/-- **The loop rule.** Where every round makes progress and there are enough rounds, the loop
ends because its condition fails, in a state that keeps the invariant. -/
theorem repeatWhile_ends (again : α → σ → Bool) (body : α → Recorder M α) (measure : σ → Nat)
    {I : α → σ → Prop}
    (hround : ∀ a s, I a s → again a s = true →
      I ((body a).run s).1 ((body a).run s).2 ∧ measure ((body a).run s).2 < measure s)
    {fuel : Nat} {a : α} {s : σ} (hfuel : measure s ≤ fuel) (h : I a s) :
    let r := (repeatWhile (fun a => Recorder.read (again a)) body fuel a).run s
    I r.1 r.2 ∧ again r.1 r.2 = false := by
  induction fuel generalizing a s with
  | zero =>
    refine ⟨h, ?_⟩
    cases hagain : again a s with
    | false => exact hagain
    | true =>
      have hlt := (hround a s h hagain).2
      omega
  | succ fuel ih =>
    rw [repeatWhile, run_bind, run_read]
    cases hagain : again a s with
    | true =>
      obtain ⟨hI, hlt⟩ := hround a s h hagain
      rw [if_pos rfl, run_bind]
      exact ih (Nat.le_of_lt_succ (Nat.lt_of_lt_of_le hlt hfuel)) hI
    | false => exact ⟨h, hagain⟩

end Recorder
