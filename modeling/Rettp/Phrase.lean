import Rettp.Recovery

/-!
# Phrases: grammars and the programs that recognize them

A *phrase* over an alphabet relates words to the trees they stand for. Phrases are written like
the productions of a grammar: in a `do` block one phrase follows another, `<|>` is a choice,
`many` and `option` are repetition and option.

`Recognizes F e g p` compares a program that eats tokens from the front of a list with a phrase:
`g` only eats words of `p` and builds their trees (`sound`), and it does eat such a word wherever
what follows it satisfies `F` (`complete`). Words that could go on, such as one with an optional
end, need the condition; the rules below compose it along sequences, choices and loops.
-/

/-- Which words stand for which trees. -/
def Phrase (κ α : Type) : Type := List κ → α → Prop

namespace Phrase

variable {κ α β : Type}

instance : Monad (Phrase κ) where
  pure a := fun w b => w = [] ∧ b = a
  bind p q := fun w b => ∃ u v a, w = u ++ v ∧ p u a ∧ q a v b

instance : OrElse (Phrase κ α) where
  orElse p q := fun w a => p w a ∨ q () w a

/-- No word at all. -/
def never : Phrase κ α := fun _ _ => False

/-- One token, with what it says. -/
def token (reads : κ → Option α) : Phrase κ α := fun w a => ∃ k, w = [k] ∧ reads k = some a

/-- A fixed token. -/
def terminal (k : κ) : Phrase κ Unit := fun w _ => w = [k]

/-- A phrase that may be left out. -/
def option (p : Phrase κ α) : Phrase κ (Option α) :=
  (do let a ← p; pure (some a)) <|> pure none

/-- A phrase any number of times. -/
inductive many (p : Phrase κ α) : Phrase κ (List α)
  | nil : many p [] []
  | cons {u v : List κ} {a : α} {as : List α} (h : p u a) (hs : many p v as) :
      many p (u ++ v) (a :: as)

/-- A phrase at least once. -/
def many1 (p : Phrase κ α) : Phrase κ (List α) := do
  let a ← p
  let as ← many p
  pure (a :: as)

/-- A state passed along a sequence of phrases. -/
inductive iterate (step : α → Phrase κ α) : α → Phrase κ α
  | nil {a : α} : iterate step a [] a
  | cons {a b c : α} {u v : List κ} (h : step a u b) (hs : iterate step b v c) :
      iterate step a (u ++ v) c

/-! ## What stands for what -/

@[simp] theorem pure_iff {a b : α} {w : List κ} :
    (pure a : Phrase κ α) w b ↔ w = [] ∧ b = a := Iff.rfl

theorem bind_iff {p : Phrase κ α} {q : α → Phrase κ β} {w : List κ} {b : β} :
    (p >>= q) w b ↔ ∃ u v a, w = u ++ v ∧ p u a ∧ q a v b := Iff.rfl

@[simp] theorem orElse_iff {p q : Phrase κ α} {w : List κ} {a : α} :
    (p <|> q) w a ↔ p w a ∨ q w a := Iff.rfl

@[simp] theorem never_iff {w : List κ} {a : α} : (never : Phrase κ α) w a ↔ False := Iff.rfl

@[simp] theorem terminal_iff {k : κ} {w : List κ} {u : Unit} : terminal k w u ↔ w = [k] :=
  Iff.rfl

@[simp] theorem token_iff {reads : κ → Option α} {w : List κ} {a : α} :
    token reads w a ↔ ∃ k, w = [k] ∧ reads k = some a := Iff.rfl

@[simp] theorem terminal_bind_iff {k : κ} {q : Unit → Phrase κ β} {w : List κ} {b : β} :
    (terminal k >>= q) w b ↔ ∃ v, w = k :: v ∧ q () v b := by
  refine ⟨?_, ?_⟩
  · rintro ⟨u, v, _, rfl, rfl, h⟩
    exact ⟨v, rfl, h⟩
  · rintro ⟨v, rfl, h⟩
    exact ⟨[k], v, (), rfl, rfl, h⟩

/-- A phrase whose tree is worked on. -/
@[simp] theorem bind_pure_iff {p : Phrase κ α} {f : α → β} {w : List κ} {b : β} :
    (p >>= fun a => pure (f a)) w b ↔ ∃ a, p w a ∧ b = f a := by
  refine ⟨?_, ?_⟩
  · rintro ⟨u, v, a, rfl, h, rfl, rfl⟩
    rw [List.append_nil]
    exact ⟨a, h, rfl⟩
  · rintro ⟨a, h, rfl⟩
    exact ⟨w, [], a, w.append_nil.symm, h, rfl, rfl⟩

@[ext] theorem ext {p q : Phrase κ α} (h : ∀ w a, p w a ↔ q w a) : p = q :=
  funext fun w => funext fun a => propext (h w a)

theorem bind_pure_self (p : Phrase κ α) : (p >>= fun a => pure a) = p := by
  ext w a
  exact bind_pure_iff.trans ⟨fun ⟨_, h, heq⟩ => heq ▸ h, fun h => ⟨a, h, rfl⟩⟩

@[simp] theorem map_iff {p : Phrase κ α} {f : α → β} {w : List κ} {b : β} :
    (f <$> p) w b ↔ ∃ a, p w a ∧ b = f a := bind_pure_iff

theorem pure_bind_eq (a : α) (k : α → Phrase κ β) : (pure a >>= k) = k a := by
  ext w b
  refine ⟨?_, ?_⟩
  · rintro ⟨_, v, _, rfl, ⟨rfl, rfl⟩, h⟩
    exact h
  · intro h
    exact ⟨[], w, a, rfl, ⟨rfl, rfl⟩, h⟩

theorem bind_bind {γ : Type} (p : Phrase κ α) (k : α → Phrase κ β) (l : β → Phrase κ γ) :
    (p >>= k >>= l) = (p >>= fun a => k a >>= l) := by
  ext w c
  refine ⟨?_, ?_⟩
  · rintro ⟨_, z, b, rfl, ⟨u, v, a, rfl, ha, hb⟩, hc⟩
    exact ⟨u, v ++ z, a, List.append_assoc _ _ _, ha, v, z, b, rfl, hb, hc⟩
  · rintro ⟨u, _, a, rfl, ha, v, z, b, rfl, hb, hc⟩
    exact ⟨u ++ v, z, b, (List.append_assoc _ _ _).symm, ⟨u, v, a, rfl, ha, hb⟩, hc⟩

instance : LawfulMonad (Phrase κ) :=
  LawfulMonad.mk' _ bind_pure_self pure_bind_eq bind_bind

@[simp] theorem orElse_bind (p q : Phrase κ α) (k : α → Phrase κ β) :
    ((p <|> q) >>= k) = (p >>= k <|> q >>= k) := by
  ext w b
  refine ⟨?_, ?_⟩
  · rintro ⟨u, v, a, rfl, hp | hq, h⟩
    · exact .inl ⟨u, v, a, rfl, hp, h⟩
    · exact .inr ⟨u, v, a, rfl, hq, h⟩
  · rintro (⟨u, v, a, rfl, hp, h⟩ | ⟨u, v, a, rfl, hq, h⟩)
    · exact ⟨u, v, a, rfl, .inl hp, h⟩
    · exact ⟨u, v, a, rfl, .inr hq, h⟩

theorem bind_orElse (p : Phrase κ α) (k l : α → Phrase κ β) :
    (p >>= fun a => k a <|> l a) = (p >>= k <|> p >>= l) := by
  ext w b
  refine ⟨?_, ?_⟩
  · rintro ⟨u, v, a, rfl, h, hk | hl⟩
    · exact .inl ⟨u, v, a, rfl, h, hk⟩
    · exact .inr ⟨u, v, a, rfl, h, hl⟩
  · rintro (⟨u, v, a, rfl, h, hk⟩ | ⟨u, v, a, rfl, h, hl⟩)
    · exact ⟨u, v, a, rfl, h, .inl hk⟩
    · exact ⟨u, v, a, rfl, h, .inr hl⟩

/-- A condition that must not hold may be checked early. -/
theorem bind_unless (c : Prop) [Decidable c] (p : Phrase κ α) (k : α → Phrase κ β) :
    (p >>= fun a => if c then never else k a) = if c then never else p >>= k := by
  split
  · ext w b
    exact iff_of_false (fun ⟨_, _, _, _, _, h⟩ => h) id
  · rfl

theorem many1_iff {p : Phrase κ α} {w : List κ} {as : List α} :
    many1 p w as ↔ many p w as ∧ as ≠ [] := by
  refine ⟨?_, ?_⟩
  · rintro ⟨u, _, a, rfl, ha, v, _, as, rfl, has, rfl, rfl⟩
    rw [List.append_nil]
    exact ⟨.cons ha has, List.cons_ne_nil a as⟩
  · rintro ⟨h, hne⟩
    cases h with
    | nil => exact absurd rfl hne
    | @cons u v a as ha has =>
      exact ⟨u, v, a, rfl, ha, v, [], as, v.append_nil.symm, has, rfl, rfl⟩

/-- Repetitions, without the empty one. -/
theorem many_unless_nil (p : Phrase κ α) (k : List α → Phrase κ β) :
    (many p >>= fun as => if as.isEmpty = true then never else k as) = many1 p >>= k := by
  ext w b
  refine ⟨?_, ?_⟩
  · rintro ⟨u, v, as, rfl, has, h⟩
    split at h
    · exact h.elim
    · next hne => exact ⟨u, v, as, rfl, many1_iff.mpr ⟨has, by simpa using hne⟩, h⟩
  · rintro ⟨u, v, as, rfl, has, h⟩
    obtain ⟨has, hne⟩ := many1_iff.mp has
    refine ⟨u, v, as, rfl, has, ?_⟩
    change (if as.isEmpty = true then never else k as) v b
    rw [if_neg (by simpa using hne)]
    exact h

/-- An iteration that collects trees repeats a phrase. -/
theorem iterate_iff_many {p : Phrase κ α} {step : List α → Phrase κ (List α)}
    (hstep : ∀ as w bs, step as w bs ↔ ∃ a, p w a ∧ bs = as ++ [a]) (as : List α) (w : List κ)
    (bs : List α) : iterate step as w bs ↔ ∃ cs, many p w cs ∧ bs = as ++ cs := by
  refine ⟨?_, ?_⟩
  · intro h
    induction h with
    | nil => exact ⟨[], .nil, (List.append_nil _).symm⟩
    | cons h _ ih =>
      obtain ⟨a, ha, rfl⟩ := (hstep _ _ _).mp h
      obtain ⟨cs, hcs, rfl⟩ := ih
      exact ⟨a :: cs, .cons ha hcs, List.append_assoc _ _ _⟩
  · rintro ⟨cs, h, rfl⟩
    induction h generalizing as with
    | nil =>
      rw [List.append_nil]
      exact .nil
    | @cons u v a cs ha _ ih =>
      rw [List.append_cons]
      exact .cons ((hstep _ _ _).mpr ⟨a, ha, rfl⟩) (ih (as ++ [a]))

/-! ## What trees inherit from tokens -/

/-- The trees of words over tokens with `P` have `Q`. -/
def Yields (P : κ → Prop) (Q : α → Prop) (p : Phrase κ α) : Prop :=
  ∀ w a, p w a → (∀ k ∈ w, P k) → Q a

namespace Yields

variable {P : κ → Prop} {Q Q' : α → Prop} {R : β → Prop} {p p' : Phrase κ α}
  {k : α → Phrase κ β}

theorem mono (h : Yields P Q p) (hQ : ∀ a, Q a → Q' a) : Yields P Q' p :=
  fun w a hp hw => hQ a (h w a hp hw)

/-- Nothing is asked of the trees. -/
theorem trivial : Yields P (fun _ => True) p := fun _ _ _ _ => True.intro

theorem never : Yields P Q never := fun _ _ h => h.elim

theorem pure {a : α} (h : Q a) : Yields P Q (Pure.pure a) := by
  rintro w b ⟨-, rfl⟩ -
  exact h

theorem token {reads : κ → Option α} (h : ∀ k a, reads k = some a → P k → Q a) :
    Yields P Q (Phrase.token reads) := by
  rintro w a ⟨k, rfl, hk⟩ hw
  exact h k a hk (hw k (List.mem_singleton_self k))

theorem bind (hp : Yields P Q p) (hk : ∀ a, Q a → Yields P R (k a)) :
    Yields P R (p >>= k) := by
  rintro w b ⟨u, v, a, rfl, ha, hb⟩ hw
  obtain ⟨hu, hv⟩ := List.forall_mem_append.mp hw
  exact hk a (hp u a ha hu) v b hb hv

/-- The first tree does not matter. -/
theorem next (hk : ∀ a, Yields P R (k a)) : Yields P R (p >>= k) :=
  trivial.bind fun a _ => hk a

theorem orElse (hp : Yields P Q p) (hp' : Yields P Q p') : Yields P Q (p <|> p') := by
  rintro w a (h | h) hw
  · exact hp w a h hw
  · exact hp' w a h hw

theorem many (hp : Yields P Q p) : Yields P (fun as => ∀ a ∈ as, Q a) (many p) := by
  intro w as h hw
  induction h with
  | nil => exact List.forall_mem_nil _
  | cons h _ ih =>
    obtain ⟨hu, hv⟩ := List.forall_mem_append.mp hw
    exact List.forall_mem_cons.mpr ⟨hp _ _ h hu, ih hv⟩

theorem many1 (hp : Yields P Q p) : Yields P (fun as => ∀ a ∈ as, Q a) (many1 p) :=
  fun w as h hw => hp.many w as (many1_iff.mp h).1 hw

end Yields

end Phrase

namespace Recognition

variable {ρ κ α β : Type}

/-- The program recognizes the phrase, in front of what satisfies `F`. -/
structure Recognizes (F : Option κ → Prop) (e : ρ) (g : Recognition ρ (List κ) α)
    (p : Phrase κ α) : Prop where
  sound : ∀ ts a us, g e ts = some (a, us) → ∃ w, ts = w ++ us ∧ p w a
  complete : ∀ w a us, p w a → F us.head? → g e (w ++ us) = some (a, us)

/-- In front of anything. -/
abbrev anywhere : Option κ → Prop := fun _ => True

namespace Recognizes

variable {F G : Option κ → Prop} {e : ρ} {g : Recognition ρ (List κ) α} {p q : Phrase κ α}

theorem congr (h : Recognizes F e g p) (hpq : ∀ w a, p w a ↔ q w a) : Recognizes F e g q where
  sound ts a us hg := by
    obtain ⟨w, hw, hp⟩ := h.sound ts a us hg
    exact ⟨w, hw, (hpq w a).mp hp⟩
  complete w a us hq := h.complete w a us ((hpq w a).mpr hq)

theorem mono (h : Recognizes F e g p) (hFG : ∀ next, G next → F next) : Recognizes G e g p where
  sound := h.sound
  complete w a us hp hG := h.complete w a us hp (hFG _ hG)

theorem pure (a : α) : Recognizes F e (Pure.pure a) (Pure.pure a : Phrase κ α) where
  sound ts b us hg := by
    obtain ⟨rfl, rfl⟩ := Prod.mk.inj (Option.some.inj hg)
    exact ⟨[], rfl, rfl, rfl⟩
  complete w b us := by
    rintro ⟨rfl, rfl⟩ _
    rfl

theorem fail : Recognizes F e (fail : Recognition ρ (List κ) α) Phrase.never where
  sound _ _ _ hg := by cases hg
  complete _ _ _ hp := hp.elim

/-- **Sequencing.** The second phrase and what follows it must be able to follow the first. -/
theorem bind {k : α → Recognition ρ (List κ) β} {q : α → Phrase κ β} (hg : Recognizes F e g p)
    (hk : ∀ a, Recognizes G e (k a) (q a))
    (hfollow : ∀ a v b us, q a v b → G us.head? → F (v ++ us).head?) :
    Recognizes G e (g >>= k) (p >>= q) where
  sound ts b us h := by
    obtain ⟨a, vs, hga, hka⟩ := bind_eq_some.mp h
    obtain ⟨u, rfl, hu⟩ := hg.sound ts a vs hga
    obtain ⟨v, rfl, hv⟩ := (hk a).sound vs b us hka
    exact ⟨u ++ v, (List.append_assoc _ _ _).symm, u, v, a, rfl, hu, hv⟩
  complete w b us := by
    rintro ⟨u, v, a, rfl, hu, hv⟩ hG
    rw [List.append_assoc, run_bind (hg.complete u a (v ++ us) hu (hfollow a v b us hv hG))]
    exact (hk a).complete v b us hv hG

/-- Sequencing after a phrase that may stand anywhere. -/
theorem next {k : α → Recognition ρ (List κ) β} {q : α → Phrase κ β}
    (hg : Recognizes anywhere e g p) (hk : ∀ a, Recognizes G e (k a) (q a)) :
    Recognizes G e (g >>= k) (p >>= q) :=
  .bind hg hk fun _ _ _ _ _ _ => trivial

/-- A last step that only works on the tree. -/
theorem map {f : α → β} (hg : Recognizes F e g p) :
    Recognizes F e (g >>= fun a => Pure.pure (f a)) (p >>= fun a => Pure.pure (f a)) := by
  refine .bind hg (fun _ => .pure _) ?_
  rintro a v b us ⟨rfl, -⟩ hF
  exact hF

/-- **Looking ahead.** The program may be compared case by case on the next token. -/
theorem look {get : ρ → List κ → α} {k : α → Recognition ρ (List κ) β} {q : Phrase κ β}
    (h : ∀ ts b us, k (get e ts) e ts = some (b, us) → ∃ w, ts = w ++ us ∧ q w b)
    (h' : ∀ w b us, q w b → F us.head? → k (get e (w ++ us)) e (w ++ us) = some (b, us)) :
    Recognizes F e (Recognition.look get >>= k) q where
  sound ts b us hg := h ts b us hg
  complete w b us hq hF := h' w b us hq hF

/-- An answer that may be missing, where a missing one is a failure. -/
theorem demand {f : Recognition ρ (List κ) (Option α)} {c : Option α → Recognition ρ (List κ) β}
    {q : α → Phrase κ β}
    (hf : Recognizes F e (f >>= fun r => r.elim Recognition.fail Pure.pure) p)
    (hnone : c none = Recognition.fail) (hc : ∀ a, Recognizes G e (c (some a)) (q a))
    (hfollow : ∀ a v b us, q a v b → G us.head? → F (v ++ us).head?) :
    Recognizes G e (f >>= c) (p >>= q) := by
  have hsplit : f >>= c =
      (f >>= fun r => r.elim Recognition.fail Pure.pure) >>= fun a => c (some a) := by
    funext e ts
    change (f e ts).bind _ = ((f e ts).bind _).bind _
    rcases f e ts with _ | ⟨_ | a, us⟩
    · rfl
    · exact congrFun (congrFun hnone e) us
    · rfl
  rw [hsplit]
  exact .bind hf hc hfollow

/-- **Loops.** A loop stops at a token that no round starts with. -/
theorem loop {stop : κ → Bool} {body : α → Recognition ρ (List κ) α} {step : α → Phrase κ α}
    (hbody : ∀ a, Recognizes F e (body a) (step a))
    (hfirst : ∀ a w b, step a w b → ∃ k v, w = k :: v ∧ stop k = false ∧ F (some k)) (a : α) :
    Recognizes (fun next => next.all stop ∧ F next) e
      (do
        repeatWhile (fun _ => Recognition.look fun _ ts => !ts.isEmpty && !ts.head?.any stop) body
          (← Recognition.look fun _ ts => ts.length) a)
      (Phrase.iterate step a) where
  sound ts b us hg := by
    replace hg : repeatWhile _ body ts.length a e ts = some (b, us) := hg
    generalize ts.length = fuel at hg
    induction fuel generalizing a ts with
    | zero =>
      obtain ⟨rfl, rfl⟩ := Prod.mk.inj (Option.some.inj hg)
      exact ⟨[], rfl, .nil⟩
    | succ fuel ih =>
      rw [repeatWhile, run_bind (run_look _ _ _)] at hg
      split at hg
      · obtain ⟨a', vs, hb, hloop⟩ := bind_eq_some.mp hg
        obtain ⟨u, rfl, hu⟩ := (hbody a).sound ts a' vs hb
        obtain ⟨v, rfl, hv⟩ := ih a' vs hloop
        exact ⟨u ++ v, (List.append_assoc _ _ _).symm, .cons hu hv⟩
      · obtain ⟨rfl, rfl⟩ := Prod.mk.inj (Option.some.inj hg)
        exact ⟨[], rfl, .nil⟩
  complete w b us hw hF := by
    -- the rounds are counted by the tokens left, and every round reads at least one
    suffices h : ∀ fuel, (w ++ us).length ≤ fuel →
        repeatWhile _ body fuel a e (w ++ us) = some (b, us) from h _ (Nat.le_refl _)
    intro fuel hfuel
    induction hw generalizing fuel with
    | nil =>
      cases fuel with
      | zero => rfl
      | succ fuel =>
        rw [repeatWhile, run_bind (run_look _ _ _)]
        cases us with
        | nil => rfl
        | cons k us =>
          have hk : stop k = true := hF.1
          simp [hk]
    | @cons a a' b u v hu hv ih =>
      obtain ⟨k, u', rfl, hk, -⟩ := hfirst a u a' hu
      cases fuel with
      | zero => simp at hfuel
      | succ fuel =>
        -- what follows the first round is the first token of the next one, or the stop
        have hnext : F (v ++ us).head? := by
          cases hv with
          | nil => exact hF.2
          | cons hu' _ =>
            obtain ⟨k', v', rfl, -, hF'⟩ := hfirst _ _ _ hu'
            exact hF'
        rw [repeatWhile, run_bind (run_look _ _ _), List.append_assoc]
        have hgoes : (!(k :: u' ++ (v ++ us)).isEmpty && !(k :: u' ++ (v ++ us)).head?.any stop) =
            true := by
          simp [hk]
        rw [if_pos hgoes, run_bind ((hbody a).complete _ a' (v ++ us) hu hnext)]
        refine ih fuel ?_
        simp only [List.cons_append, List.length_cons, List.length_append] at hfuel ⊢
        omega

/-- A loop with enough rounds ends at the end or at a token that stops it. -/
theorem loop_stops {stop : κ → Bool} {body : α → Recognition ρ (List κ) α} {step : α → Phrase κ α}
    (hbody : ∀ a, Recognizes F e (body a) (step a))
    (hfirst : ∀ a w b, step a w b → ∃ k v, w = k :: v ∧ stop k = false ∧ F (some k)) (fuel : Nat)
    {a b : α} {ts us : List κ} (hfuel : ts.length ≤ fuel)
    (h : repeatWhile (fun _ => Recognition.look fun _ ts => !ts.isEmpty && !ts.head?.any stop) body
      fuel a e ts = some (b, us)) : us.head?.all stop = true := by
  induction fuel generalizing a ts with
  | zero =>
    obtain ⟨rfl, rfl⟩ := Prod.mk.inj (Option.some.inj h)
    rw [List.length_eq_zero_iff.mp (Nat.le_zero.mp hfuel)]
    rfl
  | succ fuel ih =>
    rw [repeatWhile, run_bind (run_look _ _ _)] at h
    split at h
    · obtain ⟨a', vs, hround, hloop⟩ := bind_eq_some.mp h
      obtain ⟨u, rfl, hu⟩ := (hbody a).sound ts a' vs hround
      obtain ⟨k, v, rfl, -⟩ := hfirst a u a' hu
      refine ih ?_ hloop
      simp only [List.cons_append, List.length_cons, List.length_append] at hfuel
      omega
    · next hstop =>
      obtain ⟨rfl, rfl⟩ := Prod.mk.inj (Option.some.inj h)
      cases ts with
      | nil => rfl
      | cons k ts => simpa using hstop

end Recognizes

end Recognition
