import Mathlib.Data.List.Basic

/-!
# Processes

A process calls its surroundings, one call after the other, and goes on with the answers.

* `After p trace q`: the calls and answers of `trace` turn `p` into `q`. Every moment of every run
  is of this form; `Runs p trace a` is a whole run.
* `perform` runs a process in surroundings that answer by a function, and `Answers` says that a
  trace is what they answer; a stopped run is a part of the whole one (`perform_after`).
* `Holds` is a logic of pre- and postconditions with a condition that must hold at every moment,
  also while a call is under way, so that it says what a run leaves behind wherever it is cut off.
* `Effects.recorded` keeps a `History` of the calls and of all earlier states; what holds at every
  moment holds of all the states in it (`Holds.recorded`).
* `race` runs a process until it is done or a signal stops it; the signal is polled first, at the
  start and wherever the process awaits an answer.
-/

/-- A program that talks with its surroundings: it is done, or it makes a call and goes on with the
answer. -/
inductive Process (Call : Type) (Answer : Call → Type) (α : Type) where
  | done (a : α)
  | call (c : Call) (next : Answer c → Process Call Answer α)

namespace Process

variable {Call : Type} {Answer : Call → Type} {α β σ : Type}

/-- A call with the answer to it. -/
abbrev Event (Answer : Call → Type) := (c : Call) × Answer c

/-- Go on with the result of a process. -/
protected def bind : Process Call Answer α → (α → Process Call Answer β) → Process Call Answer β
  | done a, f => f a
  | call c next, f => call c fun answer => (next answer).bind f

instance : Monad (Process Call Answer) where
  pure := done
  bind := Process.bind

/-- Make one call. -/
def ask (c : Call) : Process Call Answer (Answer c) := call c done

theorem done_bind (a : α) (f : α → Process Call Answer β) : done a >>= f = f a := rfl

/-! ## Runs -/

/-- The calls and answers of the trace turn the process into another one. -/
inductive After : Process Call Answer α → List (Event Answer) → Process Call Answer α → Prop
  | start (p : Process Call Answer α) : After p [] p
  | call {c : Call} {next : Answer c → Process Call Answer α} {answer : Answer c}
      {trace : List (Event Answer)} {q : Process Call Answer α}
      (h : After (next answer) trace q) : After (call c next) (⟨c, answer⟩ :: trace) q

/-- A whole run, with its result. -/
abbrev Runs (p : Process Call Answer α) (trace : List (Event Answer)) (a : α) : Prop :=
  p.After trace (done a)

variable {p q : Process Call Answer α} {f : α → Process Call Answer β}
  {trace : List (Event Answer)}

/-- A process that is done makes no call. -/
theorem after_done_iff {a : α} : (done a).After trace q ↔ trace = [] ∧ q = done a := by
  refine ⟨?_, ?_⟩
  · intro h
    cases h
    exact ⟨rfl, rfl⟩
  · rintro ⟨rfl, rfl⟩
    exact .start _

/-- One call makes one event. -/
theorem runs_ask_iff {c : Call} {answer : Answer c} :
    (ask c).Runs trace answer ↔ trace = [⟨c, answer⟩] := by
  refine ⟨?_, ?_⟩
  · intro h
    cases h with
    | call h =>
      obtain ⟨rfl, hanswer⟩ := after_done_iff.mp h
      rw [done.inj hanswer]
  · rintro rfl
    exact .call (.start _)

/-- A part of the first process is a part of both. -/
theorem After.bind (h : p.After trace q) (f : α → Process Call Answer β) :
    (p >>= f).After trace (q >>= f) := by
  induction h with
  | start => exact .start _
  | call _ ih => exact .call ih

/-- What comes after what comes after. -/
theorem After.trans {r : Process Call Answer α} {after : List (Event Answer)}
    (h : p.After trace q) (h' : q.After after r) : p.After (trace ++ after) r := by
  induction h with
  | start => exact h'
  | call _ ih => exact .call (ih h')

/-- A whole run of the first process, then a part of the second. -/
theorem Runs.bind {a : α} {after : List (Event Answer)} {r : Process Call Answer β}
    (h : p.Runs trace a) (hf : (f a).After after r) : (p >>= f).After (trace ++ after) r :=
  (After.bind h f).trans hf

/-- A moment of a sequence is in its first part, or in the second one after a whole run of the
first. -/
theorem after_bind {r : Process Call Answer β} (h : (p >>= f).After trace r) :
    (∃ p', p.After trace p' ∧ r = p' >>= f) ∨
      ∃ before a after, trace = before ++ after ∧ p.Runs before a ∧ (f a).After after r := by
  induction p generalizing trace with
  | done a => exact .inr ⟨[], a, trace, rfl, .start _, h⟩
  | call c next ih =>
    cases h with
    | start => exact .inl ⟨_, .start _, rfl⟩
    | call h =>
      rcases ih _ h with ⟨p', hp', rfl⟩ | ⟨before, a, after, rfl, hbefore, hafter⟩
      · exact .inl ⟨p', .call hp', rfl⟩
      · exact .inr ⟨_, a, after, rfl, .call hbefore, hafter⟩

/-- A function of the result does not take a step. -/
theorem after_map {g : α → β} {r : Process Call Answer β}
    (h : (p >>= fun a => done (g a)).After trace r) :
    ∃ p', p.After trace p' ∧ r = p' >>= fun a => done (g a) := by
  rcases after_bind h with h | ⟨before, a, after, rfl, hbefore, hafter⟩
  · exact h
  · obtain ⟨rfl, rfl⟩ := after_done_iff.mp hafter
    exact ⟨done a, by rwa [List.append_nil], rfl⟩

/-- **A run of two processes** is a run of the one and then of the other. -/
theorem runs_bind_iff {b : β} : (p >>= f).Runs trace b ↔
    ∃ before a after, trace = before ++ after ∧ p.Runs before a ∧ (f a).Runs after b := by
  refine ⟨?_, ?_⟩
  · intro h
    rcases after_bind h with ⟨p', hp', hdone⟩ | h
    · cases p' with
      | done a =>
        have hdone : done b = f a := hdone
        exact ⟨trace, a, [], (List.append_nil _).symm, hp', hdone ▸ .start _⟩
      | call c next => cases hdone
    · exact h
  · rintro ⟨before, a, after, rfl, hbefore, hafter⟩
    exact hbefore.bind hafter

/-- Two whole runs with the same answers are the same. -/
theorem Runs.unique {before before' whole : List (Event Answer)} {a a' : α}
    (h : p.Runs before a) (h' : p.Runs before' a') (hbefore : before <+: whole)
    (hbefore' : before' <+: whole) : before = before' ∧ a = a' := by
  induction p generalizing before before' whole with
  | done b =>
    obtain ⟨rfl, ha⟩ := after_done_iff.mp h
    obtain ⟨rfl, ha'⟩ := after_done_iff.mp h'
    exact ⟨rfl, done.inj (ha.trans ha'.symm)⟩
  | call c next ih =>
    cases h with
    | @call _ _ answer rest _ h =>
      cases h' with
      | @call _ _ answer' rest' _ h' =>
        cases whole with
        | nil => exact absurd (List.prefix_nil.mp hbefore) (List.cons_ne_nil _ _)
        | cons event whole =>
          obtain ⟨heq, hrest⟩ := List.cons_prefix_cons.mp hbefore
          obtain ⟨heq', hrest'⟩ := List.cons_prefix_cons.mp hbefore'
          obtain ⟨-, hanswer⟩ := Sigma.mk.inj (heq.trans heq'.symm)
          obtain rfl := eq_of_heq hanswer
          obtain ⟨rfl, ha⟩ := ih answer h h' hrest hrest'
          exact ⟨rfl, ha⟩

/-! ## The calls that a process can make -/

/-- Every call that the process can make satisfies the predicate. -/
def Calls (P : Call → Prop) : Process Call Answer α → Prop
  | done _ => True
  | call c next => P c ∧ ∀ answer, (next answer).Calls P

namespace Calls

variable {P : Call → Prop}

theorem done (a : α) : (done a : Process Call Answer α).Calls P := trivial

/-- One call. -/
theorem ask {c : Call} (h : P c) : (ask c : Process Call Answer (Answer c)).Calls P :=
  ⟨h, fun _ => trivial⟩

theorem bind (h : p.Calls P) (hf : ∀ a, (f a).Calls P) : (p >>= f).Calls P := by
  induction p with
  | done a => exact hf a
  | call c next ih => exact ⟨h.1, fun answer => ih answer (h.2 answer)⟩

/-- The same calls, said more generously. -/
theorem mono {P' : Call → Prop} (h : p.Calls P) (hP : ∀ c, P c → P' c) : p.Calls P' := by
  induction p with
  | done a => trivial
  | call c next ih => exact ⟨hP c h.1, fun answer => ih answer (h.2 answer)⟩

/-- Every call that was made is one that can be made. -/
theorem of_after (h : p.Calls P) (hafter : p.After trace q) :
    ∀ event ∈ trace, P event.1 := by
  induction hafter with
  | start => exact fun _ hevent => absurd hevent List.not_mem_nil
  | call _ ih => exact List.forall_mem_cons.mpr ⟨h.1, ih (h.2 _)⟩

end Calls

/-! ## Surroundings that answer by a function -/

/-- Run a process where a function of a state answers the calls. -/
def perform (handle : σ → (c : Call) → Answer c × σ) : Process Call Answer α → σ → α × σ
  | done a, s => (a, s)
  | call c next, s => perform handle (next (handle s c).1) (handle s c).2

/-- The answers of the trace are those that the surroundings give. -/
inductive Answers (handle : σ → (c : Call) → Answer c × σ) : σ → List (Event Answer) → σ → Prop
  | nil (s : σ) : Answers handle s [] s
  | cons {s s' : σ} {c : Call} {trace : List (Event Answer)}
      (h : Answers handle (handle s c).2 trace s') :
      Answers handle s (⟨c, (handle s c).1⟩ :: trace) s'

variable {handle : σ → (c : Call) → Answer c × σ}

theorem Answers.of_eq {s s' s'' : σ} {c : Call} {answer : Answer c}
    (heq : handle s c = (answer, s')) (h : Answers handle s' trace s'') :
    Answers handle s (⟨c, answer⟩ :: trace) s'' := by
  obtain ⟨rfl, rfl⟩ := Prod.mk.inj heq
  exact .cons h

/-- Two processes in the same surroundings. -/
theorem perform_bind (s : σ) :
    perform handle (p >>= f) s =
      perform handle (f (perform handle p s).1) (perform handle p s).2 := by
  induction p generalizing s with
  | done a => rfl
  | call c next ih => exact ih _ _

/-- The calls and answers of a run. -/
def performed (handle : σ → (c : Call) → Answer c × σ) : Process Call Answer α → σ →
    List (Event Answer)
  | done _, _ => []
  | call c next, s => ⟨c, (handle s c).1⟩ :: performed handle (next (handle s c).1) (handle s c).2

/-- Run a process up to a call: what happened, the rest of the process, and the state. -/
def performTo (handle : σ → (c : Call) → Answer c × σ) (stop : Call → Bool) :
    Process Call Answer α → σ → List (Event Answer) × Process Call Answer α × σ
  | done a, s => ([], done a, s)
  | call c next, s =>
    if stop c then ([], call c next, s)
    else
      let rest := performTo handle stop (next (handle s c).1) (handle s c).2
      (⟨c, (handle s c).1⟩ :: rest.1, rest.2)

/-- The call that a process makes first. -/
def first : Process Call Answer α → Option Call
  | done _ => none
  | call c _ => some c

/-- What is performed is a run. -/
theorem runs_performed (handle : σ → (c : Call) → Answer c × σ) (p : Process Call Answer α)
    (s : σ) : p.Runs (performed handle p s) (perform handle p s).1 := by
  induction p generalizing s with
  | done a => exact .start _
  | call c next ih => exact .call (ih _ _)

/-- What two processes perform. -/
theorem performed_bind (s : σ) : performed handle (p >>= f) s = performed handle p s ++
    performed handle (f (perform handle p s).1) (perform handle p s).2 := by
  induction p generalizing s with
  | done a => rfl
  | call c next ih => exact congrArg (List.cons _) (ih _ _)

/-- What holds of every answer holds of every event. -/
theorem forall_mem_performed {P : Event Answer → Prop} (h : ∀ s c, P ⟨c, (handle s c).1⟩)
    (p : Process Call Answer α) (s : σ) : ∀ event ∈ performed handle p s, P event := by
  induction p generalizing s with
  | done a => exact fun _ hevent => absurd hevent List.not_mem_nil
  | call c next ih => exact List.forall_mem_cons.mpr ⟨h s c, ih _ _⟩

/-- **A part of a run is continued by the rest of it.** -/
theorem perform_after (h : p.After trace q) {s s' : σ} (hanswers : Answers handle s trace s') :
    perform handle p s = perform handle q s' := by
  induction h generalizing s with
  | start =>
    cases hanswers
    rfl
  | call _ ih =>
    cases hanswers with
    | cons hanswers => exact ih hanswers

/-- Whatever every call keeps, a run keeps. -/
theorem perform_keeps (handle : σ → (c : Call) → Answer c × σ) {R : σ → σ → Prop}
    (hrefl : ∀ s, R s s)
    (htrans : ∀ s s' s'', R s s' → R s' s'' → R s s'') (hhandle : ∀ s c, R s (handle s c).2)
    (p : Process Call Answer α) (s : σ) : R s (perform handle p s).2 := by
  induction p generalizing s with
  | done a => exact hrefl s
  | call c next ih => exact htrans _ _ _ (hhandle s c) (ih _ _)

/-! ## What holds at every moment -/

/-- What calls do to the state of the surroundings: `step` when a call has been answered, `during`
while it is under way. -/
structure Effects (Answer : Call → Type) (σ : Type) where
  step : σ → (c : Call) → Answer c → σ → Prop
  during : σ → Call → σ → Prop

namespace Effects

/-- The state after the calls and answers of a trace. -/
inductive Follows (E : Effects Answer σ) : σ → List (Event Answer) → σ → Prop
  | nil (s : σ) : Follows E s [] s
  | cons {s s' s'' : σ} {c : Call} {answer : Answer c} {trace : List (Event Answer)}
      (hstep : E.step s c answer s') (h : Follows E s' trace s'') :
      Follows E s (⟨c, answer⟩ :: trace) s''

/-- A state that a run of the process can leave behind when it is cut off. -/
inductive Leaves (E : Effects Answer σ) (p : Process Call Answer α) (s : σ) : σ → Prop
  | between {trace : List (Event Answer)} {q : Process Call Answer α} {s' : σ}
      (h : p.After trace q) (hfollows : E.Follows s trace s') : Leaves E p s s'
  | during {trace : List (Event Answer)} {c : Call} {next : Answer c → Process Call Answer α}
      {s' s'' : σ} (h : p.After trace (.call c next)) (hfollows : E.Follows s trace s')
      (hduring : E.during s' c s'') : Leaves E p s s''

/-- Surroundings that have run a process up to a call have reached a moment of a run. -/
theorem follows_performTo {τ : Type} {E : Effects Answer τ} (part : σ → τ)
    {handle : σ → (c : Call) → Answer c × σ}
    (hstep : ∀ s c, E.step (part s) c (handle s c).1 (part (handle s c).2)) (stop : Call → Bool)
    (p : Process Call Answer α) (s : σ) :
    p.After (performTo handle stop p s).1 (performTo handle stop p s).2.1 ∧
      E.Follows (part s) (performTo handle stop p s).1 (part (performTo handle stop p s).2.2) := by
  induction p generalizing s with
  | done a => exact ⟨.start _, .nil _⟩
  | call c next ih =>
    rw [performTo]
    split
    · exact ⟨.start _, .nil _⟩
    · obtain ⟨hafter, hfollows⟩ := ih (handle s c).1 (handle s c).2
      exact ⟨.call hafter, .cons (hstep s c) hfollows⟩

/-- Surroundings whose answers have the effects on a part of their state. -/
theorem follows_performed {τ : Type} {E : Effects Answer τ} (part : σ → τ)
    {handle : σ → (c : Call) → Answer c × σ}
    (hstep : ∀ s c, E.step (part s) c (handle s c).1 (part (handle s c).2))
    (p : Process Call Answer α) (s : σ) :
    E.Follows (part s) (performed handle p s) (part (perform handle p s).2) := by
  induction p generalizing s with
  | done a => exact .nil (part s)
  | call c next ih => exact .cons (hstep s c) (ih _ _)

end Effects

/-- From the state, `always` holds at every moment of a run and `post` of its result. -/
def Holds (E : Effects Answer σ) (always : σ → Prop) :
    Process Call Answer α → (α → σ → Prop) → σ → Prop
  | done a, post, s => always s ∧ post a s
  | call c next, post, s => always s ∧ (∀ s', E.during s c s' → always s') ∧
    ∀ answer s', E.step s c answer s' → (next answer).Holds E always post s'

namespace Holds

variable {E : Effects Answer σ} {always always' : σ → Prop} {post post' : α → σ → Prop} {s s' : σ}

/-- What holds always holds now. -/
theorem now (h : p.Holds E always post s) : always s := by
  cases p with
  | done a => exact h.1
  | call c next => exact h.1

theorem done {a : α} (halways : always s) (h : post a s) :
    (done a : Process Call Answer α).Holds E always post s :=
  ⟨halways, h⟩

theorem ask {c : Call} {post : Answer c → σ → Prop} (halways : always s)
    (hduring : ∀ s', E.during s c s' → always s')
    (h : ∀ answer s', E.step s c answer s' → always s' ∧ post answer s') :
    (ask c : Process Call Answer (Answer c)).Holds E always post s :=
  ⟨halways, hduring, h⟩

theorem mono (h : p.Holds E always post s) (halways : ∀ s, always s → always' s)
    (hpost : ∀ a s, post a s → post' a s) : p.Holds E always' post' s := by
  induction p generalizing s with
  | done a => exact ⟨halways s h.1, hpost a s h.2⟩
  | call c next ih =>
    exact ⟨halways s h.1, fun s' hduring => halways s' (h.2.1 s' hduring),
      fun answer s' hstep => ih answer (h.2.2 answer s' hstep)⟩

/-- **The rule of sequences.** -/
theorem bind {post : β → σ → Prop}
    (h : p.Holds E always (fun a s => (f a).Holds E always post s) s) :
    (p >>= f).Holds E always post s := by
  induction p generalizing s with
  | done a => exact h.2
  | call c next ih =>
    exact ⟨h.1, h.2.1, fun answer s' hstep => ih answer (h.2.2 answer s' hstep)⟩

/-- Calls without an effect keep the state. -/
theorem of_calls (hcalls : p.Calls fun c => (∀ s s', E.during s c s' → s' = s) ∧
      ∀ s answer s', E.step s c answer s' → s' = s) (halways : always s)
    (hpost : ∀ trace a, p.Runs trace a → post a s) : p.Holds E always post s := by
  induction p with
  | done a => exact ⟨halways, hpost [] a (.start _)⟩
  | call c next ih =>
    obtain ⟨⟨hduring, hstep⟩, hnext⟩ := hcalls
    refine ⟨halways, fun s' h => ?_, fun answer s' h => ?_⟩
    · rw [hduring s s' h]
      exact halways
    · rw [hstep s answer s' h]
      exact ih answer (hnext answer) fun trace a hruns => hpost _ a (.call hruns)

/-- What holds of a process holds of what is left of it. -/
theorem after (h : p.Holds E always post s) {trace : List (Event Answer)}
    (hafter : p.After trace q) (hfollows : E.Follows s trace s') : q.Holds E always post s' := by
  induction hafter generalizing s with
  | start =>
    cases hfollows
    exact h
  | call _ ih =>
    cases hfollows with
    | cons hstep hfollows => exact ih (h.2.2 _ _ hstep) hfollows

/-- **What is left behind**, wherever a run is cut off. -/
theorem leaves (h : p.Holds E always post s) (hleaves : E.Leaves p s s') : always s' := by
  cases hleaves with
  | between hafter hfollows => exact (h.after hafter hfollows).now
  | during hafter hfollows hduring => exact (h.after hafter hfollows).2.1 _ hduring

/-- What a whole run ends with. -/
theorem runs (h : p.Holds E always post s) {a : α} (hruns : p.Runs trace a)
    (hfollows : E.Follows s trace s') : post a s' :=
  (h.after hruns hfollows).2

end Holds

/-! ## Histories -/

/-- What has happened so far: the calls with their answers, the earlier states, and the present
one. -/
structure History (Answer : Call → Type) (σ : Type) where
  trace : List (Event Answer)
  past : List σ
  now : σ

namespace History

/-- A history of one state. -/
def start (s : σ) : History Answer σ := ⟨[], [], s⟩

/-- The states of a history, the one now included. -/
def states (history : History Answer σ) : List σ := history.past ++ [history.now]

/-- The state has changed. -/
def moved (history : History Answer σ) (s : σ) : History Answer σ :=
  ⟨history.trace, history.past ++ [history.now], s⟩

/-- A call has been answered. -/
def answered (history : History Answer σ) (event : Event Answer) (s : σ) : History Answer σ :=
  ⟨history.trace ++ [event], history.past ++ [history.now], s⟩

variable {history : History Answer σ} {event : Event Answer} {s s' : σ}

/-- The states of a history that has moved on. -/
theorem mem_states_moved : s' ∈ (history.moved s).states ↔ s' ∈ history.states ∨ s' = s := by
  rw [states, moved, List.mem_append, List.mem_singleton]
  rfl

/-- The states of a history after an answer. -/
theorem mem_states_answered :
    s' ∈ (history.answered event s).states ↔ s' ∈ history.states ∨ s' = s :=
  mem_states_moved

/-- The history has gone on with these calls, and `always` holds of the states that it has added. -/
structure Grows (always : σ → Prop) (history : History Answer σ) (trace : List (Event Answer))
    (history' : History Answer σ) : Prop where
  trace : history'.trace = history.trace ++ trace
  states : ∀ s ∈ history'.states, s ∈ history.states ∨ always s

namespace Grows

variable {always : σ → Prop} {history' : History Answer σ} {trace : List (Event Answer)}

/-- Nothing has happened. -/
theorem refl (history : History Answer σ) : history.Grows always [] history :=
  ⟨(List.append_nil _).symm, fun _ => .inl⟩

/-- The state has changed. -/
theorem moved (hs : always s) : history.Grows always [] (history.moved s) where
  trace := (List.append_nil _).symm
  states s' hs' := by
    rcases mem_states_moved.mp hs' with hs' | rfl
    · exact .inl hs'
    · exact .inr hs

/-- First a call was answered. -/
theorem answered (hs : always s) (h : (history.answered event s).Grows always trace history') :
    history.Grows always (event :: trace) history' where
  trace := by rw [h.trace, History.answered, List.append_assoc, List.singleton_append]
  states s' hs' := by
    rcases h.states s' hs' with hs' | hs'
    · rcases mem_states_answered.mp hs' with hs' | rfl
      · exact .inl hs'
      · exact .inr hs
    · exact .inr hs'

/-- What holds of all states before and of those that are added holds of all states. -/
theorem forall_states (h : history.Grows always trace history') {p : σ → Prop}
    (hbefore : ∀ s ∈ history.states, p s) (hadded : ∀ s, always s → p s) :
    ∀ s ∈ history'.states, p s :=
  fun s hs => (h.states s hs).elim (hbefore s) (hadded s)

end Grows

end History

/-- The same effects, with a history. -/
def Effects.recorded (E : Effects Answer σ) : Effects Answer (History Answer σ) where
  step history c answer history' :=
    ∃ s, E.step history.now c answer s ∧ history' = history.answered ⟨c, answer⟩ s
  during history c history' := ∃ s, E.during history.now c s ∧ history' = history.moved s

section

variable {E : Effects Answer σ} {always : σ → Prop} {post : α → σ → Prop} {s s' : σ}
  {history : History Answer σ}

/-- Effects can be recorded while they happen. -/
theorem Effects.Follows.recorded (h : E.Follows s trace s') (hnow : history.now = s) :
    ∃ history', E.recorded.Follows history trace history' ∧
      history'.trace = history.trace ++ trace ∧ history'.now = s' ∧
      ∀ s ∈ history.states, s ∈ history'.states := by
  induction h generalizing history with
  | nil => exact ⟨history, .nil _, (List.append_nil _).symm, hnow, fun _ h => h⟩
  | @cons _ s' _ c answer trace hstep _ ih =>
    obtain ⟨history', hfollows, htrace, hnow', hstates⟩ := @ih (history.answered ⟨c, answer⟩ s') rfl
    refine ⟨history', .cons ⟨s', hnow ▸ hstep, rfl⟩ hfollows, ?_, hnow', fun s hs => ?_⟩
    · rw [htrace, History.answered, List.append_assoc, List.singleton_append]
    · exact hstates s (History.mem_states_answered.mpr (.inl hs))

/-- **The rule of histories.** A run adds its calls to the trace, and every state that it adds is
one of which `always` holds. -/
theorem Holds.recorded (h : p.Holds E always post s) (hnow : history.now = s) :
    p.Holds E.recorded
      (fun history' => ∃ trace q, p.After trace q ∧ history.Grows always trace history')
      (fun a history' => ∃ trace, p.Runs trace a ∧ history.Grows always trace history' ∧
        post a history'.now)
      history := by
  induction p generalizing s history with
  | done a =>
    refine ⟨⟨[], _, .start _, .refl history⟩, [], .start _, .refl history, ?_⟩
    rw [hnow]
    exact h.2
  | call c next ih =>
    refine ⟨⟨[], _, .start _, .refl history⟩, ?_, ?_⟩
    · rintro _ ⟨s', hduring, rfl⟩
      exact ⟨[], _, .start _, .moved (h.2.1 s' (hnow ▸ hduring))⟩
    · rintro answer _ ⟨s', hstep, rfl⟩
      have hnext := h.2.2 answer s' (hnow ▸ hstep)
      refine (ih answer hnext rfl).mono ?_ ?_
      · rintro history' ⟨trace, q, hafter, hgrows⟩
        exact ⟨_, q, .call hafter, .answered hnext.now hgrows⟩
      · rintro a history' ⟨trace, hruns, hgrows, hpost⟩
        exact ⟨_, .call hruns, .answered hnext.now hgrows, hpost⟩

end

/-! ## Processes inside of others -/

/-- How the calls of one kind of process are made by another. -/
structure Inside {Call' : Type} (Answer : Call → Type) (Answer' : Call' → Type) where
  call : Call → Call'
  answer : (c : Call) → Answer' (call c) → Answer c
  event : Event Answer' → Option (Event Answer)
  event_call : ∀ c answer', event ⟨call c, answer'⟩ = some ⟨c, answer c answer'⟩

section Race

variable {Call' : Type} {Answer' : Call' → Type} (inside : Inside Answer Answer')
  (awaits : Call → Bool) (poll : Call') (stops : Answer' poll → Option β)

/-- Poll the signal, and go on unless it says to stop. -/
def unlessStopped (next : Process Call' Answer' (β ⊕ α)) : Process Call' Answer' (β ⊕ α) :=
  call poll fun signal =>
    match stops signal with
    | some b => done (.inl b)
    | none => next

/-- Go on with a process: wherever it awaits an answer, the signal comes first. -/
def resume : Process Call Answer α → Process Call' Answer' (β ⊕ α)
  | done a => done (.inr a)
  | call c next => call (inside.call c) fun answer =>
    if awaits c then unlessStopped poll stops (resume (next (inside.answer c answer)))
    else resume (next (inside.answer c answer))

/-- Run a process until it is done or a signal stops it. -/
def race (p : Process Call Answer α) : Process Call' Answer' (β ⊕ α) :=
  unlessStopped poll stops (resume inside awaits poll stops p)

variable {inside awaits poll stops}

/-- The trace of a race: the calls of the process up to some moment, which is its end if the race
is completed, and after a signal if it is stopped. -/
structure Raced (inside : Inside Answer Answer') (poll : Call') (stops : Answer' poll → Option β)
    (p : Process Call Answer α) (trace : List (Event Answer'))
    (r : Process Call' Answer' (β ⊕ α)) : Prop where
  after : ∃ q, p.After (trace.filterMap inside.event) q ∧ ∀ a, r = done (.inr a) → q = done a
  stopped : ∀ b, r = done (.inl b) → ∃ signal, ⟨poll, signal⟩ ∈ trace ∧ stops signal = some b

/-- A signal comes first. -/
theorem Raced.of_unlessStopped (hpoll : ∀ signal, inside.event ⟨poll, signal⟩ = none)
    {next r : Process Call' Answer' (β ⊕ α)} {trace : List (Event Answer')}
    (hnext : ∀ trace, next.After trace r → Raced inside poll stops p trace r)
    (h : (unlessStopped poll stops next).After trace r) : Raced inside poll stops p trace r := by
  cases h with
  | start => exact ⟨⟨p, .start p, nofun⟩, nofun⟩
  | @call _ _ signal rest _ h =>
    have hmem {event : Event Answer'} (h : event ∈ rest) : event ∈ ⟨poll, signal⟩ :: rest :=
      List.mem_cons_of_mem _ h
    dsimp only at h
    split at h
    · next b hstops =>
      obtain ⟨rfl, rfl⟩ := after_done_iff.mp h
      refine ⟨⟨p, ?_, nofun⟩, fun b' hb => ⟨signal, List.mem_singleton_self _, ?_⟩⟩
      · rw [List.filterMap_cons_none (hpoll signal)]
        exact .start p
      · rw [hstops, Sum.inl.inj (done.inj hb)]
    · obtain ⟨hafter, hstopped⟩ := hnext rest h
      rw [← List.filterMap_cons_none (hpoll signal)] at hafter
      refine ⟨hafter, fun b hb => ?_⟩
      obtain ⟨signal', hsignal, hstops⟩ := hstopped b hb
      exact ⟨signal', hmem hsignal, hstops⟩

/-- A race that goes on. -/
theorem raced_resume (hpoll : ∀ signal, inside.event ⟨poll, signal⟩ = none)
    {trace : List (Event Answer')} {r : Process Call' Answer' (β ⊕ α)}
    (h : (resume inside awaits poll stops p).After trace r) :
    Raced inside poll stops p trace r := by
  induction p generalizing trace with
  | done a =>
    obtain ⟨rfl, rfl⟩ := after_done_iff.mp h
    exact ⟨⟨done a, .start _, fun a' ha => congrArg done (Sum.inr.inj (done.inj ha))⟩, nofun⟩
  | call c next ih =>
    rw [resume] at h
    cases h with
    | start => exact ⟨⟨_, .start _, nofun⟩, nofun⟩
    | @call _ _ answer rest _ h =>
      have hrest : Raced inside poll stops (next (inside.answer c answer)) rest r := by
        dsimp only at h
        split at h
        · exact .of_unlessStopped hpoll (fun _ h => ih _ h) h
        · exact ih _ h
      obtain ⟨⟨q, hq, hdone⟩, hstopped⟩ := hrest
      refine ⟨⟨q, ?_, hdone⟩, fun b hb => ?_⟩
      · rw [List.filterMap_cons_some (inside.event_call c answer)]
        exact .call hq
      · obtain ⟨signal, hsignal, hstops⟩ := hstopped b hb
        exact ⟨signal, List.mem_cons_of_mem _ hsignal, hstops⟩

/-- **What happens in a race** is what happens in the process until it is stopped. -/
theorem raced (hpoll : ∀ signal, inside.event ⟨poll, signal⟩ = none)
    {trace : List (Event Answer')} {r : Process Call' Answer' (β ⊕ α)}
    (h : (race inside awaits poll stops p).After trace r) : Raced inside poll stops p trace r :=
  .of_unlessStopped hpoll (fun _ h => raced_resume hpoll h) h

/-- A race makes the calls of its process, and polls. -/
theorem calls_race {P : Call' → Prop} (hpoll : P poll) (hcall : ∀ c, P (inside.call c))
    (p : Process Call Answer α) : (race inside awaits poll stops p).Calls P := by
  have hstop {next : Process Call' Answer' (β ⊕ α)} (h : next.Calls P) :
      (unlessStopped poll stops next).Calls P := by
    refine ⟨hpoll, fun signal => ?_⟩
    dsimp only
    split
    · trivial
    · exact h
  refine hstop ?_
  induction p with
  | done a => trivial
  | call c next ih =>
    refine ⟨hcall c, fun answer => ?_⟩
    dsimp only
    split
    · exact hstop (ih _)
    · exact ih _

end Race

end Process
