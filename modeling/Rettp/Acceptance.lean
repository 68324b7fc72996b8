import Rettp.ParserSimulation

/-!
# The parser accepts its grammar

The recognizer recognizes the grammar, rule by rule (`Recognizes`). Where a rule has an optional
end the next token must not be one that could continue it; every boundary at which a loop of the
parser stops satisfies this (`Ends`), so no construct is cut short.
-/

namespace Rettp

namespace Recognizer

open Recognition (Recognizes anywhere fail look run_look run_bind bind_eq_some)
open Phrase

/-! ## The next token -/

/-- The next token is not of this kind. -/
def NotNext (kind : TokenKind) (next : Option TokenKind) : Prop :=
  (next.any fun actual => actual.discriminant == kind.discriminant) = false

/-- The tokens that may continue what could also end. -/
def continues : TokenKind → Bool
  | .comma | .equal | .arrow | .leftBrace => true
  | _ => false

/-- What may follow a construct with an optional end. -/
def Ends (next : Option TokenKind) : Prop := next.any continues = false

/-- What ends a field is no other token. -/
theorem Ends.notNext {kind : TokenKind} (hkind : continues kind = true) {next : Option TokenKind}
    (h : Ends next) : NotNext kind next := by
  have hcontinues : ∀ k : TokenKind, continues k = decide (k.discriminant ∈ [30, 35, 36, 37]) := by
    intro k
    cases k <;> rfl
  cases next with
  | none => rfl
  | some k =>
    refine beq_eq_false_iff_ne.mpr fun heq => ?_
    have hk : continues k = false := h
    rw [hcontinues] at hk hkind
    rw [heq, hkind] at hk
    cases hk

variable {e : Nesting} {α β : Type}

/-! ## Primitives -/

/-- Take what is there. -/
theorem take_next (kind : TokenKind) (ts : List TokenKind) :
    take kind e (kind :: ts) = some (true, ts) := by
  rw [take_run]
  simp

/-- Take nothing where something else is there. -/
theorem take_notNext {kind : TokenKind} {ts : List TokenKind} (h : NotNext kind ts.head?) :
    take kind e ts = some (false, ts) := by
  rw [take_run, h]
  rfl

/-- A kind was taken, or another one is next. -/
theorem take_cases {kind : TokenKind} (hkind : kind.isBare = true) {ts us : List TokenKind}
    {taken : Bool} (h : take kind e ts = some (taken, us)) :
    (taken = true ∧ ts = kind :: us) ∨ (taken = false ∧ ts = us ∧ NotNext kind ts.head?) := by
  rw [take_run] at h
  split at h
  · next hany =>
    obtain ⟨rfl, rfl⟩ := Prod.mk.inj (Option.some.inj h)
    cases ts with
    | nil => cases hany
    | cons k ts =>
      obtain rfl := (TokenKind.discriminant_eq_iff hkind).mp (beq_iff_eq.mp hany)
      exact .inl ⟨rfl, rfl⟩
  · next hany =>
    obtain ⟨rfl, rfl⟩ := Prod.mk.inj (Option.some.inj h)
    exact .inr ⟨rfl, rfl, Bool.eq_false_iff.mpr hany⟩

/-- **An optional keyword** decides between two ways to go on. -/
theorem take_rec {kind : TokenKind} (hkind : kind.isBare = true)
    {c : Bool → Recognizer β} {p q : Grammar.Rule β} {F : Option TokenKind → Prop}
    (hp : Recognizes F e (c true) p) (hq : Recognizes F e (c false) q)
    (hnot : ∀ w b us, q w b → F us.head? → NotNext kind (w ++ us).head?) :
    Recognizes F e (take kind >>= c) ((do terminal kind; p) <|> q) where
  sound ts b us h := by
    obtain ⟨taken, vs, htake, hc⟩ := bind_eq_some.mp h
    obtain ⟨rfl, rfl⟩ | ⟨rfl, rfl, -⟩ := take_cases hkind htake
    · obtain ⟨w, rfl, hw⟩ := hp.sound vs b us hc
      exact ⟨kind :: w, rfl, .inl (terminal_bind_iff.mpr ⟨w, rfl, hw⟩)⟩
    · obtain ⟨w, rfl, hw⟩ := hq.sound ts b us hc
      exact ⟨w, rfl, .inr hw⟩
  complete w b us h hF := by
    rcases h with h | h
    · obtain ⟨v, rfl, hv⟩ := terminal_bind_iff.mp h
      rw [List.cons_append, run_bind (take_next kind _)]
      exact hp.complete v b us hv hF
    · rw [run_bind (take_notNext (hnot w b us h hF))]
      exact hq.complete w b us h hF

/-- A terminal is recognized. -/
theorem consume_rec {kind : TokenKind} (hkind : kind.isBare = true) :
    Recognizes anywhere e (consume kind) (terminal kind) := by
  refine (take_rec hkind (.pure ()) .fail fun _ _ _ h => h.elim).congr fun w a => ?_
  simp [terminal]

/-- A comma is recognized, if there is one. -/
theorem skipOptionalComma_rec :
    Recognizes (NotNext .comma) e skipOptionalComma Grammar.optionalComma := by
  refine (take_rec rfl (.pure ()) (.pure ()) ?_).congr fun w a => ?_
  · rintro w b us ⟨rfl, -⟩ h
    exact h
  · simp [Grammar.optionalComma, terminal]

/-- A loop and the token that closes it. -/
theorem closed_rec {close : TokenKind} (hclose : close.isBare = true) {g : Recognizer α}
    {p : Grammar.Rule α} {F : Option TokenKind → Prop} (h : Recognizes F e g p)
    (hF : F (some close)) :
    Recognizes anywhere e (closed close g) (do let a ← p; terminal close; pure a) := by
  refine .bind h (fun a => .next (consume_rec hclose) fun _ => .pure a) ?_
  intro a v b us hv _
  obtain ⟨_, rfl, -⟩ := terminal_bind_iff.mp hv
  exact hF

/-- A token in front is read, or it fails. -/
theorem token_cons (reads : TokenKind → Option α) (k : TokenKind) (ts : List TokenKind) :
    token reads e (k :: ts) = (reads k).map fun a => (a, ts) := by
  have hpeek : peekKind e (k :: ts) = some (some k, k :: ts) := rfl
  rw [token, run_bind hpeek, Option.bind_some]
  cases reads k with
  | none => rfl
  | some a => rfl

/-- A token with a value is recognized. -/
theorem token_rec {reads : TokenKind → Option α} :
    Recognizes anywhere e (token reads) (Phrase.token reads) where
  sound ts a us h := by
    cases ts with
    | nil => cases h
    | cons k ts =>
      rw [token_cons] at h
      cases hk : reads k with
      | none =>
        rw [hk] at h
        cases h
      | some b =>
        rw [hk] at h
        obtain ⟨rfl, rfl⟩ := Prod.mk.inj (Option.some.inj h)
        exact ⟨[k], rfl, k, rfl, hk⟩
  complete w a us h _ := by
    obtain ⟨k, rfl, hk⟩ := h
    rw [List.singleton_append, token_cons, hk]
    rfl

/-- An answer that may be missing, demanded. -/
abbrev demanded {α : Type} (g : Recognizer (Option α)) : Recognizer α :=
  g >>= fun r => r.elim fail pure

/-- What has to be there is there. -/
theorem demanded_iff {g : Recognizer (Option α)} {ts us : List TokenKind} {a : α} :
    demanded g e ts = some (a, us) ↔ g e ts = some (some a, us) := by
  refine ⟨?_, ?_⟩
  · intro h
    obtain ⟨r, vs, hg, h⟩ := bind_eq_some.mp h
    cases r with
    | none => cases h
    | some b =>
      obtain ⟨rfl, rfl⟩ := Prod.mk.inj (Option.some.inj h)
      exact hg
  · intro h
    exact run_bind h

/-- The words that name a kind of token which may be a key. -/
theorem keyText_iff (kind : TokenKind) (word : String) :
    keyText kind = some word ↔ Grammar.objectKey [kind] word := by
  refine ⟨?_, ?_⟩
  · intro h
    cases kind
    all_goals
      first
      | exact .inl ⟨_, rfl, h⟩
      | exact .inr (.inr ⟨_, rfl, h⟩)
      | obtain rfl := Option.some.inj h
        exact .inr (.inl ⟨rfl, rfl, by decide⟩)
  · rintro (⟨k, hk, hword⟩ | ⟨hk, hbare, hword⟩ | ⟨k, hk, hword⟩)
    · obtain rfl := List.singleton_inj.mp hk
      cases kind with
      | identifier value => exact hword
      | _ => cases hword
    · obtain rfl := List.singleton_inj.mp hk
      revert hbare hword
      unfold keywordOrIdentifier
      split <;> first | (intros; rfl) | (intro _ h; exact absurd (by decide) h)
    · obtain rfl := List.singleton_inj.mp hk
      cases kind with
      | stringLiteral value => exact hword
      | _ => cases hword

/-- A key is one token. -/
theorem objectKey_token {w : List TokenKind} {word : String} (h : Grammar.objectKey w word) :
    ∃ kind, w = [kind] ∧ keyText kind = some word := by
  have hw : ∃ kind, w = [kind] := by
    rcases h with ⟨k, hk, -⟩ | ⟨hk, -⟩ | ⟨k, hk, -⟩ <;> exact ⟨_, hk⟩
  obtain ⟨kind, rfl⟩ := hw
  exact ⟨kind, rfl, (keyText_iff kind word).mpr h⟩

/-- A key is recognized. -/
theorem objectKey_rec : Recognizes anywhere e (demanded objectKey) Grammar.objectKey := by
  have heq : demanded objectKey = token keyText := by
    funext e kinds
    cases kinds with
    | nil => rfl
    | cons kind kinds => cases kind <;> rfl
  rw [heq]
  refine token_rec.congr fun w word => ⟨?_, objectKey_token⟩
  rintro ⟨kind, rfl, h⟩
  exact (keyText_iff kind word).mp h

/-- **A contextual keyword** decides between two ways to go on. -/
theorem takeContextualIdentifier_rec {word : String} {c : Bool → Recognizer β}
    {p q : Grammar.Rule β} {F : Option TokenKind → Prop} (hp : Recognizes F e (c true) p)
    (hq : Recognizes F e (c false) q)
    (hnot : ∀ w b us, q w b → F us.head? → (w ++ us).head? ≠ some (.identifier word)) :
    Recognizes F e (takeContextualIdentifier word >>= c)
      ((do Grammar.contextual word; p) <|> q) := by
  -- any other token, also another identifier, is left where it is
  have hrun : ∀ ts : List TokenKind, ts.head? ≠ some (.identifier word) →
      (takeContextualIdentifier word >>= c) e ts = c false e ts := by
    intro ts hts
    refine run_bind ?_
    rw [takeContextualIdentifier, peekKind, run_bind (run_look _ _ _)]
    cases hhead : ts.head? with
    | none => rfl
    | some kind =>
      cases kind with
      | identifier value =>
        have hne : value ≠ word := by
          rintro rfl
          exact hts hhead
        simp only [if_neg hne]
        rfl
      | _ => rfl
  have htake : ∀ ts, (takeContextualIdentifier word >>= c) e (.identifier word :: ts) =
      c true e ts := by
    intro ts
    refine run_bind ?_
    rw [takeContextualIdentifier, peekKind, run_bind (run_look _ _ _)]
    simp only [List.head?_cons, if_true]
    rfl
  refine ⟨?_, ?_⟩
  · intro ts b us h
    by_cases hts : ts.head? = some (.identifier word)
    · obtain ⟨ts, rfl⟩ := List.head?_eq_some_iff.mp hts
      rw [htake] at h
      obtain ⟨w, rfl, hw⟩ := hp.sound ts b us h
      exact ⟨_ :: w, rfl, .inl (terminal_bind_iff.mpr ⟨w, rfl, hw⟩)⟩
    · rw [hrun ts hts] at h
      obtain ⟨w, rfl, hw⟩ := hq.sound ts b us h
      exact ⟨w, rfl, .inr hw⟩
  · intro w b us h hF
    rcases h with h | h
    · obtain ⟨v, rfl, hv⟩ := terminal_bind_iff.mp h
      rw [List.cons_append, htake]
      exact hp.complete v b us hv hF
    · rw [hrun _ (hnot w b us h hF)]
      exact hq.complete w b us h hF

/-! ## Loops and containers -/

/-- The words of a phrase start with a token of a kind. -/
def Starts (first : TokenKind → Prop) (p : Grammar.Rule α) : Prop :=
  ∀ w a, p w a → ∃ kind v, w = kind :: v ∧ first kind

/-- What starts a phrase, said more generously. -/
theorem Starts.mono {first first' : TokenKind → Prop} {p : Grammar.Rule α} (h : Starts first p)
    (himp : ∀ kind, first kind → first' kind) : Starts first' p := by
  intro w a hw
  obtain ⟨kind, v, rfl, hkind⟩ := h w a hw
  exact ⟨kind, v, rfl, himp kind hkind⟩

/-- **Lists of entries**, up to a token that cannot start one. -/
theorem untilNext_rec {stop : TokenKind → Bool} {body : List α → Recognizer (List α)}
    {item : Grammar.Rule α} {F : Option TokenKind → Prop}
    (hbody : ∀ as, Recognizes F e (body as) (do let a ← item; pure (as ++ [a])))
    (hfirst : Starts (fun kind => stop kind = false ∧ F (some kind)) item) :
    Recognizes (fun next => next.all stop ∧ F next) e (untilNext stop body []) (many item) := by
  refine (Recognizes.loop hbody ?_ []).congr fun w as => ?_
  · intro as w bs h
    obtain ⟨a, ha, -⟩ := bind_pure_iff.mp h
    obtain ⟨kind, v, hw, hkind⟩ := hfirst w a ha
    exact ⟨kind, v, hw, hkind⟩
  · rw [iterate_iff_many (fun as w bs => bind_pure_iff) [] w as]
    simp

/-- Where there is room for another container. -/
theorem container_rec {open_ close : TokenKind} (hopen : open_.isBare = true)
    (hclose : close.isBare = true) {inner : Recognizer α} {p : Grammar.Rule α}
    {F : Option TokenKind → Prop} {depth limit : Nat} (hroom : depth < limit)
    (h : Recognizes F ⟨depth + 1, limit⟩ inner p) (hF : F (some close)) :
    Recognizes anywhere ⟨depth, limit⟩ (container open_ close inner)
      (Grammar.between open_ close p) := by
  have hnested : Recognizes anywhere ⟨depth, limit⟩ (nested (closed close inner))
      (do let a ← p; terminal close; pure a) := by
    have hrun : ∀ ts, nested (closed close inner) ⟨depth, limit⟩ ts =
        closed close inner ⟨depth + 1, limit⟩ ts := fun ts => if_neg (Nat.not_le.mpr hroom)
    have hclosed := closed_rec hclose h hF
    refine ⟨?_, ?_⟩
    · intro ts a us hg
      rw [hrun] at hg
      exact hclosed.sound ts a us hg
    · intro w a us hw
      rw [hrun]
      exact hclosed.complete w a us hw
  refine (take_rec hopen hnested .fail fun _ _ _ h => h.elim).congr fun w a => ?_
  exact or_iff_left id

/-- Where there is none. -/
theorem container_full {open_ close : TokenKind} (hopen : open_.isBare = true)
    {inner : Recognizer α} {depth limit : Nat} (hroom : ¬ depth < limit) :
    Recognizes anywhere ⟨depth, limit⟩ (container open_ close inner) never := by
  have hnested : Recognizes anywhere ⟨depth, limit⟩ (nested (closed close inner)) never := by
    refine ⟨fun ts a us hg => ?_, fun w a us hw => hw.elim⟩
    rw [nested, if_pos (Nat.not_lt.mp hroom)] at hg
    cases hg
  refine (take_rec hopen hnested .fail fun _ _ _ h => h.elim).congr fun w a => ?_
  simp

/-! ## Arrays -/

section Arrays

variable {value : Recognizer (Option Tree.Value)} {rule : Grammar.Rule Tree.Value}

/-- The items of an array, in the order in which the loop meets them. -/
inductive ArrayItems (rule : Grammar.Rule Tree.Value) : Grammar.Rule (List Tree.Value)
  | nil : ArrayItems rule [] []
  | last {w : List TokenKind} {item : Tree.Value} (h : rule w item) : ArrayItems rule w [item]
  | cons {u v : List TokenKind} {item : Tree.Value} {items : List Tree.Value} (h : rule u item)
      (hs : ArrayItems rule v items) : ArrayItems rule (u ++ .comma :: v) (item :: items)

/-- Items as the grammar and as the loop see them. -/
theorem arrayItems_iff (w : List TokenKind) (items : List Tree.Value) :
    ArrayItems rule w items ↔
      ((do
        let item ← rule
        let items ← many (do terminal .comma; rule)
        Grammar.optionalComma
        pure (item :: items)) <|> pure [] : Grammar.Rule (List Tree.Value)) w items := by
  refine ⟨?_, ?_⟩
  · intro h
    induction h with
    | nil => exact .inr ⟨rfl, rfl⟩
    | @last w item h =>
      exact .inl ⟨w, [], item, w.append_nil.symm, h, [], [], [], rfl, .nil, [], [], (), rfl,
        .inr ⟨rfl, rfl⟩, rfl, rfl⟩
    -- a comma after an item is a separator or, at the end, the optional one
    | @cons u v item items h hs ih =>
      rcases ih with ⟨a, b, first, rfl, hfirst, c, d, rest, rfl, hrest, hcomma⟩ | ⟨rfl, rfl⟩
      · obtain ⟨x, y, _, rfl, hx, rfl, rfl⟩ := hcomma
        refine .inl ⟨u, .comma :: (a ++ (c ++ (x ++ []))), item, rfl, h, (.comma :: a) ++ c, x ++ [],
          first :: rest, ?_, .cons ⟨[.comma], a, (), rfl, rfl, hfirst⟩ hrest, x, [],
          (), rfl, hx, rfl, rfl⟩
        simp
      · exact .inl ⟨u, [.comma], item, rfl, h, [], [.comma], [], rfl, .nil, [.comma], [], (), rfl,
          .inl rfl, rfl, rfl⟩
  · rintro (⟨a, b, first, rfl, hfirst, c, d, rest, rfl, hrest, x, y, _, rfl, hx, rfl, rfl⟩ | ⟨rfl, rfl⟩)
    · rw [List.append_nil]
      -- the items after the first one, each behind its comma
      induction hrest generalizing a first with
      | nil =>
        rcases hx with rfl | ⟨rfl, -⟩
        · exact .cons hfirst .nil
        · rw [List.append_nil, List.append_nil]
          exact .last hfirst
      | cons h _ ih =>
        obtain ⟨v, rfl, hv⟩ := terminal_bind_iff.mp h
        rw [List.append_assoc, List.cons_append]
        exact .cons hfirst (ih v _ hv)
    · exact .nil

/-- A round of the loop reads an item and its comma, or the last item in front of the `]`. -/
theorem arrayItem_sound (hv : Recognizes anywhere e (demanded value) rule)
    {items items' : List Tree.Value} {ts us : List TokenKind}
    (h : arrayItem value items e ts = some (items', us)) :
    ∃ w item, rule w item ∧ items' = items ++ [item] ∧
      (ts = w ++ .comma :: us ∨ ts = w ++ us ∧ us.head? = some .rightBracket) := by
  obtain ⟨r, vs, hvalue, hrest⟩ := bind_eq_some.mp h
  cases r with
  | none => cases hrest
  | some item =>
    obtain ⟨w, rfl, hw⟩ := hv.sound ts item vs (demanded_iff.mpr hvalue)
    refine ⟨w, item, hw, ?_⟩
    obtain ⟨taken, xs, htake, hend⟩ := bind_eq_some.mp hrest
    obtain ⟨rfl, rfl⟩ | ⟨rfl, rfl, -⟩ := take_cases rfl htake
    · obtain ⟨rfl, rfl⟩ := Prod.mk.inj (Option.some.inj hend)
      exact ⟨rfl, .inl rfl⟩
    · obtain ⟨closes, ys, hcheck, hlast⟩ := bind_eq_some.mp hend
      obtain ⟨rfl, rfl⟩ := Prod.mk.inj (Option.some.inj hcheck)
      split at hlast
      · next hcloses =>
        obtain ⟨rfl, rfl⟩ := Prod.mk.inj (Option.some.inj hlast)
        cases vs with
        | nil => cases hcloses
        | cons kind vs =>
          have hkind : kind = .rightBracket :=
            (TokenKind.discriminant_eq_iff rfl).mp (beq_iff_eq.mp hcloses)
          exact ⟨rfl, .inr ⟨rfl, congrArg some hkind⟩⟩
      · cases hlast

/-- An item before a comma. -/
theorem arrayItem_comma (hv : Recognizes anywhere e (demanded value) rule)
    (items : List Tree.Value) {w us : List TokenKind} {item : Tree.Value} (hw : rule w item) :
    arrayItem value items e (w ++ .comma :: us) = some (items ++ [item], us) := by
  rw [arrayItem, run_bind (demanded_iff.mp (hv.complete w item _ hw trivial))]
  dsimp only
  rw [run_bind (take_next .comma us)]
  rfl

/-- The last item of an array. -/
theorem arrayItem_last (hv : Recognizes anywhere e (demanded value) rule)
    (items : List Tree.Value) {w us : List TokenKind} {item : Tree.Value} (hw : rule w item) :
    arrayItem value items e (w ++ .rightBracket :: us) =
      some (items ++ [item], .rightBracket :: us) := by
  rw [arrayItem, run_bind (demanded_iff.mp (hv.complete w item _ hw trivial))]
  rfl

/-- Where the loop over the items of an array stops. -/
abbrev endsItems (kind : TokenKind) : Bool := isRightBracket kind || kind.isContainerBoundary

/-- At the closing bracket the loop is done. -/
theorem arrayLoop_stop (items : List Tree.Value) (fuel : Nat) {ts : List TokenKind}
    (h : ts.head? = some .rightBracket) :
    repeatWhile (fun _ => look fun _ kinds => !kinds.isEmpty && !kinds.head?.any endsItems)
      (arrayItem value) fuel items e ts = some (items, ts) := by
  cases fuel with
  | zero => rfl
  | succ fuel =>
    rw [repeatWhile, run_bind (run_look _ _ _), h]
    simp [isRightBracket]

/-- The loop over the items of an array. -/
theorem arrayLoop_rec (hv : Recognizes anywhere e (demanded value) rule)
    (hstart : Starts (fun kind => endsItems kind = false) rule) :
    Recognizes (fun next => next = some .rightBracket) e
      (untilNext endsItems (arrayItem value) []) (ArrayItems rule) where
  sound ts items us h := by
    suffices hloop : ∀ fuel acc, repeatWhile
        (fun _ => look fun _ kinds => !kinds.isEmpty && !kinds.head?.any endsItems)
        (arrayItem value) fuel acc e ts = some (items, us) →
        ∃ w new, ts = w ++ us ∧ items = acc ++ new ∧ ArrayItems rule w new by
      obtain ⟨w, new, hw, rfl, hnew⟩ := hloop ts.length [] h
      exact ⟨w, hw, hnew⟩
    clear h
    intro fuel
    induction fuel generalizing ts with
    | zero =>
      intro acc h
      obtain ⟨rfl, rfl⟩ := Prod.mk.inj (Option.some.inj h)
      exact ⟨[], [], rfl, (List.append_nil _).symm, .nil⟩
    | succ fuel ih =>
      intro acc h
      rw [repeatWhile, run_bind (run_look _ _ _)] at h
      split at h
      · obtain ⟨acc', vs, hitem, hloop⟩ := bind_eq_some.mp h
        obtain ⟨w, item, hw, rfl, rfl | ⟨rfl, hnext⟩⟩ := arrayItem_sound hv hitem
        · obtain ⟨v, new, rfl, rfl, hnew⟩ := ih vs _ hloop
          exact ⟨w ++ .comma :: v, item :: new, by simp, by simp, .cons hw hnew⟩
        · rw [arrayLoop_stop _ _ hnext] at hloop
          obtain ⟨rfl, rfl⟩ := Prod.mk.inj (Option.some.inj hloop)
          exact ⟨w, [item], rfl, rfl, .last hw⟩
      · obtain ⟨rfl, rfl⟩ := Prod.mk.inj (Option.some.inj h)
        exact ⟨[], [], rfl, (List.append_nil _).symm, .nil⟩
  complete w items us h hnext := by
    obtain ⟨us, rfl⟩ := List.head?_eq_some_iff.mp hnext
    suffices hloop : ∀ fuel acc, w.length ≤ fuel → repeatWhile
        (fun _ => look fun _ kinds => !kinds.isEmpty && !kinds.head?.any endsItems)
        (arrayItem value) fuel acc e (w ++ .rightBracket :: us) =
          some (acc ++ items, .rightBracket :: us) from
      hloop _ [] (by simp)
    -- a round starts when the next token starts an item
    have hround : ∀ fuel acc (u vs : List TokenKind) item, rule u item →
        repeatWhile (fun _ => look fun _ kinds => !kinds.isEmpty && !kinds.head?.any endsItems)
          (arrayItem value) (fuel + 1) acc e (u ++ vs) =
        (arrayItem value acc >>= fun acc => repeatWhile
          (fun _ => look fun _ kinds => !kinds.isEmpty && !kinds.head?.any endsItems)
          (arrayItem value) fuel acc) e (u ++ vs) := by
      intro fuel acc u vs item hu
      obtain ⟨kind, u', rfl, hkind⟩ := hstart u item hu
      rw [repeatWhile, run_bind (run_look _ _ _), if_pos]
      simpa using hkind
    have hpos : ∀ u item, rule u item → 0 < u.length := by
      intro u item hu
      obtain ⟨kind, u', rfl, -⟩ := hstart u item hu
      exact Nat.succ_pos _
    intro fuel
    induction h generalizing fuel with
    | nil =>
      intro acc _
      rw [List.append_nil]
      exact arrayLoop_stop acc fuel rfl
    | @last u item hu =>
      intro acc hfuel
      have hitem := hpos u item hu
      obtain ⟨fuel, rfl⟩ := Nat.exists_eq_add_one_of_ne_zero (n := fuel) (by omega)
      rw [hround fuel acc u _ item hu, run_bind (arrayItem_last hv acc hu)]
      exact arrayLoop_stop _ fuel rfl
    | @cons u v item items hu _ ih =>
      intro acc hfuel
      have hlength : (u ++ .comma :: v).length = u.length + v.length + 1 := by simp; omega
      obtain ⟨fuel, rfl⟩ := Nat.exists_eq_add_one_of_ne_zero (n := fuel) (by omega)
      rw [List.append_assoc, hround fuel acc u _ item hu, List.cons_append,
        run_bind (arrayItem_comma hv acc hu), ih fuel (acc ++ [item]) (by omega)]
      simp

/-- An array is recognized if its items are. -/
theorem arrayWith_rec {depth limit : Nat} (hroom : depth < limit)
    (hv : Recognizes anywhere ⟨depth + 1, limit⟩ (demanded value) rule)
    (hstart : Starts (fun kind => endsItems kind = false) rule) :
    Recognizes anywhere ⟨depth, limit⟩ (arrayWith value) (Grammar.arrayValue rule) :=
  container_rec rfl rfl hroom ((arrayLoop_rec hv hstart).congr arrayItems_iff) rfl

/-! ## Values -/

/-- An entry of an object is recognized. -/
theorem objectEntry_rec (hv : Recognizes anywhere e (demanded value) rule)
    (entries : List (String × Tree.Value)) :
    Recognizes (NotNext .comma) e (objectEntry value entries)
      (do let entry ← Grammar.objectValueEntry rule; pure (entries ++ [entry])) := by
  simp only [Grammar.objectValueEntry, bind_assoc, pure_bind]
  refine .demand objectKey_rec rfl (fun key => .next (consume_rec rfl) fun _ => ?_)
    fun _ _ _ _ _ _ => trivial
  exact .demand hv rfl (fun v => .map skipOptionalComma_rec) fun _ _ _ _ _ _ => trivial

omit value rule in
/-- Which tokens are scalars. -/
theorem scalar_iff (w : List TokenKind) (v : Tree.Value) : Grammar.scalar w v ↔
    (∃ s, w = [.stringLiteral s] ∧ v = .string s) ∨
      (∃ n, w = [.integerLiteral n] ∧ v = .integer n) ∨
      (∃ x, w = [.numberLiteral x] ∧ v = .number x) ∨ w = [.true_] ∧ v = .boolean true ∨
      w = [.false_] ∧ v = .boolean false ∨ w = [.null] ∧ v = .null := by
  simp [Grammar.scalar, Grammar.string, Grammar.integer, Grammar.number]

/-- A value, given how arrays and objects are recognized. -/
theorem valueWith_rec {array : Grammar.Rule (List Tree.Value)}
    {object : Grammar.Rule (List (String × Tree.Value))}
    (harray : Recognizes anywhere e (arrayWith value) array)
    (hobject : Recognizes anywhere e (objectWith value) object)
    (hbracket : Starts (· = .leftBracket) array) (hbrace : Starts (· = .leftBrace) object) :
    Recognizes anywhere e (demanded (valueWith value))
      (Grammar.scalar <|> (do let items ← array; pure (.array items)) <|>
        (do let entries ← object; pure (.object entries))) where
  sound ts v us h := by
    rw [demanded_iff] at h
    cases ts with
    | nil => cases h
    | cons kind ts =>
      cases kind with
      -- the first token decides between the three kinds of values
      | leftBracket =>
        replace h : (arrayWith value >>= fun items => pure (some (Tree.Value.array items))) e
            (.leftBracket :: ts) = some (some v, us) := h
        obtain ⟨items, vs, hitems, h⟩ := bind_eq_some.mp h
        obtain ⟨heq, rfl⟩ := Prod.mk.inj (Option.some.inj h)
        obtain rfl := Option.some.inj heq
        obtain ⟨w, hw, hitems⟩ := harray.sound _ _ _ hitems
        exact ⟨w, hw, .inr (.inl (bind_pure_iff.mpr ⟨items, hitems, rfl⟩))⟩
      | leftBrace =>
        replace h : (objectWith value >>= fun entries => pure (some (Tree.Value.object entries))) e
            (.leftBrace :: ts) = some (some v, us) := h
        obtain ⟨entries, vs, hentries, h⟩ := bind_eq_some.mp h
        obtain ⟨heq, rfl⟩ := Prod.mk.inj (Option.some.inj h)
        obtain rfl := Option.some.inj heq
        obtain ⟨w, hw, hentries⟩ := hobject.sound _ _ _ hentries
        exact ⟨w, hw, .inr (.inr (bind_pure_iff.mpr ⟨entries, hentries, rfl⟩))⟩
      | _ =>
        first
        | obtain ⟨heq, rfl⟩ := Prod.mk.inj (Option.some.inj h)
          obtain rfl := Option.some.inj heq
          exact ⟨[_], rfl, .inl ((scalar_iff _ _).mpr (by simp))⟩
        | cases h
  complete w v us h _ := by
    rw [demanded_iff]
    rcases h with h | h | h
    · rw [scalar_iff] at h
      rcases h with ⟨s, rfl, rfl⟩ | ⟨n, rfl, rfl⟩ | ⟨x, rfl, rfl⟩ | ⟨rfl, rfl⟩ | ⟨rfl, rfl⟩ |
        ⟨rfl, rfl⟩
      all_goals rfl
    · obtain ⟨items, hitems, rfl⟩ := bind_pure_iff.mp h
      obtain ⟨kind, w', rfl, rfl⟩ := hbracket w items hitems
      exact run_bind (k := fun items => pure (some (Tree.Value.array items)))
        (harray.complete _ items us hitems trivial)
    · obtain ⟨entries, hentries, rfl⟩ := bind_pure_iff.mp h
      obtain ⟨kind, w', rfl, rfl⟩ := hbrace w entries hentries
      exact run_bind (k := fun entries => pure (some (Tree.Value.object entries)))
        (hobject.complete _ entries us hentries trivial)

/-- An object is recognized if its values are. -/
theorem objectWith_rec {depth limit : Nat} (hroom : depth < limit)
    (hv : Recognizes anywhere ⟨depth + 1, limit⟩ (demanded value) rule) :
    Recognizes anywhere ⟨depth, limit⟩ (objectWith value)
      (Grammar.braces (many (Grammar.objectValueEntry rule))) := by
  refine container_rec rfl rfl hroom (untilNext_rec (objectEntry_rec hv) ?_) ⟨rfl, rfl⟩
  intro w entry h
  obtain ⟨u, v, key, rfl, hkey, -⟩ := bind_iff.mp h
  obtain ⟨kind, rfl, htext⟩ := objectKey_token hkey
  refine ⟨kind, v, rfl, ?_⟩
  cases kind <;> first | exact ⟨rfl, rfl⟩ | cases htext

end Arrays

/-- The tokens that start a value. -/
def startsValue : TokenKind → Bool
  | .stringLiteral _ | .integerLiteral _ | .numberLiteral _ | .true_ | .false_ | .null
  | .leftBracket | .leftBrace => true
  | _ => false

/-- A container starts with its bracket. -/
theorem between_starts (open_ close : TokenKind) (p : Grammar.Rule α) :
    Starts (· = open_) (Grammar.between open_ close p) := by
  intro w a h
  obtain ⟨v, rfl, -⟩ := terminal_bind_iff.mp h
  exact ⟨open_, v, rfl, rfl⟩

/-- What a literal starts with. -/
theorem value_starts (nesting : Nat) : Starts (startsValue · = true) (Grammar.value nesting) := by
  have hscalar : Starts (startsValue · = true) Grammar.scalar := by
    intro w v h
    rw [scalar_iff] at h
    rcases h with ⟨s, rfl, -⟩ | ⟨n, rfl, -⟩ | ⟨x, rfl, -⟩ | ⟨rfl, -⟩ | ⟨rfl, -⟩ | ⟨rfl, -⟩
    all_goals exact ⟨_, [], rfl, rfl⟩
  cases nesting with
  | zero => exact hscalar
  | succ nesting =>
    rintro w v (h | h | h)
    · exact hscalar w v h
    · obtain ⟨items, hitems, -⟩ := bind_pure_iff.mp h
      obtain ⟨_, w, rfl, rfl⟩ := between_starts _ _ _ w items hitems
      exact ⟨_, w, rfl, rfl⟩
    · obtain ⟨entries, hentries, -⟩ := bind_pure_iff.mp h
      obtain ⟨_, w, rfl, rfl⟩ := between_starts _ _ _ w entries hentries
      exact ⟨_, w, rfl, rfl⟩

/-- No literal starts with what ends an array. -/
theorem startsValue_endsItems {kind : TokenKind} (h : startsValue kind = true) :
    endsItems kind = false := by
  cases kind <;> first | rfl | cases h

/-- **Values**, by induction on how many containers may still be opened. -/
theorem valueAt_rec (nesting : Nat) {depth limit : Nat} (h : limit - depth = nesting) :
    Recognizes anywhere ⟨depth, limit⟩ (demanded (valueAt nesting)) (Grammar.value nesting) := by
  induction nesting generalizing depth with
  | zero =>
    have hfull : ¬ depth < limit := by omega
    refine (valueWith_rec (container_full rfl hfull) (container_full rfl hfull)
      (fun _ _ h => h.elim) fun _ _ h => h.elim).congr fun w v => ?_
    simp [Grammar.value]
  | succ nesting ih =>
    have hroom : depth < limit := by omega
    have hv : Recognizes anywhere ⟨depth + 1, limit⟩ (demanded (valueAt nesting))
        (Grammar.value nesting) := ih (by omega)
    have hstart : Starts (fun kind => endsItems kind = false) (Grammar.value nesting) := by
      intro w v hw
      obtain ⟨kind, u, rfl, hkind⟩ := value_starts nesting w v hw
      exact ⟨kind, u, rfl, startsValue_endsItems hkind⟩
    exact valueWith_rec (arrayWith_rec hroom hv hstart) (objectWith_rec hroom hv)
      (between_starts _ _ _) (between_starts _ _ _)

variable {depth limit : Nat}

/-- **Literals are recognized.** -/
theorem value_rec :
    Recognizes anywhere ⟨depth, limit⟩ (demanded value) (Grammar.value (limit - depth)) :=
  ⟨fun ts v us h => (valueAt_rec _ rfl).sound ts v us h,
    fun w v us h hF => (valueAt_rec _ rfl).complete w v us h hF⟩

/-- With room for a container, what may be nested in it. -/
theorem nesting_succ (hroom : depth < limit) : limit - depth = limit - (depth + 1) + 1 := by
  omega

/-- Objects are recognized. -/
theorem object_rec :
    Recognizes anywhere ⟨depth, limit⟩ object (Grammar.objectValue (limit - depth)) := by
  by_cases hroom : depth < limit
  · rw [nesting_succ hroom]
    exact objectWith_rec hroom value_rec
  · rw [Nat.sub_eq_zero_of_le (Nat.not_lt.mp hroom)]
    exact container_full rfl hroom

/-- **Dispatch** on the next token, which starts the branch taken. -/
theorem dispatch_rec (branches : TokenKind → Grammar.Rule β) {c : Option TokenKind → Recognizer β}
    {F : Option TokenKind → Prop} (hc : ∀ kind, Recognizes F e (c (some kind)) (branches kind))
    (hstart : ∀ kind, Starts (· = kind) (branches kind)) (hnone : c none = fail) :
    Recognizes F e (peekKind >>= c) fun w b => ∃ kind, branches kind w b where
  sound ts b us h := by
    cases ts with
    | nil =>
      replace h : c none e [] = some (b, us) := h
      rw [hnone] at h
      cases h
    | cons kind ts =>
      obtain ⟨w, hw, hb⟩ := (hc kind).sound (kind :: ts) b us h
      exact ⟨w, hw, kind, hb⟩
  complete w b us := by
    rintro ⟨kind, h⟩ hF
    obtain ⟨_, v, rfl, rfl⟩ := hstart kind w b h
    exact (hc _).complete _ b us h hF

/-- The rules of keywords, then a step on the tree. -/
theorem starts_bind {first : TokenKind → Prop} {p : Grammar.Rule α} (h : Starts first p)
    (k : α → Grammar.Rule β) : Starts first (p >>= k) := by
  rintro w b ⟨u, v, a, rfl, hu, -⟩
  obtain ⟨kind, u', rfl, hkind⟩ := h u a hu
  exact ⟨kind, u' ++ v, rfl, hkind⟩

/-- A terminal starts with itself. -/
theorem starts_terminal {first : TokenKind → Prop} {kind : TokenKind} (h : first kind) :
    Starts first (terminal kind) := by
  rintro w _ rfl
  exact ⟨kind, [], rfl, h⟩

/-- What follows a keyword starts with it. -/
theorem keyword_starts (kind : TokenKind) (k : Unit → Grammar.Rule β) :
    Starts (· = kind) (terminal kind >>= k) :=
  starts_bind (starts_terminal (by rfl)) k

/-- What one of two phrases starts with. -/
theorem starts_or {first : TokenKind → Prop} {p q : Grammar.Rule α} (hp : Starts first p)
    (hq : Starts first q) : Starts first (p <|> q) := by
  rintro w a (h | h)
  · exact hp w a h
  · exact hq w a h

/-- What starts with other kinds is not mistaken for a kind. -/
theorem Starts.notNext {kind : TokenKind} {p : Grammar.Rule α} {F : Option TokenKind → Prop}
    (h : Starts (fun first => first.discriminant ≠ kind.discriminant) p) (w : List TokenKind)
    (a : α) (us : List TokenKind) (hw : p w a) (_ : F us.head?) : NotNext kind (w ++ us).head? := by
  obtain ⟨first, v, rfl, hfirst⟩ := h w a hw
  exact beq_eq_false_iff_ne.mpr hfirst

/-- A phrase that derives nothing starts with anything. -/
theorem starts_never {first : TokenKind → Prop} : Starts first (never : Grammar.Rule α) :=
  fun _ _ h => h.elim

/-- **A glance** at a keyword that one of two phrases starts with. -/
theorem check_rec {kind : TokenKind} {c : Bool → Recognizer β} {p q : Grammar.Rule β}
    {F : Option TokenKind → Prop} (hp : Recognizes F e (c true) p)
    (hstart : Starts (· = kind) p) (hq : Recognizes F e (c false) q)
    (hnot : ∀ w b us, q w b → F us.head? → NotNext kind (w ++ us).head?) :
    Recognizes F e (check kind >>= c) (p <|> q) := by
  refine .look (fun ts b us h => ?_) fun w b us h hF => ?_
  · generalize (ts.head?.any fun actual => actual.discriminant == kind.discriminant) = next at h
    cases next with
    | true =>
      obtain ⟨w, hw, hp⟩ := hp.sound ts b us h
      exact ⟨w, hw, .inl hp⟩
    | false =>
      obtain ⟨w, hw, hq⟩ := hq.sound ts b us h
      exact ⟨w, hw, .inr hq⟩
  · rcases h with h | h
    · obtain ⟨first, v, rfl, hfirst⟩ := hstart w b h
      have hnext : ((first :: v ++ us).head?.any fun actual =>
          actual.discriminant == kind.discriminant) = true := by
        rw [hfirst]
        exact beq_self_eq_true _
      rw [hnext]
      exact hp.complete _ b us h hF
    · rw [hnot w b us h hF]
      exact hq.complete w b us h hF

/-- A condition that must not hold. -/
theorem rejectIf_rec (c : Bool) {g : Recognizer β} {p : Grammar.Rule β}
    {F : Option TokenKind → Prop} (h : Recognizes F e g p) :
    Recognizes F e (rejectIf c >>= fun _ => g) (if c = true then never else p) := by
  cases c with
  | true => exact Recognizes.fail (α := β)
  | false => exact h

/-- A glance without consequences. -/
theorem check_skip (kind : TokenKind) {g : Recognizer β} {p : Grammar.Rule β}
    {F : Option TokenKind → Prop} (h : Recognizes F e g p) :
    Recognizes F e (check kind >>= fun _ => g) p :=
  .look h.sound h.complete

/-! ## Requests -/

/-- A request header is recognized. -/
theorem requestHeader_rec (entries : List (String × Tree.Value)) :
    Recognizes (NotNext .comma) ⟨depth, limit⟩ (requestHeader entries)
      (do let entry ← Grammar.headerValueEntry (limit - depth); pure (entries ++ [entry])) := by
  simp only [Grammar.headerValueEntry, bind_assoc, pure_bind]
  refine .next token_rec fun name => .next (consume_rec rfl) fun _ => ?_
  exact .demand value_rec rfl (fun v => .map skipOptionalComma_rec) fun _ _ _ _ _ _ => trivial

/-- What follows a string literal starts with one. -/
theorem string_starts (k : String → Grammar.Rule α) :
    Starts (fun kind => ∃ s, kind = .stringLiteral s) (Grammar.string >>= k) := by
  refine starts_bind ?_ k
  rintro w s ⟨kind, rfl, h⟩
  exact ⟨kind, [], rfl, s, Grammar.stringOf_eq_some.mp h⟩

/-- The headers of a request are recognized. -/
theorem requestHeaders_rec :
    Recognizes anywhere ⟨depth, limit⟩ requestHeaders
      (do
        terminal .headers
        Grammar.braces (many (Grammar.headerValueEntry (limit - depth)))) := by
  refine .next (consume_rec rfl) fun _ => .next (consume_rec rfl) fun _ =>
    closed_rec rfl (untilNext_rec requestHeader_rec ?_) ⟨rfl, rfl⟩
  refine (string_starts _).mono ?_
  rintro _ ⟨s, rfl⟩
  exact ⟨rfl, rfl⟩

/-- The query of a request is recognized. -/
theorem requestQuery_rec :
    Recognizes anywhere ⟨depth, limit⟩ requestQuery
      (do terminal .query; Grammar.objectValue (limit - depth)) :=
  .next (consume_rec rfl) fun _ => object_rec

/-- The body of a request is recognized. -/
theorem requestBody_rec :
    Recognizes anywhere ⟨depth, limit⟩ requestBody
      (do terminal .body; Grammar.objectValue (limit - depth)) :=
  .next (consume_rec rfl) fun _ => object_rec

/-- One more section of a request, chosen by its first token as the parser chooses it. -/
def requestSectionAt (nesting : Nat) (sections : List Tree.RequestSection) :
    TokenKind → Grammar.Rule (List Tree.RequestSection)
  | .headers => do
    terminal .headers
    let entries ← Grammar.braces (many (Grammar.headerValueEntry nesting))
    pure (sections ++ [.headers entries])
  | .query => do
    terminal .query
    let entries ← Grammar.objectValue nesting
    pure (sections ++ [.query entries])
  | .body => do
    terminal .body
    let entries ← Grammar.objectValue nesting
    pure (sections ++ [.body entries])
  | _ => never

/-- A section of a request is recognized. -/
theorem requestSection_rec (sections : List Tree.RequestSection) :
    Recognizes anywhere ⟨depth, limit⟩ (requestSection sections)
      (do let s ← Grammar.requestSection (limit - depth); pure (sections ++ [s])) := by
  simp only [Grammar.requestSection, orElse_bind, bind_assoc, pure_bind]
  refine (dispatch_rec (requestSectionAt (limit - depth) sections) (fun kind => ?_)
    (fun kind => ?_) rfl).congr fun w s => ⟨?_, ?_⟩
  · cases kind with
    | headers =>
      exact requestHeaders_rec.map.congr fun w s => by rw [bind_assoc, requestSectionAt]
    | query => exact requestQuery_rec.map.congr fun w s => by rw [bind_assoc, requestSectionAt]
    | body => exact requestBody_rec.map.congr fun w s => by rw [bind_assoc, requestSectionAt]
    | _ => exact .fail
  · cases kind with
    | headers => exact keyword_starts _ _
    | query => exact keyword_starts _ _
    | body => exact keyword_starts _ _
    | _ => exact starts_never
  · rintro ⟨kind, h⟩
    cases kind with
    | headers => exact .inl h
    | query => exact .inr (.inl h)
    | body => exact .inr (.inr h)
    | _ => exact h.elim
  · rintro (h | h | h)
    · exact ⟨.headers, h⟩
    · exact ⟨.query, h⟩
    · exact ⟨.body, h⟩

/-- The words of a section start with one of its keywords. -/
theorem requestSection_starts (nesting : Nat) :
    Starts (isRequestSectionStart · = true) (Grammar.requestSection nesting) := by
  rintro w s (h | h | h) <;>
  · obtain ⟨v, rfl, -⟩ := terminal_bind_iff.mp h
    exact ⟨_, v, rfl, rfl⟩

/-- The sections of a request between their braces. -/
theorem requestSections_rec :
    Recognizes anywhere ⟨depth, limit⟩
      (closed .rightBrace <|
        untilNext (fun kind => isRightBrace kind || kind.isTestBoundary) requestSection [])
      (do
        let sections ← many (Grammar.requestSection (limit - depth))
        terminal .rightBrace
        pure sections) := by
  refine closed_rec rfl (untilNext_rec requestSection_rec ?_) ⟨rfl, trivial⟩
  refine (requestSection_starts _).mono fun kind hkind => ?_
  cases kind <;> first | exact ⟨rfl, trivial⟩ | cases hkind

/-- **Requests are recognized.** -/
theorem request_rec :
    Recognizes (NotNext .leftBrace) ⟨depth, limit⟩ request (Grammar.request (limit - depth)) := by
  refine .next (consume_rec rfl) fun _ => .next token_rec fun method => .next token_rec fun path =>
    ?_
  simp only [orElse_bind, pure_bind, Grammar.braces, Grammar.between, bind_assoc]
  refine take_rec rfl ?_ (.pure _) ?_
  · refine (requestSections_rec.map.congr fun w r => ?_).mono fun _ _ => trivial
    rw [bind_assoc]
    simp only [bind_assoc, pure_bind]
  · rintro w r us ⟨rfl, -⟩ hnext
    exact hnext

/-! ## Expectations -/

/-- A status assertion is recognized. -/
theorem statusAssertion_rec :
    Recognizes (NotNext .comma) e statusAssertion Grammar.statusAssertion :=
  .next (consume_rec rfl) fun _ => .next (consume_rec rfl) fun _ => .next token_rec fun _ =>
    .map skipOptionalComma_rec

/-- A header assertion is recognized. -/
theorem responseHeader_rec (entries : List Tree.HeaderAssertion) :
    Recognizes (NotNext .comma) e (responseHeader entries)
      (do let entry ← Grammar.responseHeaderEntry; pure (entries ++ [entry])) := by
  simp only [Grammar.responseHeaderEntry, orElse_bind, bind_assoc, pure_bind, ← bind_orElse]
  refine .next token_rec fun name => take_rec rfl
    (.next (consume_rec rfl) fun _ => .map skipOptionalComma_rec) (take_rec rfl
      (.next token_rec fun _ => .map skipOptionalComma_rec) ?_ ?_) ?_
  · refine (takeContextualIdentifier_rec (.next token_rec fun _ => .map skipOptionalComma_rec) .fail
      fun _ _ _ h => h.elim).congr fun w r => ?_
    exact or_iff_left id
  · exact (starts_bind (starts_terminal (by decide)) _).notNext
  · exact (starts_or (starts_bind (starts_terminal (by decide)) _)
      (starts_bind (starts_terminal (by decide)) _)).notNext

/-- The headers of an expectation are recognized. -/
theorem responseHeaders_rec :
    Recognizes anywhere e responseHeaders
      (do terminal .headers; Grammar.braces (many Grammar.responseHeaderEntry)) := by
  refine .next (consume_rec rfl) fun _ => .next (consume_rec rfl) fun _ =>
    closed_rec rfl (untilNext_rec responseHeader_rec ?_) ⟨rfl, rfl⟩
  have hstart : Starts (fun kind => ∃ s, kind = .stringLiteral s) Grammar.responseHeaderEntry :=
    starts_or (string_starts _) (starts_or (string_starts _) (string_starts _))
  refine hstart.mono ?_
  rintro _ ⟨s, rfl⟩
  exact ⟨rfl, rfl⟩

/-! ## Fields -/

section Fields

variable {nested : Recognizer (List Tree.FieldAssertion)}
  {object : Grammar.Rule (List Tree.FieldAssertion)}

/-- What may follow the operand of a field: not another operand. -/
abbrev EndsOperand (next : Option TokenKind) : Prop :=
  NotNext .equal next ∧ NotNext .leftBrace next

/-- What may follow a field, an optional comma aside. -/
abbrev EndsField (next : Option TokenKind) : Prop := EndsOperand next ∧ NotNext .arrow next

/-- The operand of a field with a type. -/
def operandRule (rule : Grammar.Rule Tree.Value) (object : Grammar.Rule (List Tree.FieldAssertion))
    (type : AssertionTypeAst) : Grammar.Rule (Option Tree.Value × Option Tree.ObjectAssertion) :=
  (do terminal .equal; let v ← rule; pure (some v, none)) <|>
    ((if type = .object then do let fields ← object; pure (none, some ⟨.partially, fields⟩)
      else never) <|> pure (none, none))

/-- What follows the type of a field is recognized. -/
theorem fieldOperand_rec (hnested : Recognizes anywhere ⟨depth, limit⟩ nested object)
    (hbrace : Starts (· = .leftBrace) object) (type : AssertionTypeAst) :
    Recognizes EndsOperand ⟨depth, limit⟩ (fieldOperand nested (some type))
      (operandRule (Grammar.value (limit - depth)) object type) := by
  refine take_rec rfl (.demand value_rec rfl (fun v => .pure _) fun _ _ _ _ _ _ => trivial) ?_ ?_
  · by_cases htype : type = .object
    · subst htype
      exact check_rec ((hnested.map).mono fun _ _ => trivial) (starts_bind hbrace _) (.pure _)
        fun w r us ⟨hw, _⟩ hnext => by rw [hw]; exact hnext.2
    · -- without an object type the glance at the `{` decides nothing
      have hany : (some type).any (fun kind => kind = .object) = false := by simpa using htype
      simp only [hany, Bool.false_and, if_neg htype]
      exact check_skip _ ((Recognizes.pure (none, none)).congr fun w r => (or_iff_right id).symm)
  · rintro w r us (h | ⟨rfl, -⟩) hnext
    · split at h
      · refine ((starts_bind hbrace _).mono ?_).notNext w r us h hnext
        rintro _ rfl
        decide
      · exact h.elim
    · exact hnext.1

/-- The capture of a typed field is recognized. -/
theorem capture_rec (type : AssertionTypeAst) :
    Recognizes (NotNext .arrow) e (capture (some type)) (option Grammar.capture) := by
  have hrun : capture (some type) = take .arrow >>= fun taken =>
      if taken then captureName >>= fun name => pure (some name) else pure none := rfl
  rw [hrun]
  simp only [option, Grammar.capture, bind_assoc]
  refine take_rec rfl (.mono token_rec.map fun _ _ => trivial) (.pure none) ?_
  rintro w r us ⟨rfl, -⟩ hnext
  exact hnext

/-- A field with a type, after its name and the colon. -/
theorem typedField_rec (hnested : Recognizes anywhere ⟨depth, limit⟩ nested object)
    (hbrace : Starts (· = .leftBrace) object) (name : String) :
    Recognizes EndsField ⟨depth, limit⟩ (typedField nested name)
      (do
        let type ← Grammar.assertionType
        let operand ← operandRule (Grammar.value (limit - depth)) object type
        let captured ← option Grammar.capture
        pure ⟨name, some type, operand.1, operand.2, captured⟩) := by
  refine .next token_rec fun type => .bind (fieldOperand_rec hnested hbrace type)
    (fun operand => (capture_rec type).map.mono fun _ h => h.2) ?_
  rintro operand v r us h hnext
  obtain ⟨captured, hcapture, -⟩ := bind_pure_iff.mp h
  rcases hcapture with hcapture | ⟨rfl, -⟩
  · rw [Grammar.capture, bind_assoc] at hcapture
    obtain ⟨v, rfl, -⟩ := terminal_bind_iff.mp hcapture
    exact ⟨rfl, rfl⟩
  · exact hnext.1

/-- What stands in the place of a type is recognized. -/
theorem fieldOperand_none_rec :
    Recognizes EndsOperand ⟨depth, limit⟩ (fieldOperand nested none)
      ((do terminal .equal; let v ← Grammar.value (limit - depth); pure (some v, none)) <|>
        pure (none, none)) := by
  refine take_rec rfl (.demand value_rec rfl (fun v => .pure _) fun _ _ _ _ _ _ => trivial)
    (check_skip _ (.pure _)) ?_
  rintro w r us ⟨rfl, -⟩ hnext
  exact hnext.1

/-- Without a type there is no capture. -/
theorem capture_none_rec : Recognizes (NotNext .arrow) e (capture none) (pure none) := by
  have hrun : capture none = take .arrow >>= fun taken => if taken then fail else pure none := by
    rfl
  rw [hrun]
  refine (take_rec (p := never) rfl .fail (.pure none) ?_).congr fun w r => ?_
  · rintro w r us ⟨rfl, -⟩ hnext
    exact hnext
  · simp

/-- A field without a type, after its name. -/
theorem untypedField_rec (name : String) :
    Recognizes EndsField ⟨depth, limit⟩ (fieldRest nested name none)
      (do
        terminal .equal
        let v ← Grammar.value (limit - depth)
        pure ⟨name, none, some v, none, none⟩) := by
  -- without a type there is nothing to capture, and a value has to follow
  have hrest : ∀ operand : Option Tree.Value × Option Tree.ObjectAssertion,
      Recognizes (NotNext .arrow) ⟨depth, limit⟩
        (do
          let captured ← capture none
          rejectIf (operand.1.isNone && operand.2.isNone)
          pure (⟨name, none, operand.1, operand.2, captured⟩ : Tree.FieldAssertion))
        (if (operand.1.isNone && operand.2.isNone) = true then never
          else pure ⟨name, none, operand.1, operand.2, none⟩) := by
    intro operand
    rw [← pure_bind none fun captured => if (operand.1.isNone && operand.2.isNone) = true then
      never else pure (⟨name, none, operand.1, operand.2, captured⟩ : Tree.FieldAssertion)]
    refine .bind capture_none_rec (fun captured => rejectIf_rec _ (.pure _)) ?_
    rintro captured v r us h hnext
    split at h
    · exact h.elim
    · obtain ⟨rfl, -⟩ := h
      exact hnext
  refine (Recognizes.bind fieldOperand_none_rec (fun operand => (hrest operand).mono fun _ h => h.2)
    ?_).congr fun w r => ?_
  · rintro operand v r us h hnext
    split at h
    · exact h.elim
    · obtain ⟨rfl, -⟩ := h
      exact hnext.1
  · simp only [orElse_bind, bind_assoc, pure_bind]
    simp

/-- **A field**, up to the comma that may follow it. -/
theorem fieldAssertion_rec (hnested : Recognizes anywhere ⟨depth, limit⟩ nested object)
    (hbrace : Starts (· = .leftBrace) object) :
    Recognizes EndsField ⟨depth, limit⟩ (fieldAssertion nested)
      (do
        let name ← Grammar.objectKey
        (do
          terminal .colon
          let type ← Grammar.assertionType
          let operand ← operandRule (Grammar.value (limit - depth)) object type
          let captured ← option Grammar.capture
          pure ⟨name, some type, operand.1, operand.2, captured⟩) <|>
        (do
          terminal .equal
          let v ← Grammar.value (limit - depth)
          pure ⟨name, none, some v, none, none⟩)) := by
  refine .demand objectKey_rec rfl (fun name => ?_) fun _ _ _ _ _ _ => trivial
  refine take_rec rfl (typedField_rec hnested hbrace name) (untypedField_rec name) ?_
  exact (starts_bind (starts_terminal (by decide)) _).notNext

/-- An object type is the keyword that says so. -/
theorem objectType_bind (p : Grammar.Rule α) (k : AssertionTypeAst → α → Grammar.Rule β) :
    (Grammar.assertionType >>= fun type => (if type = .object then p else never) >>= k type) =
      (do terminal .typeObject; let a ← p; k .object a) := by
  ext w b
  refine ⟨?_, ?_⟩
  · rintro ⟨_, _, type, rfl, ⟨kind, rfl, hkind⟩, u, v, a, rfl, hp, hk⟩
    split at hp
    · next htype =>
      subst htype
      have hobject : kind = .typeObject := by
        cases kind <;> first | rfl | simp [Grammar.typeOf] at hkind
      subst hobject
      exact ⟨_, _, (), rfl, rfl, u, v, a, rfl, hp, hk⟩
    · exact hp.elim
  · rintro ⟨_, _, _, rfl, rfl, h⟩
    exact ⟨_, _, .object, rfl, ⟨_, rfl, rfl⟩, h⟩

/-- The grammar says the same with its alternatives side by side. -/
theorem fieldAssertion_iff (w : List TokenKind) (rule : Grammar.Rule Tree.Value)
    (fields fields' : List Tree.FieldAssertion) :
    (do
      let field ← (do
        let name ← Grammar.objectKey
        (do
          terminal .colon
          let type ← Grammar.assertionType
          let operand ← operandRule rule object type
          let captured ← option Grammar.capture
          pure ⟨name, some type, operand.1, operand.2, captured⟩) <|>
        (do
          terminal .equal
          let v ← rule
          pure ⟨name, none, some v, none, none⟩))
      Grammar.optionalComma
      pure (fields ++ [field]) : Grammar.Rule (List Tree.FieldAssertion)) w fields' ↔
    (do
      let field ← Grammar.fieldAssertion rule object
      pure (fields ++ [field]) : Grammar.Rule (List Tree.FieldAssertion)) w fields' := by
  simp only [Grammar.fieldAssertion, Grammar.typedRule, operandRule, orElse_bind, bind_assoc,
    pure_bind, bind_orElse, objectType_bind, orElse_iff]
  tauto

/-- A field of an object assertion is recognized. -/
theorem field_rec (hnested : Recognizes anywhere ⟨depth, limit⟩ nested object)
    (hbrace : Starts (· = .leftBrace) object) (fields : List Tree.FieldAssertion) :
    Recognizes Ends ⟨depth, limit⟩ (field nested fields)
      (do
        let f ← Grammar.fieldAssertion (Grammar.value (limit - depth)) object
        pure (fields ++ [f])) := by
  refine (Recognizes.bind (fieldAssertion_rec hnested hbrace)
    (fun f => skipOptionalComma_rec.map.mono fun _ h => h.notNext rfl) ?_).congr
    fun w fields' => fieldAssertion_iff w _ fields fields'
  rintro f v r us h hnext
  obtain ⟨_, rfl | ⟨rfl, -⟩, -⟩ := bind_pure_iff.mp h
  · exact ⟨⟨rfl, rfl⟩, rfl⟩
  · exact ⟨⟨hnext.notNext rfl, hnext.notNext rfl⟩, hnext.notNext rfl⟩

/-- Fields are recognized if what is nested in them is. -/
theorem fields_rec (hroom : depth < limit)
    (hnested : Recognizes anywhere ⟨depth + 1, limit⟩ nested object)
    (hbrace : Starts (· = .leftBrace) object) :
    Recognizes anywhere ⟨depth, limit⟩ (fields nested)
      (Grammar.braces
        (many (Grammar.fieldAssertion (Grammar.value (limit - (depth + 1))) object))) := by
  refine container_rec rfl rfl hroom (untilNext_rec (field_rec hnested hbrace) ?_) ⟨rfl, rfl⟩
  intro w f h
  have hkey : ∃ kind v, w = kind :: v ∧ ∃ text, keyText kind = some text := by
    rcases h with ⟨u, v, key, rfl, hkey, -⟩ | ⟨u, v, key, rfl, hkey, -⟩
    all_goals
      obtain ⟨kind, rfl, htext⟩ := objectKey_token hkey
      exact ⟨kind, v, rfl, key, htext⟩
  obtain ⟨kind, v, rfl, text, htext⟩ := hkey
  refine ⟨kind, v, rfl, ?_⟩
  cases kind <;> first | exact ⟨rfl, rfl⟩ | cases htext

end Fields

/-- Nested fields start with a brace. -/
theorem assertionObject_starts (nesting : Nat) :
    Starts (· = .leftBrace) (Grammar.assertionObject nesting) := by
  cases nesting with
  | zero => exact starts_never
  | succ nesting => exact between_starts _ _ _

/-- **Object assertions**, by induction on how many containers may still be opened. -/
theorem fieldsAt_rec (nesting : Nat) {depth limit : Nat} (h : limit - depth = nesting) :
    Recognizes anywhere ⟨depth, limit⟩ (fieldsAt nesting) (Grammar.assertionObject nesting) := by
  induction nesting generalizing depth with
  | zero => exact container_full rfl (by omega)
  | succ nesting ih =>
    have hnesting : limit - (depth + 1) = nesting := by omega
    have hfields := fields_rec (by omega) (ih hnesting) (assertionObject_starts nesting)
    rw [hnesting] at hfields
    exact hfields

/-- **Object assertions are recognized.** -/
theorem objectAssertion_rec (mode : ObjectMatchModeAst) :
    Recognizes anywhere ⟨depth, limit⟩ (objectAssertion mode)
      (do let fields ← Grammar.assertionObject (limit - depth); pure ⟨mode, fields⟩) :=
  .look (fieldsAt_rec _ rfl).map.sound (fieldsAt_rec _ rfl).map.complete

/-- `exact` may stand before the fields of a body. -/
theorem objectBody_rec :
    Recognizes anywhere ⟨depth, limit⟩
      (do
        let mode := if ← take .exact then .exact else .partially
        return .object (← objectAssertion mode))
      (do
        let mode ← (do terminal .exact; pure .exact) <|> pure .partially
        let fields ← Grammar.assertionObject (limit - depth)
        pure (.object ⟨mode, fields⟩) : Grammar.Rule Tree.BodyAssertion) := by
  simp only [orElse_bind, bind_assoc, pure_bind]
  refine take_rec rfl ((objectAssertion_rec _).map.congr fun w r => ?_)
    ((objectAssertion_rec _).map.congr fun w r => ?_) ?_
  · simp only [bind_assoc, pure_bind]
    exact Iff.rfl
  · simp only [bind_assoc, pure_bind]
    exact Iff.rfl
  · refine ((starts_bind (assertionObject_starts _) _).mono ?_).notNext
    rintro _ rfl
    decide

/-- What an expected object starts with. -/
theorem objectBody_starts (nesting : Nat) :
    Starts (fun kind => kind = .exact ∨ kind = .leftBrace)
      (do
        let mode ← (do terminal .exact; pure .exact) <|> pure .partially
        let fields ← Grammar.assertionObject nesting
        pure (.object ⟨mode, fields⟩) : Grammar.Rule Tree.BodyAssertion) := by
  simp only [orElse_bind, bind_assoc, pure_bind]
  refine starts_or (starts_bind (starts_terminal (.inl rfl)) _) ?_
  exact (starts_bind (assertionObject_starts nesting) _).mono fun _ => .inr

/-- A body assertion starts with its keyword. -/
theorem bodyAssertion_starts (nesting : Nat) :
    Starts (· = .body) (Grammar.bodyAssertion nesting) :=
  starts_or (keyword_starts _ _) (starts_or (keyword_starts _ _)
    (starts_or (keyword_starts _ _) (keyword_starts _ _)))

/-- A body assertion is recognized. -/
theorem bodyAssertion_rec :
    Recognizes (NotNext .comma) ⟨depth, limit⟩ bodyAssertion
      (Grammar.bodyAssertion (limit - depth)) := by
  simp only [Grammar.bodyAssertion, ← bind_orElse]
  refine .next (consume_rec rfl) fun _ => ?_
  refine takeContextualIdentifier_rec skipOptionalComma_rec.map
    (take_rec rfl (.next token_rec fun _ => skipOptionalComma_rec.map)
      (takeContextualIdentifier_rec (.next token_rec fun _ => skipOptionalComma_rec.map)
        (objectBody_rec.mono fun _ _ => trivial) ?_) ?_) ?_
  · intro w b us h _
    obtain ⟨kind, v, rfl, rfl | rfl⟩ := objectBody_starts _ w b h <;> simp
  · refine (starts_or (starts_bind (starts_terminal ?_) _) ((objectBody_starts _).mono ?_)).notNext
    · decide
    · rintro _ (rfl | rfl) <;> decide
  · intro w b us h _
    rcases h with h | h | h
    · obtain ⟨v, rfl, -⟩ := terminal_bind_iff.mp h
      simp
    · obtain ⟨v, rfl, -⟩ := terminal_bind_iff.mp h
      simp
    · obtain ⟨kind, v, rfl, rfl | rfl⟩ := objectBody_starts _ w b h <;> simp

/-- One more section of an expectation, chosen by its first token. -/
def expectationSectionAt (nesting : Nat) (sections : List Tree.ExpectationSection) :
    TokenKind → Grammar.Rule (List Tree.ExpectationSection)
  | .status => do
    let status ← Grammar.statusAssertion
    pure (sections ++ [.status status])
  | .headers => do
    terminal .headers
    let entries ← Grammar.braces (many Grammar.responseHeaderEntry)
    pure (sections ++ [.headers entries])
  | .body => do
    let body ← Grammar.bodyAssertion nesting
    pure (sections ++ [.body body])
  | _ => never

/-- A section of an expectation is recognized. -/
theorem expectationSection_rec (sections : List Tree.ExpectationSection) :
    Recognizes (NotNext .comma) ⟨depth, limit⟩ (expectationSection sections)
      (do let s ← Grammar.expectationSection (limit - depth); pure (sections ++ [s])) := by
  simp only [Grammar.expectationSection, orElse_bind, bind_assoc, pure_bind]
  refine (dispatch_rec (expectationSectionAt (limit - depth) sections) (fun kind => ?_)
    (fun kind => ?_) rfl).congr fun w s => ⟨?_, ?_⟩
  · cases kind with
    | status => exact statusAssertion_rec.map
    | headers =>
      refine (responseHeaders_rec.map.congr fun w s => ?_).mono fun _ _ => trivial
      rw [bind_assoc, expectationSectionAt]
    | body => exact bodyAssertion_rec.map
    | _ => exact .fail
  · cases kind with
    | status => exact starts_bind (keyword_starts _ _) _
    | headers => exact keyword_starts _ _
    | body => exact starts_bind (bodyAssertion_starts _) _
    | _ => exact starts_never
  · rintro ⟨kind, h⟩
    cases kind with
    | status => exact .inl h
    | headers => exact .inr (.inl h)
    | body => exact .inr (.inr h)
    | _ => exact h.elim
  · rintro (h | h | h)
    · exact ⟨.status, h⟩
    · exact ⟨.headers, h⟩
    · exact ⟨.body, h⟩

/-- What a section of an expectation starts with. -/
theorem expectationSection_starts (nesting : Nat) :
    Starts (·.isExpectationSectionStart = true) (Grammar.expectationSection nesting) := by
  refine starts_or ?_ (starts_or (starts_bind (starts_terminal (by rfl)) _) ?_)
  · exact starts_bind (starts_bind (starts_terminal (by rfl)) _) _
  · refine (starts_bind (bodyAssertion_starts nesting) _).mono ?_
    rintro _ rfl
    rfl

/-- **Expectations are recognized.** -/
theorem expectation_rec :
    Recognizes anywhere ⟨depth, limit⟩ expectation (Grammar.expectation (limit - depth)) := by
  refine .next (consume_rec rfl) fun _ => .next (consume_rec rfl) fun _ =>
    closed_rec rfl (untilNext_rec expectationSection_rec ?_) ⟨rfl, rfl⟩
  refine (expectationSection_starts _).mono fun kind hkind => ?_
  cases kind <;> first | exact ⟨rfl, rfl⟩ | cases hkind

/-! ## Tests, blocks and suites -/

/-- One more declaration of a test; after an expectation no request. -/
def testStep (nesting : Nat) (items : TestTrees) : Grammar.Rule TestTrees :=
  (if items.sawExpectation = true then never
    else do
      let r ← Grammar.request nesting
      pure { items with requests := items.requests ++ [r] }) <|>
  (do
    let expectation ← Grammar.expectation nesting
    pure { items with
      expectations := items.expectations ++ [expectation], sawExpectation := true })

/-- The same, chosen by the first token. -/
def testStepAt (nesting : Nat) (items : TestTrees) : TokenKind → Grammar.Rule TestTrees
  | .request => if items.sawExpectation = true then never else do
    let r ← Grammar.request nesting
    pure { items with requests := items.requests ++ [r] }
  | .expect => do
    let expectation ← Grammar.expectation nesting
    pure { items with
      expectations := items.expectations ++ [expectation], sawExpectation := true }
  | _ => never

/-- An item of a test is recognized. -/
theorem testItem_rec (items : TestTrees) :
    Recognizes (NotNext .leftBrace) ⟨depth, limit⟩ (testItem items)
      (testStep (limit - depth) items) := by
  refine (dispatch_rec (testStepAt (limit - depth) items) (fun kind => ?_)
    (fun kind => ?_) rfl).congr fun w s => ⟨?_, ?_⟩
  · cases kind with
    | request => exact rejectIf_rec _ request_rec.map
    | expect => exact expectation_rec.map.mono fun _ _ => trivial
    | _ => exact .fail
  · cases kind with
    | request =>
      rw [testStepAt]
      split
      · exact starts_never
      · exact starts_bind (keyword_starts _ _) _
    | expect => exact starts_bind (keyword_starts _ _) _
    | _ => exact starts_never
  · rintro ⟨kind, h⟩
    cases kind with
    | request => exact .inl h
    | expect => exact .inr h
    | _ => exact h.elim
  · rintro (h | h)
    · exact ⟨.request, h⟩
    · exact ⟨.expect, h⟩

/-- What an item of a test starts with. -/
theorem testStep_starts (nesting : Nat) (items : TestTrees) :
    Starts (fun kind => kind = .request ∨ kind = .expect) (testStep nesting items) := by
  refine starts_or ?_ (starts_bind (starts_bind (starts_terminal (.inr rfl)) _) _)
  split
  · exact starts_never
  · exact starts_bind (starts_bind (starts_terminal (.inl rfl)) _) _

/-- Behind an expectation only expectations follow. -/
theorem iterate_expectations {nesting : Nat} {w : List TokenKind}
    {es : List (List Tree.ExpectationSection)} (h : many (Grammar.expectation nesting) w es)
    (items : TestTrees) : iterate (testStep nesting) items w
      ⟨items.requests, items.expectations ++ es, items.sawExpectation || !es.isEmpty⟩ := by
  induction h generalizing items with
  | nil =>
    rw [List.append_nil, List.isEmpty_nil, Bool.not_true, Bool.or_false]
    exact .nil
  | @cons u v e es he _ ih =>
    rw [List.append_cons, List.isEmpty_cons, Bool.not_false, Bool.or_true]
    exact .cons (.inr (bind_pure_iff.mpr ⟨e, he, rfl⟩)) (ih ⟨items.requests, _, true⟩)

/-- Requests come first. -/
theorem iterate_requests {nesting : Nat} {u v : List TokenKind} {rs : List Tree.Request}
    (h : many (Grammar.request nesting) u rs) (items items' : TestTrees)
    (hsaw : items.sawExpectation = false)
    (hs : iterate (testStep nesting) { items with requests := items.requests ++ rs } v items') :
    iterate (testStep nesting) items (u ++ v) items' := by
  induction h generalizing items with
  | nil =>
    rw [List.append_nil] at hs
    exact hs
  | @cons a b r rs hr _ ih =>
    rw [List.append_assoc]
    refine .cons (.inl ?_) (ih { items with requests := items.requests ++ [r] } hsaw ?_)
    · rw [if_neg (by rw [hsaw]; decide)]
      exact bind_pure_iff.mpr ⟨r, hr, rfl⟩
    · rw [List.append_assoc]
      exact hs

/-- **The declarations of a test** are requests and then expectations. -/
theorem iterate_testStep (nesting : Nat) (items : TestTrees) (w : List TokenKind)
    (items' : TestTrees) : iterate (testStep nesting) items w items' ↔
      ∃ u v rs es, w = u ++ v ∧ many (Grammar.request nesting) u rs ∧
        many (Grammar.expectation nesting) v es ∧ (items.sawExpectation = true → rs = []) ∧
        items' = ⟨items.requests ++ rs, items.expectations ++ es,
          items.sawExpectation || !es.isEmpty⟩ := by
  refine ⟨?_, ?_⟩
  · intro h
    induction h with
    | nil => exact ⟨[], [], [], [], rfl, .nil, .nil, fun _ => rfl, by simp⟩
    | @cons items items₁ items₂ a b hstep _ ih =>
      obtain ⟨u, v, rs, es, rfl, hrs, hes, hsaw, rfl⟩ := ih
      rcases hstep with hstep | hstep
      · split at hstep
        · exact hstep.elim
        · next hnot =>
          obtain ⟨r, hr, rfl⟩ := bind_pure_iff.mp hstep
          exact ⟨a ++ u, v, r :: rs, es, (List.append_assoc _ _ _).symm, .cons hr hrs, hes,
            fun h => absurd h hnot, by simp⟩
      · obtain ⟨e, he, rfl⟩ := bind_pure_iff.mp hstep
        -- after an expectation no request is allowed any more
        obtain rfl := hsaw rfl
        cases hrs with
        | nil => exact ⟨[], a ++ v, [], e :: es, rfl, .nil, .cons he hes, fun _ => rfl, by simp⟩
  · rintro ⟨u, v, rs, es, rfl, hrs, hes, hsaw, rfl⟩
    cases hitems : items.sawExpectation with
    | true =>
      obtain rfl := hsaw hitems
      cases hrs with
      | nil =>
        rw [← hitems, List.append_nil]
        exact iterate_expectations hes items
    | false =>
      rw [← hitems]
      exact iterate_requests hrs items _ hitems (iterate_expectations hes _)

/-- The items of a test are requests and then expectations. -/
theorem testItems_eq (nesting : Nat) :
    iterate (testStep nesting) ⟨[], [], false⟩ =
      (do
        let requests ← many (Grammar.request nesting)
        let expectations ← many (Grammar.expectation nesting)
        pure ⟨requests, expectations, !expectations.isEmpty⟩) := by
  ext w items
  rw [iterate_testStep]
  refine ⟨?_, ?_⟩
  · rintro ⟨u, v, rs, es, rfl, hrs, hes, -, rfl⟩
    exact ⟨u, v, rs, rfl, hrs, bind_pure_iff.mpr ⟨es, hes, rfl⟩⟩
  · rintro ⟨u, v, rs, rfl, hrs, h⟩
    obtain ⟨es, hes, rfl⟩ := bind_pure_iff.mp h
    exact ⟨u, v, rs, es, rfl, hrs, hes, nofun, rfl⟩

/-- **Tests are recognized.** -/
theorem test_rec :
    Recognizes anywhere ⟨depth, limit⟩ test (Grammar.test (limit - depth)) := by
  simp only [Grammar.test, Grammar.braces, Grammar.between, bind_assoc, pure_bind]
  refine .next (consume_rec rfl) fun _ => .next token_rec fun name =>
    .next (consume_rec rfl) fun _ => ?_
  have hitem (items : TestTrees) : Recognizes (NotNext .leftBrace) ⟨depth, limit⟩
      (testItem items) (testStep (limit - depth) items) := testItem_rec items
  have hloop := Recognizes.loop hitem (fun items => (testStep_starts _ items).mono
    (?_ : ∀ kind, _ → (isRightBrace kind || kind.isSuiteBoundary) = false ∧ _)) ⟨[], [], false⟩
  · refine (Recognizes.bind hloop (fun items => rejectIf_rec _ (rejectIf_rec _
      (.next (consume_rec rfl) fun _ => .pure _))) ?_).congr fun w t => ?_
    · intro items v t us h _
      split at h
      · exact h.elim
      · split at h
        · exact h.elim
        · obtain ⟨v, rfl, -⟩ := terminal_bind_iff.mp h
          exact ⟨rfl, rfl⟩
    · rw [testItems_eq]
      simp only [bind_assoc, pure_bind, bind_unless, many_unless_nil]
  · rintro _ (rfl | rfl) <;> exact ⟨rfl, rfl⟩

/-- A test starts with its keyword. -/
theorem test_starts (nesting : Nat) : Starts (· = .test) (Grammar.test nesting) :=
  keyword_starts _ _

/-- A test in a block is recognized. -/
theorem containedTest_rec (tests : List Tree.Test) :
    Recognizes anywhere ⟨depth, limit⟩ (containedTest tests)
      (do let t ← Grammar.test (limit - depth); pure (tests ++ [t])) := by
  refine (check_rec test_rec.map (starts_bind (test_starts _) _) .fail
    fun _ _ _ h => h.elim).congr fun w r => ?_
  exact or_iff_left id

/-- The tests of a block are recognized. -/
theorem containedTests_rec :
    Recognizes (fun next => next.all (fun kind => isRightBrace kind || kind.isOuterBlockBoundary) ∧
        anywhere next) ⟨depth, limit⟩
      (untilNext (fun kind => isRightBrace kind || kind.isOuterBlockBoundary) containedTest [])
      (many (Grammar.test (limit - depth))) := by
  refine untilNext_rec containedTest_rec ((test_starts _).mono ?_)
  rintro _ rfl
  exact ⟨rfl, trivial⟩

/-- A core is recognized. -/
theorem coreBlock_rec :
    Recognizes anywhere ⟨depth, limit⟩ coreBlock (Grammar.coreBlock (limit - depth)) :=
  .next (consume_rec rfl) fun _ => .next (consume_rec rfl) fun _ =>
    closed_rec rfl containedTests_rec ⟨rfl, trivial⟩

/-- A pipeline is recognized. -/
theorem pipelineBlock_rec :
    Recognizes anywhere ⟨depth, limit⟩ pipelineBlock (Grammar.pipelineBlock (limit - depth)) := by
  simp only [Grammar.pipelineBlock, Grammar.braces, Grammar.between, bind_assoc, pure_bind]
  refine .next (consume_rec rfl) fun _ => .next token_rec fun name =>
    .next (consume_rec rfl) fun _ => ?_
  refine (Recognizes.bind containedTests_rec (fun tests => rejectIf_rec _
    (.next (consume_rec rfl) fun _ => .pure _)) ?_).congr fun w r => ?_
  · intro tests v r us h _
    split at h
    · exact h.elim
    · obtain ⟨v, rfl, -⟩ := terminal_bind_iff.mp h
      exact ⟨rfl, trivial⟩
  · rw [many_unless_nil]

/-- One more block of a suite; after a core no core. -/
def suiteStep (nesting : Nat) (items : SuiteTrees) : Grammar.Rule SuiteTrees :=
  (if items.hasCore = true then never
    else do
      let tests ← Grammar.coreBlock nesting
      pure ⟨items.blocks ++ [.core tests], true⟩) <|>
  (do
    let block ← Grammar.pipelineBlock nesting
    pure { items with blocks := items.blocks ++ [.pipeline block.1 block.2] }) <|>
  (do
    let t ← Grammar.test nesting
    pure { items with blocks := items.blocks ++ [.test t] })

/-- The same, chosen by the first token. -/
def suiteStepAt (nesting : Nat) (items : SuiteTrees) : TokenKind → Grammar.Rule SuiteTrees
  -- a second core is refused before anything of it is read
  | .core => if items.hasCore = true then never else do
    let tests ← Grammar.coreBlock nesting
    pure ⟨items.blocks ++ [.core tests], true⟩
  | .pipeline => do
    let block ← Grammar.pipelineBlock nesting
    pure { items with blocks := items.blocks ++ [.pipeline block.1 block.2] }
  | .test => do
    let t ← Grammar.test nesting
    pure { items with blocks := items.blocks ++ [.test t] }
  | _ => never

/-- A block of a suite is recognized. -/
theorem suiteItem_rec (items : SuiteTrees) :
    Recognizes anywhere ⟨depth, limit⟩ (suiteItem items) (suiteStep (limit - depth) items) := by
  refine (dispatch_rec (suiteStepAt (limit - depth) items) (fun kind => ?_)
    (fun kind => ?_) rfl).congr fun w s => ⟨?_, ?_⟩
  · cases kind with
    | core => exact rejectIf_rec _ coreBlock_rec.map
    | pipeline => exact pipelineBlock_rec.map
    | test => exact test_rec.map
    | _ => exact .fail
  · cases kind with
    | core =>
      rw [suiteStepAt]
      split
      · exact starts_never
      · exact starts_bind (keyword_starts _ _) _
    | pipeline => exact starts_bind (keyword_starts _ _) _
    | test => exact starts_bind (keyword_starts _ _) _
    | _ => exact starts_never
  · rintro ⟨kind, h⟩
    cases kind with
    | core => exact .inl h
    | pipeline => exact .inr (.inl h)
    | test => exact .inr (.inr h)
    | _ => exact h.elim
  · rintro (h | h | h)
    · exact ⟨.core, h⟩
    · exact ⟨.pipeline, h⟩
    · exact ⟨.test, h⟩

/-- No block is empty. -/
theorem suiteStep_nonempty (nesting : Nat) (items : SuiteTrees) :
    Starts (fun _ => True) (suiteStep nesting items) := by
  refine starts_or ?_ (starts_or (starts_bind (starts_bind (starts_terminal trivial) _) _)
    (starts_bind (starts_bind (starts_terminal trivial) _) _))
  split
  · exact starts_never
  · exact starts_bind (starts_bind (starts_terminal trivial) _) _

/-- A block that is not a second core. -/
theorem suiteStep_iff (nesting : Nat) (items : SuiteTrees) (w : List TokenKind)
    (items' : SuiteTrees) : suiteStep nesting items w items' ↔
      ∃ block, Grammar.block nesting w block ∧ (items.hasCore && block.isCore) = false ∧
        items' = ⟨items.blocks ++ [block], items.hasCore || block.isCore⟩ := by
  refine ⟨?_, ?_⟩
  · rintro (h | h | h)
    · split at h
      · exact h.elim
      · next hcore =>
        obtain ⟨tests, htests, rfl⟩ := bind_pure_iff.mp h
        exact ⟨.core tests, .inl (bind_pure_iff.mpr ⟨tests, htests, rfl⟩),
          by simp [Tree.Block.isCore, hcore], by simp [Tree.Block.isCore]⟩
    · obtain ⟨block, hblock, rfl⟩ := bind_pure_iff.mp h
      exact ⟨_, .inr (.inl (bind_pure_iff.mpr ⟨block, hblock, rfl⟩)), by simp [Tree.Block.isCore],
        by simp [Tree.Block.isCore]⟩
    · obtain ⟨t, ht, rfl⟩ := bind_pure_iff.mp h
      exact ⟨_, .inr (.inr (bind_pure_iff.mpr ⟨t, ht, rfl⟩)), by simp [Tree.Block.isCore],
        by simp [Tree.Block.isCore]⟩
  · rintro ⟨block, h | h | h, hcore, rfl⟩
    · obtain ⟨tests, htests, rfl⟩ := bind_pure_iff.mp h
      have hnot : items.hasCore = false := by simpa [Tree.Block.isCore] using hcore
      refine .inl ?_
      rw [if_neg (by simp [hnot])]
      exact bind_pure_iff.mpr ⟨tests, htests, by simp [Tree.Block.isCore]⟩
    · obtain ⟨block, hblock, rfl⟩ := bind_pure_iff.mp h
      exact .inr (.inl (bind_pure_iff.mpr ⟨block, hblock, by simp [Tree.Block.isCore]⟩))
    · obtain ⟨t, ht, rfl⟩ := bind_pure_iff.mp h
      exact .inr (.inr (bind_pure_iff.mpr ⟨t, ht, by simp [Tree.Block.isCore]⟩))

/-- There is one core at most. -/
theorem core_count (seen core : Bool) (n : Nat) :
    seen.toNat + (n + if core = true then 1 else 0) ≤ 1 ↔
      (seen && core) = false ∧ (seen || core).toNat + n ≤ 1 := by
  cases seen with
  | false => cases core <;> simp [Nat.add_comm]
  | true => cases core <;> simp

/-- **The blocks of a suite** have one core at most. -/
theorem iterate_suiteStep (nesting : Nat) (items : SuiteTrees) (w : List TokenKind)
    (items' : SuiteTrees) : iterate (suiteStep nesting) items w items' ↔
      ∃ blocks, many (Grammar.block nesting) w blocks ∧
        items.hasCore.toNat + blocks.countP Tree.Block.isCore ≤ 1 ∧
        items' = ⟨items.blocks ++ blocks, items.hasCore || blocks.any Tree.Block.isCore⟩ := by
  refine ⟨?_, ?_⟩
  · intro h
    induction h with
    | nil => exact ⟨[], .nil, by simpa using Bool.toNat_le _, by simp⟩
    | @cons items items₁ items₂ a b hstep _ ih =>
      obtain ⟨block, hblock, hcore, rfl⟩ := (suiteStep_iff _ _ _ _).mp hstep
      obtain ⟨blocks, hblocks, hcount, rfl⟩ := ih
      refine ⟨block :: blocks, .cons hblock hblocks, ?_, by simp [Bool.or_assoc]⟩
      rw [List.countP_cons, core_count]
      exact ⟨hcore, hcount⟩
  · rintro ⟨blocks, hblocks, hcount, rfl⟩
    induction hblocks generalizing items with
    | nil =>
      rw [List.append_nil, List.any_nil, Bool.or_false]
      exact .nil
    | @cons u v block blocks hblock _ ih =>
      rw [List.countP_cons, core_count] at hcount
      rw [List.append_cons, List.any_cons, ← Bool.or_assoc]
      exact .cons ((suiteStep_iff _ _ _ _).mpr ⟨block, hblock, hcount.1, rfl⟩)
        (ih ⟨_, _⟩ hcount.2)

/-- **A whole suite.** The loop over its blocks stops only at the end. -/
theorem blocks_iff (kinds : List TokenKind) (items : SuiteTrees) :
    (∃ rest, blocks ⟨depth, limit⟩ kinds = some (items, rest)) ↔
      iterate (suiteStep (limit - depth)) ⟨[], false⟩ kinds items := by
  have hfirst : ∀ items w items', suiteStep (limit - depth) items w items' → ∃ k v, w = k :: v ∧
      (fun _ : TokenKind => false) k = false ∧ anywhere (some k) := by
    intro items w items' h
    obtain ⟨kind, v, hw, -⟩ := suiteStep_nonempty _ items w items' h
    exact ⟨kind, v, hw, rfl, trivial⟩
  have hitem (items : SuiteTrees) : Recognizes anywhere ⟨depth, limit⟩ (suiteItem items)
      (suiteStep (limit - depth) items) := suiteItem_rec items
  have hloop := Recognizes.loop hitem hfirst ⟨[], false⟩
  refine ⟨?_, ?_⟩
  · rintro ⟨rest, h⟩
    obtain ⟨w, hw, hitems⟩ := hloop.sound kinds items rest h
    have hrest := Recognizes.loop_stops suiteItem_rec hfirst _ (Nat.le_refl _) h
    cases rest with
    | nil =>
      rw [hw, List.append_nil]
      exact hitems
    | cons kind rest => cases hrest
  · intro h
    have hrun := hloop.complete kinds items [] h ⟨rfl, trivial⟩
    rw [List.append_nil] at hrun
    exact ⟨[], hrun⟩

end Recognizer

/-- The parser has a tree exactly where the grammar has one. -/
theorem Parser.recognized_iff (p : Parser) (suite : Tree.Suite) :
    p.recognized = some suite ↔
      Grammar.suite (p.maxNestingDepth - p.nestingDepth) p.kinds suite := by
  refine ⟨?_, ?_⟩
  · intro h
    rw [Parser.recognized] at h
    cases hg : Recognizer.blocks p.nesting p.kinds with
    | none =>
      rw [hg] at h
      cases h
    | some result =>
      obtain ⟨items, rest⟩ := result
      rw [hg] at h
      dsimp only [Option.bind_eq_bind, Option.bind_some] at h
      split at h
      · cases h
      · next hne =>
        obtain rfl := Option.some.inj h
        obtain ⟨blocks, hblocks, hcount, hitems⟩ := (Recognizer.iterate_suiteStep _ _ _ _).mp
          ((Recognizer.blocks_iff _ _).mp ⟨rest, hg⟩)
        obtain rfl : items.blocks = blocks := by rw [hitems, List.nil_append]
        rw [Bool.toNat_false, Nat.zero_add] at hcount
        exact ⟨Phrase.many1_iff.mpr ⟨hblocks, by simpa using hne⟩, hcount⟩
  · rintro ⟨hblocks, hcount⟩
    obtain ⟨hblocks, hne⟩ := Phrase.many1_iff.mp hblocks
    obtain ⟨rest, hrest⟩ := (Recognizer.blocks_iff _ _).mpr
      ((Recognizer.iterate_suiteStep _ ⟨[], false⟩ _ _).mpr ⟨suite, hblocks, by simpa using hcount, rfl⟩)
    rw [Parser.recognized, Parser.nesting, hrest]
    dsimp only [Option.bind_eq_bind, Option.bind_some]
    rw [List.nil_append, if_neg (by simpa using hne)]

variable [Platform]

/-- **The parser accepts its grammar.** A parse has no errors exactly when the kinds of tokens
before the end derive from the grammar, and then its tree without spans is what they derive. -/
theorem parse_accepts (tokens : List Token) (limit : Nat) :
    (((Parser.new tokens).withMaxNestingDepth limit).parse.errors = [] ↔
      ∃ suite, Grammar.suite (min limit hardMaxNestingDepth) (Parser.upToEof tokens) suite) ∧
    ∀ suite, Grammar.suite (min limit hardMaxNestingDepth) (Parser.upToEof tokens) suite →
      ((Parser.new tokens).withMaxNestingDepth limit).parse.ast.erase = suite := by
  have hlimit : ((Parser.new tokens).withMaxNestingDepth limit).maxNestingDepth =
      min limit hardMaxNestingDepth := by
    rw [Parser.withMaxNestingDepth]
    dsimp only
    split <;> omega
  have hiff : ∀ suite, ((Parser.new tokens).withMaxNestingDepth limit).recognized = some suite ↔
      Grammar.suite (min limit hardMaxNestingDepth) (Parser.upToEof tokens) suite := by
    intro suite
    rw [Parser.recognized_iff, hlimit]
    rfl
  refine ⟨?_, ?_⟩
  · rw [parse_errors_recognized _ rfl]
    exact exists_congr hiff
  · intro suite h
    exact parse_ast_recognized _ ((hiff suite).mpr h)

end Rettp
