import Mathlib.Data.List.Forall2
import Mnemosyne.Combine.Growth

/-! # What a parser does on a given input

`Yields p input P consumed rest`: from any position, `p` succeeds on `input`
with a value that satisfies `P`, consuming input exactly when `consumed`,
and leaves `rest`.  `Fails p input consumed`: from any position it fails,
with that consumption.  Positions are quantified because the parsers here
record them in the values they build but never branch on them.  One rule per
combinator composes these facts; the parsers built from the combinators are
then described by chaining the rules along their definitions.
-/

namespace Combine

namespace Parser

variable {α β γ : Type}

def Yields (p : Parser α) (input : List Char) (P : α → Prop) (consumed : Bool)
    (rest : List Char) : Prop :=
  ∀ position, ∃ a position', p ⟨position, input⟩ = .ok a consumed ⟨position', rest⟩ ∧ P a

def Fails (p : Parser α) (input : List Char) (consumed : Bool) : Prop :=
  ∀ position, p ⟨position, input⟩ = .error consumed

variable {p p' : Parser α} {q : Parser β} {input middle rest : List Char}
  {P : α → Prop} {Q : β → Prop} {consumed consumed' : Bool}

theorem Yields.mono (yields : p.Yields input P consumed rest) {P' : α → Prop}
    (weaker : ∀ a, P a → P' a) : p.Yields input P' consumed rest := by
  intro position
  obtain ⟨a, position', reply, holds⟩ := yields position
  exact ⟨a, position', reply, weaker a holds⟩

theorem Yields.consumed_eq (yields : p.Yields input P consumed rest) (same : consumed = consumed') :
    p.Yields input P consumed' rest :=
  same ▸ yields

theorem value_yields (a : α) (input : List Char) :
    (value a).Yields input (· = a) false input :=
  fun position => ⟨a, position, rfl, rfl⟩

theorem fail_fails (input : List Char) : (fail : Parser α).Fails input false :=
  fun _ => rfl

theorem Yields.bind {f : α → Parser β} (first : p.Yields input P consumed middle)
    (next : ∀ a, P a → (f a).Yields middle Q consumed' rest) :
    (p.bind f).Yields input Q (consumed || consumed') rest := by
  intro position
  obtain ⟨a, position', firstReply, holds⟩ := first position
  obtain ⟨b, position'', nextReply, holds'⟩ := next a holds position'
  exact ⟨b, position'', by simp [bind_of_ok firstReply, nextReply], holds'⟩

theorem Yields.bind_fails {f : α → Parser β} (first : p.Yields input P consumed middle)
    (next : ∀ a, P a → (f a).Fails middle consumed') :
    (p.bind f).Fails input (consumed || consumed') := by
  intro position
  obtain ⟨a, position', firstReply, holds⟩ := first position
  simp [bind_of_ok firstReply, next a holds position']

theorem Fails.bind (fails : p.Fails input consumed) (f : α → Parser β) :
    (p.bind f).Fails input consumed :=
  fun position => bind_of_error (fails position)

theorem Yields.map (yields : p.Yields input P consumed rest) (f : α → β)
    (image : ∀ a, P a → Q (f a)) : (p.map f).Yields input Q consumed rest := by
  intro position
  obtain ⟨a, position', reply, holds⟩ := yields position
  exact ⟨f a, position', by simp [Parser.map, reply], image a holds⟩

theorem Fails.map (fails : p.Fails input consumed) (f : α → β) :
    (p.map f).Fails input consumed := by
  intro position
  simp [Parser.map, fails position]

theorem Yields.and (first : p.Yields input P consumed middle)
    (second : q.Yields middle Q consumed' rest) :
    (p.and q).Yields input (fun pair => P pair.1 ∧ Q pair.2) (consumed || consumed') rest :=
  first.bind fun _ holds => second.map _ fun _ holds' => ⟨holds, holds'⟩

theorem Yields.seqRight (first : p.Yields input P consumed middle)
    (second : q.Yields middle Q consumed' rest) :
    (p.seqRight q).Yields input Q (consumed || consumed') rest :=
  first.bind fun _ _ => second

theorem Yields.skip (first : p.Yields input P consumed middle)
    (second : q.Yields middle Q consumed' rest) :
    (p.skip q).Yields input P (consumed || consumed') rest :=
  first.bind fun _ holds => second.map _ fun _ _ => holds

theorem Yields.or_left (yields : p.Yields input P consumed rest) (p' : Parser α) :
    (p.or p').Yields input P consumed rest := by
  intro position
  obtain ⟨a, position', reply, holds⟩ := yields position
  exact ⟨a, position', by simp [Parser.or, reply], holds⟩

theorem Yields.or_right (fails : p.Fails input false) (yields : p'.Yields input P consumed rest) :
    (p.or p').Yields input P consumed rest := by
  intro position
  obtain ⟨a, position', reply, holds⟩ := yields position
  exact ⟨a, position', by simp [Parser.or, fails position, reply], holds⟩

theorem Fails.or_left (fails : p.Fails input true) (p' : Parser α) :
    (p.or p').Fails input true := by
  intro position
  simp [Parser.or, fails position]

theorem Fails.or (left : p.Fails input false) (right : p'.Fails input consumed) :
    (p.or p').Fails input consumed := by
  intro position
  simp [Parser.or, left position, right position]

theorem Yields.attempt (yields : p.Yields input P consumed rest) :
    (attempt p).Yields input P consumed rest := by
  intro position
  obtain ⟨a, position', reply, holds⟩ := yields position
  exact ⟨a, position', by simp [Parser.attempt, reply], holds⟩

theorem Fails.attempt (fails : p.Fails input consumed) : (attempt p).Fails input false := by
  intro position
  simp [Parser.attempt, fails position]

theorem Yields.withPosition {f : SourcePosition → Parser α}
    (yields : ∀ position, (f position).Yields input P consumed rest) :
    (withPosition f).Yields input P consumed rest :=
  fun position => yields position position

theorem Fails.withPosition {f : SourcePosition → Parser α}
    (fails : ∀ position, (f position).Fails input consumed) :
    (withPosition f).Fails input consumed :=
  fun position => fails position position

theorem Fails.choice :
    ∀ {ps : List (Parser α)}, (∀ p ∈ ps, p.Fails input false) → (choice ps).Fails input false
  | [], _ => fail_fails input
  | p :: ps, fails =>
      (fails p (by simp)).or (Fails.choice fun q member => fails q (by simp [member]))

/-- `choice` reaches an alternative once every one before it has failed
without consuming. -/
theorem Yields.choice {post : List (Parser α)} :
    ∀ {pre : List (Parser α)}, (∀ q ∈ pre, q.Fails input false) →
      p.Yields input P consumed rest → (choice (pre ++ p :: post)).Yields input P consumed rest
  | [], _, yields => yields.or_left _
  | q :: qs, earlier, yields =>
      Yields.or_right (earlier q (by simp))
        (Yields.choice (fun q' member => earlier q' (by simp [member])) yields)

theorem Fails.parse (fails : p.Fails input consumed) : p.parse input = .error () := by
  simp [Parser.parse, fails SourcePosition.start]

theorem satisfy_yields {pred : Char → Bool} {c : Char} (holds : pred c = true) (cs : List Char) :
    (satisfy pred).Yields (c :: cs) (· = c) true cs := by
  intro position
  exact ⟨c, position.update c, by simp [satisfy, holds], rfl⟩

theorem satisfy_fails {pred : Char → Bool}
    (refused : ∀ c cs, input = c :: cs → pred c = false) : (satisfy pred).Fails input false := by
  intro position
  cases input with
  | nil => rfl
  | cons c cs => simp [satisfy, refused c cs rfl]

theorem matchString_yields :
    ∀ (consumed : Bool) (w rest : List Char),
      (matchString consumed w).Yields (w ++ rest) (fun _ => True) (consumed || !w.isEmpty) rest
  | consumed, [], rest => fun position => ⟨(), position, by simp [matchString], trivial⟩
  | consumed, c :: cs, rest => by
      intro position
      obtain ⟨u, position', reply, -⟩ := matchString_yields true cs rest (position.update c)
      exact ⟨u, position', by simpa [matchString] using reply, trivial⟩

theorem string_yields (w rest : List Char) :
    (string w).Yields (w ++ rest) (· = w) (!w.isEmpty) rest := by
  have matched := matchString_yields false w rest
  simp only [Bool.false_or] at matched
  exact matched.map (fun _ => w) fun _ _ => rfl

/-- A string fails without consuming on an input that does not begin with its
first character. -/
theorem string_fails_of_head {c : Char} {cs : List Char}
    (mismatch : ∀ d ds, input = d :: ds → d ≠ c) : (string (c :: cs)).Fails input false := by
  intro position
  cases input with
  | nil => rfl
  | cons d ds =>
      have differs : ¬c = d := fun same => mismatch d ds rfl same.symm
      simp [string, Parser.map, matchString, differs]

/-- A string fails on an input it is not a prefix of; how much it consumed
depends on where the two part. -/
theorem matchString_fails :
    ∀ (consumed : Bool) (w input : List Char), ¬w <+: input →
      ∃ consumed', (matchString consumed w).Fails input consumed'
  | _, [], input, notPrefix => absurd List.nil_prefix notPrefix
  | consumed, c :: cs, [], _ => ⟨consumed, fun position => rfl⟩
  | consumed, c :: cs, d :: ds, notPrefix => by
      by_cases same : c = d
      · subst same
        have later : ¬cs <+: ds := fun isPrefix => notPrefix (List.prefix_cons_inj c |>.mpr isPrefix)
        obtain ⟨consumed', fails⟩ := matchString_fails true cs ds later
        exact ⟨consumed', fun position => by simpa [matchString] using fails (position.update c)⟩
      · exact ⟨consumed, fun position => by simp [matchString, same]⟩

theorem string_fails {w : List Char} (notPrefix : ¬w <+: input) :
    ∃ consumed, (string w).Fails input consumed := by
  obtain ⟨consumed, fails⟩ := matchString_fails false w input notPrefix
  exact ⟨consumed, fails.map _⟩

section Repetition

variable {R : α → γ → Prop} {x : γ} {xs : List γ}

theorem many_yields_nil (progress : p.Progresses) (stop : p.Fails input false) :
    p.many.Yields input (· = []) false input := by
  rw [many_eq progress]
  exact Yields.or_right (stop.bind _) (value_yields [] input)

theorem many_yields_cons (progress : p.Progresses) (head : p.Yields input (R · x) consumed middle)
    (tail : p.many.Yields middle (List.Forall₂ R · xs) consumed' rest) :
    p.many.Yields input (List.Forall₂ R · (x :: xs)) (consumed || consumed') rest := by
  rw [many_eq progress]
  exact (head.bind fun a holds =>
    tail.map (a :: ·) fun _ holds' => by exact .cons holds holds').or_left _

theorem many1_yields (head : p.Yields input (R · x) consumed middle)
    (tail : p.many.Yields middle (List.Forall₂ R · xs) consumed' rest) :
    p.many1.Yields input (List.Forall₂ R · (x :: xs)) (consumed || consumed') rest :=
  head.bind fun a holds => tail.map (a :: ·) fun _ holds' => by exact .cons holds holds'

theorem Fails.many1 (fails : p.Fails input consumed) : p.many1.Fails input consumed :=
  fails.bind _

/-- `sep_by1(p, sep)`: the first item, then each further one after a separator. -/
theorem sepBy1_yields {sep : Parser β} (head : p.Yields input (R · x) consumed middle)
    (tail : (sep.seqRight p).many.Yields middle (List.Forall₂ R · xs) consumed' rest) :
    (p.sepBy1 sep).Yields input (List.Forall₂ R · (x :: xs)) (consumed || consumed') rest :=
  head.bind fun a holds => tail.map (a :: ·) fun _ holds' => by exact .cons holds holds'

/-- A parser that reads one character at a time, repeated over a run of
characters it accepts up to one it refuses. -/
theorem many_yields_chars {reader : Parser Char} (progress : reader.Progresses)
    (stop : reader.Fails rest false) :
    ∀ cs : List Char, (∀ c ∈ cs, ∀ r, reader.Yields (c :: r) (· = c) true r) →
      reader.many.Yields (cs ++ rest) (· = cs) (!cs.isEmpty) rest
  | [], _ => many_yields_nil progress stop
  | c :: cs, each => by
      have head : reader.Yields (c :: (cs ++ rest)) ((· = ·) · c) true (cs ++ rest) :=
        each c (by simp) (cs ++ rest)
      have tail : reader.many.Yields (cs ++ rest) (List.Forall₂ (· = ·) · cs) (!cs.isEmpty) rest :=
        (many_yields_chars progress stop cs fun d member => each d (by simp [member])).mono
          fun as same => by simpa [List.forall₂_eq_eq_eq] using same
      exact ((many_yields_cons progress head tail).mono fun as related => by
        simpa [List.forall₂_eq_eq_eq] using related).consumed_eq (by simp)

/-- A joined list of texts begins with its first text. -/
theorem intercalate_cons_append (sep t : List Char) (ts : List (List Char)) (tail : List Char) :
    ∃ u, sep.intercalate (t :: ts) ++ tail = t ++ u := by
  cases ts with
  | nil => exact ⟨tail, by simp⟩
  | cons w ws => exact ⟨sep ++ sep.intercalate (w :: ws) ++ tail, by simp [List.intercalate_cons_cons]⟩

/-- A joined list is its first text, then every further text after the separator. -/
theorem intercalate_cons_eq_flatMap {δ : Type} (sep t : List δ) (ts : List (List δ)) :
    sep.intercalate (t :: ts) = t ++ ts.flatMap (sep ++ ·) := by
  induction ts generalizing t with
  | nil => simp
  | cons u us ih =>
      rw [List.intercalate_cons_cons, ih u, List.flatMap_cons]
      simp

/-- `many` over texts joined by a separator, each text read back as the item
it stands for.  `after` says what the input looks like once the blanks after
an item have been read, and `Continues` which continuations an item accepts;
the text that follows the last item must already be in that form. -/
theorem many_yields_intercalate (progress : p.Progresses) {after : List Char → List Char}
    {Continues : List Char → Prop} {sep tail : List Char}
    (afterSep : ∀ w, after (sep ++ w) = after w) (tailContinues : Continues tail)
    (tailAfter : after tail = tail) (stop : p.Fails tail false) :
    ∀ {xs : List γ} {texts : List (List Char)},
      List.Forall₂ (fun x text => (∀ u, Continues (sep ++ (text ++ u))) ∧
        ∀ z, Continues z → p.Yields (after (text ++ z)) (R · x) true (after z)) xs texts →
      p.many.Yields (after (sep.intercalate texts ++ tail)) (List.Forall₂ R · xs)
        (!xs.isEmpty) tail
  | _, _, .nil => by
      simpa [tailAfter] using (many_yields_nil progress stop).mono fun as empty => by simp [empty]
  | _, _, .cons ⟨_, item⟩ .nil => by
      have head := item tail tailContinues
      rw [tailAfter] at head
      have tail' := (many_yields_nil progress stop).mono fun as (empty : as = []) =>
        (by simp [empty] : List.Forall₂ R as [])
      simpa using many_yields_cons progress head tail'
  | _, t :: u :: us, .cons ⟨_, item⟩ (.cons ⟨separated, item'⟩ items) => by
      have rest := many_yields_intercalate progress afterSep tailContinues tailAfter stop
        (.cons ⟨separated, item'⟩ items)
      obtain ⟨v, startsWith⟩ := intercalate_cons_append sep u us tail
      have head := item (sep ++ (sep.intercalate (u :: us) ++ tail))
        (by rw [startsWith]; exact separated v)
      rw [afterSep] at head
      have joined : sep.intercalate (t :: u :: us) ++ tail =
          t ++ (sep ++ (sep.intercalate (u :: us) ++ tail)) := by
        simp [List.intercalate_cons_cons]
      rw [joined]
      simpa using many_yields_cons progress head rest

/-- A repetition that read at least one item is a nonempty repetition: the
empty alternative of `many` would have read none. -/
theorem Yields.many1_of_many (progress : p.Progresses)
    (yields : p.many.Yields input (List.Forall₂ R · xs) consumed rest) (nonempty : xs ≠ []) :
    p.many1.Yields input (List.Forall₂ R · xs) consumed rest := by
  intro position
  obtain ⟨as, position', reply, related⟩ := yields position
  refine ⟨as, position', ?_, related⟩
  have unfolded : (p.many1.or (value [])) ⟨position, input⟩ =
      .ok as consumed ⟨position', rest⟩ := by
    rw [many_eq progress] at reply
    exact reply
  simp only [Parser.or] at unfolded
  split at unfolded
  · simp only [value, Reply.ok.injEq] at unfolded
    obtain ⟨rfl, -, -⟩ := unfolded
    cases related
    exact absurd rfl nonempty
  · exact unfolded

end Repetition

theorem Yields.between {opening : Parser β} {closing : Parser γ} {opened closed : List Char}
    {c₁ c₂ c₃ : Bool} (opens : opening.Yields input (fun _ => True) c₁ opened)
    (inner : p.Yields opened P c₂ closed) (closes : closing.Yields closed (fun _ => True) c₃ rest) :
    (between opening closing p).Yields input P (c₁ || c₂ || c₃) rest :=
  (opens.seqRight inner).skip closes

theorem Fails.between {opening : Parser β} (closing : Parser γ) (fails : opening.Fails input consumed) :
    (between opening closing p).Fails input consumed :=
  (fails.bind _).bind _

theorem Yields.optional_some (yields : p.Yields input P consumed rest) :
    p.optional.Yields input (fun o => ∃ a, o = some a ∧ P a) consumed rest :=
  (yields.map some fun a holds => ⟨a, rfl, holds⟩).or_left _

theorem optional_yields_none (fails : p.Fails input false) :
    p.optional.Yields input (· = none) false input :=
  Yields.or_right (fails.map some) (value_yields none input)

theorem notFollowedBy_yields (fails : p.Fails input consumed) :
    (notFollowedBy p).Yields input (fun _ => True) false input :=
  (Yields.or_right (fails.attempt.bind _) (value_yields () input)).mono fun _ _ => trivial

theorem notFollowedBy_fails (yields : p.Yields input P true rest) :
    (notFollowedBy p).Fails input true := by
  have stops : ((attempt p).bind fun _ => (fail : Parser Unit)).Fails input true :=
    yields.attempt.bind_fails fun _ _ => fail_fails rest
  exact stops.or_left _

end Parser

end Combine
