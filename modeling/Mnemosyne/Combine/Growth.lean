import Mnemosyne.Combine.Basic

/-! # Growth, agreement and fuel

A parser is *non-growing* when every success leaves a suffix of its input,
and it *progresses* when every success leaves a strictly shorter input.
Two parsers *agree below* a bound when they reply alike on every state whose
input is shorter than the bound.  The combinators keep all three, and a
parser run only after input has been consumed needs to agree on shorter
inputs only.  That is what makes the fuel of `many` and of `fix` immaterial:
`many_eq` and `fix_eq` are the unfolding equations of the unbounded
recursion.
-/

namespace Combine

namespace Parser

variable {α β γ : Type}

def NonGrowing (p : Parser α) : Prop :=
  ∀ s a consumed rest, p s = .ok a consumed rest → rest.input <:+ s.input

def Progresses (p : Parser α) : Prop :=
  ∀ s a consumed rest, p s = .ok a consumed rest → rest.input.length < s.input.length

def EqBelow (bound : Nat) (p q : Parser α) : Prop :=
  ∀ s, s.input.length < bound → p s = q s

section NonGrowing

theorem value_nonGrowing (a : α) : (value a).NonGrowing := by
  intro s b consumed rest succeeded
  cases succeeded
  exact List.suffix_refl _

theorem fail_nonGrowing : (fail : Parser α).NonGrowing := by
  intro s a consumed rest succeeded
  cases succeeded

theorem NonGrowing.bind {p : Parser α} {f : α → Parser β} (first : p.NonGrowing)
    (next : ∀ a, (f a).NonGrowing) : (p.bind f).NonGrowing := by
  intro s b consumed rest succeeded
  cases firstReply : p s with
  | error c => simp [Parser.bind, firstReply] at succeeded
  | ok a c middle =>
      rw [bind_of_ok firstReply] at succeeded
      cases nextReply : f a middle with
      | error c' => simp [nextReply] at succeeded
      | ok b' c' rest' =>
          simp only [nextReply, Reply.ok.injEq] at succeeded
          obtain ⟨-, -, rfl⟩ := succeeded
          exact (next a middle b' c' rest' nextReply).trans (first s a c middle firstReply)

theorem NonGrowing.map {p : Parser α} (grows : p.NonGrowing) (f : α → β) :
    (p.map f).NonGrowing := by
  intro s b consumed rest succeeded
  cases reply : p s with
  | error c => simp [Parser.map, reply] at succeeded
  | ok a c rest' =>
      simp only [Parser.map, reply, Reply.ok.injEq] at succeeded
      obtain ⟨-, -, rfl⟩ := succeeded
      exact grows s a c rest' reply

theorem NonGrowing.or {p q : Parser α} (left : p.NonGrowing) (right : q.NonGrowing) :
    (p.or q).NonGrowing := by
  intro s a consumed rest succeeded
  unfold Parser.or at succeeded
  split at succeeded
  · exact right s a consumed rest succeeded
  · exact left s a consumed rest succeeded

theorem NonGrowing.attempt {p : Parser α} (grows : p.NonGrowing) : (attempt p).NonGrowing := by
  intro s a consumed rest succeeded
  unfold Parser.attempt at succeeded
  split at succeeded
  · cases succeeded
  · exact grows s a consumed rest succeeded

theorem NonGrowing.withPosition {f : SourcePosition → Parser α}
    (grows : ∀ position, (f position).NonGrowing) : (withPosition f).NonGrowing :=
  fun s => grows s.position s

theorem satisfy_nonGrowing (pred : Char → Bool) : (satisfy pred).NonGrowing := by
  intro s a consumed rest succeeded
  unfold satisfy at succeeded
  split at succeeded
  · rename_i c cs input
    split at succeeded
    · cases succeeded
      simp [input, List.suffix_cons]
    · cases succeeded
  · cases succeeded

theorem matchString_nonGrowing :
    ∀ (consumed : Bool) (w : List Char), (matchString consumed w).NonGrowing
  | _, [], s, _, _, _, succeeded => by
      cases succeeded
      exact List.suffix_refl _
  | _, c :: cs, s, a, consumed', rest, succeeded => by
      unfold matchString at succeeded
      split at succeeded
      · rename_i d ds input
        split at succeeded
        · have later := matchString_nonGrowing true cs _ a consumed' rest succeeded
          rw [input]
          exact later.trans (List.suffix_cons d ds)
        · cases succeeded
      · cases succeeded

theorem string_nonGrowing (w : List Char) : (string w).NonGrowing :=
  (matchString_nonGrowing false w).map _

theorem choice_nonGrowing : ∀ {ps : List (Parser α)}, (∀ p ∈ ps, p.NonGrowing) →
    (choice ps).NonGrowing
  | [], _ => fail_nonGrowing
  | p :: ps, grows =>
      NonGrowing.or (grows p (by simp)) (choice_nonGrowing fun q member => grows q (by simp [member]))

theorem NonGrowing.manyFuel {p : Parser α} (grows : p.NonGrowing) :
    ∀ fuel, (p.manyFuel fuel).NonGrowing
  | 0 => by
      intro s a consumed rest succeeded
      cases succeeded
  | fuel + 1 =>
      (grows.bind fun _ => (grows.manyFuel fuel).map _).or (value_nonGrowing [])

theorem NonGrowing.many {p : Parser α} (grows : p.NonGrowing) : p.many.NonGrowing :=
  fun s => grows.manyFuel (s.input.length + 1) s

theorem NonGrowing.many1 {p : Parser α} (grows : p.NonGrowing) : p.many1.NonGrowing :=
  grows.bind fun _ => grows.many.map _

theorem NonGrowing.seqRight {p : Parser α} {q : Parser β} (first : p.NonGrowing)
    (second : q.NonGrowing) : (p.seqRight q).NonGrowing :=
  first.bind fun _ => second

theorem NonGrowing.skip {p : Parser α} {q : Parser β} (first : p.NonGrowing)
    (second : q.NonGrowing) : (p.skip q).NonGrowing :=
  first.bind fun _ => second.map _

theorem NonGrowing.and {p : Parser α} {q : Parser β} (first : p.NonGrowing)
    (second : q.NonGrowing) : (p.and q).NonGrowing :=
  first.bind fun _ => second.map _

theorem NonGrowing.between {opening : Parser β} {closing : Parser γ} {p : Parser α}
    (opens : opening.NonGrowing) (closes : closing.NonGrowing) (inner : p.NonGrowing) :
    (between opening closing p).NonGrowing :=
  (opens.seqRight inner).skip closes

theorem NonGrowing.optional {p : Parser α} (grows : p.NonGrowing) : p.optional.NonGrowing :=
  (grows.map _).or (value_nonGrowing none)

theorem NonGrowing.sepBy1 {p : Parser α} {sep : Parser β} (grows : p.NonGrowing)
    (separates : sep.NonGrowing) : (p.sepBy1 sep).NonGrowing :=
  grows.bind fun _ => (separates.seqRight grows).many.map _

/-- The first branch of `notFollowedBy` never succeeds, so only the second,
which consumes nothing, can. -/
theorem notFollowedBy_nonGrowing (p : Parser α) : (notFollowedBy p).NonGrowing := by
  have never : ∀ s b c rest, ((attempt p).bind fun _ => (fail : Parser Unit)) s ≠ .ok b c rest := by
    intro s b c rest
    unfold Parser.bind
    split <;> simp [fail]
  intro s a consumed rest succeeded
  unfold notFollowedBy Parser.or at succeeded
  split at succeeded
  · cases succeeded
    exact List.suffix_refl _
  · exact absurd succeeded (never s a consumed rest)

end NonGrowing

section Progresses

theorem satisfy_progresses (pred : Char → Bool) : (satisfy pred).Progresses := by
  intro s a consumed rest succeeded
  unfold satisfy at succeeded
  split at succeeded
  · rename_i c cs input
    split at succeeded
    · cases succeeded
      simp [input]
    · cases succeeded
  · cases succeeded

theorem Progresses.bind_left {p : Parser α} {f : α → Parser β} (first : p.Progresses)
    (next : ∀ a, (f a).NonGrowing) : (p.bind f).Progresses := by
  intro s b consumed rest succeeded
  cases firstReply : p s with
  | error c => simp [Parser.bind, firstReply] at succeeded
  | ok a c middle =>
      rw [bind_of_ok firstReply] at succeeded
      cases nextReply : f a middle with
      | error c' => simp [nextReply] at succeeded
      | ok b' c' rest' =>
          simp only [nextReply, Reply.ok.injEq] at succeeded
          obtain ⟨-, -, rfl⟩ := succeeded
          have shorter := first s a c middle firstReply
          have bounded := (next a middle b' c' rest' nextReply).length_le
          omega

theorem Progresses.map {p : Parser α} (progress : p.Progresses) (f : α → β) :
    (p.map f).Progresses := by
  intro s b consumed rest succeeded
  cases reply : p s with
  | error c => simp [Parser.map, reply] at succeeded
  | ok a c rest' =>
      simp only [Parser.map, reply, Reply.ok.injEq] at succeeded
      obtain ⟨-, -, rfl⟩ := succeeded
      exact progress s a c rest' reply

theorem Progresses.or {p q : Parser α} (left : p.Progresses) (right : q.Progresses) :
    (p.or q).Progresses := by
  intro s a consumed rest succeeded
  unfold Parser.or at succeeded
  split at succeeded
  · exact right s a consumed rest succeeded
  · exact left s a consumed rest succeeded

theorem Progresses.attempt {p : Parser α} (progress : p.Progresses) : (attempt p).Progresses := by
  intro s a consumed rest succeeded
  unfold Parser.attempt at succeeded
  split at succeeded
  · cases succeeded
  · exact progress s a consumed rest succeeded

theorem Progresses.withPosition {f : SourcePosition → Parser α}
    (progress : ∀ position, (f position).Progresses) : (withPosition f).Progresses :=
  fun s => progress s.position s

theorem fail_progresses : (fail : Parser α).Progresses := by
  intro s a consumed rest succeeded
  cases succeeded

theorem choice_progresses : ∀ {ps : List (Parser α)}, (∀ p ∈ ps, p.Progresses) →
    (choice ps).Progresses
  | [], _ => fail_progresses
  | p :: ps, progress =>
      Progresses.or (progress p (by simp))
        (choice_progresses fun q member => progress q (by simp [member]))

theorem matchString_progresses (consumed : Bool) (c : Char) (cs : List Char) :
    (matchString consumed (c :: cs)).Progresses := by
  intro s a consumed' rest succeeded
  unfold matchString at succeeded
  split at succeeded
  · rename_i d ds input
    split at succeeded
    · have later : rest.input.length ≤ ds.length :=
        (matchString_nonGrowing true cs _ a consumed' rest succeeded).length_le
      simp only [input, List.length_cons]
      omega
    · cases succeeded
  · cases succeeded

theorem string_progresses {w : List Char} (nonempty : w ≠ []) : (string w).Progresses := by
  obtain ⟨c, cs, rfl⟩ := List.exists_cons_of_ne_nil nonempty
  exact (matchString_progresses false c cs).map _

theorem Progresses.many1 {p : Parser α} (progress : p.Progresses) (grows : p.NonGrowing) :
    p.many1.Progresses :=
  progress.bind_left fun _ => grows.many.map _

theorem Progresses.between {opening : Parser β} {closing : Parser γ} {p : Parser α}
    (opens : opening.Progresses) (closes : closing.NonGrowing) (inner : p.NonGrowing) :
    (between opening closing p).Progresses :=
  (opens.bind_left fun _ => inner).bind_left fun _ => closes.map _

theorem Progresses.skip {p : Parser α} {q : Parser β} (first : p.Progresses)
    (second : q.NonGrowing) : (p.skip q).Progresses :=
  first.bind_left fun _ => second.map _

theorem Progresses.seqRight {p : Parser α} {q : Parser β} (first : p.Progresses)
    (second : q.NonGrowing) : (p.seqRight q).Progresses :=
  first.bind_left fun _ => second

end Progresses

section Consumes

/-- A parser *consumes* when every success reports consumed input.  `many`
stops at the first failure that consumed nothing only because such a
parser cannot succeed without consuming. -/
def Consumes (p : Parser α) : Prop :=
  ∀ s a consumed rest, p s = .ok a consumed rest → consumed = true

theorem satisfy_consumes (pred : Char → Bool) : (satisfy pred).Consumes := by
  intro s a consumed rest succeeded
  unfold satisfy at succeeded
  split at succeeded
  · split at succeeded
    · cases succeeded
      rfl
    · cases succeeded
  · cases succeeded

theorem matchString_consumes (consumed : Bool) (c : Char) (cs : List Char) :
    (matchString consumed (c :: cs)).Consumes := by
  have later : ∀ w, (matchString true w).Consumes := by
    intro w
    induction w with
    | nil =>
        intro s a consumed' rest succeeded
        cases succeeded
        rfl
    | cons d ds ih =>
        intro s a consumed' rest succeeded
        unfold matchString at succeeded
        split at succeeded
        · split at succeeded
          · exact ih _ a consumed' rest succeeded
          · cases succeeded
        · cases succeeded
  intro s a consumed' rest succeeded
  unfold matchString at succeeded
  split at succeeded
  · split at succeeded
    · exact later cs _ a consumed' rest succeeded
    · cases succeeded
  · cases succeeded

theorem string_consumes {w : List Char} (nonempty : w ≠ []) : (string w).Consumes := by
  obtain ⟨c, cs, rfl⟩ := List.exists_cons_of_ne_nil nonempty
  intro s a consumed rest succeeded
  cases reply : matchString false (c :: cs) s with
  | error c' => simp [string, Parser.map, reply] at succeeded
  | ok u c' rest' =>
      simp only [string, Parser.map, reply, Reply.ok.injEq] at succeeded
      obtain ⟨-, rfl, -⟩ := succeeded
      exact matchString_consumes false c cs s u c' rest' reply

theorem Consumes.bind_left {p : Parser α} {f : α → Parser β} (first : p.Consumes) :
    (p.bind f).Consumes := by
  intro s b consumed rest succeeded
  cases firstReply : p s with
  | error c => simp [Parser.bind, firstReply] at succeeded
  | ok a c middle =>
      rw [bind_of_ok firstReply, first s a c middle firstReply] at succeeded
      cases nextReply : f a middle with
      | error c' => simp [nextReply] at succeeded
      | ok b' c' rest' =>
          simp only [nextReply, Bool.true_or, Reply.ok.injEq] at succeeded
          exact succeeded.2.1.symm

theorem Consumes.map {p : Parser α} (consumes : p.Consumes) (f : α → β) : (p.map f).Consumes := by
  intro s b consumed rest succeeded
  cases reply : p s with
  | error c => simp [Parser.map, reply] at succeeded
  | ok a c rest' =>
      simp only [Parser.map, reply, Reply.ok.injEq] at succeeded
      obtain ⟨-, rfl, -⟩ := succeeded
      exact consumes s a c rest' reply

theorem Consumes.or {p q : Parser α} (left : p.Consumes) (right : q.Consumes) :
    (p.or q).Consumes := by
  intro s a consumed rest succeeded
  unfold Parser.or at succeeded
  split at succeeded
  · exact right s a consumed rest succeeded
  · exact left s a consumed rest succeeded

theorem Consumes.attempt {p : Parser α} (consumes : p.Consumes) : (attempt p).Consumes := by
  intro s a consumed rest succeeded
  unfold Parser.attempt at succeeded
  split at succeeded
  · cases succeeded
  · exact consumes s a consumed rest succeeded

theorem Consumes.withPosition {f : SourcePosition → Parser α}
    (consumes : ∀ position, (f position).Consumes) : (withPosition f).Consumes :=
  fun s => consumes s.position s

theorem choice_consumes : ∀ {ps : List (Parser α)}, (∀ p ∈ ps, p.Consumes) →
    (choice ps).Consumes
  | [], _ => fun _ _ _ _ succeeded => by cases succeeded
  | p :: ps, consumes =>
      Consumes.or (consumes p (by simp)) (choice_consumes fun q member => consumes q (by simp [member]))

theorem Consumes.between {opening : Parser β} {closing : Parser γ} {p : Parser α}
    (opens : opening.Consumes) : (between opening closing p).Consumes :=
  opens.bind_left.bind_left

end Consumes

section EqBelow

theorem EqBelow.refl (bound : Nat) (p : Parser α) : EqBelow bound p p :=
  fun _ _ => rfl

theorem EqBelow.mono {p q : Parser α} {bound bound' : Nat} (same : EqBelow bound p q)
    (le : bound' ≤ bound) : EqBelow bound' p q :=
  fun s short => same s (by omega)

theorem EqBelow.bind {p q : Parser α} {f g : α → Parser β} {bound : Nat}
    (grows : p.NonGrowing) (first : EqBelow bound p q) (next : ∀ a, EqBelow bound (f a) (g a)) :
    EqBelow bound (p.bind f) (q.bind g) := by
  intro s short
  have same := first s short
  simp only [Parser.bind, ← same]
  cases reply : p s with
  | error c => rfl
  | ok a c middle =>
      have shorter := (grows s a c middle reply).length_le
      simp only [next a middle (by omega)]

/-- A parser run after one that progresses sees a shorter input. -/
theorem EqBelow.bind_progresses {p : Parser α} {f g : α → Parser β} {bound : Nat}
    (progress : p.Progresses) (next : ∀ a, EqBelow bound (f a) (g a)) :
    EqBelow (bound + 1) (p.bind f) (p.bind g) := by
  intro s short
  simp only [Parser.bind]
  cases reply : p s with
  | error c => rfl
  | ok a c middle =>
      have shorter := progress s a c middle reply
      simp only [next a middle (by omega)]

theorem EqBelow.map {p q : Parser α} {bound : Nat} (same : EqBelow bound p q) (f : α → β) :
    EqBelow bound (p.map f) (q.map f) := by
  intro s short
  simp only [Parser.map, same s short]

theorem EqBelow.or {p p' q q' : Parser α} {bound : Nat} (left : EqBelow bound p p')
    (right : EqBelow bound q q') : EqBelow bound (p.or q) (p'.or q') := by
  intro s short
  simp only [Parser.or, left s short, right s short]

theorem EqBelow.attempt {p q : Parser α} {bound : Nat} (same : EqBelow bound p q) :
    EqBelow bound (attempt p) (attempt q) := by
  intro s short
  simp only [Parser.attempt, same s short]

theorem EqBelow.withPosition {f g : SourcePosition → Parser α} {bound : Nat}
    (same : ∀ position, EqBelow bound (f position) (g position)) :
    EqBelow bound (withPosition f) (withPosition g) :=
  fun s short => same s.position s short

theorem EqBelow.choice {bound : Nat} :
    ∀ {ps qs : List (Parser α)}, List.Forall₂ (EqBelow bound) ps qs →
      EqBelow bound (choice ps) (choice qs)
  | [], [], .nil => EqBelow.refl bound fail
  | _ :: _, _ :: _, .cons head tail => head.or (EqBelow.choice tail)

theorem EqBelow.manyFuel {p q : Parser α} {bound : Nat} (grows : p.NonGrowing)
    (same : EqBelow bound p q) : ∀ fuel, EqBelow bound (p.manyFuel fuel) (q.manyFuel fuel)
  | 0 => EqBelow.refl bound _
  | fuel + 1 =>
      (EqBelow.bind grows same fun _ => (EqBelow.manyFuel grows same fuel).map _).or
        (EqBelow.refl bound _)

theorem EqBelow.many {p q : Parser α} {bound : Nat} (grows : p.NonGrowing)
    (same : EqBelow bound p q) : EqBelow bound p.many q.many :=
  fun s short => EqBelow.manyFuel grows same (s.input.length + 1) s short

theorem EqBelow.many1 {p q : Parser α} {bound : Nat} (grows : p.NonGrowing)
    (same : EqBelow bound p q) : EqBelow bound p.many1 q.many1 :=
  EqBelow.bind grows same fun _ => (EqBelow.many grows same).map _

theorem EqBelow.seqRight {p p' : Parser α} {q q' : Parser β} {bound : Nat}
    (grows : p.NonGrowing) (first : EqBelow bound p p') (second : EqBelow bound q q') :
    EqBelow bound (p.seqRight q) (p'.seqRight q') :=
  EqBelow.bind grows first fun _ => second

theorem EqBelow.skip {p p' : Parser α} {q q' : Parser β} {bound : Nat}
    (grows : p.NonGrowing) (first : EqBelow bound p p') (second : EqBelow bound q q') :
    EqBelow bound (p.skip q) (p'.skip q') :=
  EqBelow.bind grows first fun _ => second.map _

theorem EqBelow.and {p p' : Parser α} {q q' : Parser β} {bound : Nat}
    (grows : p.NonGrowing) (first : EqBelow bound p p') (second : EqBelow bound q q') :
    EqBelow bound (p.and q) (p'.and q') :=
  EqBelow.bind grows first fun _ => second.map _

theorem EqBelow.optional {p q : Parser α} {bound : Nat} (same : EqBelow bound p q) :
    EqBelow bound p.optional q.optional :=
  (same.map _).or (EqBelow.refl bound _)

/-- The parser between brackets sees an input shorter by the opening
bracket at least. -/
theorem EqBelow.between {opening : Parser β} {closing : Parser γ} {p q : Parser α}
    {bound : Nat} (opens : opening.Progresses) (openGrows : opening.NonGrowing)
    (grows : p.NonGrowing) (inner : EqBelow bound p q) :
    EqBelow (bound + 1) (between opening closing p) (between opening closing q) :=
  EqBelow.skip (openGrows.seqRight grows) (EqBelow.bind_progresses opens fun _ => inner)
    (EqBelow.refl _ closing)

end EqBelow

section Fuel

theorem manyFuel_eqBelow {p : Parser α} (progress : p.Progresses) :
    ∀ (fuel fuel' bound : Nat), bound ≤ fuel → bound ≤ fuel' →
      EqBelow bound (p.manyFuel fuel) (p.manyFuel fuel')
  | _, _, 0, _, _ => fun _ short => absurd short (Nat.not_lt_zero _)
  | fuel + 1, fuel' + 1, bound + 1, enough, enough' => by
      rw [manyFuel_succ, manyFuel_succ]
      have rest : ∀ a : α, EqBelow bound ((p.manyFuel fuel).map (a :: ·))
          ((p.manyFuel fuel').map (a :: ·)) := fun a =>
        (manyFuel_eqBelow progress fuel fuel' bound (by omega) (by omega)).map _
      exact (EqBelow.bind_progresses progress rest).or (EqBelow.refl _ _)

/-- With a parser that always consumes, `many` is the unbounded loop. -/
theorem many_eq {p : Parser α} (progress : p.Progresses) :
    p.many = (p.bind fun a => p.many.map (a :: ·)).or (value []) := by
  funext s
  have enough : EqBelow s.input.length (p.manyFuel s.input.length) p.many := by
    intro s' short
    exact manyFuel_eqBelow progress _ _ (s'.input.length + 1) (by omega) (by omega) s'
      (by omega)
  have unfolded : p.many s = p.manyFuel (s.input.length + 1) s := rfl
  rw [unfolded, manyFuel_succ]
  exact (EqBelow.bind_progresses progress (fun a => enough.map (a :: ·))).or
    (EqBelow.refl _ _) s (by omega)

/-- A `many` loop over a parser that consumes stops exactly where the
parser fails without consuming. -/
theorem many_stops {p : Parser α} (progress : p.Progresses) (consumes : p.Consumes) :
    ∀ s as consumed rest, p.many s = .ok as consumed rest → p rest = .error false := by
  intro s
  induction length : s.input.length using Nat.strongRecOn generalizing s with
  | _ n ih =>
    intro as consumed rest stopped
    rw [many_eq progress] at stopped
    cases first : p s with
    | error c =>
        cases c with
        | false =>
            simp only [Parser.or, bind_of_error first, value, Reply.ok.injEq] at stopped
            obtain ⟨-, -, rfl⟩ := stopped
            exact first
        | true => simp [Parser.or, bind_of_error first] at stopped
    | ok a c middle =>
        have shorter := progress s a c middle first
        rw [consumes s a c middle first] at first
        cases later : p.many middle with
        | error c' =>
            simp [Parser.or, Parser.bind, first, Parser.map, later] at stopped
        | ok as' c' rest' =>
            simp only [Parser.or, Parser.bind, first, Parser.map, later, Reply.ok.injEq] at stopped
            obtain ⟨-, -, rfl⟩ := stopped
            exact ih middle.input.length (by omega) middle rfl as' c' rest' later

theorem many1_stops {p : Parser α} (progress : p.Progresses) (consumes : p.Consumes) {s rest : State}
    {as : List α} {consumed : Bool} (stopped : p.many1 s = .ok as consumed rest) :
    as ≠ [] ∧ p rest = .error false := by
  obtain ⟨a, -, middle, c, -, later, -⟩ := bind_eq_ok stopped
  obtain ⟨as', loop, rfl⟩ := map_eq_ok later
  exact ⟨List.cons_ne_nil a as', many_stops progress consumes middle as' c rest loop⟩

/-- Recursion through `step`, unfolded `fuel` times. -/
def iterate (step : Parser α → Parser α) : Nat → Parser α
  | 0 => fail
  | fuel + 1 => step (iterate step fuel)

/-- The parser that calls itself through `step`, with one unit of fuel more
than the input is long. -/
def fix (step : Parser α → Parser α) : Parser α := fun s =>
  iterate step (s.input.length + 1) s

/-- `step` keeps the parser it is given non-growing, and runs it only after
consuming input, so it needs it to agree only on shorter inputs. -/
structure Guarded (step : Parser α → Parser α) : Prop where
  nonGrowing : ∀ p, p.NonGrowing → (step p).NonGrowing
  eqBelow : ∀ bound p q, p.NonGrowing → EqBelow bound p q → EqBelow (bound + 1) (step p) (step q)

/-- A parser built around the parser it is given: it keeps that parser
non-growing, and agrees below every bound below which that parser agrees. -/
structure Respects {β : Type} (context : Parser β → Parser α) : Prop where
  nonGrowing : ∀ p, p.NonGrowing → (context p).NonGrowing
  eqBelow : ∀ bound p q, p.NonGrowing → EqBelow bound p q → EqBelow bound (context p) (context q)

variable {step : Parser α → Parser α}

theorem Guarded.iterate_nonGrowing (guarded : Guarded step) :
    ∀ fuel, (iterate step fuel).NonGrowing
  | 0 => fail_nonGrowing
  | fuel + 1 => guarded.nonGrowing _ (guarded.iterate_nonGrowing fuel)

theorem Guarded.iterate_eqBelow (guarded : Guarded step) :
    ∀ (fuel fuel' bound : Nat), bound ≤ fuel → bound ≤ fuel' →
      EqBelow bound (iterate step fuel) (iterate step fuel')
  | _, _, 0, _, _ => fun _ short => absurd short (Nat.not_lt_zero _)
  | fuel + 1, fuel' + 1, bound + 1, enough, enough' =>
      guarded.eqBelow bound _ _ (guarded.iterate_nonGrowing fuel)
        (guarded.iterate_eqBelow fuel fuel' bound (by omega) (by omega))

theorem Guarded.fix_nonGrowing (guarded : Guarded step) : (fix step).NonGrowing :=
  fun s => guarded.iterate_nonGrowing (s.input.length + 1) s

/-- The fuel of `fix` is never the limit: it is a fixed point of `step`. -/
theorem Guarded.fix_eq (guarded : Guarded step) : fix step = step (fix step) := by
  funext s
  have enough : EqBelow s.input.length (iterate step s.input.length) (fix step) := by
    intro s' short
    exact guarded.iterate_eqBelow _ _ (s'.input.length + 1) (by omega) (by omega) s'
      (by omega)
  exact guarded.eqBelow _ _ _ (guarded.iterate_nonGrowing _) enough s (by omega)

end Fuel

end Parser

end Combine
