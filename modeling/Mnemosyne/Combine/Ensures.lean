import Mnemosyne.Combine.Language

/-! # What every success of a parser returns

`Ensures p P`: from any state, every value `p` succeeds with satisfies `P`.
The combinators keep it, one rule each, so a property of every tree a
grammar builds follows from the rules applied along the grammar's
definition, and `fix_ensures` carries it through a parser that calls itself,
by induction on the fuel of `fix`.

Committed choice makes some alternatives dead.  When every failure of `p`
that consumes nothing is also a failure of `q`, `p.or q` is `p`
(`or_eq_left`); that is the case when `p` and `q` begin with the same parser
and that parser consumes whenever it succeeds (`Consumes.bind_error_false`).
-/

namespace Combine

namespace Parser

variable {α β γ : Type}

def Ensures (p : Parser α) (P : α → Prop) : Prop :=
  ∀ s a consumed rest, p s = .ok a consumed rest → P a

section Rules

variable {p : Parser α} {P : α → Prop} {Q : β → Prop}

theorem ensures_true (p : Parser α) : p.Ensures fun _ => True :=
  fun _ _ _ _ _ => trivial

theorem Ensures.mono (ensures : p.Ensures P) {P' : α → Prop} (weaker : ∀ a, P a → P' a) :
    p.Ensures P' :=
  fun s a consumed rest succeeded => weaker a (ensures s a consumed rest succeeded)

theorem value_ensures {a : α} (holds : P a) : (value a).Ensures P := by
  intro s b consumed rest succeeded
  cases succeeded
  exact holds

theorem fail_ensures : (fail : Parser α).Ensures P := by
  intro s a consumed rest succeeded
  cases succeeded

theorem Ensures.bind {f : α → Parser β} (first : p.Ensures P)
    (next : ∀ a, P a → (f a).Ensures Q) : (p.bind f).Ensures Q := by
  intro s b consumed rest succeeded
  obtain ⟨a, c₁, middle, c₂, firstReply, nextReply, -⟩ := bind_eq_ok succeeded
  exact next a (first s a c₁ middle firstReply) middle b c₂ rest nextReply

theorem Ensures.map (ensures : p.Ensures P) {f : α → β} (holds : ∀ a, P a → Q (f a)) :
    (p.map f).Ensures Q := by
  intro s b consumed rest succeeded
  obtain ⟨a, reply, rfl⟩ := map_eq_ok succeeded
  exact holds a (ensures s a consumed rest reply)

theorem Ensures.and {q : Parser β} (first : p.Ensures P) (second : q.Ensures Q) :
    (p.and q).Ensures fun pair => P pair.1 ∧ Q pair.2 :=
  first.bind fun _ holds => second.map fun _ holds' => ⟨holds, holds'⟩

theorem Ensures.seqRight {first : Parser γ} {q : Parser β} (second : q.Ensures Q) :
    (first.seqRight q).Ensures Q :=
  (ensures_true first).bind fun _ _ => second

theorem Ensures.skip {second : Parser γ} (first : p.Ensures P) : (p.skip second).Ensures P :=
  first.bind fun _ holds => (ensures_true second).map fun _ _ => holds

theorem Ensures.or {q : Parser α} (left : p.Ensures P) (right : q.Ensures P) :
    (p.or q).Ensures P := by
  intro s a consumed rest succeeded
  unfold Parser.or at succeeded
  split at succeeded
  · exact right s a consumed rest succeeded
  · exact left s a consumed rest succeeded

theorem Ensures.attempt (ensures : p.Ensures P) : (attempt p).Ensures P := by
  intro s a consumed rest succeeded
  unfold Parser.attempt at succeeded
  split at succeeded
  · cases succeeded
  · exact ensures s a consumed rest succeeded

theorem Ensures.withPosition {f : SourcePosition → Parser α}
    (ensures : ∀ position, (f position).Ensures P) : (withPosition f).Ensures P :=
  fun s => ensures s.position s

theorem Ensures.choice : ∀ {ps : List (Parser α)}, (∀ p ∈ ps, p.Ensures P) → (choice ps).Ensures P
  | [], _ => fail_ensures
  | p :: _, ensures =>
      (ensures p List.mem_cons_self).or
        (Ensures.choice fun q member => ensures q (List.mem_cons_of_mem p member))

theorem satisfy_ensures (pred : Char → Bool) : (satisfy pred).Ensures (pred · = true) := by
  intro s c consumed rest succeeded
  unfold satisfy at succeeded
  split at succeeded
  · split at succeeded
    · cases succeeded
      assumption
    · cases succeeded
  · cases succeeded

/-- Every element `many` collects is a value of `p`; the induction is on
the fuel, as `manyFuel` recurses on it. -/
theorem Ensures.manyFuel (ensures : p.Ensures P) :
    ∀ fuel, (p.manyFuel fuel).Ensures fun as => ∀ a ∈ as, P a
  | 0 => by
      intro s as consumed rest succeeded
      cases succeeded
  | fuel + 1 =>
      (ensures.bind fun _ holds => (ensures.manyFuel fuel).map fun _ all =>
        List.forall_mem_cons.mpr ⟨holds, all⟩).or
        (value_ensures fun _ member => absurd member List.not_mem_nil)

theorem Ensures.many (ensures : p.Ensures P) : p.many.Ensures fun as => ∀ a ∈ as, P a :=
  fun s => ensures.manyFuel (s.input.length + 1) s

theorem Ensures.many1 (ensures : p.Ensures P) :
    p.many1.Ensures fun as => as ≠ [] ∧ ∀ a ∈ as, P a :=
  ensures.bind fun _ holds => ensures.many.map fun _ all =>
    ⟨List.cons_ne_nil _ _, List.forall_mem_cons.mpr ⟨holds, all⟩⟩

theorem Ensures.sepBy1 {sep : Parser γ} (ensures : p.Ensures P) :
    (p.sepBy1 sep).Ensures fun as => as ≠ [] ∧ ∀ a ∈ as, P a :=
  ensures.bind fun _ holds =>
    (Ensures.seqRight ensures : (sep.seqRight p).Ensures P).many.map fun _ all =>
      ⟨List.cons_ne_nil _ _, List.forall_mem_cons.mpr ⟨holds, all⟩⟩

theorem Ensures.between {opening : Parser β} {closing : Parser γ} (ensures : p.Ensures P) :
    (between opening closing p).Ensures P :=
  (Ensures.seqRight ensures : (opening.seqRight p).Ensures P).skip

theorem Ensures.optional (ensures : p.Ensures P) :
    p.optional.Ensures fun found => ∀ a, found = some a → P a :=
  (ensures.map fun _ holds _ same => Option.some.inj same ▸ holds).or
    (value_ensures fun _ same => absurd same (Option.some_ne_none _).symm)

end Rules

section Recursion

variable {P : α → Prop} {step : Parser α → Parser α}

/-- An invariant that `step` keeps holds of the parser `step` calls itself
through: each unfolding keeps it, and the innermost is `fail`. -/
theorem iterate_ensures (preserves : ∀ p, p.Ensures P → (step p).Ensures P) :
    ∀ fuel, (iterate step fuel).Ensures P
  | 0 => fail_ensures
  | fuel + 1 => preserves _ (iterate_ensures preserves fuel)

theorem fix_ensures (preserves : ∀ p, p.Ensures P → (step p).Ensures P) : (fix step).Ensures P :=
  fun s => iterate_ensures preserves (s.input.length + 1) s

theorem Ensures.parse {p : Parser α} (ensures : p.Ensures P) {input rest : List Char} {a : α}
    (parsed : p.parse input = .ok (a, rest)) : P a := by
  cases reply : p ⟨.start, input⟩ with
  | error consumed => simp [Parser.parse, reply] at parsed
  | ok a' consumed after =>
      simp only [Parser.parse, reply, Except.ok.injEq, Prod.mk.injEq] at parsed
      obtain ⟨rfl, -⟩ := parsed
      exact ensures _ _ _ _ reply

end Recursion

section Dead

theorem or_eq_left {p q : Parser α} (refuses : ∀ s, p s = .error false → q s = .error false) :
    p.or q = p := by
  funext s
  unfold Parser.or
  cases reply : p s with
  | ok a consumed rest => rfl
  | error consumed =>
      cases consumed with
      | false => exact refuses s reply
      | true => rfl

theorem map_eq_error {p : Parser α} {f : α → β} {s : State} {consumed : Bool}
    (failed : p.map f s = .error consumed) : p s = .error consumed := by
  cases reply : p s with
  | error c => simpa [Parser.map, reply] using failed
  | ok a c rest => simp [Parser.map, reply] at failed

theorem or_error_false {p q : Parser α} {s : State} (failed : p.or q s = .error false) :
    q s = .error false := by
  cases reply : p s with
  | ok a consumed rest => simp [Parser.or, reply] at failed
  | error consumed =>
      cases consumed with
      | false => simpa [Parser.or, reply] using failed
      | true => simp [Parser.or, reply] at failed

theorem attempt_error_false {p : Parser α} {s : State} (failed : attempt p s = .error false) :
    ∃ consumed, p s = .error consumed := by
  unfold Parser.attempt at failed
  split at failed
  · exact ⟨_, ‹_›⟩
  · exact ⟨false, failed⟩

theorem attempt_of_error {p : Parser α} {s : State} {consumed : Bool}
    (failed : p s = .error consumed) : attempt p s = .error false := by
  simp [Parser.attempt, failed]

/-- A word fails wherever a word it begins with fails: the characters they
share are matched first. -/
theorem matchString_error_of_prefix :
    ∀ {w w' : List Char} {consumed : Bool} {s : State}, w <+: w' →
      (∃ c, matchString consumed w s = .error c) → ∃ c, matchString consumed w' s = .error c
  | [], _, _, _, _, ⟨_, failed⟩ => by simp [matchString] at failed
  | c :: cs, _, consumed, ⟨position, input⟩, ⟨tail, shared⟩, ⟨e, failed⟩ => by
      subst shared
      cases input with
      | nil => exact ⟨consumed, rfl⟩
      | cons d ds =>
          by_cases same : c = d
          · simp only [List.cons_append, matchString, same, if_true] at failed ⊢
            exact matchString_error_of_prefix (List.prefix_append cs tail) ⟨e, failed⟩
          · exact ⟨consumed, by simp [matchString, same]⟩

/-- After a parser that consumes whenever it succeeds, a failure that
consumes nothing can only be that parser's own. -/
theorem Consumes.bind_error_false {p : Parser α} {f : α → Parser β} (consumes : p.Consumes)
    {s : State} (failed : p.bind f s = .error false) : p s = .error false := by
  cases reply : p s with
  | error consumed =>
      rw [bind_of_error reply] at failed
      cases failed
      rfl
  | ok a consumed rest =>
      obtain rfl := consumes s a consumed rest reply
      rw [bind_of_ok reply] at failed
      split at failed <;> simp at failed

end Dead

end Parser

namespace LanguageEnv

variable (env : LanguageEnv) {α : Type} {p : Parser α} {P : α → Prop}

theorem lex_ensures (ensures : p.Ensures P) : (env.lex p).Ensures P :=
  ensures.skip

theorem parens_ensures (ensures : p.Ensures P) : (env.parens p).Ensures P :=
  ensures.between

theorem braces_ensures (ensures : p.Ensures P) : (env.braces p).Ensures P :=
  ensures.between

/-- What `identifier` returns: a start character, then characters that may
continue a name, and never a reserved word. -/
theorem identifier_ensures {Start Rest : Char → Prop} (start : env.ident.start.Ensures Start)
    (rest : env.ident.rest.Ensures Rest) :
    env.identifier.Ensures fun name =>
      (∃ c cs, name = c :: cs ∧ Start c ∧ ∀ d ∈ cs, Rest d) ∧ name ∉ env.ident.reserved := by
  have read : (env.ident.start.bind fun c => env.ident.rest.many.map (c :: ·)).Ensures
      fun name => ∃ c cs, name = c :: cs ∧ Start c ∧ ∀ d ∈ cs, Rest d :=
    start.bind fun c holds => rest.many.map fun cs all => ⟨c, cs, rfl, holds, all⟩
  have refused : env.parseIdent.Ensures fun name =>
      (∃ c cs, name = c :: cs ∧ Start c ∧ ∀ d ∈ cs, Rest d) ∧ name ∉ env.ident.reserved := by
    intro s name consumed after succeeded
    unfold parseIdent at succeeded
    split at succeeded
    · rename_i name' consumed' after' reply
      split at succeeded
      · cases succeeded
      · cases succeeded
        exact ⟨read s _ _ _ reply, ‹_›⟩
    · cases succeeded
  exact env.lex_ensures refused.attempt

end LanguageEnv

end Combine
