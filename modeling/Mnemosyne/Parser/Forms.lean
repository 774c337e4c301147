import Mnemosyne.Parser.Syntaxes

namespace Mnemosyne.Parser

open Combine Combine.Parser Mnemosyne.Types Mnemosyne.Ast

/-! # Reading the forms the printer does not write

`to_sexpr` reaches `unimplemented!()` on an `if`, writes a lambda that
`parse_expr` refuses and writes let bindings between square brackets, so the
round trip covers none of these forms.  Each is read here from the syntax
`parse_expr` accepts: `(if c t)` and `(if c t e)`, `(lambda F)` and `(λ F)`
for the text `F` of a function, and `(let ((x τ v) …) body…)`.  The parts are
any texts that read back as them; inside the bracket every alternative before
the form's own fails without consuming. -/

variable {tables : CharTables}

/-- Text that the bracketed choice of `parse_expr` reads up to the closing
bracket, as a form that erases as `target` does, reads back in its brackets
as an expression of that form. -/
theorem ReadsBack.of_bracketed {inner : List Char} {target : Form} {consumed : Bool} (solid : Solid inner)
    (body : ∀ z, Continues tables z → (choice [attempt (parseCall tables (expr tables)),
      attempt (parseDef tables (expr tables)), attempt (parseIf tables (expr tables)),
      attempt (parseLambda tables (expr tables)), attempt (parseLet tables (expr tables))]).Yields
        (inner ++ ')' :: z) (·.erase = target.erase) consumed (')' :: z)) :
    ReadsBack tables (expr tables) (fun e => e.node.erase = target.erase) ('(' :: inner ++ [')']) := by
  refine ReadsBack.of_solid ⟨'(', _, rfl, by decide, by decide⟩ fun z follows => ?_
  have shape : ('(' :: inner ++ [')']) ++ z = '(' :: (inner ++ ')' :: z) := by
    simp only [List.cons_append, List.append_assoc, List.nil_append]
  have read := body z follows
  rw [← solid.trim_append (')' :: z)] at read
  rw [shape]
  exact expr_yields_bracketed (parens_yields_trim (solid.noComment _) read follows.noComment)

section If

/-- The optional else clause of `parse_if`, up to the bracket. -/
theorem elseClause_reads {elseClause : Option Expr} {elseTexts : List (List Char)}
    (otherwise : List.Forall₂ (fun e text => ReadsBack tables (expr tables) (·.erase = e.erase) text)
      elseClause.toList elseTexts) (z : List Char) :
    (optional (expr tables)).Yields (trim (elseTexts.flatMap (' ' :: ·) ++ ')' :: z))
      (fun found => Expr.eraseOption found = Expr.eraseOption elseClause) (!elseTexts.isEmpty) (')' :: z) := by
  have close : trim (')' :: z) = ')' :: z := trim_cons_of_not_blank (by decide)
  cases elseClause with
  | none =>
      cases otherwise
      rw [List.flatMap_nil, List.nil_append, close]
      exact (optional_yields_none (expr_fails_close z)).mono fun found empty => by rw [empty]
  | some e =>
      obtain ⟨text, rest, reads, others, rfl⟩ := List.forall₂_cons_left_iff.mp otherwise
      cases others
      have read := reads.reads _ (continues_close z)
      rw [close] at read
      rw [trim_led_cons, List.flatMap_nil, List.nil_append]
      exact read.optional_some.mono fun found ⟨e', same, erased⟩ => by
        rw [same]
        simp only [Expr.eraseOption, erased]

/-- `(if c t)` and `(if c t e)` read back as the `if` of their parts: the
call refuses the keyword, the definition does not start with it, and
`parse_if` reads the condition, the clause and the optional else clause. -/
theorem expr_reads_if {c t : Expr} {elseClause : Option Expr} {condText clauseText : List Char}
    {elseTexts : List (List Char)}
    (cond : ReadsBack tables (expr tables) (·.erase = c.erase) condText)
    (clause : ReadsBack tables (expr tables) (·.erase = t.erase) clauseText)
    (otherwise : List.Forall₂ (fun e text => ReadsBack tables (expr tables) (·.erase = e.erase) text)
      elseClause.toList elseTexts) :
    ReadsBack tables (expr tables) (fun e => e.node.erase = (Form.ifForm c t elseClause).erase)
      ('(' :: ("if".toList ++ (condText :: clauseText :: elseTexts).flatMap (' ' :: ·)) ++ [')']) := by
  have spelled : "if".toList = ['i', 'f'] := rfl
  have solid : Solid ("if".toList ++ (condText :: clauseText :: elseTexts).flatMap (' ' :: ·)) := by
    rw [spelled]
    exact ⟨'i', _, rfl, by decide, by decide⟩
  refine @ReadsBack.of_bracketed tables _ _ true solid fun z follows => ?_
  rw [List.append_assoc]
  have elseIndented := ReadsBack.indented_all otherwise
  have clauseIndented : ∀ text ∈ clauseText :: elseTexts, Indented text :=
    List.forall_mem_cons.mpr ⟨clause.indented, elseIndented⟩
  have partsIndented : ∀ text ∈ condText :: clauseText :: elseTexts, Indented text :=
    List.forall_mem_cons.mpr ⟨cond.indented, clauseIndented⟩
  have elseRead := elseClause_reads otherwise z
  have clauseRead := clause.reads _ (led_continues elseIndented (continues_close z))
  have condRead := cond.reads _ (led_continues clauseIndented (continues_close z))
  rw [trim_led_cons] at condRead
  have keywordFollows : Continues tables ((condText :: clauseText :: elseTexts).flatMap (' ' :: ·) ++ ')' :: z) :=
    led_continues partsIndented (continues_close z)
  have keywordRead := reserved_yields (by decide : "if".toList ≠ []) keywordFollows
  rw [trim_led_cons] at keywordRead
  have ifRead : (parseIf tables (expr tables)).Yields
      ("if".toList ++ ((condText :: clauseText :: elseTexts).flatMap (' ' :: ·) ++ ')' :: z))
      (fun form => form.erase = (Form.ifForm c t elseClause).erase) true (')' :: z) :=
    ((((keywordRead.seqRight condRead).and clauseRead).and elseRead).map _
      fun _ ⟨⟨sameCond, sameClause⟩, sameElse⟩ => by
        simp only [Form.erase, sameCond, sameClause, sameElse]).consumed_eq (by simp)
  have callFails : (parseCall tables (expr tables)).Fails
      ("if".toList ++ ((condText :: clauseText :: elseTexts).flatMap (' ' :: ·) ++ ')' :: z)) false :=
    parseCall_fails_of_name _ (parseName_fails_of_keyword (by decide) (by decide) keywordFollows.boundary)
  rw [spelled] at ifRead callFails ⊢
  have defFails : (parseDef tables (expr tables)).Fails
      (['i', 'f'] ++ ((condText :: clauseText :: elseTexts).flatMap (' ' :: ·) ++ ')' :: z)) false :=
    parseDef_fails_of_unmatched _ (cons_not_prefix_of_ne (by decide)) (cons_not_prefix_of_ne (by decide))
  exact Yields.or_right callFails.attempt (Yields.or_right defFails.attempt (ifRead.attempt.or_left _))

end If

section Lambda

/-- `(lambda F)` and `(λ F)`, for the text `F` of a function, read back as
the lambda of the function: the call refuses the reserved keyword, and
`parse_lambda` reads it and then the function. -/
theorem expr_reads_lambda {fn : Function} {keyword text : List Char}
    (isLambda : keyword = "lambda".toList ∨ keyword = Chars.lambda)
    (function : ReadsBack tables (parseFunction tables (expr tables)) (·.erase = fn.erase) text) :
    ReadsBack tables (expr tables) (fun e => e.node.erase = (Form.lambda fn).erase)
      ('(' :: (keyword ++ ' ' :: text) ++ [')']) := by
  have blank : Chars.isWhitespace ' ' = true := by decide
  obtain ⟨c, cs, spelled, notBlank, notHash, notD, notI⟩ : ∃ c cs, keyword = c :: cs ∧
      Chars.isWhitespace c = false ∧ c ≠ '#' ∧ 'd' ≠ c ∧ 'i' ≠ c := by
    rcases isLambda with rfl | rfl
    exacts [⟨'l', _, rfl, by decide, by decide, by decide, by decide⟩,
      ⟨'λ', [], rfl, by decide, by decide, by decide, by decide⟩]
  have solid : Solid (keyword ++ ' ' :: text) := by
    rw [spelled]
    exact ⟨c, _, rfl, notBlank, notHash⟩
  refine @ReadsBack.of_bracketed tables _ _ true solid fun z follows => ?_
  rw [List.append_assoc, List.cons_append]
  have afterKeyword : Continues tables (' ' :: (text ++ ')' :: z)) :=
    continues_of_blank blank (function.indented.noComment _)
  have keywordRead : ((language tables).reserved keyword).Yields (keyword ++ ' ' :: (text ++ ')' :: z))
      (fun _ => True) true (trim (' ' :: (text ++ ')' :: z))) :=
    reserved_yields (by rw [spelled]; exact List.cons_ne_nil c cs) afterKeyword
  rw [trim_cons_of_blank blank] at keywordRead
  have keywords : (((language tables).reserved "lambda".toList).or ((language tables).reserved Chars.lambda)).Yields
      (keyword ++ ' ' :: (text ++ ')' :: z)) (fun _ => True) true (trim (text ++ ')' :: z)) := by
    rcases isLambda with rfl | rfl
    · exact keywordRead.or_left _
    · exact Yields.or_right (reserved_fails_of_unmatched
        (cons_not_prefix_of_ne (by decide) : ¬['l', 'a', 'm', 'b', 'd', 'a'] <+: _)) keywordRead
  have functionRead := function.reads _ (continues_close z)
  rw [trim_cons_of_not_blank (by decide)] at functionRead
  have lambdaRead : (parseLambda tables (expr tables)).Yields (keyword ++ ' ' :: (text ++ ')' :: z))
      (fun form => form.erase = (Form.lambda fn).erase) true (')' :: z) :=
    (keywords.seqRight functionRead).map Form.lambda fun _ same => by simp only [Form.erase, same]
  have callFails : (parseCall tables (expr tables)).Fails (keyword ++ ' ' :: (text ++ ')' :: z)) false := by
    refine parseCall_fails_of_name _ ?_
    rcases isLambda with rfl | rfl
    · exact parseName_fails_of_keyword (by decide) (by decide) afterKeyword.boundary
    · exact Fails.withPosition fun _ => (identifier_fails_on_lambda _).map _
  have unmatched : ∀ w ws, w ≠ c → ¬(w :: ws) <+: keyword ++ ' ' :: (text ++ ')' :: z) := by
    intro w ws differs
    rw [spelled]
    exact cons_not_prefix_of_ne differs
  have defFails : (parseDef tables (expr tables)).Fails (keyword ++ ' ' :: (text ++ ')' :: z)) false :=
    parseDef_fails_of_unmatched _ (unmatched 'd' ['e', 'f'] notD) (unmatched 'd' ['e', 'f', 'i', 'n', 'e'] notD)
  have ifFails : (parseIf tables (expr tables)).Fails (keyword ++ ' ' :: (text ++ ')' :: z)) false :=
    parseIf_fails_of_unmatched _ (unmatched 'i' ['f'] notI)
  exact Yields.or_right callFails.attempt (Yields.or_right defFails.attempt
    (Yields.or_right ifFails.attempt (lambdaRead.attempt.or_left _)))

end Lambda

section Let

theorem Binding.eraseList_eq_of_forall₂ {bs bs' : List (Annotated Binding)}
    (related : List.Forall₂ (fun b' b => b'.node.erase = b.node.erase) bs' bs) :
    Binding.eraseList bs' = Binding.eraseList bs := by
  induction related with
  | nil => rfl
  | @cons b' b _ _ same _ erased =>
      obtain ⟨node', _⟩ := b'
      obtain ⟨node, _⟩ := b
      dsimp only at same
      simp only [Binding.eraseList, same, erased]

/-- A binding `(x τ v)` reads back: the name, the type and the value up to
the bracket. -/
theorem binding_reads {name : Ident} {τ : Ty} {value : Expr} {typeText valueText : List Char}
    (valid : validIdent tables name.value = true)
    (typed : ReadsBack tables (typeName tables) (· = τ) typeText)
    (valued : ReadsBack tables (expr tables) (·.erase = value.erase) valueText) :
    ReadsBack tables ((language tables).parens (parseBinding tables (expr tables)))
      (fun b => b.node.erase = (Binding.mk name τ value).erase)
      ('(' :: (name.value ++ ' ' :: (typeText ++ ' ' :: valueText)) ++ [')']) := by
  refine ReadsBack.of_solid ⟨'(', _, rfl, by decide, by decide⟩ fun z follows => ?_
  have blank : Chars.isWhitespace ' ' = true := by decide
  have valueRead := valued.reads _ (continues_close z)
  rw [trim_cons_of_not_blank (by decide)] at valueRead
  have typeRead := typed.reads _ (continues_of_blank blank (valued.indented.noComment (')' :: z)))
  rw [trim_cons_of_blank blank] at typeRead
  have nameRead := parseName_yields valid
    (continues_of_blank blank (typed.indented.noComment (' ' :: (valueText ++ ')' :: z))))
  rw [trim_cons_of_blank blank] at nameRead
  have bindingRead : (parseBinding tables (expr tables)).Yields
      (name.value ++ ' ' :: (typeText ++ ' ' :: (valueText ++ ')' :: z)))
      (fun b => b.node.erase = (Binding.mk name τ value).erase) true (')' :: z) :=
    Yields.withPosition fun _ => ((nameRead.and typeRead).and valueRead).map _
      fun _ ⟨⟨sameName, sameType⟩, sameValue⟩ => by
        simp only [Binding.erase, Positional.erase_eq_erase_iff.mpr sameName, sameType, sameValue]
  have nameSolid := Solid.of_validIdent valid
  rw [← nameSolid.trim_append] at bindingRead
  have shape : ('(' :: (name.value ++ ' ' :: (typeText ++ ' ' :: valueText)) ++ [')']) ++ z =
      '(' :: (name.value ++ ' ' :: (typeText ++ ' ' :: (valueText ++ ')' :: z))) := by
    simp only [List.cons_append, List.append_assoc, List.nil_append]
  rw [shape]
  exact parens_yields_trim (nameSolid.noComment _) bindingRead follows.noComment

/-- `(let (b₁ … bₙ) e₁ … eₘ)` reads back as the let form of its bindings and
body: the call refuses the reserved keyword, no other form starts with `le`,
and `parse_let` reads the keyword, the bracketed bindings and the body up to
the bracket. -/
theorem expr_reads_let {bindings : List (Annotated Binding)} {body : List Expr}
    {bindingTexts bodyTexts : List (List Char)}
    (bound : List.Forall₂ (fun b text => ReadsBack tables
      ((language tables).parens (parseBinding tables (expr tables))) (·.node.erase = b.node.erase) text)
        bindings bindingTexts)
    (items : List.Forall₂ (fun e text => ReadsBack tables (expr tables) (·.erase = e.erase) text) body bodyTexts) :
    ReadsBack tables (expr tables) (fun e => e.node.erase = (Form.letForm (.letIn bindings body)).erase)
      ('(' :: ("let".toList ++ ' ' :: '(' :: (List.intercalate [' '] bindingTexts ++
        ')' :: bodyTexts.flatMap (' ' :: ·))) ++ [')']) := by
  have blank : Chars.isWhitespace ' ' = true := by decide
  have spelled : "let".toList = ['l', 'e', 't'] := rfl
  have solid : Solid ("let".toList ++ ' ' :: '(' :: (List.intercalate [' '] bindingTexts ++
      ')' :: bodyTexts.flatMap (' ' :: ·))) := by
    rw [spelled]
    exact ⟨'l', _, rfl, by decide, by decide⟩
  refine @ReadsBack.of_bracketed tables _ _ true solid fun z follows => ?_
  simp only [List.append_assoc, List.cons_append]
  have bodyIndented := ReadsBack.indented_all items
  have bodyFollows : Continues tables (bodyTexts.flatMap (' ' :: ·) ++ ')' :: z) :=
    led_continues bodyIndented (continues_close z)
  have bodyRead := many_reads_led expr_progresses (continues_close z)
    (by rw [trim_cons_of_not_blank (by decide)]; exact expr_fails_close z) items
  rw [trim_cons_of_not_blank (by decide)] at bodyRead
  have bindingProgress : ((language tables).parens (parseBinding tables (expr tables))).Progresses :=
    LanguageEnv.parens_progresses (language_lawful tables) (parseBinding_respects.nonGrowing _ expr_nonGrowing)
  have bindingStop : ∀ u, ((language tables).parens (parseBinding tables (expr tables))).Fails (')' :: u) false :=
    fun u => LanguageEnv.parens_fails_of_head fun d ds head => by
      cases head
      decide
  have bindingsRead := many_reads_back bindingProgress bindingStop (List.cons_ne_nil ' ' [])
    (by simpa using blank) bound (bodyTexts.flatMap (' ' :: ·) ++ ')' :: z)
  have listRead : ((language tables).parens ((language tables).parens (parseBinding tables (expr tables))).many).Yields
      ('(' :: (List.intercalate [' '] bindingTexts ++ ')' :: (bodyTexts.flatMap (' ' :: ·) ++ ')' :: z)))
      (List.Forall₂ (fun b' b => b'.node.erase = b.node.erase) · bindings) true
      (trim (bodyTexts.flatMap (' ' :: ·) ++ ')' :: z)) :=
    parens_yields_trim (joined_noComment (ReadsBack.indented_all bound) _) bindingsRead
      bodyFollows.noComment
  have afterKeyword : Continues tables (' ' :: '(' :: (List.intercalate [' '] bindingTexts ++
      ')' :: (bodyTexts.flatMap (' ' :: ·) ++ ')' :: z))) :=
    continues_of_blank blank (@continues_open tables _).noComment
  have keywordRead := reserved_yields (by decide : "let".toList ≠ []) afterKeyword
  rw [trim_cons_of_blank blank, trim_cons_of_not_blank (by decide)] at keywordRead
  have letRead : (parseLet tables (expr tables)).Yields ("let".toList ++ ' ' :: '(' ::
      (List.intercalate [' '] bindingTexts ++ ')' :: (bodyTexts.flatMap (' ' :: ·) ++ ')' :: z)))
      (fun form => form.erase = (Form.letForm (.letIn bindings body)).erase) true (')' :: z) :=
    (((((keywordRead.seqRight listRead).and bodyRead).map _ fun _ ⟨sameBindings, sameBody⟩ => by
      simp only [Form.erase, LetForm.erase, Binding.eraseList_eq_of_forall₂ sameBindings,
        Expr.eraseList_eq_of_forall₂ sameBody]).or_left _).map Form.letForm fun _ holds => holds).consumed_eq
      (by simp)
  have callFails : (parseCall tables (expr tables)).Fails ("let".toList ++ ' ' :: '(' ::
      (List.intercalate [' '] bindingTexts ++ ')' :: (bodyTexts.flatMap (' ' :: ·) ++ ')' :: z))) false :=
    parseCall_fails_of_name _ (parseName_fails_of_keyword (by decide) (by decide) afterKeyword.boundary)
  rw [spelled] at letRead callFails ⊢
  have unmatched : ∀ w ws, w ≠ 'l' → ¬(w :: ws) <+: ['l', 'e', 't'] ++ ' ' :: '(' ::
      (List.intercalate [' '] bindingTexts ++ ')' :: (bodyTexts.flatMap (' ' :: ·) ++ ')' :: z)) :=
    fun _ _ differs => cons_not_prefix_of_ne differs
  have notLambda : ¬['l', 'a', 'm', 'b', 'd', 'a'] <+: ['l', 'e', 't'] ++ ' ' :: '(' ::
      (List.intercalate [' '] bindingTexts ++ ')' :: (bodyTexts.flatMap (' ' :: ·) ++ ')' :: z)) :=
    fun isPrefix => cons_not_prefix_of_ne (by decide) (List.cons_prefix_cons.mp isPrefix).2
  exact Yields.or_right callFails.attempt
    (Yields.or_right (parseDef_fails_of_unmatched _ (unmatched 'd' ['e', 'f'] (by decide))
      (unmatched 'd' ['e', 'f', 'i', 'n', 'e'] (by decide))).attempt
    (Yields.or_right (parseIf_fails_of_unmatched _ (unmatched 'i' ['f'] (by decide))).attempt
    (Yields.or_right (parseLambda_fails_of_unmatched _ notLambda (unmatched 'λ' [] (by decide))).attempt
      (letRead.attempt.or_left _))))

end Let

end Mnemosyne.Parser
