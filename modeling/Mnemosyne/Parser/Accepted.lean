import Mnemosyne.Combine.Ensures
import Mnemosyne.Parser.RoundTrip

/-! # What `parse_module` accepts

Every tree `parse_module` returns is well formed (`parseModule_wellFormed`):
its names are identifiers that `identifier` reads back, never reserved
words; its types are keyword types under sigils; every signature has a
non-empty type chain, so `Signature::arity` never goes below zero; every
function has an equation.  Some forms of the AST are never built:
`parse_expr` has no alternative for logical or numeric expressions,
`parse_let` builds only `LetForm::Let`, every literal is an integer
constant, and the `top_level` branch of `parse_def` is dead
(`parseDef_eq_functionForm`).

The lexer has a dead branch of the same kind.  A block comment opens with
`#|`, but the line comment is tried first, begins with `#` and reads to the
end of the line; a block comment is never read as one, and code after its
`|#` on the same line is lost (`parseModule_hides_after_block_comment`).
-/

namespace Mnemosyne.Types

open Mnemosyne.Parser

section WellFormed

variable (tables : CharTables)

/-- A constraint `parse_constraint` builds: a class name and at least one
generic, all of them names `identifier` reads. -/
def Constraint.wellFormed (c : Constraint) : Bool :=
  validIdent tables c.typeclass.value && !c.generics.isEmpty &&
    c.generics.all fun generic => validIdent tables generic.value

/-- A signature `parse_signature` builds: constraints, when there are any,
form a non-empty list, and the type chain is non-empty. -/
def Signature.wellFormed : Signature → Bool
  | .mk constraints typechain =>
      constraints.all (fun cs => !cs.isEmpty && cs.all (Constraint.wellFormed tables)) &&
        !typechain.isEmpty && typechain.all Ty.readsBack

end WellFormed

end Mnemosyne.Types

namespace Mnemosyne.Ast

open Mnemosyne.Parser Mnemosyne.Types

section WellFormed

variable (tables : CharTables)

def Literal.wellFormed : Literal → Bool
  | .intConst _ => true
  | _ => false

def NameRef.wellFormed : NameRef → Bool
  | .owned name | .borrowed name | .deref name | .unique name => validIdent tables name.value

def PatElement.wellFormed : PatElement → Bool
  | .name n => validIdent tables n.value
  | .lit c => c.wellFormed
  | _ => false

mutual

/-- The forms `parse_expr` builds, with what each of their parts holds. -/
def Form.wellFormed : Form → Bool
  | .define form => DefForm.wellFormed form
  | .ifForm condition ifClause elseClause =>
      Expr.wellFormed condition && Expr.wellFormed ifClause && Expr.wellFormedOption elseClause
  | .letForm form => LetForm.wellFormed form
  | .app (.mk fn params) => validIdent tables fn.value && Expr.wellFormedList params
  | .lambda fn => Function.wellFormed fn
  | .lit c => c.wellFormed
  | .nameRef n => n.wellFormed tables
  | .logical _ | .num _ => false

def Expr.wellFormed : Expr → Bool
  | ⟨form, _⟩ => Form.wellFormed form

def Expr.wellFormedOption : Option Expr → Bool
  | none => true
  | some e => Expr.wellFormed e

def Expr.wellFormedList : List Expr → Bool
  | [] => true
  | e :: es => Expr.wellFormed e && Expr.wellFormedList es

def DefForm.wellFormed : DefForm → Bool
  | .function name ⟨fn, _⟩ => validIdent tables name.value && Function.wellFormed fn
  | .topLevel .. => false

def LetForm.wellFormed : LetForm → Bool
  | .letIn bindings body => Binding.wellFormedList bindings && Expr.wellFormedList body
  | _ => false

def Function.wellFormed : Function → Bool
  | .mk sig equations =>
      sig.wellFormed tables && !equations.isEmpty && Equation.wellFormedList equations

def Equation.wellFormed : Equation → Bool
  | .mk pattern body => pattern.all (PatElement.wellFormed tables) && Expr.wellFormedList body

def Equation.wellFormedList : List (Annotated Equation) → Bool
  | [] => true
  | ⟨eq, _⟩ :: eqs => Equation.wellFormed eq && Equation.wellFormedList eqs

def Binding.wellFormed : Binding → Bool
  | .mk name typ value => validIdent tables name.value && typ.readsBack && Expr.wellFormed value

def Binding.wellFormedList : List (Annotated Binding) → Bool
  | [] => true
  | ⟨binding, _⟩ :: bindings => Binding.wellFormed binding && Binding.wellFormedList bindings

end

end WellFormed

end Mnemosyne.Ast

namespace Mnemosyne.Parser

open Combine Combine.Parser Mnemosyne.Types Mnemosyne.Ast

variable {tables : CharTables}

section Lists

theorem Expr.wellFormedList_iff :
    ∀ {es : List Expr}, Expr.wellFormedList tables es = true ↔ ∀ e ∈ es, e.wellFormed tables = true
  | [] => by simp [Expr.wellFormedList]
  | e :: es => by simp [Expr.wellFormedList, Expr.wellFormedList_iff]

theorem Equation.wellFormedList_iff :
    ∀ {eqs : List (Annotated Equation)},
      Equation.wellFormedList tables eqs = true ↔ ∀ eq ∈ eqs, eq.node.wellFormed tables = true
  | [] => by simp [Equation.wellFormedList]
  | ⟨eq, _⟩ :: eqs => by simp [Equation.wellFormedList, Equation.wellFormedList_iff]

theorem Binding.wellFormedList_iff :
    ∀ {bindings : List (Annotated Binding)},
      Binding.wellFormedList tables bindings = true ↔ ∀ b ∈ bindings, b.node.wellFormed tables = true
  | [] => by simp [Binding.wellFormedList]
  | ⟨b, _⟩ :: bindings => by simp [Binding.wellFormedList, Binding.wellFormedList_iff]

theorem Expr.wellFormedOption_of {found : Option Expr}
    (holds : ∀ a, found = some a → a.wellFormed tables = true) :
    Expr.wellFormedOption tables found = true := by
  cases found with
  | none => rfl
  | some a => exact holds a rfl

end Lists

section Leaves

theorem identStart_ensures : (language tables).ident.start.Ensures (isIdentStart tables · = true) :=
  ((satisfy_ensures _).mono fun c alpha => by simp only [isIdentStart, alpha, Bool.true_or]).or
    ((satisfy_ensures _).mono fun c ext => by simp only [isIdentStart, ext, Bool.or_true])

theorem identRest_ensures : (language tables).ident.rest.Ensures (isIdentRest tables · = true) :=
  ((satisfy_ensures _).mono fun c alnum => by simp only [isIdentRest, alnum, Bool.true_or]).or
    ((satisfy_ensures _).mono fun c ext => by simp only [isIdentRest, ext, Bool.or_true])

/-- `parse_name` reads only names that `identifier` reads back: a start
character, continuing characters, and no reserved word. -/
theorem parseName_ensures : (parseName tables).Ensures (validIdent tables ·.value = true) := by
  refine Ensures.withPosition fun _ =>
    ((language tables).identifier_ensures identStart_ensures identRest_ensures).map ?_
  rintro _ ⟨⟨c, cs, rfl, start, rest⟩, notReserved⟩
  have notReserved : c :: cs ∉ reservedWords := notReserved
  simp [validIdent, start, List.all_eq_true.mpr rest, notReserved]

theorem sigilName_ensures {sigil : Char} {reference : Ident → NameRef}
    (named : ∀ ident, (reference ident).wellFormed tables = validIdent tables ident.value) :
    (sigilName tables sigil reference).Ensures (·.wellFormed tables = true) :=
  (Ensures.seqRight parseName_ensures).map fun ident valid => (named ident).trans valid

theorem parseNameRef_ensures : (parseNameRef tables).Ensures (·.wellFormed tables = true) := by
  refine (Ensures.choice fun p member => ?_).map fun n valid => valid
  simp only [List.mem_cons, List.not_mem_nil, or_false] at member
  rcases member with rfl | rfl | rfl | rfl
  all_goals first
    | exact sigilName_ensures fun _ => rfl
    | exact parseName_ensures.map fun _ valid => valid

theorem parseIntConst_ensures : (parseIntConst tables).Ensures (·.wellFormed = true) :=
  (ensures_true _).map fun _ _ => rfl

theorem parsePattern_ensures :
    (parsePattern tables).Ensures (·.all (PatElement.wellFormed tables) = true) := by
  have element : (((parseName tables).map PatElement.name).or
      ((parseIntConst tables).map PatElement.lit)).Ensures (·.wellFormed tables = true) :=
    (parseName_ensures.map fun _ valid => valid).or (parseIntConst_ensures.map fun _ literal => literal)
  exact (LanguageEnv.parens_ensures _ element.many).mono fun _ all => List.all_eq_true.mpr all

/-- Every keyword of the table names a primitive that prints as a keyword of
the table and is looked up back to itself. -/
theorem primitiveKeywords_readsBack : ∀ entry ∈ primitiveKeywords, entry.2.readsBack = true := by
  decide

theorem parsePrimitiveTy_ensures : (parsePrimitiveTy tables).Ensures (·.readsBack = true) := by
  refine (Ensures.choice fun q member => ?_).map fun (primitive : Primitive) reads => reads
  obtain ⟨entry, listed, rfl⟩ := List.mem_map.mp member
  exact Ensures.seqRight (value_ensures (primitiveKeywords_readsBack entry listed))

theorem pointerTy_ensures {sigil : Char} {reference : Ty → Reference} {p : Parser Ty}
    (wraps : ∀ ty, (Ty.ref (reference ty)).readsBack = ty.readsBack)
    (ensures : p.Ensures (·.readsBack = true)) :
    (pointerTy sigil reference p).Ensures (·.readsBack = true) :=
  (Ensures.seqRight ensures).map fun ty reads => (wraps ty).trans reads

/-- `type_name` builds only types that read back: keyword types under raw,
unique and borrowed pointers; the invariant passes through the recursion
by `fix_ensures`. -/
theorem typeName_ensures : (typeName tables).Ensures (·.readsBack = true) := by
  refine fix_ensures fun p ensures => Ensures.choice fun q member => ?_
  simp only [List.mem_cons, List.not_mem_nil, or_false] at member
  rcases member with rfl | rfl | rfl | rfl
  · exact parsePrimitiveTy_ensures
  all_goals exact pointerTy_ensures (fun _ => rfl) ensures

end Leaves

section Signatures

theorem Constraint.wellFormed_of {typeclass : Ident} {generics : List Ident}
    (valid : validIdent tables typeclass.value = true) (nonempty : generics ≠ [])
    (all : ∀ generic ∈ generics, validIdent tables generic.value = true) :
    Constraint.wellFormed tables ⟨typeclass, generics⟩ = true := by
  simp [Constraint.wellFormed, valid, nonempty, List.all_eq_true.mpr all]

theorem parseConstraint_ensures : (parseConstraint tables).Ensures (·.wellFormed tables = true) :=
  ((LanguageEnv.parens_ensures _ ((Ensures.seqRight parseName_ensures).and parseName_ensures.many1)).map
      fun _ ⟨valid, nonempty, all⟩ => Constraint.wellFormed_of valid nonempty all).or
    ((LanguageEnv.braces_ensures _ (parseName_ensures.skip.and parseName_ensures.many1)).map
      fun _ ⟨valid, nonempty, all⟩ => Constraint.wellFormed_of valid nonempty all)

theorem Signature.wellFormed_of {found : Option (List Constraint)} {typechain : List Ty}
    (constraints : ∀ cs, found = some cs → cs ≠ [] ∧ ∀ c ∈ cs, c.wellFormed tables = true)
    (nonempty : typechain ≠ []) (reads : ∀ ty ∈ typechain, ty.readsBack = true) :
    (Signature.mk found typechain).wellFormed tables = true := by
  have listed : found.all (fun cs => !cs.isEmpty && cs.all (Constraint.wellFormed tables)) = true := by
    cases found with
    | none => rfl
    | some cs =>
        obtain ⟨csNonempty, all⟩ := constraints cs rfl
        simp [csNonempty, List.all_eq_true.mpr all]
  simp [Signature.wellFormed, listed, nonempty, List.all_eq_true.mpr reads]

/-- Both spellings of a signature build a non-empty type chain: the prefix
one reads it with `many1`, the infix one with `sep_by1`. -/
theorem parseSignature_ensures : (parseSignature tables).Ensures (·.wellFormed tables = true) :=
  ((LanguageEnv.parens_ensures _
      ((Ensures.seqRight parseConstraint_ensures.many1.optional).and typeName_ensures.many1)).map
      fun _ ⟨constraints, nonempty, reads⟩ => Signature.wellFormed_of constraints nonempty reads).or
    ((LanguageEnv.braces_ensures _
      (parseConstraint_ensures.many1.optional.and
        (LanguageEnv.lex_ensures _ typeName_ensures).sepBy1)).map
      fun _ ⟨constraints, nonempty, reads⟩ => Signature.wellFormed_of constraints nonempty reads)

end Signatures

/-- `top_level` is tried only where `function_form` fails without
consuming, that is where the name they both begin with fails, and there
`top_level` fails too. -/
theorem functionForm_or_topLevel (e : Parser Expr) :
    (functionForm tables e).or (topLevel tables e) = functionForm tables e := by
  refine or_eq_left fun s failed => ?_
  have nameFails : parseName tables s = .error false :=
    parseName_consumes.bind_error_false (map_eq_error failed)
  have typedFails : ((parseName tables).and (typeName tables)) s = .error false :=
    bind_of_error nameFails
  have valueFails : (((parseName tables).and (typeName tables)).and e) s = .error false :=
    bind_of_error typedFails
  simp only [topLevel, Parser.map, valueFails]

section Forms

variable {e : Parser Expr} (ensures : e.Ensures (·.wellFormed tables = true))
include ensures

theorem parseBinding_ensures : (parseBinding tables e).Ensures (·.node.wellFormed tables = true) :=
  Ensures.withPosition fun _ => ((parseName_ensures.and typeName_ensures).and ensures).map
    fun _ ⟨⟨valid, reads⟩, value⟩ => by simp [Binding.wellFormed, valid, reads, value]

theorem parseEquation_ensures : (parseEquation tables e).Ensures (·.node.wellFormed tables = true) :=
  Ensures.withPosition fun _ => (LanguageEnv.parens_ensures _ (parsePattern_ensures.and ensures.many)).map
    fun _ ⟨pattern, body⟩ => by simp [Equation.wellFormed, pattern, Expr.wellFormedList_iff.mpr body]

theorem parseFunction_ensures : (parseFunction tables e).Ensures (·.wellFormed tables = true) :=
  LanguageEnv.parens_ensures _ (Ensures.seqRight
    ((parseSignature_ensures.and (parseEquation_ensures ensures).many1).map
      fun _ ⟨sig, nonempty, equations⟩ => by
        simp [Function.wellFormed, sig, nonempty, Equation.wellFormedList_iff.mpr equations]))

theorem functionForm_ensures : (functionForm tables e).Ensures (·.wellFormed tables = true) := by
  have fnPos : (parseFnPos tables e).Ensures (·.node.wellFormed tables = true) :=
    Ensures.withPosition fun _ => (parseFunction_ensures ensures).map fun _ fn => fn
  refine (parseName_ensures.and fnPos).map ?_
  rintro ⟨name, fn, position⟩ ⟨valid, fnWellFormed⟩
  simp only [DefForm.wellFormed, valid, fnWellFormed, Bool.and_self]

theorem parseDef_ensures : (parseDef tables e).Ensures (·.wellFormed tables = true) := by
  unfold parseDef
  rw [functionForm_or_topLevel]
  exact (Ensures.seqRight (functionForm_ensures ensures)).map fun _ defined => defined

theorem parseIf_ensures : (parseIf tables e).Ensures (·.wellFormed tables = true) :=
  (((Ensures.seqRight ensures).and ensures).and ensures.optional).map
    fun _ ⟨⟨condition, ifClause⟩, elseClause⟩ => by
      simp [Form.wellFormed, condition, ifClause, Expr.wellFormedOption_of elseClause]

theorem parseLambda_ensures : (parseLambda tables e).Ensures (·.wellFormed tables = true) :=
  (Ensures.seqRight (parseFunction_ensures ensures)).map fun _ fn => fn

/-- `parse_let` builds only the plain `let`, its bindings each in brackets. -/
theorem parseLet_ensures : (parseLet tables e).Ensures (·.wellFormed tables = true) := by
  refine (Ensures.choice fun q member => ?_).map fun _ bound => bound
  rw [List.mem_singleton] at member
  subst member
  have bindings := (language tables).parens_ensures
    ((language tables).parens_ensures (parseBinding_ensures ensures)).many
  exact ((Ensures.seqRight bindings).and ensures.many).map fun _ ⟨bound, body⟩ => by
    simp [Form.wellFormed, LetForm.wellFormed, Binding.wellFormedList_iff.mpr bound,
      Expr.wellFormedList_iff.mpr body]

theorem parseCall_ensures : (parseCall tables e).Ensures (·.wellFormed tables = true) :=
  (parseName_ensures.and ensures.many).map fun _ ⟨valid, params⟩ => by
    simp [Form.wellFormed, valid, Expr.wellFormedList_iff.mpr params]

/-- One unfolding of `parse_expr` keeps the invariant: each of its
alternatives does, given the expressions it reads inside. -/
theorem parseExpr_ensures : (parseExpr tables e).Ensures (·.wellFormed tables = true) := by
  have bracketed : (choice [attempt (parseCall tables e), attempt (parseDef tables e),
      attempt (parseIf tables e), attempt (parseLambda tables e),
      attempt (parseLet tables e)]).Ensures (·.wellFormed tables = true) := by
    apply Ensures.choice
    intro q member
    simp only [List.mem_cons, List.not_mem_nil, or_false] at member
    rcases member with rfl | rfl | rfl | rfl | rfl
    · exact (parseCall_ensures ensures).attempt
    · exact (parseDef_ensures ensures).attempt
    · exact (parseIf_ensures ensures).attempt
    · exact (parseLambda_ensures ensures).attempt
    · exact (parseLet_ensures ensures).attempt
  exact Ensures.withPosition fun _ =>
    (((LanguageEnv.parens_ensures _ bracketed).or
      (parseIntConst_ensures.map fun _ literal => literal).attempt).or
        parseNameRef_ensures.attempt).map fun _ form => form

end Forms

section Module

theorem expr_ensures : (expr tables).Ensures (·.wellFormed tables = true) :=
  fix_ensures fun _ ensures => parseExpr_ensures ensures

/-- Every expression `parse_module` returns is well formed: valid names,
keyword types, non-empty type chains and equation lists, and none of the
forms the parser never builds. -/
theorem parseModule_wellFormed (tables : CharTables) {code : List Char} {es : List Expr}
    (accepted : parseModule tables code = .ok es) : ∀ e ∈ es, e.wellFormed tables = true := by
  unfold parseModule at accepted
  cases parsed : ((language tables).whiteSpace.seqRight (many1 (expr tables))).parse code with
  | error _ => simp [parsed, Except.map] at accepted
  | ok result =>
      obtain ⟨es', rest⟩ := result
      simp only [parsed, Except.map, Except.ok.injEq] at accepted
      subst accepted
      exact ((Ensures.seqRight expr_ensures.many1).parse parsed).2

theorem parseModule_wellFormed_call :
    parseModule CharTables.ascii ['(', 'f', ' ', 'x', ')'] =
        .ok [⟨.app (.mk ⟨⟨2, 1, 3⟩, ['f']⟩ [⟨.nameRef (.owned ⟨⟨4, 1, 5⟩, ['x']⟩), ⟨4, 1, 5⟩⟩]), ⟨1, 1, 2⟩⟩] ∧
      ∀ e ∈ ([⟨.app (.mk ⟨⟨2, 1, 3⟩, ['f']⟩ [⟨.nameRef (.owned ⟨⟨4, 1, 5⟩, ['x']⟩), ⟨4, 1, 5⟩⟩]),
        ⟨1, 1, 2⟩⟩] : List Expr), e.wellFormed CharTables.ascii = true := by
  have accepted : parseModule CharTables.ascii ['(', 'f', ' ', 'x', ')'] =
      .ok [⟨.app (.mk ⟨⟨2, 1, 3⟩, ['f']⟩ [⟨.nameRef (.owned ⟨⟨4, 1, 5⟩, ['x']⟩), ⟨4, 1, 5⟩⟩]), ⟨1, 1, 2⟩⟩] :=
    rfl
  exact ⟨accepted, parseModule_wellFormed CharTables.ascii accepted⟩

/-- `parse_def` is its function form alone, on every input: the
`or(top_level)` after it never changes the reply. -/
theorem parseDef_eq_functionForm (tables : CharTables) (e : Parser Expr) :
    parseDef tables e = ((((language tables).reserved "def".toList).or
      ((language tables).reserved "define".toList)).seqRight (functionForm tables e)).map Form.define := by
  unfold parseDef
  rw [functionForm_or_topLevel]

end Module

section Comments

/-- Where a piece of white space fails without consuming, the line comment
has failed at its `#`, and the block comment, which opens with `#|`, fails
there too. -/
theorem blockComment_refuses {s : State}
    (failed : ((skipMany1 (satisfy (language tables).isSpace)).or (language tables).lineComment) s =
      .error false) :
    (language tables).blockComment s = .error false := by
  have opened : attempt (language tables).commentLine s = .error false :=
    (((string_consumes (List.cons_ne_nil '#' [])).map _).attempt).bind_error_false
      (or_error_false failed)
  obtain ⟨c, hashFails⟩ := attempt_error_false opened
  obtain ⟨c', barFails⟩ := matchString_error_of_prefix (List.prefix_append ['#'] ['|'])
    ⟨c, map_eq_error (map_eq_error hashFails)⟩
  have barFails : matchString false ['#', '|'] s = .error c' := barFails
  have startFails : (language tables).commentStart s = .error c' := by
    simp [language, string, Parser.map, barFails]
  exact bind_of_error (attempt_of_error startFails)

/-- White space never reads a block comment: its third alternative is dead. -/
theorem whiteSpace_eq (tables : CharTables) :
    (language tables).whiteSpace =
      skipMany ((skipMany1 (satisfy Chars.isWhitespace)).or (language tables).lineComment) := by
  unfold LanguageEnv.whiteSpace
  rw [or_eq_left fun _ failed => blockComment_refuses failed]
  rfl

/-- On a line that starts with `#`, white space reads to the end of the line,
whatever follows the `#`. -/
theorem whiteSpace_yields_line {line : List Char} (oneLine : '\n' ∉ line) :
    (language tables).whiteSpace.Yields ('#' :: line) (fun _ => True) true [] := by
  have progress : ((skipMany1 (satisfy Chars.isWhitespace)).or (language tables).lineComment).Progresses :=
    (((satisfy_progresses _).many1 (satisfy_nonGrowing _)).map _).or
      (LanguageEnv.lineComment_progresses (language_lawful tables))
  have noSpace : ∀ input, (∀ c cs, input = c :: cs → Chars.isWhitespace c = false) →
      (skipMany1 (satisfy Chars.isWhitespace)).Fails input false :=
    fun _ refused => (Fails.many1 (satisfy_fails refused)).map _
  have noNewline : ∀ c ∈ line, (c != '\n') = true := fun c member =>
    bne_iff_ne.mpr fun same => oneLine (by rw [← same]; exact member)
  have rest : (skipMany (satisfy (· != '\n'))).Yields (line ++ []) (fun _ => True) (!line.isEmpty) [] :=
    (many_yields_chars (satisfy_progresses _)
      ((satisfy_fails fun _ _ empty => by cases empty) : (satisfy (· != '\n')).Fails [] false) line
      fun c member r => @satisfy_yields (· != '\n') c (noNewline c member) r).map _ fun _ _ => trivial
  rw [List.append_nil] at rest
  have hash : (language tables).commentLine.Yields ('#' :: line) (fun _ => True) true line :=
    (string_yields ['#'] line).map _ fun _ _ => trivial
  have comment : (language tables).lineComment.Yields ('#' :: line) (fun _ => True) true [] :=
    hash.attempt.seqRight rest
  have piece : ((skipMany1 (satisfy Chars.isWhitespace)).or (language tables).lineComment).Yields
      ('#' :: line) (fun _ => True) true [] :=
    Yields.or_right (noSpace _ fun c cs same => by cases same; decide) comment
  have stop : ((skipMany1 (satisfy Chars.isWhitespace)).or (language tables).lineComment).Fails [] false :=
    Fails.or (noSpace _ fun _ _ empty => by cases empty)
      ((((string_fails_of_head fun _ _ empty => by cases empty).map _).attempt).bind _)
  have head : ((skipMany1 (satisfy Chars.isWhitespace)).or (language tables).lineComment).Yields
      ('#' :: line) ((fun _ _ => True) · ()) true [] :=
    piece.mono fun _ _ => trivial
  have tail : ((skipMany1 (satisfy Chars.isWhitespace)).or (language tables).lineComment).many.Yields []
      (List.Forall₂ (fun _ _ => True) · ([] : List Unit)) false [] :=
    (many_yields_nil progress stop).mono fun _ empty => by
      rw [empty]
      exact .nil
  have pieces : ((skipMany1 (satisfy Chars.isWhitespace)).or (language tables).lineComment).many.Yields
      ('#' :: line) (List.Forall₂ (fun _ _ => True) · [()]) (true || false) [] :=
    many_yields_cons progress head tail
  rw [whiteSpace_eq]
  exact pieces.map _ fun _ _ => trivial

/-- A block comment closed on its own line hides the code after it: the
line comment reads past `|#` to the end of the line, nothing is left for
`many1(expr())`, and the module is refused. -/
theorem parseModule_hides_after_block_comment (tables : CharTables) {body code : List Char}
    (oneLine : '\n' ∉ body ++ code) :
    parseModule tables ("#|".toList ++ body ++ "|#".toList ++ code) = .error () := by
  have line : '\n' ∉ '|' :: (body ++ '|' :: '#' :: code) := by
    simp only [List.mem_cons, List.mem_append] at oneLine ⊢
    intro newline
    rcases newline with bar | inBody | bar | hash | inCode
    · exact absurd bar (by decide)
    · exact oneLine (.inl inBody)
    · exact absurd bar (by decide)
    · exact absurd hash (by decide)
    · exact oneLine (.inr inCode)
  have refused : ((language tables).whiteSpace.seqRight (many1 (expr tables))).Fails
      ('#' :: '|' :: (body ++ '|' :: '#' :: code)) (true || false) :=
    (whiteSpace_yields_line line).bind_fails fun _ _ => Fails.many1 expr_fails_nil
  have spelled : "#|".toList ++ body ++ "|#".toList ++ code = '#' :: '|' :: (body ++ '|' :: '#' :: code) := by
    simp
  rw [spelled]
  simp only [parseModule, refused.parse]
  rfl

theorem parseModule_hides_after_block_comment_call :
    '\n' ∉ " note ".toList ++ " (f 1)".toList ∧
      parseModule CharTables.ascii ("#|".toList ++ " note ".toList ++ "|#".toList ++ " (f 1)".toList) =
        .error () := by
  have oneLine : '\n' ∉ " note ".toList ++ " (f 1)".toList := by decide
  exact ⟨oneLine, parseModule_hides_after_block_comment CharTables.ascii oneLine⟩

end Comments

end Mnemosyne.Parser
