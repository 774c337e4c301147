import Mnemosyne.Parser.Forms

/-! # The syntax `parse_expr` reads

`to_sexpr` writes only part of the syntax tree in a form that is read back
(`printed_expr_reads_back`).  `Form.source` writes every form that
`parse_expr` has an alternative for, in the syntax that alternative reads:
calls, function definitions, `if`, `(lambda F)`, `let` with bracketed
bindings, constants and name references.  It is `to_sexpr` with the arms for
`if`, lambdas and let forms written as `parse_expr` reads them.

On every expression that `Form.readable` admits, `parse_module` reads the text
back as the expression, positions apart (`source_reads_back`), and a module of
such texts, one to a line, back as its list of expressions
(`module_source_reads_back`); the reading lemmas follow the recursion of
`Form.source` as those of the printed fragment follow `to_sexpr`.  What `Form.source` leaves out
has no syntax that `parse_expr` reads: top-level definitions (`parse_def`
reads only its function form), `letrec`, `let*`, the invocation form, and
logical and numeric expressions.
-/

namespace Mnemosyne.Ast

open Mnemosyne.Parser Mnemosyne.Types

mutual

/-- The text of a form in the syntax `parse_expr` reads. -/
def Form.source : Form → Nat → Option (List Char)
  | .define form, level => form.source level
  | .ifForm condition ifClause elseClause, level => do
      let condition ← Expr.source condition level
      let ifClause ← Expr.source ifClause level
      let elseClause ← Expr.sourceOption elseClause level
      pure ('(' :: ("if".toList ++ (condition :: ifClause :: elseClause).flatMap (' ' :: ·)) ++ [')'])
  | .letForm form, level => form.source level
  | .app (.mk fn params), level => do
      let params ← Expr.sourceList params level
      pure ('(' :: fn.value ++ [' '] ++ List.intercalate [' '] params ++ [')'])
  | .lambda fn, level => do
      let fn ← fn.source level
      pure ('(' :: ("lambda".toList ++ ' ' :: fn) ++ [')'])
  | .lit c, _ => some c.fmt
  | .nameRef n, _ => some n.toSexpr
  | .logical _, _ | .num _, _ => none

def Expr.source : Expr → Nat → Option (List Char)
  | ⟨form, _⟩, level => form.source level

def Expr.sourceList : List Expr → Nat → Option (List (List Char))
  | [], _ => some []
  | e :: es, level => do
      let first ← Expr.source e level
      let rest ← Expr.sourceList es level
      pure (first :: rest)

def Expr.sourceOption : Option Expr → Nat → Option (List (List Char))
  | none, _ => some []
  | some e, level => do
      let text ← Expr.source e level
      pure [text]

def DefForm.source : DefForm → Nat → Option (List Char)
  | .function name ⟨fn, _⟩, level => do
      let fn ← fn.source level
      pure (indent level ++ "(define ".toList ++ name.value ++ [' '] ++ fn ++ "\n)".toList)
  | .topLevel .., _ => none

def LetForm.source : LetForm → Nat → Option (List Char)
  | .letIn bindings body, level => do
      let bindings ← Binding.sourceList bindings level
      let body ← Expr.sourceList body level
      pure ('(' :: ("let".toList ++ ' ' :: '(' :: (List.intercalate [' '] bindings ++
        ')' :: body.flatMap (' ' :: ·))) ++ [')'])
  | .letRec .., _ | .letSplat .., _ | .invocation .., _ => none

/-- A function as `to_sexpr` writes it, with its bodies in source syntax. -/
def Function.source : Function → Nat → Option (List Char)
  | .mk sig equations, level => do
      let sig ← sig.toSexpr level
      let equations ← Equation.sourceList equations (level + 1)
      pure ('(' :: Chars.lambda ++ [' '] ++ sig ++ ['\n'] ++ indent (level + 1) ++
        List.intercalate ('\n' :: indent (level + 1)) equations ++ [')'])

def Equation.source : Equation → Nat → Option (List Char)
  | .mk pattern body, level => do
      let pattern ← Pattern.toSexpr pattern
      let body ← Expr.sourceList body (level + 1)
      pure ('(' :: pattern ++ [' '] ++ List.intercalate ('\n' :: indent (level + 1)) body ++ [')'])

def Equation.sourceList : List (Annotated Equation) → Nat → Option (List (List Char))
  | [], _ => some []
  | ⟨eq, _⟩ :: eqs, level => do
      let first ← eq.source level
      let rest ← Equation.sourceList eqs level
      pure (first :: rest)

/-- A binding `(x τ v)`, the syntax `parse_binding` reads between its brackets. -/
def Binding.source : Binding → Nat → Option (List Char)
  | .mk name typ value, level => do
      let typ ← typ.fmt
      let value ← Expr.source value level
      pure ('(' :: (name.value ++ ' ' :: (typ ++ ' ' :: value)) ++ [')'])

def Binding.sourceList : List (Annotated Binding) → Nat → Option (List (List Char))
  | [], _ => some []
  | ⟨binding, _⟩ :: bindings, level => do
      let first ← binding.source level
      let rest ← Binding.sourceList bindings level
      pure (first :: rest)

end

section Readable

variable (tables : CharTables)

mutual

/-- The forms whose source text `parse_expr` reads back: names that are
valid identifiers, constants that are not negative, and signatures and types
that the printer writes readably. -/
def Form.readable : Form → Bool
  | .define form => DefForm.readable form
  | .ifForm condition ifClause elseClause =>
      Expr.readable condition && Expr.readable ifClause && Expr.readableOption elseClause
  | .letForm form => LetForm.readable form
  | .app (.mk fn params) => validIdent tables fn.value && Expr.readableList params
  | .lambda fn => Function.readable fn
  | .lit c => c.printable
  | .nameRef n => n.printable tables
  | .logical _ | .num _ => false

def Expr.readable : Expr → Bool
  | ⟨form, _⟩ => Form.readable form

def Expr.readableList : List Expr → Bool
  | [] => true
  | e :: es => Expr.readable e && Expr.readableList es

def Expr.readableOption : Option Expr → Bool
  | none => true
  | some e => Expr.readable e

def DefForm.readable : DefForm → Bool
  | .function name ⟨fn, _⟩ => validIdent tables name.value && Function.readable fn
  | .topLevel .. => false

def LetForm.readable : LetForm → Bool
  | .letIn bindings body => Binding.readableList bindings && Expr.readableList body
  | .letRec .. | .letSplat .. | .invocation .. => false

def Function.readable : Function → Bool
  | .mk sig equations => sig.printable && !equations.isEmpty && Equation.readableList equations

def Equation.readable : Equation → Bool
  | .mk pattern body => pattern.all (PatElement.printable tables) && Expr.readableList body

def Equation.readableList : List (Annotated Equation) → Bool
  | [] => true
  | ⟨eq, _⟩ :: eqs => Equation.readable eq && Equation.readableList eqs

def Binding.readable : Binding → Bool
  | .mk name typ value => validIdent tables name.value && typ.readsBack && Expr.readable value

def Binding.readableList : List (Annotated Binding) → Bool
  | [] => true
  | ⟨binding, _⟩ :: bindings => Binding.readable binding && Binding.readableList bindings

end

end Readable

end Mnemosyne.Ast

namespace Mnemosyne.Parser

open Combine Combine.Parser Mnemosyne.Types Mnemosyne.Ast

variable {tables : CharTables}

section Reading

mutual

theorem form_source_reads : ∀ (form : Form) (level : Nat), form.readable tables = true →
    ∃ text, form.source level = some text ∧
      ReadsBack tables (expr tables) (fun e => e.node.erase = form.erase) text
  | .define (.function name ⟨fn, position⟩), level, readable => by
      simp only [Form.readable, DefForm.readable, Bool.and_eq_true] at readable
      obtain ⟨text, printed, reads⟩ := function_source_reads fn level readable.2
      exact ⟨_, by simp [Form.source, DefForm.source, printed], expr_reads_define level readable.1 reads⟩
  | .ifForm condition ifClause elseClause, level, readable => by
      simp only [Form.readable, Bool.and_eq_true] at readable
      obtain ⟨⟨conditionReadable, clauseReadable⟩, elseReadable⟩ := readable
      obtain ⟨condText, condPrinted, condReads⟩ := expr_source_reads condition level conditionReadable
      obtain ⟨clauseText, clausePrinted, clauseReads⟩ := expr_source_reads ifClause level clauseReadable
      obtain ⟨elseTexts, elsePrinted, elseReads⟩ := exprOption_source_reads elseClause level elseReadable
      exact ⟨_, by simp [Form.source, condPrinted, clausePrinted, elsePrinted],
        expr_reads_if condReads clauseReads elseReads⟩
  | .letForm (.letIn bindings body), level, readable => by
      simp only [Form.readable, LetForm.readable, Bool.and_eq_true] at readable
      obtain ⟨bindingTexts, bindingsPrinted, bound⟩ := bindings_source_read bindings level readable.1
      obtain ⟨bodyTexts, bodyPrinted, items⟩ := exprs_source_read body level readable.2
      exact ⟨_, by simp [Form.source, LetForm.source, bindingsPrinted, bodyPrinted], expr_reads_let bound items⟩
  | .app (.mk fn params), level, readable => by
      simp only [Form.readable, Bool.and_eq_true] at readable
      obtain ⟨texts, printed, reads⟩ := exprs_source_read params level readable.2
      exact ⟨_, by simp [Form.source, printed], expr_reads_call readable.1 reads⟩
  | .lambda fn, level, readable => by
      obtain ⟨text, printed, reads⟩ := function_source_reads fn level readable
      exact ⟨_, by simp [Form.source, printed], expr_reads_lambda (.inl rfl) reads⟩
  | .lit c, _, readable => ⟨_, rfl, expr_reads_lit readable⟩
  | .nameRef n, _, readable => ⟨_, rfl, expr_reads_nameRef readable⟩
  | .define (.topLevel ..), _, readable | .letForm (.letRec ..), _, readable
  | .letForm (.letSplat ..), _, readable | .letForm (.invocation ..), _, readable
  | .logical _, _, readable | .num _, _, readable => by
      simp [Form.readable, DefForm.readable, LetForm.readable] at readable

theorem expr_source_reads : ∀ (e : Expr) (level : Nat), e.readable tables = true →
    ∃ text, e.source level = some text ∧ ReadsBack tables (expr tables) (·.erase = e.erase) text
  | ⟨form, position⟩, level, readable => by
      obtain ⟨text, printed, reads⟩ := form_source_reads form level readable
      exact ⟨text, printed, reads.of_node⟩

theorem exprs_source_read : ∀ (es : List Expr) (level : Nat), Expr.readableList tables es = true →
    ∃ texts, Expr.sourceList es level = some texts ∧
      List.Forall₂ (fun e text => ReadsBack tables (expr tables) (·.erase = e.erase) text) es texts
  | [], _, _ => ⟨[], rfl, .nil⟩
  | e :: es, level, readable => by
      simp only [Expr.readableList, Bool.and_eq_true] at readable
      obtain ⟨text, printed, reads⟩ := expr_source_reads e level readable.1
      obtain ⟨texts, printedRest, readsRest⟩ := exprs_source_read es level readable.2
      exact ⟨text :: texts, by simp [Expr.sourceList, printed, printedRest], .cons reads readsRest⟩

theorem exprOption_source_reads : ∀ (o : Option Expr) (level : Nat), Expr.readableOption tables o = true →
    ∃ texts, Expr.sourceOption o level = some texts ∧
      List.Forall₂ (fun e text => ReadsBack tables (expr tables) (·.erase = e.erase) text) o.toList texts
  | none, _, _ => ⟨[], rfl, .nil⟩
  | some e, level, readable => by
      obtain ⟨text, printed, reads⟩ := expr_source_reads e level readable
      exact ⟨[text], by simp [Expr.sourceOption, printed], .cons reads .nil⟩

theorem function_source_reads : ∀ (fn : Function) (level : Nat), fn.readable tables = true →
    ∃ text, fn.source level = some text ∧
      ReadsBack tables (parseFunction tables (expr tables)) (·.erase = fn.erase) text
  | .mk sig equations, level, readable => by
      simp only [Function.readable, Bool.and_eq_true] at readable
      obtain ⟨⟨sigPrintable, chained⟩, eqsReadable⟩ := readable
      have nonempty : equations ≠ [] := by
        rintro rfl
        cases chained
      obtain ⟨sigText, sigPrinted, sigReads⟩ := @signature_reads tables sig sigPrintable level
      obtain ⟨texts, printed, reads⟩ := equations_source_read equations (level + 1) eqsReadable
      exact ⟨_, by simp [Function.source, sigPrinted, printed], function_reads level sigReads nonempty reads⟩

theorem equation_source_reads : ∀ (eq : Equation) (level : Nat), eq.readable tables = true →
    ∃ text, eq.source level = some text ∧
      ReadsBack tables (parseEquation tables (expr tables)) (fun eq' => eq'.node.erase = eq.erase) text
  | .mk pattern body, level, readable => by
      simp only [Equation.readable, Bool.and_eq_true] at readable
      obtain ⟨patternText, patternPrinted, patternReads⟩ := pattern_reads readable.1
      obtain ⟨texts, printed, reads⟩ := exprs_source_read body (level + 1) readable.2
      exact ⟨_, by simp [Equation.source, patternPrinted, printed], equation_reads level patternReads reads⟩

theorem equations_source_read : ∀ (eqs : List (Annotated Equation)) (level : Nat),
    Equation.readableList tables eqs = true →
    ∃ texts, Equation.sourceList eqs level = some texts ∧
      List.Forall₂ (fun eq text => ReadsBack tables (parseEquation tables (expr tables))
        (fun eq' => eq'.node.erase = eq.node.erase) text) eqs texts
  | [], _, _ => ⟨[], rfl, .nil⟩
  | ⟨eq, position⟩ :: eqs, level, readable => by
      simp only [Equation.readableList, Bool.and_eq_true] at readable
      obtain ⟨text, printed, reads⟩ := equation_source_reads eq level readable.1
      obtain ⟨texts, printedRest, readsRest⟩ := equations_source_read eqs level readable.2
      exact ⟨text :: texts, by simp [Equation.sourceList, printed, printedRest], .cons reads readsRest⟩

theorem binding_source_reads : ∀ (b : Binding) (level : Nat), b.readable tables = true →
    ∃ text, b.source level = some text ∧
      ReadsBack tables ((language tables).parens (parseBinding tables (expr tables)))
        (fun b' => b'.node.erase = b.erase) text
  | .mk name typ value, level, readable => by
      simp only [Binding.readable, Bool.and_eq_true] at readable
      obtain ⟨⟨valid, typeReadsBack⟩, valueReadable⟩ := readable
      obtain ⟨typeText, typePrinted, typed⟩ := @type_reads tables typ typeReadsBack
      obtain ⟨valueText, valuePrinted, valued⟩ := expr_source_reads value level valueReadable
      exact ⟨_, by simp [Binding.source, typePrinted, valuePrinted], binding_reads valid typed valued⟩

theorem bindings_source_read : ∀ (bs : List (Annotated Binding)) (level : Nat),
    Binding.readableList tables bs = true →
    ∃ texts, Binding.sourceList bs level = some texts ∧
      List.Forall₂ (fun b text => ReadsBack tables ((language tables).parens (parseBinding tables (expr tables)))
        (·.node.erase = b.node.erase) text) bs texts
  | [], _, _ => ⟨[], rfl, .nil⟩
  | ⟨b, position⟩ :: bs, level, readable => by
      simp only [Binding.readableList, Bool.and_eq_true] at readable
      obtain ⟨text, printed, reads⟩ := binding_source_reads b level readable.1
      obtain ⟨texts, printedRest, readsRest⟩ := bindings_source_read bs level readable.2
      exact ⟨text :: texts, by simp [Binding.sourceList, printed, printedRest], .cons reads readsRest⟩

end

end Reading

section Modules

/-- Writing an expression in source syntax and parsing the text gives the
expression back, positions apart, at every indentation: the text is written,
and `parse_module` reads exactly one expression from it. -/
theorem source_reads_back (tables : CharTables) (e : Expr) (readable : e.readable tables = true)
    (level : Nat) :
    ∃ text, e.source level = some text ∧ ∃ e', parseModule tables text = .ok [e'] ∧ e'.erase = e.erase := by
  obtain ⟨text, printed, reads⟩ := expr_source_reads e level readable
  exact ⟨text, printed, parseModule_of_readsBack reads⟩

/-- A let form whose body is an `if` with a lambda in a branch: `to_sexpr`
writes none of it, and its source text
`(let ((x int 1)) (if x (lambda (λ (→ int int)\n\t((y) y))) 0))` reads back. -/
theorem source_reads_back_letIf :
    let e : Expr := ⟨.letForm (.letIn
      [⟨.mk ⟨default, ['x']⟩ (.prim .intSize) ⟨.lit (.intConst 1), default⟩, default⟩]
      [⟨.ifForm ⟨.nameRef (.owned ⟨default, ['x']⟩), default⟩
        ⟨.lambda (.mk (.mk none [.prim .intSize, .prim .intSize])
          [⟨.mk [.name ⟨default, ['y']⟩] [⟨.nameRef (.owned ⟨default, ['y']⟩), default⟩], default⟩]),
          default⟩
        (some ⟨.lit (.intConst 0), default⟩), default⟩]), default⟩
    e.toSexpr 0 = none ∧ e.readable CharTables.ascii = true ∧
      ∃ text, e.source 0 = some text ∧
        ∃ e', parseModule CharTables.ascii text = .ok [e'] ∧ e'.erase = e.erase := by
  intro e
  have readable : e.readable CharTables.ascii = true := by decide
  exact ⟨rfl, readable, source_reads_back CharTables.ascii e readable 0⟩

/-- A module written in source syntax, one expression to a line, reads back
as its list of expressions, positions apart: `parse_module` reads every line
and drops nothing. -/
theorem module_source_reads_back (tables : CharTables) (es : List Expr)
    (readable : Expr.readableList tables es = true) (nonempty : es ≠ []) (level : Nat) :
    ∃ texts, Expr.sourceList es level = some texts ∧
      ∃ es', parseModule tables (List.intercalate ['\n'] texts) = .ok es' ∧
        List.Forall₂ (fun e' e => e'.erase = e.erase) es' es := by
  obtain ⟨texts, printed, items⟩ := exprs_source_read es level readable
  exact ⟨texts, printed, parseModule_of_readsBack_lines items nonempty⟩

/-- A definition and a conditional that calls it, on two lines. -/
theorem module_source_reads_back_defineIf :
    let es : List Expr := [⟨.define (.function ⟨default, ['f']⟩
      ⟨.mk (.mk none [.prim .intSize, .prim .intSize])
        [⟨.mk [.name ⟨default, ['x']⟩] [⟨.nameRef (.owned ⟨default, ['x']⟩), default⟩], default⟩],
        default⟩), default⟩,
      ⟨.ifForm ⟨.app (.mk ⟨default, ['f']⟩ [⟨.lit (.intConst 1), default⟩]), default⟩
        ⟨.lit (.intConst 2), default⟩ none, default⟩]
    Expr.readableList CharTables.ascii es = true ∧ ∃ texts, Expr.sourceList es 0 = some texts ∧
      ∃ es', parseModule CharTables.ascii (List.intercalate ['\n'] texts) = .ok es' ∧
        List.Forall₂ (fun e' e => e'.erase = e.erase) es' es := by
  intro es
  have readable : Expr.readableList CharTables.ascii es = true := by decide
  exact ⟨readable, module_source_reads_back CharTables.ascii es readable (List.cons_ne_nil _ _) 0⟩

end Modules

end Mnemosyne.Parser
