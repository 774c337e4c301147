import Mnemosyne.Semantic.Ast

namespace Mnemosyne.Ast

open Mnemosyne.Types

/-! # Printing S-expressions

`Node::to_sexpr` and the `Display` impls it calls, from
`core/src/semantic/ast.rs`.  The `concat_exprs!` macro is a list printer
followed by `List.intercalate`.  `to_sexpr` reaches `unimplemented!()` on
`If`, `Num`, `Let` invocations and every binding; such a panic is `none`.
No printer reads a position, so a tree and its erasure print alike
(`Form.toSexpr_erase`).
-/

/-- `format!("{}", n)` for an `i64`. -/
def decimal (n : Int) : List Char :=
  if n < 0 then '-' :: Nat.toDigits 10 n.natAbs else Nat.toDigits 10 n.toNat

/-- `impl Display for Literal`: a string literal is written without quotes. -/
def Literal.fmt : Literal → List Char
  | .intConst n => decimal n.toInt
  | .uintConst n => Nat.toDigits 10 n.toNat
  | .stringLit s => s

def NameRef.toSexpr : NameRef → List Char
  | .owned name => name.value
  | .borrowed name => '&' :: name.value
  | .deref name => '$' :: name.value
  | .unique name => '@' :: name.value

def PatElement.toSexpr : PatElement → Option (List Char)
  | .name n => some n.value
  | .typed binder ty => (fun annot => binder.value ++ ": ".toList ++ annot) <$> ty.fmt
  | .lit c => some c.fmt
  | .anything => some ['_']

def Pattern.toSexpr (pattern : Pattern) : Option (List Char) :=
  (fun elements => '(' :: List.intercalate [' '] elements ++ [')']) <$>
    pattern.mapM PatElement.toSexpr

def Binding.toSexpr (_ : Binding) (_ : Nat) : Option (List Char) :=
  none

/-- The three printed let forms differ only in their keyword. -/
def LetForm.format (keyword : List Char) (bindings : Option (List (List Char)))
    (body : Option (List (List Char))) (level : Nat) : Option (List Char) := do
  let bindings ← bindings
  let body ← body
  pure (indent level ++ '(' :: keyword ++ " [".toList ++ List.intercalate ['\n'] bindings ++
    "]\n".toList ++ List.intercalate [' '] body ++ [')'])

mutual

def Form.toSexpr : Form → Nat → Option (List Char)
  | .define form, level => form.toSexpr level
  | .letForm form, level => form.toSexpr level
  | .ifForm .., _ => none
  | .app (.mk fn params), level => do
      let params ← Expr.toSexprList params level
      pure ('(' :: fn.value ++ [' '] ++ List.intercalate [' '] params ++ [')'])
  | .lambda fn, level => fn.toSexpr level
  | .logical form, level => form.toSexpr level
  | .lit c, _ => some c.fmt
  | .nameRef n, _ => some n.toSexpr
  | .num _, _ => none

def Expr.toSexpr : Expr → Nat → Option (List Char)
  | ⟨form, _⟩, level => form.toSexpr level

def Expr.toSexprList : List Expr → Nat → Option (List (List Char))
  | [], _ => some []
  | e :: es, level => do
      let first ← Expr.toSexpr e level
      let rest ← Expr.toSexprList es level
      pure (first :: rest)

def DefForm.toSexpr : DefForm → Nat → Option (List Char)
  | .topLevel name annot value, level => do
      let value ← Expr.toSexpr value (level + 1)
      let annot ← annot.fmt
      pure (indent level ++ "(define ".toList ++ name.value ++ [' '] ++ annot ++ [' '] ++
        value ++ [')'])
  | .function name ⟨fn, _⟩, level => do
      let fn ← fn.toSexpr level
      pure (indent level ++ "(define ".toList ++ name.value ++ [' '] ++ fn ++ "\n)".toList)

def LetForm.toSexpr : LetForm → Nat → Option (List Char)
  | .letIn bindings body, level =>
      LetForm.format "let".toList (bindings.mapM (·.node.toSexpr level))
        (Expr.toSexprList body (level + 1)) level
  | .letRec bindings body, level =>
      LetForm.format "letrec".toList (bindings.mapM (·.node.toSexpr level))
        (Expr.toSexprList body (level + 1)) level
  | .letSplat bindings body, level =>
      LetForm.format "let*".toList (bindings.mapM (·.node.toSexpr level))
        (Expr.toSexprList body (level + 1)) level
  | .invocation .., _ => none

/-- Both arms print `and`: the `Or` arm repeats the `And` arm's format string. -/
def Logical.toSexpr : Logical → Nat → Option (List Char)
  | .and a b, level => do
      let a ← Expr.toSexpr a level
      let b ← Expr.toSexpr b level
      pure ("(and ".toList ++ a ++ [' '] ++ b ++ [')'])
  | .or a b, level => do
      let a ← Expr.toSexpr a level
      let b ← Expr.toSexpr b level
      pure ("(and ".toList ++ a ++ [' '] ++ b ++ [')'])

def Function.toSexpr : Function → Nat → Option (List Char)
  | .mk sig equations, level => do
      let sig ← sig.toSexpr level
      let equations ← Equation.toSexprList equations (level + 1)
      pure ('(' :: Chars.lambda ++ [' '] ++ sig ++ ['\n'] ++ indent (level + 1) ++
        List.intercalate ('\n' :: indent (level + 1)) equations ++ [')'])

def Equation.toSexpr : Equation → Nat → Option (List Char)
  | .mk pattern body, level => do
      let pattern ← Pattern.toSexpr pattern
      let body ← Expr.toSexprList body (level + 1)
      pure ('(' :: pattern ++ [' '] ++ List.intercalate ('\n' :: indent (level + 1)) body ++ [')'])

def Equation.toSexprList : List (Annotated Equation) → Nat → Option (List (List Char))
  | [], _ => some []
  | ⟨eq, _⟩ :: eqs, level => do
      let first ← eq.toSexpr level
      let rest ← Equation.toSexprList eqs level
      pure (first :: rest)

end

/-- `Or` prints exactly as `And` over the same operands, at every level. -/
theorem logical_or_toSexpr (a b : Expr) (level : Nat) :
    (Form.logical (.or a b)).toSexpr level = (Form.logical (.and a b)).toSexpr level := by
  simp only [Form.toSexpr, Logical.toSexpr]

theorem or_and_print_alike :
    let x : Expr := ⟨.nameRef (.owned ⟨default, ['x']⟩), default⟩
    let y : Expr := ⟨.nameRef (.owned ⟨default, ['y']⟩), default⟩
    (Form.logical (.or x y)).toSexpr 0 = some "(and x y)".toList ∧
      (Form.logical (.and x y)).toSexpr 0 = some "(and x y)".toList ∧
      (Form.logical (.or x y)).erase ≠ (Form.logical (.and x y)).erase := by
  intro x y
  have printed : (Form.logical (.or x y)).toSexpr 0 = some "(and x y)".toList := rfl
  refine ⟨printed, (logical_or_toSexpr x y 0).symm.trans printed, ?_⟩
  simp [Form.erase, Logical.erase]

section Erasure

mutual

theorem Ty.fmt_erase : ∀ ty : Ty, ty.erase.fmt = ty.fmt
  | .ref reference => by
      simp only [Ty.erase, Ty.fmt]
      exact Reference.fmt_erase reference
  | .prim _ => rfl
  | .algebraic _ => rfl
  | .function _ => rfl
  | .symbol _ => rfl

theorem Reference.fmt_erase : ∀ reference : Reference, reference.erase.fmt = reference.fmt
  | .borrowed ty => by simp only [Reference.erase, Reference.fmt, Ty.fmt_erase ty]
  | .moved ty => by simp only [Reference.erase, Reference.fmt, Ty.fmt_erase ty]
  | .unique ty => by simp only [Reference.erase, Reference.fmt, Ty.fmt_erase ty]
  | .raw ty => by simp only [Reference.erase, Reference.fmt, Ty.fmt_erase ty]

end

theorem Ty.mapM_fmt_eraseList : ∀ tys : List Ty, (Ty.eraseList tys).mapM Ty.fmt = tys.mapM Ty.fmt
  | [] => rfl
  | ty :: tys => by
      simp only [Ty.eraseList, List.mapM_cons, Ty.fmt_erase ty, Ty.mapM_fmt_eraseList tys]

/-- Every constraint prints as `none`, so only whether there are any counts. -/
theorem Constraint.mapM_fmt_map_erase (cs : List Constraint) :
    (cs.map Constraint.erase).mapM Constraint.fmt = cs.mapM Constraint.fmt := by
  cases cs <;> rfl

theorem Signature.toSexpr_erase (sig : Signature) (level : Nat) :
    sig.erase.toSexpr level = sig.toSexpr level := by
  obtain ⟨constraints, typechain⟩ := sig
  cases constraints <;>
    simp only [Signature.erase, Signature.toSexpr, Signature.constraints_mk, Signature.typechain_mk,
      Option.map, concatAll, Ty.mapM_fmt_eraseList, Constraint.mapM_fmt_map_erase]

theorem NameRef.toSexpr_erase (n : NameRef) : n.erase.toSexpr = n.toSexpr := by
  cases n <;> rfl

theorem PatElement.toSexpr_erase (x : PatElement) : x.erase.toSexpr = x.toSexpr := by
  cases x with
  | typed binder ty => simp only [PatElement.erase, PatElement.toSexpr, Ty.fmt_erase, Positional.erase_value]
  | name _ | lit _ | anything => rfl

theorem Pattern.toSexpr_map_erase (pattern : Pattern) :
    Pattern.toSexpr (pattern.map PatElement.erase) = Pattern.toSexpr pattern := by
  have elements : ∀ xs : List PatElement,
      (xs.map PatElement.erase).mapM PatElement.toSexpr = xs.mapM PatElement.toSexpr := by
    intro xs
    induction xs with
    | nil => rfl
    | cons x xs ih => simp only [List.map_cons, List.mapM_cons, PatElement.toSexpr_erase, ih]
  simp only [Pattern.toSexpr, elements]

/-- Every binding prints as `none`, so only whether there are any counts. -/
theorem Binding.mapM_toSexpr_eraseList (bindings : List (Annotated Binding)) (level : Nat) :
    (Binding.eraseList bindings).mapM (·.node.toSexpr level) =
      bindings.mapM (·.node.toSexpr level) := by
  cases bindings with
  | nil => rfl
  | cons binding bindings => rfl

mutual

theorem Form.toSexpr_erase : ∀ (form : Form) (level : Nat), form.erase.toSexpr level = form.toSexpr level
  | .define form, level => by
      simp only [Form.erase, Form.toSexpr]
      exact DefForm.toSexpr_erase form level
  | .letForm form, level => by
      simp only [Form.erase, Form.toSexpr]
      exact LetForm.toSexpr_erase form level
  | .app (.mk fn params), level => by
      simp only [Form.erase, AppForm.erase, Form.toSexpr, Positional.erase_value,
        Expr.toSexprList_eraseList params level]
  | .lambda fn, level => by
      simp only [Form.erase, Form.toSexpr]
      exact Function.toSexpr_erase fn level
  | .logical form, level => by
      simp only [Form.erase, Form.toSexpr]
      exact Logical.toSexpr_erase form level
  | .nameRef n, _ => by simp only [Form.erase, Form.toSexpr, NameRef.toSexpr_erase]
  | .ifForm .., _ | .lit _, _ | .num _, _ => rfl

theorem Expr.toSexpr_erase : ∀ (e : Expr) (level : Nat), (Expr.erase e).toSexpr level = e.toSexpr level
  | ⟨form, _⟩, level => Form.toSexpr_erase form level

theorem Expr.toSexprList_eraseList : ∀ (es : List Expr) (level : Nat),
    Expr.toSexprList (Expr.eraseList es) level = Expr.toSexprList es level
  | [], _ => rfl
  | e :: es, level => by
      simp only [Expr.eraseList, Expr.toSexprList, Expr.toSexpr_erase e level,
        Expr.toSexprList_eraseList es level]

theorem DefForm.toSexpr_erase : ∀ (form : DefForm) (level : Nat),
    form.erase.toSexpr level = form.toSexpr level
  | .topLevel name annot value, level => by
      simp only [DefForm.erase, DefForm.toSexpr, Positional.erase_value, Ty.fmt_erase,
        Expr.toSexpr_erase value (level + 1)]
  | .function name ⟨fn, _⟩, level => by
      simp only [DefForm.erase, DefForm.toSexpr, Positional.erase_value,
        Function.toSexpr_erase fn level]

theorem LetForm.toSexpr_erase : ∀ (form : LetForm) (level : Nat),
    form.erase.toSexpr level = form.toSexpr level
  | .letIn bindings body, level => by
      simp only [LetForm.erase, LetForm.toSexpr, Binding.mapM_toSexpr_eraseList,
        Expr.toSexprList_eraseList body (level + 1)]
  | .letRec bindings body, level => by
      simp only [LetForm.erase, LetForm.toSexpr, Binding.mapM_toSexpr_eraseList,
        Expr.toSexprList_eraseList body (level + 1)]
  | .letSplat bindings body, level => by
      simp only [LetForm.erase, LetForm.toSexpr, Binding.mapM_toSexpr_eraseList,
        Expr.toSexprList_eraseList body (level + 1)]
  | .invocation .., _ => rfl

theorem Logical.toSexpr_erase : ∀ (form : Logical) (level : Nat),
    form.erase.toSexpr level = form.toSexpr level
  | .and a b, level => by
      simp only [Logical.erase, Logical.toSexpr, Expr.toSexpr_erase a level, Expr.toSexpr_erase b level]
  | .or a b, level => by
      simp only [Logical.erase, Logical.toSexpr, Expr.toSexpr_erase a level, Expr.toSexpr_erase b level]

theorem Function.toSexpr_erase : ∀ (fn : Function) (level : Nat),
    fn.erase.toSexpr level = fn.toSexpr level
  | .mk sig equations, level => by
      simp only [Function.erase, Function.toSexpr, Signature.toSexpr_erase,
        Equation.toSexprList_eraseList equations (level + 1)]

theorem Equation.toSexpr_erase : ∀ (eq : Equation) (level : Nat),
    eq.erase.toSexpr level = eq.toSexpr level
  | .mk pattern body, level => by
      simp only [Equation.erase, Equation.toSexpr, Pattern.toSexpr_map_erase,
        Expr.toSexprList_eraseList body (level + 1)]

theorem Equation.toSexprList_eraseList : ∀ (eqs : List (Annotated Equation)) (level : Nat),
    Equation.toSexprList (Equation.eraseList eqs) level = Equation.toSexprList eqs level
  | [], _ => rfl
  | ⟨eq, _⟩ :: eqs, level => by
      simp only [Equation.eraseList, Equation.toSexprList, Equation.toSexpr_erase eq level,
        Equation.toSexprList_eraseList eqs level]

end

end Erasure

end Mnemosyne.Ast
