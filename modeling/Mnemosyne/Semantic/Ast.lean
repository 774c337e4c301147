import Mnemosyne.Semantic.Types

namespace Mnemosyne

/-! # The abstract syntax tree

`core/src/semantic/ast.rs`.  `Rc` and `Box` are the values they point to.
The scoping typestate and the symbol table an `Annotated` node may carry
are left out: nothing modelled here reads them.  The source's `PartialEq`
ignores positions; `erase` puts every position at the default so that two
trees are equal in the source's sense exactly when their erasures are equal.
-/

namespace Types

def Constraint.erase (c : Constraint) : Constraint :=
  ⟨c.typeclass.erase, c.generics.map Positional.erase⟩

mutual

def Ty.erase : Ty → Ty
  | .ref reference => .ref reference.erase
  | .prim primitive => .prim primitive
  | .algebraic variants => .algebraic (Ty.eraseList variants)
  | .function signature => .function signature.erase
  | .symbol name => .symbol name

def Ty.eraseList : List Ty → List Ty
  | [] => []
  | ty :: tys => ty.erase :: Ty.eraseList tys

def Reference.erase : Reference → Reference
  | .borrowed ty => .borrowed ty.erase
  | .moved ty => .moved ty.erase
  | .unique ty => .unique ty.erase
  | .raw ty => .raw ty.erase

def Signature.erase : Signature → Signature
  | .mk constraints typechain =>
      .mk (constraints.map (List.map Constraint.erase)) (Ty.eraseList typechain)

end

end Types

namespace Ast

open Mnemosyne.Types

inductive NameRef where
  | owned (name : Ident)
  | borrowed (name : Ident)
  | deref (name : Ident)
  | unique (name : Ident)
  deriving DecidableEq, Repr

inductive Literal where
  | intConst (n : Int64)
  | uintConst (n : UInt64)
  | stringLit (s : List Char)
  deriving DecidableEq, Repr

inductive PatElement where
  | name (n : Ident)
  | typed (name : Ident) (ty : Ty)
  | lit (c : Literal)
  | anything

abbrev Pattern := List PatElement

structure Annotated (α : Type) where
  node : α
  position : Position

mutual

inductive Form where
  | define (form : DefForm)
  | ifForm (condition : Annotated Form) (ifClause : Annotated Form)
      (elseClause : Option (Annotated Form))
  | letForm (form : LetForm)
  | app (form : AppForm)
  | lambda (fn : Function)
  | logical (form : Logical)
  | num (n : NumExpr)
  | lit (c : Literal)
  | nameRef (n : NameRef)

inductive DefForm where
  | topLevel (name : Ident) (annot : Ty) (value : Annotated Form)
  | function (name : Ident) (fn : Annotated Function)

/-- `letIn` is the source's `LetForm::Let`. -/
inductive LetForm where
  | letIn (bindings : List (Annotated Binding)) (body : List (Annotated Form))
  | invocation (procId : Ident) (init : Binding) (body : List (Annotated Form))
  | letRec (bindings : List (Annotated Binding)) (body : List (Annotated Form))
  | letSplat (bindings : List (Annotated Binding)) (body : List (Annotated Form))

inductive AppForm where
  | mk (fn : Ident) (params : List (Annotated Form))

inductive Logical where
  | and (a b : Annotated Form)
  | or (a b : Annotated Form)

inductive Function where
  | mk (sig : Signature) (equations : List (Annotated Equation))

inductive Equation where
  | mk (pattern : Pattern) (body : List (Annotated Form))

inductive Binding where
  | mk (name : Ident) (typ : Ty) (value : Annotated Form)

inductive NumExpr where
  | bOp (bop : NumBOp)
  | neg (neg : NumExpr)
  | lit (c : Literal)
  | deref (n : NameRef)
  | call (form : AppForm)

inductive NumBOp where
  | add (operands : List NumExpr)
  | sub (operands : List NumExpr)
  | mul (operands : List NumExpr)
  | div (operands : List NumExpr)
  | bitAnd (operands : List NumExpr)
  | bitOr (operands : List NumExpr)
  | bitXor (operands : List NumExpr)
  | shiftL (operands : List NumExpr)
  | shiftR (operands : List NumExpr)

end

abbrev Expr := Annotated Form

def Function.sig : Function → Signature
  | .mk sig _ => sig

def Function.equations : Function → List (Annotated Equation)
  | .mk _ equations => equations

def Equation.pattern : Equation → Pattern
  | .mk pattern _ => pattern

def NameRef.erase : NameRef → NameRef
  | .owned name => .owned name.erase
  | .borrowed name => .borrowed name.erase
  | .deref name => .deref name.erase
  | .unique name => .unique name.erase

def PatElement.erase : PatElement → PatElement
  | .name n => .name n.erase
  | .typed binder ty => .typed binder.erase ty.erase
  | .lit c => .lit c
  | .anything => .anything

mutual

def Form.erase : Form → Form
  | .define form => .define form.erase
  | .ifForm condition ifClause elseClause =>
      .ifForm (Expr.erase condition) (Expr.erase ifClause) (Expr.eraseOption elseClause)
  | .letForm form => .letForm form.erase
  | .app form => .app form.erase
  | .lambda fn => .lambda fn.erase
  | .logical form => .logical form.erase
  | .num n => .num n.erase
  | .lit c => .lit c
  | .nameRef n => .nameRef n.erase

def Expr.erase : Expr → Expr
  | ⟨form, _⟩ => ⟨form.erase, default⟩

def Expr.eraseOption : Option Expr → Option Expr
  | none => none
  | some e => some (Expr.erase e)

def Expr.eraseList : List Expr → List Expr
  | [] => []
  | e :: es => Expr.erase e :: Expr.eraseList es

def DefForm.erase : DefForm → DefForm
  | .topLevel name annot value => .topLevel name.erase annot.erase (Expr.erase value)
  | .function name ⟨fn, _⟩ => .function name.erase ⟨fn.erase, default⟩

def LetForm.erase : LetForm → LetForm
  | .letIn bindings body => .letIn (Binding.eraseList bindings) (Expr.eraseList body)
  | .invocation procId init body => .invocation procId.erase init.erase (Expr.eraseList body)
  | .letRec bindings body => .letRec (Binding.eraseList bindings) (Expr.eraseList body)
  | .letSplat bindings body => .letSplat (Binding.eraseList bindings) (Expr.eraseList body)

def AppForm.erase : AppForm → AppForm
  | .mk fn params => .mk fn.erase (Expr.eraseList params)

def Logical.erase : Logical → Logical
  | .and a b => .and (Expr.erase a) (Expr.erase b)
  | .or a b => .or (Expr.erase a) (Expr.erase b)

def Function.erase : Function → Function
  | .mk sig equations => .mk sig.erase (Equation.eraseList equations)

def Equation.erase : Equation → Equation
  | .mk pattern body => .mk (pattern.map PatElement.erase) (Expr.eraseList body)

def Equation.eraseList : List (Annotated Equation) → List (Annotated Equation)
  | [] => []
  | ⟨eq, _⟩ :: eqs => ⟨eq.erase, default⟩ :: Equation.eraseList eqs

def Binding.erase : Binding → Binding
  | .mk name typ value => .mk name.erase typ.erase (Expr.erase value)

def Binding.eraseList : List (Annotated Binding) → List (Annotated Binding)
  | [] => []
  | ⟨binding, _⟩ :: bindings => ⟨binding.erase, default⟩ :: Binding.eraseList bindings

def NumExpr.erase : NumExpr → NumExpr
  | .bOp bop => .bOp bop.erase
  | .neg neg => .neg neg.erase
  | .lit c => .lit c
  | .deref n => .deref n.erase
  | .call form => .call form.erase

def NumExpr.eraseList : List NumExpr → List NumExpr
  | [] => []
  | e :: es => e.erase :: NumExpr.eraseList es

def NumBOp.erase : NumBOp → NumBOp
  | .add operands => .add (NumExpr.eraseList operands)
  | .sub operands => .sub (NumExpr.eraseList operands)
  | .mul operands => .mul (NumExpr.eraseList operands)
  | .div operands => .div (NumExpr.eraseList operands)
  | .bitAnd operands => .bitAnd (NumExpr.eraseList operands)
  | .bitOr operands => .bitOr (NumExpr.eraseList operands)
  | .bitXor operands => .bitXor (NumExpr.eraseList operands)
  | .shiftL operands => .shiftL (NumExpr.eraseList operands)
  | .shiftR operands => .shiftR (NumExpr.eraseList operands)

end

end Ast

end Mnemosyne
