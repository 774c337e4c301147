import Mnemosyne.Semantic.Ast

namespace Mnemosyne.Ast

/-! # Constant numeric expressions

The `MaybeConst` impls of `core/src/semantic/ast.rs`.  The impl for
`Vec<NumExpr>` does not call the one for `NumExpr`: it repeats its match
inside the closure it gives to `all`, and the list model keeps that copy.
-/

mutual

def NumExpr.isConst : NumExpr → Bool
  | .lit _ => true
  | .neg neg => neg.isConst
  | .bOp bop => bop.isConst
  | _ => false

def NumExpr.isConstList : List NumExpr → Bool
  | [] => true
  | expr :: exprs =>
      (match expr with
        | .lit _ => true
        | .neg neg => neg.isConst
        | .bOp bop => bop.isConst
        | _ => false) && NumExpr.isConstList exprs

def NumBOp.isConst : NumBOp → Bool
  | .add operands => NumExpr.isConstList operands
  | .sub operands => NumExpr.isConstList operands
  | .mul operands => NumExpr.isConstList operands
  | .div operands => NumExpr.isConstList operands
  | .bitAnd operands => NumExpr.isConstList operands
  | .bitOr operands => NumExpr.isConstList operands
  | .bitXor operands => NumExpr.isConstList operands
  | .shiftL operands => NumExpr.isConstList operands
  | .shiftR operands => NumExpr.isConstList operands

end

def NumBOp.operands : NumBOp → List NumExpr
  | .add operands | .sub operands | .mul operands | .div operands | .bitAnd operands
  | .bitOr operands | .bitXor operands | .shiftL operands | .shiftR operands => operands

/-- A node whose value is known only at run time: a dereference or a call. -/
def NumExpr.isRuntime : NumExpr → Bool
  | .deref _ | .call _ => true
  | _ => false

/-- `Reaches e sub`: `sub` is a node of `e`, found by going down through
`Neg` and into the operands of a binary operator. -/
inductive NumExpr.Reaches : NumExpr → NumExpr → Prop where
  | refl (expr : NumExpr) : Reaches expr expr
  | neg {neg sub : NumExpr} : Reaches neg sub → Reaches (.neg neg) sub
  | operand {bop : NumBOp} {operand sub : NumExpr} :
      operand ∈ bop.operands → Reaches operand sub → Reaches (.bOp bop) sub

/-- No node of the expression is known only at run time. -/
def NumExpr.Constant (expr : NumExpr) : Prop :=
  ∀ sub, expr.Reaches sub → sub.isRuntime = false

namespace NumExpr

theorem isConstList_cons (expr : NumExpr) (exprs : List NumExpr) :
    isConstList (expr :: exprs) = (expr.isConst && isConstList exprs) := by
  cases expr <;> simp [isConstList, isConst]

theorem isConstList_eq_all (exprs : List NumExpr) :
    isConstList exprs = exprs.all isConst := by
  induction exprs with
  | nil => simp [isConstList]
  | cons expr exprs induction => rw [isConstList_cons, induction, List.all_cons]

theorem constant_lit (c : Literal) : (lit c).Constant := by
  intro sub reaches
  cases reaches
  rfl

theorem not_constant_of_isRuntime {expr : NumExpr} (runtime : expr.isRuntime = true) :
    ¬expr.Constant := by
  intro constant
  have atRoot := constant expr (.refl expr)
  simp [runtime] at atRoot

theorem constant_neg_iff (neg : NumExpr) : (NumExpr.neg neg).Constant ↔ neg.Constant := by
  constructor
  · intro constant sub reaches
    exact constant sub (.neg reaches)
  · intro constant sub reaches
    cases reaches with
    | refl => rfl
    | neg below => exact constant sub below

theorem constant_bOp_iff (bop : NumBOp) :
    (bOp bop).Constant ↔ ∀ operand ∈ bop.operands, operand.Constant := by
  constructor
  · intro constant operand member sub reaches
    exact constant sub (.operand member reaches)
  · intro constant sub reaches
    cases reaches with
    | refl => rfl
    | operand member below => exact constant _ member sub below

end NumExpr

/- The three impls recurse into each other, and so does the proof: one case
per constructor, with the list case going through `isConstList_cons`. -/
mutual

theorem NumExpr.isConst_iff_constant : ∀ expr : NumExpr, expr.isConst = true ↔ expr.Constant
  | .lit c => by simpa [NumExpr.isConst] using NumExpr.constant_lit c
  | .neg neg => by
      rw [NumExpr.constant_neg_iff]
      exact NumExpr.isConst_iff_constant neg
  | .bOp bop => by
      rw [NumExpr.constant_bOp_iff]
      exact NumBOp.isConst_iff_operands bop
  | .deref n => by
      have runtime := @NumExpr.not_constant_of_isRuntime (.deref n) rfl
      simpa [NumExpr.isConst] using runtime
  | .call form => by
      have runtime := @NumExpr.not_constant_of_isRuntime (.call form) rfl
      simpa [NumExpr.isConst] using runtime

theorem NumExpr.isConstList_iff_constant :
    ∀ exprs : List NumExpr, NumExpr.isConstList exprs = true ↔ ∀ expr ∈ exprs, expr.Constant
  | [] => by simp [NumExpr.isConstList]
  | expr :: exprs => by
      rw [NumExpr.isConstList_cons, Bool.and_eq_true, List.forall_mem_cons,
        NumExpr.isConst_iff_constant expr, NumExpr.isConstList_iff_constant exprs]

theorem NumBOp.isConst_iff_operands :
    ∀ bop : NumBOp, bop.isConst = true ↔ ∀ operand ∈ bop.operands, operand.Constant
  | .add operands | .sub operands | .mul operands | .div operands | .bitAnd operands
  | .bitOr operands | .bitXor operands | .shiftL operands | .shiftR operands =>
      NumExpr.isConstList_iff_constant operands

end

/-- `is_const` holds exactly when no `Deref` or `Call` node occurs, and the
copied match of the `Vec` impl agrees with `NumExpr::is_const` on every
element. -/
theorem isConst_detects_constants :
    (∀ expr : NumExpr, expr.isConst = true ↔
        ∀ sub, expr.Reaches sub → sub.isRuntime = false) ∧
      ∀ exprs : List NumExpr, NumExpr.isConstList exprs = exprs.all NumExpr.isConst :=
  ⟨NumExpr.isConst_iff_constant, NumExpr.isConstList_eq_all⟩

example : (NumExpr.bOp (.add [.lit (.intConst 1), .neg (.lit (.uintConst 2))])).isConst = true := by
  decide

end Mnemosyne.Ast
