import Mnemosyne.Semantic.Print

namespace Mnemosyne.Compile

open Mnemosyne.Types Mnemosyne.Ast

/-! # Compiling a function: the arity check

`impl Compile for Scoped<Function>` in `core/src/compile/mod.rs`.  Before any
LLVM call, `to_ir` compares the pattern length of each equation with the
arity of the signature and means to collect one error per mismatch for
`try_vec!` to return.  Each message formats the signature through `Display
for Signature`, which is `unimplemented!()`, so the first mismatch panics
(`toIr_arity_mismatch_panics`).  Past the check the function reaches
`unimplemented!()`.
The LLVM context and the symbol table are read only after the check, so
they are left out; `ValueRef` stays a type parameter that nothing builds.
-/

abbrev Errors := List (Positional (List Char))

/-- `Annotated<Equation>::pattern_length`. -/
def patternLength (e : Annotated Equation) : Nat :=
  e.node.pattern.length

/-- `Annotated<Function>::arity`, which panics on an empty chain. -/
def arity (fn : Annotated Function) : Option Nat :=
  fn.node.sig.arity

/-- The format string both error arms share after their headline. -/
def mismatchMessage (headline signature function : List Char) : List Char :=
  headline ++ "signature: ".toList ++ signature ++ "\nfunction: ".toList ++ function ++
    "\n".toList

def fewerBindings (signature function : List Char) : List Char :=
  mismatchMessage
    ("[error] equation had fewer bindings than function arity\n [error] auto-currying " ++
      "is not currently implemented.\n ").toList signature function

def tooManyBindings (signature function : List Char) : List Char :=
  mismatchMessage "[error] equation bound too many arguments\n ".toList signature function

/-- One turn of the loop: the error it pushes for `e`, if any.  `signature`
is the text of `format!("{}", self.sig)`; the message is formatted only in
the two mismatch arms. -/
def checkEquation (signature : Option (List Char)) (arity : Nat) (e : Annotated Equation) :
    Option (Option (Positional (List Char))) :=
  match compare (patternLength e) arity with
  | .lt => do
      let signature ← signature
      let function ← e.node.toSexpr 0
      pure (some ⟨e.position, fewerBindings signature function⟩)
  | .gt => do
      let signature ← signature
      let function ← e.node.toSexpr 0
      pure (some ⟨e.position, tooManyBindings signature function⟩)
  | .eq => some none

/-- The `for` loop over the equations; `self.arity()` is evaluated anew at
each turn. -/
def checkArity (fn : Annotated Function) (signature : Option (List Char)) :
    Errors → List (Annotated Equation) → Option Errors
  | errs, [] => some errs
  | errs, e :: es => do
      let arity ← arity fn
      let error ← checkEquation signature arity e
      checkArity fn signature (errs ++ error.toList) es

def Function.toIr {ValueRef : Type} (fn : Annotated Function) :
    Option (Except Errors ValueRef) := do
  let errs ← checkArity fn fn.node.sig.fmt [] fn.node.equations
  if !errs.isEmpty then
    return .error errs
  let _paramTypes ← fn.node.sig.paramTypes
  none

theorem checkEquation_of_eq {signature : Option (List Char)} {arity : Nat}
    {e : Annotated Equation} (matched : patternLength e = arity) :
    checkEquation signature arity e = some none := by
  simp [checkEquation, matched]

/-- Every mismatch formats the signature, so without a signature text it panics. -/
theorem checkEquation_of_ne_of_none {arity : Nat} {e : Annotated Equation}
    (mismatch : patternLength e ≠ arity) : checkEquation none arity e = none := by
  unfold checkEquation
  rcases Nat.lt_or_gt_of_ne mismatch with shorter | longer
  · simp [Nat.compare_eq_lt.mpr shorter]
  · simp [Nat.compare_eq_gt.mpr longer]

section Loop

variable {fn : Annotated Function} {arityValue : Nat}

theorem checkArity_of_matches (signature : Option (List Char)) (found : arity fn = some arityValue) :
    ∀ (errs : Errors) (es : List (Annotated Equation)),
      (∀ e ∈ es, patternLength e = arityValue) → checkArity fn signature errs es = some errs
  | errs, [], _ => rfl
  | errs, e :: es, allMatch => by
      have head := @checkEquation_of_eq signature _ _ (allMatch e (by simp))
      have tail := checkArity_of_matches signature found errs es
        (fun other member => allMatch other (List.mem_cons_of_mem e member))
      simp [checkArity, found, head, tail]

theorem checkArity_of_mismatch_of_none (found : arity fn = some arityValue) :
    ∀ (errs : Errors) (es : List (Annotated Equation)),
      (∃ e ∈ es, patternLength e ≠ arityValue) → checkArity fn none errs es = none
  | _, [], ⟨_, member, _⟩ => nomatch member
  | errs, e :: es, ⟨bad, member, mismatch⟩ => by
      by_cases headMatches : patternLength e = arityValue
      · have later : bad ∈ es := by
          rcases List.mem_cons.mp member with same | later
          · exact absurd (same ▸ headMatches) mismatch
          · exact later
        have tail := checkArity_of_mismatch_of_none found errs es ⟨bad, later, mismatch⟩
        simp [checkArity, found, checkEquation_of_eq headMatches, tail]
      · simp [checkArity, found, checkEquation_of_ne_of_none headMatches]

end Loop

/-- `Display for Signature` is `unimplemented!()`, so the first mismatched
equation panics while its message is formatted and `to_ir` never returns the
errors it collects; when every equation matches, the check collects nothing. -/
theorem toIr_arity_mismatch_panics {ValueRef : Type} (fn : Annotated Function)
    (nonempty : fn.node.sig.typechain ≠ []) :
    ((∃ e ∈ fn.node.equations, patternLength e ≠ fn.node.sig.typechain.length - 1) →
        @Function.toIr ValueRef fn = none) ∧
      ((∀ e ∈ fn.node.equations, patternLength e = fn.node.sig.typechain.length - 1) →
        checkArity fn fn.node.sig.fmt [] fn.node.equations = some []) := by
  have found : arity fn = some (fn.node.sig.typechain.length - 1) :=
    Signature.arity_of_ne_nil nonempty
  refine ⟨fun mismatch => ?_, fun allMatch => checkArity_of_matches _ found [] _ allMatch⟩
  have panics := checkArity_of_mismatch_of_none found [] fn.node.equations mismatch
  simp [Function.toIr, Signature.fmt, panics]

/-- The function `(λ (→ int int) (() ...))`: one parameter, an equation
that binds none. -/
theorem toIr_arity_mismatch_panics_unary :
    let fn : Annotated Function :=
      ⟨.mk (.mk none [.prim .intSize, .prim .intSize]) [⟨.mk [] [], default⟩], default⟩
    fn.node.sig.typechain ≠ [] ∧
      (∃ e ∈ fn.node.equations, patternLength e ≠ fn.node.sig.typechain.length - 1) ∧
      @Function.toIr Unit fn = none := by
  intro fn
  have nonempty : fn.node.sig.typechain ≠ [] := by simp [fn, Function.sig]
  have mismatch : ∃ e ∈ fn.node.equations, patternLength e ≠ fn.node.sig.typechain.length - 1 :=
    ⟨⟨.mk [] [], default⟩, by simp [fn, Function.equations, Function.sig, patternLength,
      Equation.pattern]⟩
  exact ⟨nonempty, mismatch, (toIr_arity_mismatch_panics fn nonempty).1 mismatch⟩

end Mnemosyne.Compile
