import Mnemosyne.Position
import Mnemosyne.Chars

namespace Mnemosyne.Types

/-! # Types

`core/src/semantic/types.rs`.  Formatting can reach an `unimplemented!()`
or an out-of-bounds index; such a panic is `none`.  Text is a list of
characters.
-/

/-- The source's `Int` enum; its discriminants are the widths. -/
inductive IntWidth where
  | int8
  | int16
  | int32
  | int64
  deriving DecidableEq, Repr

def IntWidth.bits : IntWidth → Nat
  | .int8 => 8
  | .int16 => 16
  | .int32 => 32
  | .int64 => 64

inductive Primitive where
  | int (bits : IntWidth)
  | intSize
  | uint (bits : IntWidth)
  | uintSize
  | byte
  | char
  | str
  | bool
  | float
  | double
  deriving DecidableEq, Repr

structure Constraint where
  typeclass : Ident
  generics : List Ident
  deriving DecidableEq, Repr

mutual

/-- The source's `types::Type`. -/
inductive Ty where
  | ref (reference : Reference)
  | prim (primitive : Primitive)
  | algebraic (variants : List Ty)
  | function (signature : Signature)
  | symbol (name : List Char)

inductive Reference where
  | borrowed (ty : Ty)
  | moved (ty : Ty)
  | unique (ty : Ty)
  | raw (ty : Ty)

inductive Signature where
  | mk (constraints : Option (List Constraint)) (typechain : List Ty)

end

namespace Signature

def constraints : Signature → Option (List Constraint)
  | mk constraints _ => constraints

def typechain : Signature → List Ty
  | mk _ typechain => typechain

@[simp] theorem constraints_mk (constraints : Option (List Constraint)) (typechain : List Ty) :
    (mk constraints typechain).constraints = constraints := rfl

@[simp] theorem typechain_mk (constraints : Option (List Constraint)) (typechain : List Ty) :
    (mk constraints typechain).typechain = typechain := rfl

/-- `Signature::return_type`: `&self.typechain[self.typechain.len()]`. -/
def returnType (sig : Signature) : Option Ty :=
  sig.typechain[sig.typechain.length]?

/-- `Signature::arity`: `self.typechain.len() - 1`, whose `usize`
subtraction panics below zero. -/
def arity (sig : Signature) : Option Nat :=
  if sig.typechain.length = 0 then none else some (sig.typechain.length - 1)

def paramTypes (sig : Signature) : Option (List Ty) := do
  let arity ← sig.arity
  if arity ≤ sig.typechain.length then some (sig.typechain.take arity) else none

/-- The last element of the chain sits at index `len - 1`; the source reads
index `len`, so `return_type` panics on every signature. -/
theorem returnType_eq_none (sig : Signature) : sig.returnType = none := by
  simp [returnType]

theorem arity_of_ne_nil {sig : Signature} (nonempty : sig.typechain ≠ []) :
    sig.arity = some (sig.typechain.length - 1) := by
  have positive : sig.typechain.length ≠ 0 := by simpa using nonempty
  simp [arity, positive]

/-- On a non-empty chain `param_types` is every type but the last: the chain
splits into parameters and the (uncurried) result. -/
theorem paramTypes_of_ne_nil {sig : Signature} (nonempty : sig.typechain ≠ []) :
    sig.arity = some (sig.typechain.length - 1) ∧
      sig.paramTypes = some sig.typechain.dropLast ∧
      sig.typechain.dropLast ++ [sig.typechain.getLast nonempty] = sig.typechain := by
  have arity := arity_of_ne_nil nonempty
  refine ⟨arity, ?_, List.dropLast_append_getLast nonempty⟩
  have fits : sig.typechain.length - 1 ≤ sig.typechain.length := Nat.sub_le _ _
  simp [paramTypes, arity, fits, List.dropLast_eq_take]

end Signature

def Constraint.fmt (_ : Constraint) : Option (List Char) :=
  none

def Signature.fmt (_ : Signature) : Option (List Char) :=
  none

/-- `impl Display for Primitive`; `Byte`, `Char` and `Str` reach the
`unimplemented!()` arm. -/
def Primitive.fmt : Primitive → Option (List Char)
  | .int bits => some ('i' :: Nat.toDigits 10 bits.bits)
  | .uint bits => some ('u' :: Nat.toDigits 10 bits.bits)
  | .intSize => some "int".toList
  | .uintSize => some "uint".toList
  | .double => some "double".toList
  | .float => some "float".toList
  | .bool => some "bool".toList
  | _ => none

mutual

/-- `impl Display for Type`; an `Algebraic` type reaches `unimplemented!()`. -/
def Ty.fmt : Ty → Option (List Char)
  | .ref reference => reference.fmt
  | .prim primitive => primitive.fmt
  | .algebraic _ => none
  | .function signature => signature.fmt
  | .symbol name => some name

def Reference.fmt : Reference → Option (List Char)
  | .borrowed ty => ('&' :: ·) <$> ty.fmt
  | .moved ty => ("move ".toList ++ ·) <$> ty.fmt
  | .unique ty => ('@' :: ·) <$> ty.fmt
  | .raw ty => ('*' :: ·) <$> ty.fmt

end

def indent (level : Nat) : List Char :=
  List.replicate level '\t'

def concatAll {α : Type} (fmt : α → Option (List Char)) (xs : List α) : Option (List Char) :=
  (xs.mapM fmt).map (List.intercalate [' '])

/-- `impl Node for Signature`: the indentation, the constraints if there are
any, then the type chain after an arrow. -/
def Signature.toSexpr (sig : Signature) (level : Nat) : Option (List Char) := do
  let constraints ←
    match sig.constraints with
    | some cs => (fun body => "(".toList ++ Chars.fatArrow ++ [' '] ++ body ++ [')']) <$>
        concatAll Constraint.fmt cs
    | none => some []
  let chain ← concatAll Ty.fmt sig.typechain
  pure (indent level ++ constraints ++ "(".toList ++ Chars.arrow ++ [' '] ++ chain ++ [')'])

end Mnemosyne.Types
