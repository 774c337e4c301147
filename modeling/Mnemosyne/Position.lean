import Mnemosyne.Combine.Basic

namespace Mnemosyne

/-! # Source positions

`core/src/position.rs`.  The `i32` fields are integers: nothing here adds
positions up far enough to overflow.
-/

structure Position where
  col : Int
  row : Int
  raw : Int
  deriving DecidableEq, Repr

instance : Inhabited Position := ⟨⟨0, 0, 0⟩⟩

def Position.new (col row : Int) : Position :=
  ⟨col, row, col + row⟩

/-- `impl From<SourcePosition> for Position`. -/
def Position.ofSource (p : Combine.SourcePosition) : Position :=
  Position.new p.column p.line

/-- A value with the position it was read at.  The source's `PartialEq`
compares only `value`; the model keeps `=` structural and compares ASTs
after `erase` instead. -/
structure Positional (α : Type) where
  pos : Position
  value : α
  deriving DecidableEq, Repr

abbrev Ident := Positional (List Char)

def Positional.erase {α : Type} (p : Positional α) : Positional α :=
  ⟨default, p.value⟩

@[simp] theorem Positional.erase_value {α : Type} (p : Positional α) :
    p.erase.value = p.value := rfl

theorem Positional.erase_eq_erase_iff {α : Type} {p q : Positional α} :
    p.erase = q.erase ↔ p.value = q.value := by
  constructor
  · intro same
    simpa using congrArg Positional.value same
  · intro same
    simp [Positional.erase, same]

end Mnemosyne
