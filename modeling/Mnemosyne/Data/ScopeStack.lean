import Mathlib.Logic.Function.Basic

namespace Mnemosyne.Data

/-! # Nested lexical scopes

The abstract meaning of a scoped symbol table.  A program standing in some
scope sees one environment, a partial map from names to values; the scopes
around it see environments of their own.  Entering a scope starts from the
environment of the scope it is entered from, and the operations on the
innermost scope change only what that scope sees.

`inner` is the innermost environment and `outer` lists the enclosing ones,
nearest first, so a stack is never empty.
-/

/-- A stack of environments, innermost first. -/
@[ext] structure ScopeStack (K V : Type) where
  inner : K → Option V
  outer : List (K → Option V)

namespace ScopeStack

variable {K V : Type}

def empty : ScopeStack K V :=
  ⟨fun _ => none, []⟩

/-- What the nearest enclosing scope sees; nothing outside the outermost one. -/
def enclosing (scopes : ScopeStack K V) : K → Option V :=
  match scopes.outer with
  | [] => fun _ => none
  | env :: _ => env

def enter (scopes : ScopeStack K V) : ScopeStack K V :=
  ⟨scopes.inner, scopes.inner :: scopes.outer⟩

@[simp] theorem enter_inner (scopes : ScopeStack K V) :
    scopes.enter.inner = scopes.inner := rfl

@[simp] theorem enter_outer (scopes : ScopeStack K V) :
    scopes.enter.outer = scopes.inner :: scopes.outer := rfl

section Update

variable [DecidableEq K]

def bind (scopes : ScopeStack K V) (key : K) (value : V) : ScopeStack K V :=
  { scopes with inner := Function.update scopes.inner key (some value) }

def hide (scopes : ScopeStack K V) (key : K) : ScopeStack K V :=
  { scopes with inner := Function.update scopes.inner key none }

def reveal (scopes : ScopeStack K V) (key : K) : ScopeStack K V :=
  { scopes with inner := Function.update scopes.inner key (scopes.enclosing key) }

@[simp] theorem bind_outer (scopes : ScopeStack K V) (key : K) (value : V) :
    (scopes.bind key value).outer = scopes.outer := rfl

@[simp] theorem hide_outer (scopes : ScopeStack K V) (key : K) :
    (scopes.hide key).outer = scopes.outer := rfl

@[simp] theorem reveal_outer (scopes : ScopeStack K V) (key : K) :
    (scopes.reveal key).outer = scopes.outer := rfl

@[simp] theorem bind_inner_self (scopes : ScopeStack K V) (key : K) (value : V) :
    (scopes.bind key value).inner key = some value := by
  simp [bind]

@[simp] theorem hide_inner_self (scopes : ScopeStack K V) (key : K) :
    (scopes.hide key).inner key = none := by
  simp [hide]

@[simp] theorem reveal_inner_self (scopes : ScopeStack K V) (key : K) :
    (scopes.reveal key).inner key = scopes.enclosing key := by
  simp [reveal]

theorem bind_inner_of_ne (scopes : ScopeStack K V) {key other : K} (value : V)
    (distinct : other ≠ key) :
    (scopes.bind key value).inner other = scopes.inner other := by
  simp [bind, distinct]

theorem hide_inner_of_ne (scopes : ScopeStack K V) {key other : K}
    (distinct : other ≠ key) :
    (scopes.hide key).inner other = scopes.inner other := by
  simp [hide, distinct]

theorem reveal_inner_of_ne (scopes : ScopeStack K V) {key other : K}
    (distinct : other ≠ key) :
    (scopes.reveal key).inner other = scopes.inner other := by
  simp [reveal, distinct]

end Update

end ScopeStack

end Mnemosyne.Data
