import Mathlib.Data.List.Basic

namespace Mnemosyne

/-! # `ForkTable`

The scoped symbol table of `core/src/forktable.rs`.  A level owns a hash map
of its own bindings and a set of whited-out keys, and holds a reference to the
level it was forked from.  The Rust borrow (`Option<&'a ForkTable>`) becomes
the parent value itself: a level can only be forked once its parent is no
longer mutated, so the two agree on every observable lookup.

Methods that return a value and mutate `self` return the new level together
with the result.  `index` and `index_mut` unwrap with `expect_ice`; their
panic is `none`.  Each mutation rebuilds only the fields of the level it runs
on.
-/

structure ForkTable (K V : Type) [DecidableEq K] [Hashable K] where
  table : Std.HashMap K V
  whiteouts : Std.HashSet K
  parent : Option (ForkTable K V)
  level : Nat

namespace ForkTable

variable {K V : Type} [DecidableEq K] [Hashable K]

def get : ForkTable K V → K → Option V
  | ⟨table, whiteouts, parent, _⟩, key =>
      if whiteouts.contains key then none
      else
        table[key]?.or
          (match parent with
            | none => none
            | some parent => parent.get key)

def getMut (t : ForkTable K V) (key : K) : Option V :=
  t.table[key]?

def remove (t : ForkTable K V) (key : K) : ForkTable K V × Option V :=
  ({ t with whiteouts := t.whiteouts.insert key, table := t.table.erase key },
    t.table[key]?)

def expose (t : ForkTable K V) (key : K) : ForkTable K V × Option V :=
  ({ t with whiteouts := t.whiteouts.erase key, table := t.table.erase key },
    t.table[key]?)

def insert (t : ForkTable K V) (k : K) (v : V) : ForkTable K V × Option V :=
  let whiteouts := if t.whiteouts.contains k then t.whiteouts.erase k else t.whiteouts
  ({ t with whiteouts := whiteouts, table := t.table.insert k v }, t.table[k]?)

def containsKey (t : ForkTable K V) (key : K) : Bool :=
  !t.whiteouts.contains key && t.table.contains key

/-- `ForkTable::chain_contains_key`, which tests the table before the
whiteouts, unlike `get`. -/
def chainContainsKey : ForkTable K V → K → Bool
  | ⟨table, whiteouts, parent, _⟩, key =>
      table.contains key ||
        (!whiteouts.contains key &&
          match parent with
          | none => false
          | some parent => parent.chainContainsKey key)

def fork (t : ForkTable K V) : ForkTable K V :=
  ⟨∅, ∅, some t, t.level + 1⟩

def new : ForkTable K V :=
  ⟨∅, ∅, none, 0⟩

def values (t : ForkTable K V) : List V :=
  t.table.values

def keys (t : ForkTable K V) : List K :=
  t.table.keys

def index (t : ForkTable K V) (key : K) : Option V :=
  t.get key

/-- The write `*slot = value` through the slot that `get_mut(key)` lends;
when `get_mut` returns `None` there is no slot and nothing is written. -/
def writeGetMut (t : ForkTable K V) (key : K) (value : V) : ForkTable K V :=
  match t.getMut key with
  | some _ => { t with table := t.table.modify key fun _ => value }
  | none => t

/-- The write `table[&key] = value`: `index_mut` is
`get_mut(index).expect_ice("undefined index")`, so it panics on an unbound key. -/
def indexMut (t : ForkTable K V) (key : K) (value : V) : Option (ForkTable K V) :=
  match t.getMut key with
  | some _ => some { t with table := t.table.modify key fun _ => value }
  | none => none

def parentGet (t : ForkTable K V) (key : K) : Option V :=
  match t.parent with
  | none => none
  | some parent => parent.get key

def parentChainContainsKey (t : ForkTable K V) (key : K) : Bool :=
  match t.parent with
  | none => false
  | some parent => parent.chainContainsKey key

/-- This level and every level it was forked from, innermost first. -/
def levels : ForkTable K V → List (ForkTable K V)
  | t@⟨_, _, parent, _⟩ =>
      t :: match parent with
        | none => []
        | some parent => parent.levels

theorem get_eq (t : ForkTable K V) (key : K) :
    t.get key =
      if t.whiteouts.contains key then none else t.table[key]?.or (t.parentGet key) := by
  rcases t with ⟨table, whiteouts, _ | parent, level⟩ <;> simp only [get, parentGet]

theorem chainContainsKey_eq (t : ForkTable K V) (key : K) :
    t.chainContainsKey key =
      (t.table.contains key || (!t.whiteouts.contains key && t.parentChainContainsKey key)) := by
  rcases t with ⟨table, whiteouts, _ | parent, level⟩ <;>
    simp only [chainContainsKey, parentChainContainsKey]

theorem levels_eq (t : ForkTable K V) :
    t.levels = t :: (match t.parent with
      | none => []
      | some parent => parent.levels) := by
  rcases t with ⟨table, whiteouts, _ | parent, level⟩ <;> simp only [levels]

theorem get_of_whiteout {t : ForkTable K V} {key : K}
    (whitedOut : t.whiteouts.contains key = true) : t.get key = none := by
  simp [get_eq, whitedOut]

theorem get_of_not_whiteout {t : ForkTable K V} {key : K}
    (visible : t.whiteouts.contains key = false) :
    t.get key = t.table[key]?.or (t.parentGet key) := by
  simp [get_eq, visible]

@[simp] theorem parentGet_of_parent {t : ForkTable K V} {parent : ForkTable K V}
    (forked : t.parent = some parent) (key : K) : t.parentGet key = parent.get key := by
  simp [parentGet, forked]

@[simp] theorem remove_parent (t : ForkTable K V) (key : K) :
    (t.remove key).1.parent = t.parent := rfl

@[simp] theorem expose_parent (t : ForkTable K V) (key : K) :
    (t.expose key).1.parent = t.parent := rfl

@[simp] theorem insert_parent (t : ForkTable K V) (k : K) (v : V) :
    (t.insert k v).1.parent = t.parent := rfl

@[simp] theorem writeGetMut_parent (t : ForkTable K V) (key : K) (value : V) :
    (t.writeGetMut key value).parent = t.parent := by
  unfold writeGetMut
  split <;> rfl

@[simp] theorem fork_parent (t : ForkTable K V) : t.fork.parent = some t := rfl

@[simp] theorem new_parent : (new : ForkTable K V).parent = none := rfl

@[simp] theorem remove_table (t : ForkTable K V) (key : K) :
    (t.remove key).1.table = t.table.erase key := rfl

@[simp] theorem remove_whiteouts (t : ForkTable K V) (key : K) :
    (t.remove key).1.whiteouts = t.whiteouts.insert key := rfl

@[simp] theorem expose_table (t : ForkTable K V) (key : K) :
    (t.expose key).1.table = t.table.erase key := rfl

@[simp] theorem expose_whiteouts (t : ForkTable K V) (key : K) :
    (t.expose key).1.whiteouts = t.whiteouts.erase key := rfl

@[simp] theorem insert_table (t : ForkTable K V) (k : K) (v : V) :
    (t.insert k v).1.table = t.table.insert k v := rfl

@[simp] theorem insert_whiteouts_contains (t : ForkTable K V) (k other : K) (v : V) :
    (t.insert k v).1.whiteouts.contains other = (k != other && t.whiteouts.contains other) := by
  simp only [insert]
  split
  · simp [Std.HashSet.contains_erase, bne]
  · rename_i absent
    by_cases same : k = other
    · subst same
      simpa using absent
    · simp [same]

@[simp] theorem fork_table (t : ForkTable K V) : t.fork.table = ∅ := rfl

@[simp] theorem fork_whiteouts (t : ForkTable K V) : t.fork.whiteouts = ∅ := rfl

@[simp] theorem new_table : (new : ForkTable K V).table = ∅ := rfl

@[simp] theorem new_whiteouts : (new : ForkTable K V).whiteouts = ∅ := rfl

@[simp] theorem writeGetMut_whiteouts (t : ForkTable K V) (key : K) (value : V) :
    (t.writeGetMut key value).whiteouts = t.whiteouts := by
  unfold writeGetMut
  split <;> rfl

theorem writeGetMut_table (t : ForkTable K V) (key : K) (value : V) :
    (t.writeGetMut key value).table[key]? = t.table[key]?.map (fun _ => value) ∧
      ∀ other, other ≠ key → (t.writeGetMut key value).table[other]? = t.table[other]? := by
  unfold writeGetMut getMut
  split
  · refine ⟨by simp, fun other distinct => ?_⟩
    have differs : (key == other) = false := by simpa using Ne.symm distinct
    simp [Std.HashMap.getElem?_modify, differs]
  · rename_i unbound
    simp [unbound]

theorem indexMut_eq (t : ForkTable K V) (key : K) (value : V) :
    t.indexMut key value =
      if (t.getMut key).isSome then some (t.writeGetMut key value) else none := by
  unfold indexMut writeGetMut
  split <;> simp_all

end ForkTable

end Mnemosyne
