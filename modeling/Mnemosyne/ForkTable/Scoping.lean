import Mnemosyne.ForkTable.Basic
import Mnemosyne.Data.ScopeStack

namespace Mnemosyne

open Mnemosyne.Data

/-! # What a reachable `ForkTable` means

Every level a program can hold was built by `ForkTable::new` and `fork`, and
changed only through its own methods while no child of it was alive.  Along
such runs no key of a level is ever both bound and whited out, and that one
invariant makes the lookup paths agree and the table a faithful scope stack.
-/

namespace ForkTable

variable {K V : Type} [DecidableEq K] [Hashable K]

inductive Mutation (K V : Type) where
  | insert (k : K) (v : V)
  | remove (key : K)
  | expose (key : K)
  | writeGetMut (key : K) (value : V)
  | indexMut (key : K) (value : V)

def mutate (t : ForkTable K V) : Mutation K V → Option (ForkTable K V)
  | .insert k v => some (t.insert k v).1
  | .remove key => some (t.remove key).1
  | .expose key => some (t.expose key).1
  | .writeGetMut key value => some (t.writeGetMut key value)
  | .indexMut key value => t.indexMut key value

/-- Levels a program can hold.  A parent is never mutated while a child
borrows it, so every mutation acts on the innermost level. -/
inductive Reachable : ForkTable K V → Prop where
  | new : Reachable ForkTable.new
  | fork {t : ForkTable K V} : Reachable t → Reachable t.fork
  | mutate {t t' : ForkTable K V} (mutation : Mutation K V) :
      Reachable t → t.mutate mutation = some t' → Reachable t'

/-- No key of this level is both bound and whited out. -/
def Disjoint (t : ForkTable K V) : Prop :=
  ∀ key, t.table.contains key = true → t.whiteouts.contains key = false

def WellFormed (t : ForkTable K V) : Prop :=
  ∀ level ∈ t.levels, level.Disjoint

theorem mutate_parent {t t' : ForkTable K V} {mutation : Mutation K V}
    (mutated : t.mutate mutation = some t') : t'.parent = t.parent := by
  cases mutation with
  | insert k v => cases mutated; rfl
  | remove key => cases mutated; rfl
  | expose key => cases mutated; rfl
  | writeGetMut key value =>
      cases mutated
      exact writeGetMut_parent t key value
  | indexMut key value =>
      change t.indexMut key value = some t' at mutated
      rw [indexMut_eq] at mutated
      split at mutated
      · cases mutated
        exact writeGetMut_parent t key value
      · contradiction

theorem levels_of_parent_eq {t t' : ForkTable K V} (same : t'.parent = t.parent) :
    t'.levels = t' :: t.levels.tail := by
  rw [levels_eq t', levels_eq t, same]
  rfl

theorem fork_levels (t : ForkTable K V) : t.fork.levels = t.fork :: t.levels := by
  rw [levels_eq]
  rfl

theorem WellFormed.disjoint {t : ForkTable K V} (wellFormed : t.WellFormed) : t.Disjoint :=
  wellFormed t (by rw [levels_eq]; exact List.mem_cons_self)

theorem WellFormed.parent {t parent : ForkTable K V} (wellFormed : t.WellFormed)
    (forked : t.parent = some parent) : parent.WellFormed := by
  intro level member
  apply wellFormed level
  rw [levels_eq, forked]
  exact List.mem_cons_of_mem _ member

theorem WellFormed.of_parent_eq {t t' : ForkTable K V} (wellFormed : t.WellFormed)
    (same : t'.parent = t.parent) (disjoint : t'.Disjoint) : t'.WellFormed := by
  intro level member
  rw [levels_of_parent_eq same] at member
  rcases List.mem_cons.mp member with rfl | above
  · exact disjoint
  · exact wellFormed level (List.mem_of_mem_tail above)

theorem WellFormed.of_mem_levels :
    ∀ {t : ForkTable K V}, t.WellFormed → ∀ level ∈ t.levels, level.WellFormed
  | ⟨_, _, none, _⟩, wellFormed, level, member => by
      simp only [levels, List.mem_singleton] at member
      subst member
      exact wellFormed
  | ⟨_, _, some parent, _⟩, wellFormed, level, member => by
      simp only [levels, List.mem_cons] at member
      rcases member with rfl | above
      · exact wellFormed
      · exact WellFormed.of_mem_levels (wellFormed.parent rfl) level above

theorem insert_disjoint {t : ForkTable K V} (disjoint : t.Disjoint) (k : K) (v : V) :
    (t.insert k v).1.Disjoint := by
  intro key bound
  by_cases same : k = key
  · simp [same]
  · have unchanged : t.table.contains key = true := by
      simpa [Std.HashMap.contains_insert, same] using bound
    simp [disjoint key unchanged]

theorem remove_disjoint {t : ForkTable K V} (disjoint : t.Disjoint) (removed : K) :
    (t.remove removed).1.Disjoint := by
  intro key bound
  have distinct : removed ≠ key := by
    intro same
    simp [same] at bound
  have unchanged : t.table.contains key = true := by
    simpa [Std.HashMap.contains_erase, distinct] using bound
  simp [Std.HashSet.contains_insert, distinct, disjoint key unchanged]

theorem expose_disjoint {t : ForkTable K V} (disjoint : t.Disjoint) (exposed : K) :
    (t.expose exposed).1.Disjoint := by
  intro key bound
  have unchanged : t.table.contains key = true := by
    simp only [expose_table, Std.HashMap.contains_erase, Bool.and_eq_true] at bound
    exact bound.2
  simp [Std.HashSet.contains_erase, disjoint key unchanged]

theorem writeGetMut_disjoint {t : ForkTable K V} (disjoint : t.Disjoint) (written : K)
    (value : V) : (t.writeGetMut written value).Disjoint := by
  intro key bound
  rw [writeGetMut_whiteouts]
  apply disjoint key
  unfold writeGetMut at bound
  split at bound
  · simpa [Std.HashMap.contains_modify] using bound
  · exact bound

theorem mutate_disjoint {t t' : ForkTable K V} (disjoint : t.Disjoint)
    {mutation : Mutation K V} (mutated : t.mutate mutation = some t') : t'.Disjoint := by
  cases mutation with
  | insert k v => cases mutated; exact insert_disjoint disjoint k v
  | remove key => cases mutated; exact remove_disjoint disjoint key
  | expose key => cases mutated; exact expose_disjoint disjoint key
  | writeGetMut key value => cases mutated; exact writeGetMut_disjoint disjoint key value
  | indexMut key value =>
      change t.indexMut key value = some t' at mutated
      rw [indexMut_eq] at mutated
      split at mutated
      · cases mutated
        exact writeGetMut_disjoint disjoint key value
      · contradiction

theorem new_wellFormed : (new : ForkTable K V).WellFormed := by
  intro level member
  simp only [levels_eq, new_parent, List.mem_singleton] at member
  subst member
  intro key bound
  simp at bound

theorem fork_wellFormed {t : ForkTable K V} (wellFormed : t.WellFormed) :
    t.fork.WellFormed := by
  intro level member
  rw [fork_levels] at member
  rcases List.mem_cons.mp member with rfl | above
  · intro key bound
    simp at bound
  · exact wellFormed level above

theorem Reachable.wellFormed {t : ForkTable K V} (reachable : Reachable t) :
    t.WellFormed := by
  induction reachable with
  | new => exact new_wellFormed
  | fork _ ih => exact fork_wellFormed ih
  | mutate mutation _ mutated ih =>
      exact ih.of_parent_eq (mutate_parent mutated) (mutate_disjoint ih.disjoint mutated)

theorem Reachable.of_parent {t parent : ForkTable K V} (reachable : Reachable t)
    (forked : t.parent = some parent) : Reachable parent := by
  induction reachable with
  | new => cases forked
  | fork previous => cases forked; exact previous
  | mutate mutation _ mutated ih => exact ih ((mutate_parent mutated).symm.trans forked)

theorem chainContainsKey_eq_of_parent {t : ForkTable K V} (disjoint : t.Disjoint) (key : K)
    (above : t.parentChainContainsKey key = (t.parentGet key).isSome) :
    t.chainContainsKey key = (t.get key).isSome := by
  rw [chainContainsKey_eq, get_eq]
  cases bound : t.table.contains key with
  | true =>
      obtain ⟨value, found⟩ : ∃ value, t.table[key]? = some value := by
        apply Option.isSome_iff_exists.mp
        rw [Std.HashMap.isSome_getElem?_eq_contains]
        exact bound
      simp [disjoint key bound, found]
  | false =>
      have missing : t.table[key]? = none :=
        Std.HashMap.getElem?_eq_none_of_contains_eq_false bound
      cases t.whiteouts.contains key <;> simp [missing, above]

theorem chainContainsKey_eq_isSome_get :
    ∀ (t : ForkTable K V), t.WellFormed → ∀ key, t.chainContainsKey key = (t.get key).isSome
  | ⟨_, _, none, _⟩, wellFormed, key =>
      chainContainsKey_eq_of_parent wellFormed.disjoint key rfl
  | ⟨_, _, some parent, _⟩, wellFormed, key =>
      chainContainsKey_eq_of_parent wellFormed.disjoint key
        (chainContainsKey_eq_isSome_get parent (wellFormed.parent rfl) key)

theorem containsKey_eq_isSome_getMut {t : ForkTable K V} (disjoint : t.Disjoint) (key : K) :
    t.containsKey key = (t.getMut key).isSome := by
  unfold containsKey getMut
  cases bound : t.table.contains key with
  | true => simp [disjoint key bound, Std.HashMap.mem_iff_contains, bound]
  | false => simp [Std.HashMap.getElem?_eq_none_of_contains_eq_false bound]

theorem containsKey_iff_mem_keys {t : ForkTable K V} (disjoint : t.Disjoint) (key : K) :
    t.containsKey key = true ↔ key ∈ t.keys := by
  unfold containsKey keys
  rw [Std.HashMap.mem_keys]
  cases bound : t.table.contains key with
  | true => simp [disjoint key bound, Std.HashMap.mem_iff_contains, bound]
  | false => simp [Std.HashMap.mem_iff_contains, bound]

/-- Bound and whited out are disjoint at every level of every reachable chain,
and there `chain_contains_key` agrees with `get`, and `contains_key`,
`get_mut` and `keys` agree with each other. -/
theorem reachable_lookups_agree {t : ForkTable K V} (reachable : Reachable t) :
    ∀ level ∈ t.levels,
      (∀ key, level.table.contains key = true → level.whiteouts.contains key = false) ∧
      ∀ key, level.chainContainsKey key = (level.get key).isSome ∧
        level.containsKey key = (level.getMut key).isSome ∧
        (level.containsKey key = true ↔ key ∈ level.keys) := by
  intro level member
  have wellFormed := reachable.wellFormed
  have levelWellFormed := wellFormed.of_mem_levels level member
  exact ⟨wellFormed level member, fun key =>
    ⟨chainContainsKey_eq_isSome_get level levelWellFormed key,
      containsKey_eq_isSome_getMut (wellFormed level member) key,
      containsKey_iff_mem_keys (wellFormed level member) key⟩⟩

theorem reachable_lookups_agree_multilevel :
    let t := ((new : ForkTable Nat String).insert 1 "One").1.fork
    (t.table.contains 1 = true → t.whiteouts.contains 1 = false) ∧
      t.chainContainsKey 1 = (t.get 1).isSome ∧ t.containsKey 1 = (t.getMut 1).isSome ∧
      (t.containsKey 1 = true ↔ 1 ∈ t.keys) := by
  intro t
  have agree := reachable_lookups_agree (.fork (.mutate (.insert 1 "One") .new rfl)) t
    (by simp [t, fork_levels])
  exact ⟨agree.1 1, agree.2 1⟩

def scopes (t : ForkTable K V) : ScopeStack K V :=
  ⟨t.get, t.levels.tail.map get⟩

@[simp] theorem scopes_inner (t : ForkTable K V) : t.scopes.inner = t.get := rfl

theorem get_congr {t t' : ForkTable K V} {key : K}
    (sameWhiteout : t'.whiteouts.contains key = t.whiteouts.contains key)
    (sameBinding : t'.table[key]? = t.table[key]?) (sameParent : t'.parent = t.parent) :
    t'.get key = t.get key := by
  have sameAbove : t'.parentGet key = t.parentGet key := by
    simp only [parentGet, sameParent]
  rw [get_eq, get_eq, sameWhiteout, sameBinding, sameAbove]

theorem scopes_outer_of_parent_eq {t t' : ForkTable K V} (same : t'.parent = t.parent) :
    t'.scopes.outer = t.scopes.outer := by
  simp only [scopes, levels_of_parent_eq same, List.tail_cons]

theorem scopes_enclosing (t : ForkTable K V) : t.scopes.enclosing = t.parentGet := by
  funext key
  rcases t with ⟨table, whiteouts, _ | parent, level⟩
  · rfl
  · simp only [ScopeStack.enclosing, scopes, levels, List.tail_cons, parentGet]
    rw [levels_eq parent]
    rfl

theorem scopes_new : (new : ForkTable K V).scopes = ScopeStack.empty := by
  have nothing : (new : ForkTable K V).get = fun _ => none := by
    funext key
    simp [get_eq, parentGet]
  simp only [scopes, nothing, ScopeStack.empty, levels_eq, new_parent, List.tail_cons,
    List.map_nil]

theorem scopes_fork (t : ForkTable K V) : t.fork.scopes = t.scopes.enter := by
  have passThrough : t.fork.get = t.get := by
    funext key
    simp [get_eq t.fork, parentGet]
  simp only [scopes, ScopeStack.enter, passThrough, fork_levels, List.tail_cons]
  rw [levels_eq t]
  rfl

theorem scopes_insert (t : ForkTable K V) (k : K) (v : V) :
    (t.insert k v).1.scopes = t.scopes.bind k v := by
  refine ScopeStack.ext ?_ (scopes_outer_of_parent_eq (insert_parent t k v))
  funext key
  by_cases same : key = k
  · subst same
    simp [get_eq (t.insert key v).1, ScopeStack.bind]
  · rw [ScopeStack.bind_inner_of_ne _ _ same]
    have distinct : (k == key) = false := by simpa using Ne.symm same
    exact get_congr (by simp [Ne.symm same])
      (by simp [Std.HashMap.getElem?_insert, distinct]) (insert_parent t k v)

theorem scopes_remove (t : ForkTable K V) (removed : K) :
    (t.remove removed).1.scopes = t.scopes.hide removed := by
  refine ScopeStack.ext ?_ (scopes_outer_of_parent_eq (remove_parent t removed))
  funext key
  by_cases same : key = removed
  · subst same
    simp [get_of_whiteout, ScopeStack.hide]
  · rw [ScopeStack.hide_inner_of_ne _ same]
    have distinct : (removed == key) = false := by simpa using Ne.symm same
    exact get_congr (by simp [Std.HashSet.contains_insert, distinct])
      (by simp [Std.HashMap.getElem?_erase, distinct]) (remove_parent t removed)

theorem scopes_expose (t : ForkTable K V) (exposed : K) :
    (t.expose exposed).1.scopes = t.scopes.reveal exposed := by
  refine ScopeStack.ext ?_ (scopes_outer_of_parent_eq (expose_parent t exposed))
  funext key
  by_cases same : key = exposed
  · subst same
    have above : (t.expose key).1.parentGet key = t.parentGet key := by
      simp only [parentGet, expose_parent]
    simp [get_eq (t.expose key).1, above, scopes_enclosing]
  · rw [ScopeStack.reveal_inner_of_ne _ same]
    have distinct : (exposed == key) = false := by simpa using Ne.symm same
    exact get_congr (by simp [Std.HashSet.contains_erase, distinct])
      (by simp [Std.HashMap.getElem?_erase, distinct]) (expose_parent t exposed)

/-- A write through `get_mut` rebinds the key in scope; this is where the
invariant is needed, since a whited-out binding would stay hidden. -/
theorem scopes_writeGetMut {t : ForkTable K V} (disjoint : t.Disjoint) {key : K}
    (bound : (t.getMut key).isSome) (value : V) :
    (t.writeGetMut key value).scopes = t.scopes.bind key value := by
  refine ScopeStack.ext ?_ (scopes_outer_of_parent_eq (writeGetMut_parent t key value))
  obtain ⟨written, unchanged⟩ := writeGetMut_table t key value
  funext other
  by_cases same : other = key
  · subst same
    have contained : t.table.contains other = true := by
      rw [← Std.HashMap.isSome_getElem?_eq_contains]
      exact bound
    obtain ⟨old, found⟩ := Option.isSome_iff_exists.mp bound
    have own : t.table[other]? = some old := found
    have visible := disjoint other contained
    rw [scopes_inner, get_of_not_whiteout (by rw [writeGetMut_whiteouts]; exact visible), written]
    simp [own, ScopeStack.bind]
  · rw [ScopeStack.bind_inner_of_ne _ _ same]
    exact get_congr (by rw [writeGetMut_whiteouts]) (unchanged other same)
      (writeGetMut_parent t key value)

/-- A reachable level is a scope stack: forking enters a scope, `insert`
binds, `remove` hides even what an ancestor binds, `expose` reveals the
parent's meaning (nothing at the root), and a write through `get_mut` or
`index_mut` rebinds.  Each changes only the innermost environment at the key
it is given and keeps the environments of all ancestors; `insert`, `remove`
and `expose` return what the level itself bound there. -/
theorem reachable_scoped_environment {t : ForkTable K V} (reachable : Reachable t)
    (key : K) (value : V) :
    t.fork.scopes = t.scopes.enter ∧
    (t.insert key value).1.scopes = t.scopes.bind key value ∧
    (t.remove key).1.scopes = t.scopes.hide key ∧
    (t.expose key).1.scopes = t.scopes.reveal key ∧
    ((t.getMut key).isSome → (t.writeGetMut key value).scopes = t.scopes.bind key value) ∧
    (∀ t', t.indexMut key value = some t' → t'.scopes = t.scopes.bind key value) ∧
    (t.insert key value).2 = t.table[key]? ∧ (t.remove key).2 = t.table[key]? ∧
    (t.expose key).2 = t.table[key]? := by
  have disjoint := reachable.wellFormed.disjoint
  refine ⟨scopes_fork t, scopes_insert t key value, scopes_remove t key, scopes_expose t key,
    fun bound => scopes_writeGetMut disjoint bound value, ?_, rfl, rfl, rfl⟩
  intro t' indexed
  rw [indexMut_eq] at indexed
  split at indexed
  · rename_i bound
    cases indexed
    exact scopes_writeGetMut disjoint bound value
  · contradiction

theorem reachable_scoped_environment_multilevel :
    let t := ((new : ForkTable Nat String).insert 1 "One").1.fork
    t.fork.scopes = t.scopes.enter ∧
    (t.insert 1 "one").1.scopes = t.scopes.bind 1 "one" ∧
    (t.remove 1).1.scopes = t.scopes.hide 1 ∧
    (t.expose 1).1.scopes = t.scopes.reveal 1 ∧
    ((t.getMut 1).isSome → (t.writeGetMut 1 "one").scopes = t.scopes.bind 1 "one") ∧
    (∀ t', t.indexMut 1 "one" = some t' → t'.scopes = t.scopes.bind 1 "one") ∧
    (t.insert 1 "one").2 = t.table[1]? ∧ (t.remove 1).2 = t.table[1]? ∧
    (t.expose 1).2 = t.table[1]? :=
  reachable_scoped_environment (.fork (.mutate (.insert 1 "One") .new rfl)) 1 "one"

end ForkTable

end Mnemosyne
