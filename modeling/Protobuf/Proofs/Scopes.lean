/-
  Protobuf.Proofs.Scopes — names taken and names free.

  A claim always gets a name that was free (`isTaken_fresh`): a scope with n names cannot hold all of the n + 1
  numbered ones, which are distinct. In a draft each module has a scope of its own, so a path is taken or free
  (`Draft.Taken`), and a claim takes one path and changes no other.
-/

import Mathlib.Data.List.Nodup
import Mathlib.Data.List.Perm.Subperm
import Protobuf.Schema.Registry

namespace Protobuf

namespace Naming.Scope

variable {scope : Scope} {name other base separator : String}

theorem isTaken_iff : scope.isTaken name = true ↔ name ∈ scope.taken := List.contains_iff_mem

@[simp] theorem isTaken_insert : (scope.insert name).isTaken other = true ↔ other = name ∨ scope.isTaken other = true := by
  rw [insert]
  split
  · rename_i hname
    constructor
    · intro h
      exact .inr h
    · intro h
      rcases h with rfl | h
      · exact hname
      · exact h
  · rw [isTaken_iff, isTaken_iff, List.mem_cons]

theorem isTaken_insertAll {names : List String} :
    (scope.insertAll names).isTaken other = true ↔ other ∈ names ∨ scope.isTaken other = true := by
  induction names generalizing scope with
  | nil => simp [insertAll]
  | cons name names ih =>
    have hfold : scope.insertAll (name :: names) = (scope.insert name).insertAll names := rfl
    rw [hfold, ih, isTaken_insert, List.mem_cons]
    tauto

/-! ## Fresh names -/

theorem numbered_injective (base separator : String) : Function.Injective (numbered base separator) := by
  intro i j h
  have hdigits : Nat.toDigits 10 (i + 2) = Nat.toDigits 10 (j + 2) := by
    simpa [numbered, Nat.toList_repr] using congrArg String.toList h
  have hnumber : i + 2 = j + 2 := by
    rw [← Nat.ofDigitChars_ten_toDigits (n := i + 2), hdigits, Nat.ofDigitChars_ten_toDigits]
  omega

/-- One attempt more than there are names taken finds a free one. -/
theorem exists_free (scope : Scope) (base separator : String) :
    ∃ name ∈ (List.range (scope.taken.length + 1)).map (numbered base separator), scope.isTaken name = false := by
  by_contra hall
  have hsub : (List.range (scope.taken.length + 1)).map (numbered base separator) ⊆ scope.taken := by
    intro name hname
    by_contra hfree
    exact hall ⟨name, hname, Bool.eq_false_iff.mpr fun h => hfree (isTaken_iff.mp h)⟩
  have hnodup := (List.nodup_range (n := scope.taken.length + 1)).map (numbered_injective base separator)
  have hle := (hnodup.subperm hsub).length_le
  rw [List.length_map, List.length_range] at hle
  omega

theorem fresh_of_free (h : scope.isTaken base = false) : scope.fresh base separator = base := by
  simp [fresh, h]

/-- A name that is taken gets the least number with which it is free. -/
theorem fresh_of_taken (separator : String) (hbase : scope.isTaken base = true) :
    ∃ i, scope.fresh base separator = numbered base separator i ∧ scope.isTaken (numbered base separator i) = false ∧
      ∀ j < i, scope.isTaken (numbered base separator j) = true := by
  obtain ⟨_, hmem, hfree⟩ := exists_free scope base separator
  obtain ⟨k, hk, rfl⟩ := List.mem_map.mp hmem
  rw [fresh, if_pos hbase]
  dsimp only
  rw [List.find?_map]
  cases hfind : (List.range (scope.taken.length + 1)).find?
      ((fun name => !scope.isTaken name) ∘ numbered base separator) with
  | none =>
    have := List.find?_eq_none.mp hfind k hk
    simp [hfree] at this
  | some i =>
    obtain ⟨hi, _, hbefore⟩ := List.find?_range_eq_some.mp hfind
    exact ⟨i, rfl, by simpa using hi, fun j hj => by simpa using hbefore j hj⟩

theorem isTaken_fresh (scope : Scope) (base separator : String) : scope.isTaken (scope.fresh base separator) = false := by
  cases hbase : scope.isTaken base with
  | false => rwa [fresh_of_free hbase]
  | true =>
    obtain ⟨i, hname, hfree, _⟩ := fresh_of_taken separator hbase
    rwa [hname]

end Naming.Scope

/-! ## The scopes of a draft -/

namespace Schema.Registry.Draft

open Naming (Scope)

variable {draft : Draft} {modules : List String} {scope : Scope}

theorem scope_setScope_self : (draft.setScope modules scope).scope modules = scope := by
  simp [Draft.scope, setScope]

theorem scope_setScope_of_ne {others : List String} (h : others ≠ modules) :
    (draft.setScope modules scope).scope others = draft.scope others := by
  have hlookup : ∀ scopes : List (List String × Scope),
      (scopes.filter fun entry => entry.1 ≠ modules).lookup others = scopes.lookup others := by
    intro scopes
    induction scopes with
    | nil => rfl
    | cons entry scopes ih =>
      obtain ⟨key, kept⟩ := entry
      by_cases hkey : key = modules
      · subst hkey
        rw [List.filter_cons_of_neg (by simp), ih, List.lookup_cons, beq_false_of_ne h]
      · rw [List.filter_cons_of_pos (by simpa using hkey), List.lookup_cons, List.lookup_cons, ih]
  simp only [Draft.scope, setScope]
  rw [List.lookup_cons, beq_false_of_ne h, hlookup]

/-- The path is that of a name taken in its module. -/
def Taken (draft : Draft) (path : ItemPath) : Prop := (draft.scope path.modules).isTaken path.name = true

/-- Taking a name in a module takes one path and no other. -/
theorem taken_insert {name : String} {path : ItemPath} :
    (draft.setScope modules ((draft.scope modules).insert name)).Taken path ↔ path = ⟨modules, name⟩ ∨ draft.Taken path := by
  obtain ⟨others, other⟩ := path
  rw [Taken, Taken]
  by_cases h : others = modules
  · subst h
    rw [scope_setScope_self, Scope.isTaken_insert]
    simp
  · rw [scope_setScope_of_ne h]
    simp [h]

end Schema.Registry.Draft

end Protobuf
