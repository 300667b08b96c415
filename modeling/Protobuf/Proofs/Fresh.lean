/-
  Protobuf.Proofs.Fresh — claims of names, one and many.

  A claim is an open-ended search: `base` first, then `base` with 2, 3, .. behind it until a name is free (`Search`).
  The names it tries in vain are taken and distinct, so there are no more of them than names taken (`tried_le_taken`).
  So 32 bits are enough to count in (`WordSearch`) as long as a scope has no more than 2^31 - 2 names.
  Each claim gets a name that was free and takes it, so in a run of claims and insertions no name is claimed twice
  (`run_claimed`).
-/

import Mathlib.Data.Finset.Card
import Protobuf.Proofs.Scopes

namespace Protobuf.Naming.Scope

/-! ## The search -/

/-- The search from the number `n` on ends with `name` after so many tries. Nothing bounds it from outside. -/
inductive Search (scope : Scope) (stem : String) : (n tries : Nat) → (name : String) → Prop
  | free {n : Nat} (h : scope.isTaken (stem ++ Nat.repr n) = false) : Search scope stem n 1 (stem ++ Nat.repr n)
  | taken {n tries : Nat} {name : String} (h : scope.isTaken (stem ++ Nat.repr n) = true)
    (later : Search scope stem (n + 1) tries name) : Search scope stem n (tries + 1) name

/-- The search with a number of 32 bits, which may not run over. -/
inductive WordSearch (scope : Scope) (stem : String) : (n : Int32) → (name : String) → Prop
  | free {n : Int32} (h : scope.isTaken (stem ++ Int.repr n.toInt) = false) : WordSearch scope stem n (stem ++ Int.repr n.toInt)
  | taken {n : Int32} {name : String} (h : scope.isTaken (stem ++ Int.repr n.toInt) = true) (room : n < Int32.maxValue)
    (later : WordSearch scope stem (n + 1) name) : WordSearch scope stem n name

variable {scope : Scope} {base separator stem : String} {n i : Nat}

/-- A search that stays within 32 bits can be made with them. -/
theorem Search.word {tries : Nat} {name : String} (h : Search scope stem n tries name) (hle : n + tries ≤ 0x80000000) :
    WordSearch scope stem (Int32.ofNat n) name := by
  induction h with
  | @free n hfree =>
    have hn : (Int32.ofNat n).toInt = n := Int32.toInt_ofNat_of_lt (by omega)
    have hword := WordSearch.free (n := Int32.ofNat n) (by rwa [hn])
    rwa [hn] at hword
  | @taken n tries name htaken later ih =>
    have hn : (Int32.ofNat n).toInt = n := Int32.toInt_ofNat_of_lt (by omega)
    have htries : 0 < tries := by cases later <;> omega
    refine .taken (by rwa [hn]) ?_ ?_
    · rw [Int32.lt_iff_toInt_lt, hn]
      show (n : Int) < 0x7fffffff
      omega
    · have hnext : Int32.ofNat (n + 1) = Int32.ofNat n + 1 := Int32.ofNat_add n 1
      exact hnext ▸ ih (by omega)

theorem Search.of_least (hfree : scope.isTaken (stem ++ Nat.repr (i + n)) = false)
    (htaken : ∀ j < i, scope.isTaken (stem ++ Nat.repr (j + n)) = true) :
    Search scope stem n (i + 1) (stem ++ Nat.repr (i + n)) := by
  induction i generalizing n with
  | zero =>
    rw [Nat.zero_add n] at hfree ⊢
    exact .free hfree
  | succ i ih =>
    have hshift : ∀ j, j + 1 + n = j + (n + 1) := fun j => by omega
    have hfirst := htaken 0 (by omega)
    rw [Nat.zero_add] at hfirst
    rw [hshift] at hfree ⊢
    refine .taken hfirst (ih hfree fun j hj => ?_)
    rw [← hshift]
    exact htaken (j + 1) (by omega)

theorem numbered_ne_base : numbered base separator i ≠ base := by
  intro h
  have hdigits : separator.toList ++ Nat.toDigits 10 (i + 2) = [] := by
    simpa [numbered, Nat.toList_repr] using congrArg String.toList h
  exact Nat.toDigits_ne_nil (List.append_eq_nil_iff.mp hdigits).2

theorem tried_le_taken (hbase : scope.isTaken base = true)
    (htaken : ∀ j < i, scope.isTaken (numbered base separator j) = true) : i + 1 ≤ scope.taken.toFinset.card := by
  have hnodup : (base :: (List.range i).map (numbered base separator)).Nodup := by
    refine List.nodup_cons.mpr ⟨fun hmem => ?_, List.nodup_range.map (numbered_injective base separator)⟩
    obtain ⟨j, _, hj⟩ := List.mem_map.mp hmem
    exact numbered_ne_base hj
  have hsub : (base :: (List.range i).map (numbered base separator)).toFinset ⊆ scope.taken.toFinset := by
    intro name hname
    rw [List.mem_toFinset] at hname ⊢
    rcases List.mem_cons.mp hname with rfl | hname
    · exact isTaken_iff.mp hbase
    · obtain ⟨j, hj, rfl⟩ := List.mem_map.mp hname
      exact isTaken_iff.mp (htaken j (List.mem_range.mp hj))
  have hle := Finset.card_le_card hsub
  rw [List.toFinset_card_of_nodup hnodup] at hle
  simpa using hle

/-! ## Runs -/

/-- What is done with a scope. -/
inductive Use where
  | claim (base separator : String)
  | insert (name : String)

/-- The names claimed one after another, and the scope at the end. -/
def run (scope : Scope) : List Use → List String × Scope
  | [] => ([], scope)
  | .claim base separator :: uses =>
    let first := scope.claim base separator
    let rest := first.2.run uses
    (first.1 :: rest.1, rest.2)
  | .insert name :: uses => (scope.insert name).run uses

/-- What a run claims was free before it, and is claimed once. -/
theorem run_claimed (scope : Scope) (uses : List Use) :
    (scope.run uses).1.Nodup ∧ ∀ name ∈ (scope.run uses).1, scope.isTaken name ≠ true := by
  induction uses generalizing scope with
  | nil => exact ⟨List.nodup_nil, List.forall_mem_nil _⟩
  | cons use uses ih =>
    cases use with
    | claim base separator =>
      -- The name of the first claim is taken in the scope that the rest starts from.
      obtain ⟨hnodup, hfree⟩ := ih (scope.claim base separator).2
      refine ⟨List.nodup_cons.mpr ⟨fun hmem => hfree _ hmem (isTaken_insert.mpr (.inl rfl)), hnodup⟩, ?_⟩
      refine List.forall_mem_cons.mpr ⟨?_, fun name hname htaken => hfree name hname (isTaken_insert.mpr (.inr htaken))⟩
      exact Bool.eq_false_iff.mp (isTaken_fresh scope base separator)
    | insert new =>
      obtain ⟨hnodup, hfree⟩ := ih (scope.insert new)
      exact ⟨hnodup, fun name hname htaken => hfree name hname (isTaken_insert.mpr (.inr htaken))⟩

/-- A claim gets `base` if that is free, else `base` with the least number from 2 on with which it is free. The search
    for it always ends, and tries no more than one name more than are taken, `base` included; 32 bits are enough to count
    them in, unless more than 2^31 - 2 names are taken. The name was free, and the claim takes it and no other. So no run
    claims a name twice. -/
theorem claim_least_free (scope : Scope) :
    (∀ base separator name after, scope.claim base separator = (name, after) →
      (scope.isTaken base = false → name = base) ∧
      (scope.isTaken base = true →
        (∃ n, 2 ≤ n ∧ name = base ++ separator ++ Nat.repr n ∧
          ∀ m, 2 ≤ m → m < n → scope.isTaken (base ++ separator ++ Nat.repr m) = true) ∧
        (∃ tries, Search scope (base ++ separator) 2 tries name ∧ 1 + tries ≤ scope.taken.toFinset.card + 1) ∧
        (scope.taken.toFinset.card ≤ 0x7ffffffe → WordSearch scope (base ++ separator) 2 name)) ∧
      scope.isTaken name = false ∧
      ∀ other, after.isTaken other = true ↔ other = name ∨ scope.isTaken other = true) ∧
    ∀ uses, (scope.run uses).1.Nodup := by
  refine ⟨?_, fun uses => (run_claimed scope uses).1⟩
  rintro base separator _ _ ⟨⟩
  refine ⟨fresh_of_free, fun hbase => ?_, isTaken_fresh scope base separator, fun other => isTaken_insert⟩
  obtain ⟨i, hname, hfree, htaken⟩ := fresh_of_taken separator hbase
  rw [hname]
  have hsearch : Search scope (base ++ separator) 2 (i + 1) _ := .of_least hfree htaken
  have htries := tried_le_taken hbase htaken
  refine ⟨⟨i + 2, by omega, rfl, fun m hm hlt => ?_⟩, ⟨i + 1, hsearch, by omega⟩, fun hfew => hsearch.word (by omega)⟩
  obtain ⟨j, rfl⟩ := Nat.exists_eq_add_of_le' hm
  exact htaken j (by omega)

theorem claim_least_free_clear :
    let scope : Scope := ⟨["clear"]⟩
    scope.isTaken "clear_2" = false ∧ (∃ tries, Search scope "clear_" 2 tries "clear_2" ∧ 1 + tries ≤ 2) ∧
      WordSearch scope "clear_" 2 "clear_2" := by
  intro scope
  have hclaim : scope.claim "clear" "_" = ("clear_2", ⟨["clear_2", "clear"]⟩) := by decide
  obtain ⟨_, htaken, hfree, _⟩ := (claim_least_free scope).1 "clear" "_" _ _ hclaim
  obtain ⟨_, hsearch, hword⟩ := htaken (by decide)
  exact ⟨hfree, hsearch, hword (by decide)⟩

example : (Scope.run ⟨["clear"]⟩ [.claim "clear" "_", .insert "point_2", .claim "point" "_", .claim "point" "_"]).1 =
    ["clear_2", "point", "point_3"] := by decide

end Protobuf.Naming.Scope
