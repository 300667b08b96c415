/-
  Protobuf.Proofs.Lookup — a type name means the innermost type of that name.

  A name is looked for in a scope, then in the one around it (`Around`), until the empty one has been tried (`Search`).
  What encloses a scope is that scope or encloses the one around it (`Around.encloses_iff`), so no scope is passed over
  and the first that has the type is the longest (`Search.answer`). `find?` is this search (`search_front`).
-/

import Protobuf.Proofs.Declared

namespace Protobuf

theorem Text.splitAt_parts (mark : Char) (cs : List Char) :
    splitAt mark cs ≠ [] ∧ [mark].intercalate (splitAt mark cs) = cs ∧ ∀ part ∈ splitAt mark cs, mark ∉ part := by
  induction cs with
  | nil => simp [splitAt]
  | cons c cs ih =>
    obtain ⟨hne, hjoin, hparts⟩ := ih
    obtain ⟨part, parts, hsplit⟩ := List.exists_cons_of_ne_nil hne
    rw [hsplit] at hjoin hparts
    rw [splitAt, hsplit]
    split
    · rename_i hc
      simpa [hc, hjoin] using hparts
    · rename_i hc
      cases parts <;> simp_all [eq_comm]

namespace Schema.Registry

/-! ## Scopes -/

/-- A scope at the front of another, up to a dot: the empty one, the scope itself and all between. -/
def Encloses (outer scope : String) : Prop := outer = "" ∨ outer = scope ∨ ∃ rest, scope = outer ++ "." ++ rest

/-- The next scope outwards: what stands before the last dot, or the empty one. -/
inductive Around : (outer scope : String) → Prop
  | plain {scope : String} (h : '.' ∉ scope.toList) : Around "" scope
  | inside {outer part : String} (h : '.' ∉ part.toList) : Around outer (outer ++ "." ++ part)

variable {registry : Registry} {typeName scope outer other : String}

theorem Encloses.eq_of_length_le (h : Encloses outer scope) (hle : scope.length ≤ outer.length) : outer = scope := by
  obtain rfl | rfl | ⟨rest, rfl⟩ := h
  · exact (String.length_eq_zero_iff.mp (Nat.le_zero.mp hle)).symm
  · rfl
  · have hdot : ".".length = 1 := rfl
    simp only [String.length_append] at hle
    omega

theorem encloses_empty : Encloses outer "" ↔ outer = "" :=
  ⟨fun h => h.eq_of_length_le (Nat.zero_le _), .inl⟩

/-- No scope lies between a scope and the one around it. -/
theorem Around.encloses_iff (h : Around outer scope) : Encloses other scope ↔ other = scope ∨ Encloses other outer := by
  cases h with
  | plain h =>
    have hcut : ¬∃ rest, scope = other ++ "." ++ rest := by
      rintro ⟨rest, rfl⟩
      simp at h
    rw [encloses_empty, Encloses]
    tauto
  | @inside _ part h =>
    have hcut : (∃ rest, outer ++ "." ++ part = other ++ "." ++ rest) ↔
        other = outer ∨ ∃ rest, outer = other ++ "." ++ rest := by
      constructor
      · rintro ⟨rest, hrest⟩
        have hlist : outer.toList ++ '.' :: part.toList = other.toList ++ '.' :: rest.toList := by
          simpa using congrArg String.toList hrest
        -- The dot after `other` cannot lie in `part`.
        obtain ⟨more, hother, hmore⟩ | ⟨more, houter, hmore⟩ := List.append_eq_append_iff.mp hlist <;> cases more
        · exact .inl (String.toList_inj.mp (by simpa using hother))
        · simp_all
        · exact .inl (String.toList_inj.mp (by simpa using houter.symm))
        · obtain ⟨rfl, _⟩ := List.cons.inj hmore
          exact .inr ⟨String.ofList _, String.toList_inj.mp (by simpa using houter)⟩
      · rintro (rfl | ⟨rest, rfl⟩)
        · exact ⟨part, rfl⟩
        · exact ⟨rest ++ "." ++ part, by simp only [String.append_assoc]⟩
    rw [Encloses, Encloses, hcut]
    tauto

/-! ## The search -/

/-- The search from `scope` on ends with `found` after so many tries. Nothing bounds it from outside. -/
inductive Search (registry : Registry) (typeName : String) :
    (scope : String) → (tries : Nat) → (found : Option (String × Registered)) → Prop
  | found {scope : String} {entry : Registered} (h : registry.get? (qualify scope typeName) = some entry) :
    Search registry typeName scope 1 (some (qualify scope typeName, entry))
  | missing (h : registry.get? (qualify "" typeName) = none) : Search registry typeName "" 1 none
  | outward {scope outer : String} {tries : Nat} {found : Option (String × Registered)}
    (h : registry.get? (qualify scope typeName) = none) (hscope : scope ≠ "") (haround : Around outer scope)
    (later : Search registry typeName outer tries found) : Search registry typeName scope (tries + 1) found

/-- A search gives nothing if no scope around has the type, else that of the longest which has it. -/
theorem Search.answer {tries : Nat} {found : Option (String × Registered)}
    (h : Search registry typeName scope tries found) :
    (found = none ↔ ∀ outer, Encloses outer scope → registry.get? (qualify outer typeName) = none) ∧
    ∀ outer entry, Encloses outer scope → registry.get? (qualify outer typeName) = some entry →
      (∀ other, Encloses other scope → outer.length < other.length → registry.get? (qualify other typeName) = none) →
      found = some (qualify outer typeName, entry) := by
  have hself : ∀ scope, Encloses scope scope := fun _ => .inr (.inl rfl)
  induction h with
  | @found scope entry h =>
    refine ⟨⟨by simp, fun hnone => ?_⟩, fun outer entry' houter hget hlonger => ?_⟩
    · cases h.symm.trans (hnone scope (hself scope))
    · have hle : scope.length ≤ outer.length := by
        by_contra hlt
        cases h.symm.trans (hlonger scope (hself scope) (Nat.not_le.mp hlt))
      cases houter.eq_of_length_le hle
      cases h.symm.trans hget
      rfl
  | missing h =>
    simp_all [encloses_empty]
  | @outward scope next _ _ h _ haround _ ih =>
    -- Only the scopes from the next one on are left, since `scope` itself does not have the type.
    have hnext : ∀ outer, Encloses outer next → Encloses outer scope := fun _ ho => haround.encloses_iff.mpr (.inr ho)
    refine ⟨⟨fun hnone outer houter => ?_, fun hnone => ih.1.mpr fun outer houter => hnone outer (hnext outer houter)⟩,
      fun outer entry houter hget hlonger => ?_⟩ <;> obtain rfl | houter := haround.encloses_iff.mp houter
    · exact h
    · exact ih.1.mp hnone outer houter
    · cases h.symm.trans hget
    · exact ih.2 outer entry houter hget fun other ho => hlonger other (hnext other ho)

/-! ## The running lookup -/

/-- The scope of the first parts. -/
def front (scope : String) (k : Nat) : String := ".".intercalate ((Text.splitOn '.' scope).take k)

theorem front_length (scope : String) : front scope (Text.splitOn '.' scope).length = scope := by
  rw [front, List.take_length, ← String.toList_inj, String.toList_intercalate, Text.splitOn, List.map_map]
  simpa [Function.comp_def] using (Text.splitAt_parts '.' scope.toList).2.1

theorem around_front {k : Nat} (hk : k < (Text.splitOn '.' scope).length) :
    Around (front scope k) (front scope (k + 1)) := by
  obtain ⟨part, hpart, heq⟩ := List.mem_map.mp (List.getElem_mem hk)
  have hplain : '.' ∉ ((Text.splitOn '.' scope)[k]).toList := by
    rw [← heq, String.toList_ofList]
    exact (Text.splitAt_parts '.' scope.toList).2.2 part hpart
  rw [front, front, ← List.take_append_getElem hk]
  cases k with
  | zero => simpa using Around.plain hplain
  | succ k =>
    have hne : (Text.splitOn '.' scope).take (k + 1) ≠ [] := List.ne_nil_of_length_pos (by rw [List.length_take]; omega)
    rw [String.intercalate_append_of_ne_nil hne (List.cons_ne_nil _ _), String.intercalate_singleton]
    exact .inside hplain

theorem search_front (registry : Registry) (typeName scope : String) {k : Nat}
    (hk : k ≤ (Text.splitOn '.' scope).length) :
    ∃ tries, Search registry typeName (front scope k) tries
      (((List.range k).map (fun i => front scope (k - i)) ++ [""]).findSome? fun outer =>
        (registry.get? (qualify outer typeName)).map fun entry => (qualify outer typeName, entry)) ∧ tries ≤ k + 1 := by
  induction k with
  | zero =>
    refine ⟨1, ?_, by omega⟩
    cases hget : registry.get? (qualify "" typeName) with
    | none => simpa [front, hget] using Search.missing hget
    | some entry => simpa [front, hget] using Search.found hget
  | succ k ih =>
    obtain ⟨tries, hsearch, hle⟩ := ih (by omega)
    have haround := around_front hk
    rw [List.range_succ_eq_map, List.map_cons, List.map_map, List.cons_append, List.findSome?_cons]
    simp only [Function.comp_def, Nat.succ_eq_add_one, Nat.add_sub_add_right, Nat.sub_zero]
    cases hget : registry.get? (qualify (front scope (k + 1)) typeName) with
    | some entry => exact ⟨1, .found hget, by omega⟩
    | none =>
      by_cases hempty : front scope (k + 1) = ""
      · -- The scope around the empty one is empty, and has been tried.
        rw [hempty] at hget haround ⊢
        have hnext : front scope k = "" := encloses_empty.mp (haround.encloses_iff.mpr (.inr (.inr (.inl rfl))))
        rw [hnext] at hsearch
        have hnone := hsearch.answer.1.mpr fun outer houter => by rwa [encloses_empty.mp houter]
        exact ⟨1, by simpa [hnone] using Search.missing hget, by omega⟩
      · exact ⟨tries + 1, .outward hget hempty haround hsearch, by omega⟩

/-- With a dot in front a type name is a full name. Without one it means the type of that name in the longest scope
    around that has one, or nothing if none has. The search always ends, after one try more at most than `scope` has
    parts. -/
theorem innermost_first (registry : Registry) (typeName scope : String) :
    (∀ full, typeName = "." ++ full →
      registry.find? typeName scope = (registry.get? full).map fun entry => (full, entry)) ∧
    ((∀ full, typeName ≠ "." ++ full) →
      (∀ outer entry, Encloses outer scope → registry.get? (qualify outer typeName) = some entry →
        (∀ other, Encloses other scope → outer.length < other.length → registry.get? (qualify other typeName) = none) →
        registry.find? typeName scope = some (qualify outer typeName, entry)) ∧
      (registry.find? typeName scope = none ↔
        ∀ outer, Encloses outer scope → registry.get? (qualify outer typeName) = none) ∧
      ∃ tries, Search registry typeName scope tries (registry.find? typeName scope) ∧
        tries ≤ (Text.splitOn '.' scope).length + 1) := by
  refine ⟨?_, fun hplain => ?_⟩
  · rintro full rfl
    simp [find?]
  · have hhead : typeName.toList.head? ≠ some '.' := by
      intro hhead
      obtain ⟨full, hfull⟩ := List.head?_eq_some_iff.mp hhead
      exact hplain (String.ofList full) (String.toList_inj.mp (by simpa using hfull))
    have hsearch := search_front registry typeName scope (Nat.le_refl _)
    have hfind := find?_eq registry typeName scope
    rw [candidates, if_neg hhead, List.findSome?_map] at hfind
    rw [front_length] at hsearch
    obtain ⟨tries, hsearch, hle⟩ := hsearch
    rw [hfind]
    exact ⟨hsearch.answer.2, hsearch.answer.1, tries, hsearch, hle⟩

theorem innermost_first_nested :
    let registry : Registry := ⟨[("T", default), ("a.T", default)], []⟩
    registry.find? "T" "a.b" = some ("a.T", default) := by
  intro registry
  refine ((innermost_first registry "T" "a.b").2 fun full h => ?_).1 "a" default (.inr (.inr ⟨"b", by decide⟩)) rfl
    fun other hother hlonger => ?_
  · have hhead := congrArg (fun name => name.toList.head?) h
    simp at hhead
  · have hinside : Around "a" ("a" ++ "." ++ "b") := .inside (by decide)
    have hplain : Around "" "a" := .plain (by decide)
    rw [show "a.b" = "a" ++ "." ++ "b" by decide, hinside.encloses_iff, hplain.encloses_iff, encloses_empty] at hother
    rcases hother with rfl | rfl | rfl
    · rfl
    · exact absurd hlonger (by decide)
    · exact absurd hlonger (by decide)

end Schema.Registry

end Protobuf
