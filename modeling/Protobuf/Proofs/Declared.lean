/-
  Protobuf.Proofs.Declared — what resolved fields come from.

  A resolved message has a field for each that is declared, in the order of declaration, and each was checked and
  resolved by itself (`Context.FieldFrom`, `message_fields`). Every type of a resolved file comes from a message
  that the file declares (`Registry.resolve_fields`).

  What a type name means depends only on what the files declare: the full name, or the first found from the scope
  outwards (`Registry.Means`, `find?_means`).
-/

import Protobuf.Proofs.Members

namespace Protobuf.Schema

/-! ## Names -/

namespace Registry

/-- The full names that a type name can stand for inside `scope`, in the order in which they are tried. -/
def candidates (typeName scope : String) : List String :=
  if typeName.toList.head? = some '.' then [String.ofList typeName.toList.tail]
  else (outwards scope).map fun outer => qualify outer typeName

/-- The type name stands for this declaration: it has one of the names, and none before it is declared. -/
def Means (declared : List (String × Declaration)) (scope typeName : String) (declaration : Declaration) : Prop :=
  ∃ before name after, candidates typeName scope = before ++ name :: after ∧ (name, declaration) ∈ declared ∧
    ∀ other ∈ before, other ∉ declared.map Prod.fst

variable {registry : Registry} {files : List Descriptor.File} {name typeName scope : String} {entry : Registered}

theorem find?_eq (registry : Registry) (typeName scope : String) :
    registry.find? typeName scope =
      (candidates typeName scope).findSome? fun name => (registry.get? name).map fun entry => (name, entry) := by
  unfold find? candidates
  split
  · rename_i full hfull
    cases registry.get? (String.ofList full) <;> simp [*]
  · rename_i hplain
    have hhead : typeName.toList.head? ≠ some '.' := by
      intro hhead
      obtain ⟨full, hfull⟩ := List.head?_eq_some_iff.mp hhead
      exact hplain full hfull
    rw [if_neg hhead, List.findSome?_map]
    rfl

theorem get?_isSome_iff (h : ofFiles files = .ok registry) :
    (registry.get? name).isSome = true ↔ name ∈ (files.flatMap declaredFile).map Prod.fst := by
  obtain ⟨_, herror, _⟩ | ⟨_, items, hok, hholds, hdeclared, _⟩ := ofFiles_cases files
  · cases h.symm.trans herror
  · cases h.symm.trans hok
    rw [get?, lookup_isSome_iff, (hholds.types.map Prod.fst).mem_iff, ← hdeclared, List.map_map, List.map_map]
    rfl

theorem nodup_declared (h : ofFiles files = .ok registry) : ((files.flatMap declaredFile).map Prod.fst).Nodup := by
  obtain ⟨_, herror, _⟩ | ⟨_, items, hok, hholds, hdeclared, _⟩ := ofFiles_cases files
  · cases h.symm.trans herror
  · rw [← hdeclared, List.map_map]
    exact hholds.names

theorem get?_declared (h : ofFiles files = .ok registry) (hget : registry.get? name = some entry) :
    (name, entry.declaration) ∈ files.flatMap declaredFile := by
  obtain ⟨_, herror, _⟩ | ⟨_, items, hok, hholds, hdeclared, _⟩ := ofFiles_cases files
  · cases h.symm.trans herror
  · cases h.symm.trans hok
    have hname : name ∈ registry.types.map Prod.fst := lookup_isSome_iff.mp (by rw [← get?, hget]; rfl)
    rw [(hholds.types.map Prod.fst).mem_iff, List.map_map] at hname
    obtain ⟨item, hitem, rfl⟩ := List.mem_map.mp hname
    cases hget.symm.trans (hholds.get?_eq hitem)
    rw [← hdeclared]
    exact List.mem_map_of_mem hitem

/-- What a name is resolved to is what it means. -/
theorem find?_means (h : ofFiles files = .ok registry) (hfind : registry.find? typeName scope = some (name, entry)) :
    Means (files.flatMap declaredFile) scope typeName entry.declaration := by
  rw [find?_eq, List.findSome?_eq_some_iff] at hfind
  obtain ⟨before, found, after, hsplit, hfound, hbefore⟩ := hfind
  obtain ⟨entry', hget, hpair⟩ := Option.map_eq_some_iff.mp hfound
  cases hpair
  refine ⟨before, name, after, hsplit, get?_declared h hget, fun other ho hmem => ?_⟩
  have hnone := hbefore other ho
  obtain ⟨entry', hsome⟩ := Option.isSome_iff_exists.mp ((get?_isSome_iff h).mpr hmem)
  rw [hsome] at hnone
  cases hnone

theorem Means.find? {declared : List (String × Declaration)} {declaration : Declaration}
    (h : Means declared scope typeName declaration) :
    ∃ name, (candidates typeName scope).find? (· ∈ declared.map Prod.fst) = some name ∧ (name, declaration) ∈ declared := by
  obtain ⟨before, name, after, hsplit, hmem, hbefore⟩ := h
  refine ⟨name, List.find?_eq_some_iff_append.mpr ⟨?_, before, after, hsplit, fun other ho => ?_⟩, hmem⟩
  · exact decide_eq_true (List.mem_map_of_mem hmem)
  · simpa using hbefore other ho

/-- A type name stands for one declaration at most, where no name is declared twice. -/
theorem Means.unique {declared : List (String × Declaration)} {a b : Declaration}
    (hnodup : (declared.map Prod.fst).Nodup) (ha : Means declared scope typeName a)
    (hb : Means declared scope typeName b) : a = b := by
  obtain ⟨name, hname, hmem⟩ := ha.find?
  obtain ⟨name', hname', hmem'⟩ := hb.find?
  cases hname.symm.trans hname'
  exact Option.some.inj ((lookup_of_mem hnodup hmem).symm.trans (lookup_of_mem hnodup hmem'))

end Registry

/-! ## Fields -/

namespace Context

/-- The field comes from the declaration: its number passed, and it is what the declaration resolves to but for what
    depends on the rest of the message. Only a field that needs a presence bit has one. -/
structure FieldFrom (context : Context) (fullName : String) (decl : Descriptor.Field) (field : Field) : Prop where
  number : fieldNumber decl (fullName ++ "." ++ decl.nameText) = .ok field.number
  alone : ∃ alone, context.field decl (fullName ++ "." ++ decl.nameText) field.number fullName = .ok alone ∧
    field.type = alone.type ∧ field.cardinality = alone.cardinality ∧ field.default = alone.default
  bit : field.presenceBit.isSome = true → needsBit field = true

variable {context : Context} {fullName : String} {place : Place}

/-- What the type of a field is resolved to: the scalar type it declares, or what its type name is found to stand
    for, which is of the kind it declares if it declares one. -/
theorem valueType_ok {decl : Descriptor.Field} {fieldName scope : String} {type : ValueType}
    {declaration : Option Declaration} (h : context.valueType decl fieldName scope = .ok (type, declaration)) :
    (∃ scalar, decl.type = some (.scalar scalar) ∧ type = .plain (.scalar scalar) ∧ declaration = none) ∨
    ∃ name entry, context.registry.find? decl.typeNameText scope = some (name, entry) ∧
      declaration = some entry.declaration ∧
      ((∃ message, entry.declaration = .message message ∧ type = .message ⟨name, entry.path⟩ ∧
          (decl.type = some .message ∨ decl.type = none)) ∨
        ∃ enum, entry.declaration = .enum enum ∧ type = .plain (.enum ⟨name, entry.path⟩) ∧
          (decl.type = some .enum ∨ decl.type = none)) := by
  unfold valueType at h
  dsimp only at h
  split at h
  · cases h
  · rename_i scalar hscalar
    cases h
    exact .inl ⟨scalar, hscalar, rfl, rfl⟩
  · rename_i hgroup hscalar
    split at h
    · cases h
    · rename_i name entry hfind
      refine .inr ⟨name, entry, hfind, ?_⟩
      -- what is left of the declared types is a message, an enum and none
      have hrest : decl.type = some .message ∨ decl.type = some .enum ∨ decl.type = none := by
        cases htype : decl.type with
        | none => exact .inr (.inr rfl)
        | some declared =>
          cases declared with
          | group => exact absurd htype hgroup
          | scalar scalar => exact absurd htype (hscalar scalar)
          | message => exact .inl rfl
          | enum => exact .inr (.inl rfl)
      split at h
      · rename_i message hmessage
        split at h
        · cases h
        · rename_i hne
          cases h
          refine ⟨rfl, .inl ⟨message, hmessage, rfl, ?_⟩⟩
          rcases hrest with h | h | h
          · exact .inl h
          · exact absurd h hne
          · exact .inr h
      · rename_i enum henum
        split at h
        · cases h
        · rename_i hne
          cases h
          refine ⟨rfl, .inr ⟨enum, henum, rfl, ?_⟩⟩
          rcases hrest with h | h | h
          · exact absurd h hne
          · exact .inl h
          · exact .inr h

theorem addField_from {real : List (Nat × Descriptor.Oneof)} {progress next : Progress} {index : Nat}
    {decl : Descriptor.Field} (h : context.addField fullName place real progress index decl = .ok next) :
    ∃ field, next.fields = progress.fields ++ [field] ∧ context.FieldFrom fullName decl field := by
  obtain ⟨alone, field, hadds⟩ := addField_adds h
  refine ⟨field, hadds.fields, hadds.number, ⟨alone, hadds.resolved, hadds.type, hadds.cardinality, hadds.default⟩, ?_⟩
  intro hbit
  rw [hadds.bit] at hbit
  by_cases hneeds : needsBit field = true
  · exact hneeds
  · simp [hneeds] at hbit

/-- What holds of each field as it is added holds of all that are. -/
theorem addFields_each {real : List (Nat × Descriptor.Oneof)} {Q : Descriptor.Field → Field → Prop}
    (hadd : ∀ {progress next : Progress} {index : Nat} {decl : Descriptor.Field},
      context.addField fullName place real progress index decl = .ok next →
        ∃ field, next.fields = progress.fields ++ [field] ∧ Q decl field)
    {progress next : Progress} {decls : List Descriptor.Field}
    (h : context.addFields fullName place real progress decls = .ok next) :
    ∃ fields, next.fields = progress.fields ++ fields ∧ List.Forall₂ Q decls fields := by
  refine addFields_induction (P := fun done next => ∃ fields, next.fields = progress.fields ++ fields ∧
    List.Forall₂ Q done fields) h ⟨[], (List.append_nil _).symm, .nil⟩ ?_
  rintro done before decl after ⟨fields, hfields, hdone⟩ hnext
  obtain ⟨field, hfield, hholds⟩ := hadd hnext
  refine ⟨fields ++ [field], ?_, List.rel_append hdone (.cons hholds .nil)⟩
  rw [hfield, hfields, List.append_assoc]

/-- A resolved message has a field for each that is declared, in order. -/
theorem message_fields {decl : Descriptor.Message} {tree : MessageTree}
    (h : context.message fullName place decl = .ok tree) :
    List.Forall₂ (context.FieldFrom fullName) decl.fields tree.type.fields := by
  obtain ⟨entry, progress, _, hprogress, _, _, _, _, _, hfields, _⟩ := message_ok h
  obtain ⟨fields, hnext, hfrom⟩ := addFields_each addField_from hprogress
  rw [(addOneofs_eq ..).2.1, List.nil_append] at hnext
  rw [hfields, hnext]
  exact hfrom

end Context

/-! ## Types -/

mutual

theorem MessageTree.flatten_eq : ∀ tree : MessageTree, tree.flatten = tree.subtrees.map MessageTree.type
  | ⟨type, nested⟩ => by rw [MessageTree.flatten, MessageTree.subtrees, List.map_cons, flattenAll_eq nested]

theorem flattenAll_eq : ∀ trees : List MessageTree, flattenAll trees = (subtreesAll trees).map MessageTree.type
  | [] => by rw [flattenAll, subtreesAll, List.map_nil]
  | tree :: rest => by
    rw [flattenAll, subtreesAll, List.map_append, MessageTree.flatten_eq tree, flattenAll_eq rest]

end

theorem MessageTree.type_mem_flatten (tree : MessageTree) : tree.type ∈ tree.flatten := by
  cases tree
  rw [flatten]
  exact List.mem_cons_self ..

/-- Every type of a resolved file comes from a message that the file declares. -/
theorem Registry.resolve_fields {registry : Registry} {file : Descriptor.File} {keepsUnknown : Bool} {resolved : File}
    (h : registry.resolve file keepsUnknown = .ok resolved) {type : MessageType} (ht : type ∈ resolved.messageTypes) :
    ∃ (context : Context) (decl : Descriptor.Message), context.registry = registry ∧
      (type.fullName, Declaration.message decl) ∈ declaredFile file ∧
      List.Forall₂ (context.FieldFrom type.fullName) decl.fields type.fields := by
  rw [File.messageTypes, flattenAll_eq] at ht
  obtain ⟨tree, htree, rfl⟩ := List.mem_map.mp ht
  obtain ⟨context, hregistry, hfrom, _⟩ := resolve_from h
  obtain ⟨outer, place, decl, hsub, hmessage⟩ := hfrom tree htree
  have hdeclared := Context.message_declared hmessage
  obtain ⟨_, _, _, _, _, _, hfull, _⟩ := Context.message_ok hmessage
  refine ⟨context, decl, hregistry, hsub hdeclared, ?_⟩
  rw [hfull]
  exact Context.message_fields hmessage

end Protobuf.Schema
