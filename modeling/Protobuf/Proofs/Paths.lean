/-
  Protobuf.Proofs.Paths — where the code of a file's types goes.

  A resolved message has the path and the module that were registered for it, its choices have theirs, and a module
  is generated for it just if one was claimed (`Registry.Places`). So what is generated for files that register has
  the paths of the registry, no two of which are the same (`ofFiles_paths`).
-/

import Protobuf.Proofs.Registration

namespace Protobuf.Schema

/-! ## Generated messages -/

mutual

/-- A message and all inside it, outermost first. -/
def MessageTree.subtrees : MessageTree → List MessageTree
  | ⟨type, nested⟩ => ⟨type, nested⟩ :: subtreesAll nested

def subtreesAll : List MessageTree → List MessageTree
  | [] => []
  | tree :: rest => tree.subtrees ++ subtreesAll rest

end

namespace Registry

variable {registry : Registry}

/-- The enum has the path registered for its full name. -/
def PlacesEnum (registry : Registry) (enum : EnumType) : Prop :=
  ∃ entry decl, registry.get? enum.fullName = some entry ∧ entry.declaration = .enum decl ∧ enum.path = entry.path

/-- The message has the path and module registered for its full name, a module if one was claimed, and its choices
    and enums the paths registered for them. -/
def Places (registry : Registry) (tree : MessageTree) : Prop :=
  ∃ entry decl, registry.get? tree.type.fullName = some entry ∧ entry.declaration = .message decl ∧
    tree.type.path = entry.path ∧ tree.type.module = entry.module ∧ tree.hasModule = decl.needsModule ∧
    tree.type.oneofs.map Oneof.path = registry.choicePaths tree.type.fullName entry ∧
    ∀ enum ∈ tree.type.enums, registry.PlacesEnum enum

/-- The declarations are registered, with names for all choices. -/
def Covers (registry : Registry) (declared : List (String × Declaration)) : Prop :=
  ∀ item ∈ declared, ∃ entry, registry.get? item.1 = some entry ∧ entry.declaration = item.2 ∧
    ∀ index ∈ item.2.choices, (registry.oneofName? item.1 index).isSome = true

end Registry

namespace Context

variable {context : Context} {fullName : String} {place : Place}

/-- The message comes from a declaration among these. -/
def ResolvedFrom (context : Context) (declared : List (String × Declaration)) (tree : MessageTree) : Prop :=
  ∃ outer place decl, declaredMessage outer decl ⊆ declared ∧ context.message (qualify outer decl.nameText) place decl = .ok tree

theorem ResolvedFrom.mono {declared more : List (String × Declaration)} {tree : MessageTree}
    (h : context.ResolvedFrom declared tree) (hsub : declared ⊆ more) : context.ResolvedFrom more tree := by
  obtain ⟨outer, place, decl, hdeclared, hmessage⟩ := h
  exact ⟨outer, place, decl, List.Subset.trans hdeclared hsub, hmessage⟩

mutual

theorem message_subtrees {outer : String} {place : Place} : ∀ {decl : Descriptor.Message} {tree : MessageTree},
    context.message (qualify outer decl.nameText) place decl = .ok tree →
      ∀ inner ∈ tree.subtrees, context.ResolvedFrom (declaredMessage outer decl) inner
  | .mk name fields nested enums oneofs mapEntry, ⟨type, trees⟩, h => by
    obtain ⟨_, _, _, _, htrees, _⟩ := message_ok h
    have htrees : context.messages (qualify outer _) place .nestedMessage 0 nested = .ok trees := htrees
    rw [MessageTree.subtrees]
    refine List.forall_mem_cons.mpr ⟨⟨outer, place, _, List.Subset.refl _, h⟩, fun inner hinner => ?_⟩
    refine (messages_subtrees htrees inner hinner).mono ?_
    rw [declaredMessage]
    exact List.subset_cons_of_subset _ (List.subset_append_right _ _)

theorem messages_subtrees {outer : String} {place : Place} {part : Part} {index : Nat} :
    ∀ {decls : List Descriptor.Message} {trees : List MessageTree},
      context.messages outer place part index decls = .ok trees →
        ∀ inner ∈ subtreesAll trees, context.ResolvedFrom (declaredMessages outer decls) inner
  | [], trees, h => by
    rw [messages] at h
    cases h
    exact List.forall_mem_nil _
  | decl :: rest, trees, h => by
    rw [messages] at h
    rw [declaredMessages]
    split at h
    · intro inner hinner
      exact (messages_subtrees h inner hinner).mono (List.subset_append_right _ _)
    · obtain ⟨tree, htree, h⟩ := bind_ok h
      obtain ⟨others, hothers, h⟩ := bind_ok h
      cases h
      rw [subtreesAll]
      refine List.forall_mem_append.mpr ⟨fun inner hinner => ?_, fun inner hinner => ?_⟩
      · exact (message_subtrees htree inner hinner).mono (List.subset_append_left _ _)
      · exact (messages_subtrees hothers inner hinner).mono (List.subset_append_right _ _)

end

theorem addOneofs_paths (entry : Registered) (real : List (Nat × Descriptor.Oneof)) (progress : Progress) :
    (context.addOneofs entry fullName place real progress).oneofs.map Oneof.path =
      progress.oneofs.map Oneof.path ++ real.map fun (index, oneof) =>
        ⟨entry.path.modules ++ [entry.module],
          (context.registry.oneofName? fullName index).getD (Naming.pascal oneof.nameText)⟩ := by
  induction real generalizing progress with
  | nil => simp [addOneofs]
  | cons first real ih =>
    rw [addOneofs, List.foldl_cons, ← addOneofs, ih]
    simp [addOneof]

/-- A field adds to the fields of a choice and changes nothing else of it. -/
theorem addField_oneofs {real : List (Nat × Descriptor.Oneof)} {progress next : Progress} {index : Nat}
    {decl : Descriptor.Field} (h : context.addField fullName place real progress index decl = .ok next) {α : Type}
    {f : Oneof → α} (hf : ∀ oneof fields, f { oneof with fields } = f oneof) :
    next.oneofs.map f = progress.oneofs.map f := by
  obtain ⟨alone, field, hadds⟩ := addField_adds h
  rw [hadds.oneofs]
  cases field.oneof with
  | none => rfl
  | some slot =>
    refine List.ext_getElem? fun i => ?_
    rw [Option.elim_some, List.getElem?_map, List.getElem?_map, List.getElem?_modify]
    cases progress.oneofs[i]? with
    | none => rfl
    | some oneof =>
      split
      · exact congrArg some (hf ..)
      · rfl

theorem messages_isEmpty {outer : String} {index : Nat} {decls : List Descriptor.Message} {trees : List MessageTree}
    (h : context.messages outer place .nestedMessage index decls = .ok trees) :
    trees.isEmpty = !decls.any (!·.isMapEntry) := by
  induction decls generalizing index trees with
  | nil =>
    rw [messages] at h
    cases h
    rfl
  | cons decl decls ih =>
    rw [messages] at h
    split at h
    · rename_i hentry
      rw [ih h]
      simp [hentry.2]
    · rename_i hentry
      obtain ⟨tree, _, h⟩ := bind_ok h
      obtain ⟨rest, _, h⟩ := bind_ok h
      cases h
      have hkept : decl.isMapEntry = false := Bool.eq_false_iff.mpr fun he => hentry ⟨rfl, he⟩
      simp [hkept]

theorem enums_places {outer : String} {part : Part} {decls : List Descriptor.Enum} {types : List EnumType}
    (h : context.enums outer place part decls = .ok types)
    (hcovers : context.registry.Covers (declaredEnums outer decls)) :
    types.isEmpty = decls.isEmpty ∧ ∀ enum ∈ types, context.registry.PlacesEnum enum := by
  obtain ⟨hlen, hmem⟩ := mapM_ok h
  rw [List.length_zipIdx] at hlen
  refine ⟨by rw [Bool.eq_iff_iff, List.isEmpty_iff_length_eq_zero, List.isEmpty_iff_length_eq_zero, hlen], ?_⟩
  intro type ht
  obtain ⟨⟨decl, index⟩, hpair, htype⟩ := hmem type ht
  have hdecl : decl ∈ decls := List.mem_of_getElem? (List.mem_zipIdx_iff_getElem?.mp hpair)
  obtain ⟨entry, hget, hentry, _⟩ := hcovers _ (List.mem_map_of_mem hdecl)
  dsimp only [enum] at htype
  obtain ⟨own, hown, htype⟩ := bind_ok htype
  cases htype
  unfold registered at hown
  rw [hget] at hown
  cases hown
  exact ⟨entry, decl, hget, hentry, rfl⟩

/-- The choices of a message have the paths registered for them. -/
theorem oneofs_paths {entry : Registered} {decl : Descriptor.Message} (hdecl : entry.declaration = .message decl)
    (hnames : ∀ index ∈ entry.declaration.choices, (context.registry.oneofName? fullName index).isSome = true)
    {members : Naming.Scope} {fields : List Descriptor.Field} {progress : Progress}
    (h : context.addFields fullName place decl.realOneofs
      (context.addOneofs entry fullName place decl.realOneofs { members, oneofs := [] }) fields = .ok progress) :
    progress.oneofs.map Oneof.path = context.registry.choicePaths fullName entry := by
  have hpaths : progress.oneofs.map Oneof.path = decl.realOneofs.map fun (index, oneof) =>
      ⟨entry.path.modules ++ [entry.module],
        (context.registry.oneofName? fullName index).getD (Naming.pascal oneof.nameText)⟩ :=
    addFields_induction (P := fun _ progress => progress.oneofs.map Oneof.path = _) h (addOneofs_paths ..)
      fun hp h => (addField_oneofs h fun _ _ => rfl).trans hp
  rw [hdecl] at hnames
  rw [hpaths, Registry.choicePaths, hdecl, Declaration.choices, List.map_map]
  refine List.map_congr_left fun pair hpair => ?_
  obtain ⟨name, hname⟩ := Option.isSome_iff_exists.mp (hnames pair.1 (List.mem_map_of_mem hpair))
  show ItemPath.mk _ ((context.registry.oneofName? fullName pair.1).getD _) = ItemPath.mk _ _
  rw [hname]
  rfl

/-- A message has all that was registered for it. -/
theorem message_places {outer : String} {decl : Descriptor.Message} {tree : MessageTree}
    (h : context.message (qualify outer decl.nameText) place decl = .ok tree)
    (hcovers : context.registry.Covers (declaredMessage outer decl)) : context.registry.Places tree := by
  obtain ⟨entry, progress, hentry, hprogress, hinner, htypes, hfull, hpath, hmodule, _, honeofs, _⟩ := message_ok h
  rw [declaredMessage_eq] at hcovers
  obtain ⟨hown, hinside⟩ := List.forall_mem_cons.mp hcovers
  obtain ⟨own, hget, hdecl, hnames⟩ := hown
  have hsame : own = entry := by
    unfold registered at hentry
    rw [hget] at hentry
    cases hentry
    rfl
  subst hsame
  rw [← hdecl] at hnames
  have hpaths := oneofs_paths hdecl hnames hprogress
  rw [← honeofs, ← hfull] at hpaths
  obtain ⟨hempty, henums⟩ := enums_places htypes (List.forall_mem_append.mp hinside).1
  refine ⟨own, decl, hfull ▸ hget, hdecl, hpath, hmodule, ?_, hpaths, henums⟩
  have hchoices : tree.type.oneofs.isEmpty = decl.realOneofs.isEmpty := by
    have hlen := congrArg List.isEmpty hpaths
    rwa [Registry.choicePaths, hdecl, Declaration.choices, List.isEmpty_map, List.isEmpty_map, List.isEmpty_map] at hlen
  rw [MessageTree.hasModule, Descriptor.Message.needsModule, messages_isEmpty hinner, hempty, hchoices, Bool.not_not]

end Context

/-! ## Registered files -/

namespace Registry

variable {registry : Registry} {items : List Placed}

theorem Holds.covers (h : Holds registry items) : registry.Covers (items.map Placed.declared) := by
  intro declared hd
  obtain ⟨item, hi, rfl⟩ := List.mem_map.mp hd
  refine ⟨item.entry, h.get?_eq hi, rfl, fun index hindex => ?_⟩
  have hindex : index ∈ item.choices.map Prod.fst := by
    rw [h.choices item hi]
    exact hindex
  obtain ⟨choice, hc, rfl⟩ := List.mem_map.mp hindex
  exact Option.isSome_iff_exists.mpr ⟨_, h.oneofName?_eq hi hc⟩

/-- What resolving a file gives comes from its declarations. -/
theorem resolve_from {file : Descriptor.File} {keepsUnknown : Bool} {resolved : File}
    (h : registry.resolve file keepsUnknown = .ok resolved) : ∃ context : Context, context.registry = registry ∧
      (∀ tree ∈ subtreesAll resolved.messages, context.ResolvedFrom (declaredFile file) tree) ∧
      context.enums file.packageText [] .enum file.enums = .ok resolved.enums := by
  obtain ⟨context, hregistry, _, hmessages, henums, _⟩ := resolve_ok h
  refine ⟨context, hregistry, fun tree ht => ?_, henums⟩
  exact (Context.messages_subtrees hmessages tree ht).mono (List.subset_append_right _ _)

/-- Every message and enum of a file that is resolved is placed. -/
theorem resolve_places {file : Descriptor.File} (hcovers : registry.Covers (declaredFile file)) {keepsUnknown : Bool}
    {resolved : File} (h : registry.resolve file keepsUnknown = .ok resolved) :
    (∀ tree ∈ subtreesAll resolved.messages, registry.Places tree) ∧ ∀ enum ∈ resolved.enums, registry.PlacesEnum enum := by
  obtain ⟨context, rfl, hfrom, henums⟩ := resolve_from h
  refine ⟨fun tree ht => ?_, (Context.enums_places henums (List.forall_mem_append.mp hcovers).1).2⟩
  obtain ⟨outer, place, decl, hsub, hmessage⟩ := hfrom tree ht
  exact Context.message_places hmessage fun item hitem => hcovers item (hsub hitem)

/-- Registering fails just if a full name is declared twice, and names it. Else all that is declared is registered;
    types, modules of messages and types of choices have paths of their own, none of them the path of a package module;
    and these are the paths of all that is generated for the files. -/
theorem ofFiles_paths (files : List Descriptor.File) :
    (∀ e, ofFiles files = .error e → ∃ name, e = .duplicateType name ∧
      1 < ((files.flatMap declaredFile).map Prod.fst).count name) ∧
    ((∃ name, ofFiles files = .error (.duplicateType name)) ↔ ¬ ((files.flatMap declaredFile).map Prod.fst).Nodup) ∧
    ∀ registry, ofFiles files = .ok registry →
      (registry.types.map fun entry => (entry.1, entry.2.declaration)).Perm (files.flatMap declaredFile) ∧
      registry.Covers (files.flatMap declaredFile) ∧
      registry.paths.Nodup ∧ (∀ path ∈ registry.paths, path ∉ files.flatMap packagePaths) ∧
      ∀ file ∈ files, ∀ keepsUnknown resolved, registry.resolve file keepsUnknown = .ok resolved →
        (∀ tree ∈ subtreesAll resolved.messages, registry.Places tree) ∧
          ∀ enum ∈ resolved.enums, registry.PlacesEnum enum := by
  rcases ofFiles_cases files with ⟨name, herror, htwice⟩ | ⟨registry, items, hok, hholds, hdeclared, hpackages⟩
  · refine ⟨fun e he => ?_, ⟨fun _ hnodup => ?_, fun _ => ⟨name, herror⟩⟩, fun registry hok => ?_⟩
    · cases herror.symm.trans he
      exact ⟨name, rfl, htwice⟩
    · have := List.nodup_iff_count_le_one.mp hnodup name
      omega
    · cases herror.symm.trans hok
  · have hnames : ((files.flatMap declaredFile).map Prod.fst).Nodup := by
      rw [← hdeclared, List.map_map]
      exact hholds.names
    refine ⟨fun e he => ?_, ⟨fun herror => ?_, fun hdup => absurd hnames hdup⟩, fun registry' hok' => ?_⟩
    · cases hok.symm.trans he
    · obtain ⟨name, herror⟩ := herror
      cases hok.symm.trans herror
    · cases hok.symm.trans hok'
      have hcovers := hdeclared ▸ hholds.covers
      refine ⟨?_, hcovers, hholds.perm_paths.nodup_iff.mpr hholds.paths, fun path hp => ?_, fun file hf _ _ hresolve => ?_⟩
      · rw [← hdeclared]
        have htypes := hholds.types.map fun entry => (entry.1, entry.2.declaration)
        rwa [List.map_map] at htypes
      · exact hpackages path (hholds.perm_paths.mem_iff.mp hp)
      · refine resolve_places (fun item hitem => hcovers item ?_) hresolve
        exact List.mem_flatMap.mpr ⟨file, hf, hitem⟩

/-- The package `a.foo`, the type `foo` and the modules of `Foo` and `foo` all ask for one name in the module `a`. -/
example :
    let outside : Descriptor.Message := .mk (some "Foo") [] [] [{ name := some "Kind" }] [{ name := some "kind" }] none
    let inside : Descriptor.Message := .mk (some "foo") [] [] [{ name := some "Kind" }] [] none
    let registry := ofFiles [{ package := some "a", messages := [outside, inside] }, { package := some "a.foo" }]
    registry.toOption.map Registry.paths = some
      [ ⟨["a", "foo_3"], "Kind"⟩, ⟨["a"], "foo2"⟩, ⟨["a"], "foo_3"⟩, ⟨["a", "foo_2"], "Kind"⟩, ⟨["a"], "Foo"⟩,
        ⟨["a"], "foo_2"⟩, ⟨["a", "foo_2"], "KindOneof"⟩ ] := by
  decide +kernel

end Registry

end Protobuf.Schema
