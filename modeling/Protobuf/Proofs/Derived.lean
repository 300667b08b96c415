/-
  Protobuf.Proofs.Derived — the identifiers derived from a schema.

  Those that keep all characters of a declared name are always usable (`keptNames`). Those that lose underscores
  (`joinedNames`: the types and variants of choices, the variants of enums) are usable just if each of their sources
  leads with a letter, and else one of them is no identifier.
-/

import Protobuf.Generate.Output
import Protobuf.Proofs.Claimed
import Protobuf.Proofs.Enumerations

namespace Protobuf.Schema

open Naming (Scope isWord isWordChar Plain Usable Leads Spoilt)

/-! ## Names made from words -/

theorem isWordChar_drop {name : String} (h : isWord name = true) (n : Nat) :
    ∀ c ∈ (String.ofList (name.toList.drop n)).toList, isWordChar c = true := by
  rw [String.toList_ofList]
  intro c hc
  exact Naming.isWord_chars h c (List.mem_of_mem_drop hc)

/-- A name claimed for what a word becomes without its underscores. -/
structure Made (source name : String) : Prop where
  plain : Leads source → Plain name
  spoilt : ¬ Leads source → Spoilt name

theorem Made.of_joined {source joined : String} (h : Naming.Joined source joined) (scope : Scope) :
    Made source (scope.fresh (Naming.typeName joined) "") where
  plain hleads := Naming.plain_fresh (Naming.plain_typeName (h.isWord hleads)) (by simp) scope
  spoilt hleads := by
    have hspoilt := h.spoilt hleads
    rw [Naming.spoilt_typeName hspoilt]
    exact Naming.spoilt_fresh hspoilt scope

/-- Names made from sources, each from one and one from each. -/
structure MadeFrom (sources names : List String) : Prop where
  plain : (∀ source ∈ sources, Leads source) → ∀ name ∈ names, Plain name
  spoilt : (∃ source ∈ sources, ¬ Leads source) → ∃ name ∈ names, Spoilt name

theorem MadeFrom.append {sources sources' names names' : List String} (h : MadeFrom sources names)
    (h' : MadeFrom sources' names') : MadeFrom (sources ++ sources') (names ++ names') where
  plain hleads := by
    obtain ⟨hfirst, hsecond⟩ := List.forall_mem_append.mp hleads
    exact List.forall_mem_append.mpr ⟨h.plain hfirst, h'.plain hsecond⟩
  spoilt := by
    rintro ⟨source, hsource, hleads⟩
    rcases List.mem_append.mp hsource with hsource | hsource
    · obtain ⟨name, hname, hspoilt⟩ := h.spoilt ⟨source, hsource, hleads⟩
      exact ⟨name, List.mem_append_left _ hname, hspoilt⟩
    · obtain ⟨name, hname, hspoilt⟩ := h'.spoilt ⟨source, hsource, hleads⟩
      exact ⟨name, List.mem_append_right _ hname, hspoilt⟩

theorem MadeFrom.of_each {sources names : List String} (hnames : ∀ name ∈ names, ∃ source ∈ sources, Made source name)
    (hsources : ∀ source ∈ sources, ∃ name ∈ names, Made source name) : MadeFrom sources names where
  plain hleads name hname := by
    obtain ⟨source, hsource, hmade⟩ := hnames name hname
    exact hmade.plain (hleads source hsource)
  spoilt := by
    rintro ⟨source, hsource, hleads⟩
    obtain ⟨name, hname, hmade⟩ := hsources source hsource
    exact ⟨name, hname, hmade.spoilt hleads⟩

/-- All names are usable just if all sources lead with a letter, and then only are all of them identifiers. -/
theorem MadeFrom.iff {sources names : List String} (h : MadeFrom sources names) :
    ((∀ name ∈ names, Usable name) ↔ ∀ source ∈ sources, Leads source) ∧
      ((∀ name ∈ names, Naming.isIdentifier name = true) ↔ ∀ source ∈ sources, Leads source) := by
  have hidentifiers : (∀ name ∈ names, Naming.isIdentifier name = true) → ∀ source ∈ sources, Leads source := by
    intro hall source hsource
    by_contra hleads
    obtain ⟨name, hname, hspoilt⟩ := h.spoilt ⟨source, hsource, hleads⟩
    have hname := hall name hname
    rw [Naming.isIdentifier_of_spoilt hspoilt] at hname
    cases hname
  have husable : (∀ source ∈ sources, Leads source) → ∀ name ∈ names, Usable name := by
    intro hleads name hname
    exact .plain (h.plain hleads name hname)
  refine ⟨⟨fun hall => hidentifiers fun name hname => (hall name hname).isIdentifier, husable⟩, hidentifiers, ?_⟩
  intro hleads name hname
  exact (husable hleads name hname).isIdentifier

/-! ## Enums -/

namespace Context

/-- How many characters the variants of an enum drop in front. -/
def droppedOf (decl : Descriptor.Enum) : Nat :=
  if sharesStem (Naming.upperSnake decl.nameText ++ "_") decl.values then
    (Naming.upperSnake decl.nameText ++ "_").length
  else 0

end Context

/-- The first value of each number. -/
def firstValues (decls : List Descriptor.EnumValue) : List Descriptor.EnumValue :=
  decls.filter fun decl => (decls.find? fun other => other.numberValue == decl.numberValue) = some decl

/-- What the variants of an enum are named for. -/
def variantSources (decl : Descriptor.Enum) : List String :=
  (firstValues decl.values).map fun value => String.ofList (value.nameText.toList.drop (Context.droppedOf decl))

namespace Context

variable {context : Context} {place : Place} {fullName : String} {dropped : Nat} {progress : EnumProgress}
  {decls : List Descriptor.EnumValue} {decl : Descriptor.EnumValue} {index : Nat}

/-- Variants so far are named for the first values of the declarations. -/
structure EnumProgress.Names (progress : EnumProgress) (dropped : Nat) (decls : List Descriptor.EnumValue) : Prop where
  reflects : progress.Reflects decls
  made : ∀ value ∈ progress.values, ∃ decl ∈ firstValues decls, ∃ scope : Scope,
    value.variant = scope.fresh (variantBase dropped decl) ""
  all : ∀ decl ∈ firstValues decls, ∃ value ∈ progress.values, ∃ scope : Scope,
    value.variant = scope.fresh (variantBase dropped decl) ""

theorem mem_firstValues : decl ∈ firstValues decls ↔
    (decls.find? fun other => other.numberValue == decl.numberValue) = some decl := by
  rw [firstValues, List.mem_filter, decide_eq_true_eq, and_iff_right_iff_imp]
  exact List.mem_of_find?_eq_some

/-- One more declaration is a first value if its number is new, and changes nothing about the others. -/
theorem mem_firstValues_concat {other : Descriptor.EnumValue} : other ∈ firstValues (decls ++ [decl]) ↔
    other ∈ firstValues decls ∨ other = decl ∧ decl.numberValue ∉ decls.map (·.numberValue) := by
  rw [mem_firstValues, mem_firstValues, List.find?_append, Option.or_eq_some_iff, List.find?_singleton]
  refine or_congr_right ?_
  constructor
  · rintro ⟨hnone, hother⟩
    split at hother
    · cases hother
      refine ⟨rfl, fun hmem => ?_⟩
      obtain ⟨first, hfirst, hnumber⟩ := List.mem_map.mp hmem
      exact List.find?_eq_none.mp hnone first hfirst (beq_iff_eq.mpr hnumber)
    · cases hother
  · rintro ⟨rfl, hnew⟩
    refine ⟨List.find?_eq_none.mpr fun first hfirst hnumber => hnew ?_, if_pos (beq_self_eq_true _)⟩
    exact List.mem_map.mpr ⟨first, hfirst, beq_iff_eq.mp hnumber⟩

theorem addValue_names (h : progress.Names dropped decls) :
    (context.addValue place dropped progress index decl).Names dropped (decls ++ [decl]) := by
  refine ⟨addValue_reflects h.reflects, ?_, ?_⟩
  all_goals obtain ⟨target, htarget, hnumber, extra, _, _, heq⟩ | ⟨hnew, value, _, hfresh, heq⟩ :=
    addValue_cases context place dropped progress index decl
  · rw [heq]
    intro value hvalue
    obtain ⟨first, hfirst, hmade⟩ := h.made value hvalue
    exact ⟨first, mem_firstValues_concat.mpr (.inl hfirst), hmade⟩
  · rw [heq]
    intro other hother
    rcases List.mem_append.mp hother with hother | hother
    · obtain ⟨first, hfirst, hmade⟩ := h.made other hother
      exact ⟨first, mem_firstValues_concat.mpr (.inl hfirst), hmade⟩
    · cases List.mem_singleton.mp hother
      refine ⟨decl, mem_firstValues_concat.mpr (.inr ⟨rfl, fun hmem => ?_⟩), _, hfresh⟩
      obtain ⟨other, hother, hnumber⟩ := h.reflects.mem_number_iff.mpr hmem
      exact hnew other hother hnumber
  · rw [heq]
    intro first hfirst
    rcases mem_firstValues_concat.mp hfirst with hfirst | ⟨_, hundeclared⟩
    · exact h.all first hfirst
    · exact absurd (h.reflects.mem_number_iff.mp ⟨target, htarget, hnumber⟩) hundeclared
  · rw [heq]
    intro first hfirst
    rcases mem_firstValues_concat.mp hfirst with hfirst | ⟨rfl, _⟩
    · obtain ⟨other, hother, hmade⟩ := h.all first hfirst
      exact ⟨other, List.mem_append_left _ hother, hmade⟩
    · exact ⟨value, List.mem_append_right _ (List.mem_singleton_self _), _, hfresh⟩

/-- The variants of an enum are named for the first values of its numbers. -/
theorem enum_names {decl : Descriptor.Enum} {type : EnumType} (h : context.enum decl fullName place = .ok type)
    (hwords : ∀ value ∈ decl.values, isWord value.nameText = true) :
    MadeFrom (variantSources decl) (type.values.map (·.variant)) ∧
      ∀ extra ∈ type.aliases, isWord extra.name = true := by
  have hstart : EnumProgress.Names {} (droppedOf decl) [] := by
    refine ⟨?_, ?_, ?_⟩
    · constructor <;> simp
    all_goals simp [firstValues]
  have hnames := addValues_run context place (droppedOf decl) (P := fun progress => progress.Names (droppedOf decl))
    (fun _ _ _ _ => addValue_names) hstart decl.values 0
  rw [List.nil_append] at hnames
  have hmade : ∀ first ∈ firstValues decl.values, ∀ (scope : Scope) (variant : String),
      variant = scope.fresh (variantBase (droppedOf decl) first) "" →
        Made (String.ofList (first.nameText.toList.drop (droppedOf decl))) variant := by
    rintro first hfirst scope variant rfl
    have hword := hwords first (List.mem_of_mem_filter hfirst)
    exact Made.of_joined (Naming.joined_pascalFromUpper (isWordChar_drop hword _)) scope
  unfold enum at h
  obtain ⟨entry, _, h⟩ := bind_ok h
  cases h
  refine ⟨MadeFrom.of_each ?_ ?_, ?_⟩
  · intro variant hvariant
    obtain ⟨value, hvalue, rfl⟩ := List.mem_map.mp hvariant
    obtain ⟨first, hfirst, scope, hfresh⟩ := hnames.made value hvalue
    exact ⟨_, List.mem_map_of_mem hfirst, hmade first hfirst scope _ hfresh⟩
  · intro source hsource
    obtain ⟨first, hfirst, rfl⟩ := List.mem_map.mp hsource
    obtain ⟨value, hvalue, scope, hfresh⟩ := hnames.all first hfirst
    exact ⟨_, List.mem_map_of_mem hvalue, hmade first hfirst scope _ hfresh⟩
  · intro extra hextra
    obtain ⟨value, hvalue, hname, _⟩ := hnames.reflects.aliases extra hextra
    rw [hname]
    exact hwords value hvalue

/-! ## Fields and choices of a message -/

/-- Fields and choices so far, for these declared fields: names and base names, and which fields belong to choices. -/
structure Progress.Names (real : List (Nat × Descriptor.Oneof)) (progress : Progress) (decls : List Descriptor.Field) :
    Prop where
  fields : progress.fields.map Field.name = decls.map (·.nameText)
  count : progress.oneofs.length = real.length
  fieldMembers : ∀ field ∈ progress.fields, isWord field.member = true
  oneofMembers : ∀ oneof ∈ progress.oneofs, isWord oneof.member = true
  slots : ∀ index, (∃ oneof ∈ progress.oneofs, index ∈ oneof.fields) ↔
    ∃ decl, decls[index]? = some decl ∧ (oneofOf real decl).isSome = true

theorem isWord_takeMember (members : Scope) (names : String → List String) {base other : String}
    (hbase : isWord base = true) (hother : isWord other = true) :
    isWord (takeMember members names base other).1 = true := by
  rw [takeMember]
  dsimp only
  split
  · exact hother
  · exact hbase

/-- Choices without fields, under words. -/
def Progress.Fresh (progress : Progress) : Prop :=
  ∀ oneof ∈ progress.oneofs, isWord oneof.member = true ∧ oneof.fields = []

theorem addOneofs_fresh {entry : Registered} {real : List (Nat × Descriptor.Oneof)}
    (hwords : ∀ choice ∈ real, isWord choice.2.nameText = true) {progress : Progress} (h : progress.Fresh) :
    (context.addOneofs entry fullName place real progress).Fresh := by
  induction real generalizing progress with
  | nil => exact h
  | cons choice real ih =>
    obtain ⟨hword, hrest⟩ := List.forall_mem_cons.mp hwords
    have hsnake := Naming.isWord_snake hword
    have hother : isWord (Naming.snake choice.2.nameText ++ "_oneof") = true :=
      Naming.isWord_append hsnake (List.all_eq_true.mp (by decide))
    rw [addOneofs, List.foldl_cons]
    refine ih hrest (List.forall_mem_append.mpr ⟨h, ?_⟩)
    intro oneof hmem
    cases List.mem_singleton.mp hmem
    exact ⟨isWord_takeMember _ _ hsnake hother, rfl⟩

/-- The fields of all choices after one more. -/
theorem mem_modify_fields {oneofs : List Oneof} {slot : Nat} (hslot : slot < oneofs.length) (index i : Nat) :
    (∃ oneof ∈ oneofs.modify slot fun o => { o with fields := o.fields ++ [index] }, i ∈ oneof.fields) ↔
      (∃ oneof ∈ oneofs, i ∈ oneof.fields) ∨ i = index := by
  have hparts : oneofs = oneofs.take slot ++ oneofs[slot] :: oneofs.drop (slot + 1) := by simp
  rw [List.modify_eq_take_cons_drop hslot]
  conv_rhs => rw [hparts]
  simp only [List.mem_append, List.mem_cons, or_and_right, exists_or, exists_eq_left, List.not_mem_nil, or_false]
  grind

/-- What one more field adds: itself under its name and a base name, and its position to its choice. -/
theorem addField_named {real : List (Nat × Descriptor.Oneof)} {progress next : Progress} {index : Nat}
    {decl : Descriptor.Field} (hword : isWord decl.nameText = true)
    (h : context.addField fullName place real progress index decl = .ok next) :
    (∃ field, next.fields = progress.fields ++ [field] ∧ field.name = decl.nameText ∧ isWord field.member = true) ∧
      (oneofOf real decl = none ∧ next.oneofs = progress.oneofs ∨ ∃ slot, oneofOf real decl = some slot ∧
        next.oneofs = progress.oneofs.modify slot fun o => { o with fields := o.fields ++ [index] }) := by
  have hsnake := Naming.isWord_snake hword
  obtain ⟨alone, field, hadds⟩ := addField_adds h
  obtain ⟨_, _, _, _, _, hname, _⟩ := field_steps hadds.resolved
  have hother : isWord (Naming.snake decl.nameText ++ "_" ++ Nat.repr field.number) = true := by
    refine Naming.isWord_append (Naming.isWord_append hsnake (List.all_eq_true.mp (by decide))) ?_
    intro c hc
    exact Naming.isWordChar_of_isDigit (Naming.isWordChar_repr field.number c hc)
  have hmember : isWord field.member = true := by
    rw [(Prod.mk.inj hadds.member).1]
    exact isWord_takeMember _ _ hsnake hother
  refine ⟨⟨field, hadds.fields, hadds.name.trans hname, hmember⟩, ?_⟩
  rw [hadds.oneofs, hadds.oneof]
  cases hslot : oneofOf real decl with
  | none => exact .inl ⟨rfl, rfl⟩
  | some slot => exact .inr ⟨slot, rfl, rfl⟩

theorem addField_spelt {real : List (Nat × Descriptor.Oneof)} {progress next : Progress} {decls : List Descriptor.Field}
    {decl : Descriptor.Field} (h : progress.Names real decls) (hword : isWord decl.nameText = true)
    (hadd : context.addField fullName place real progress decls.length decl = .ok next) :
    next.Names real (decls ++ [decl]) := by
  obtain ⟨⟨field, hfields, hname, hmember⟩, honeofs⟩ := addField_named hword hadd
  have hmembers : next.oneofs.map Oneof.member = progress.oneofs.map Oneof.member := addField_oneofs hadd fun _ _ => rfl
  have hlast : ∀ index, (∃ d, (decls ++ [decl])[index]? = some d ∧ (oneofOf real d).isSome = true) ↔
      (∃ d, decls[index]? = some d ∧ (oneofOf real d).isSome = true) ∨
        index = decls.length ∧ (oneofOf real decl).isSome = true := by
    intro index
    rw [List.getElem?_append]
    split
    · rename_i hlt
      simp [Nat.ne_of_lt hlt]
    · rename_i hge
      have hnone : decls[index]? = none := List.getElem?_eq_none (Nat.le_of_not_lt hge)
      by_cases heq : index = decls.length
      · simp [heq]
      · have hbeyond : [decl][index - decls.length]? = none := List.getElem?_eq_none (by simp; omega)
        simp [hnone, hbeyond, heq]
  refine ⟨?_, ?_, ?_, ?_, ?_⟩
  · rw [hfields, List.map_append, List.map_append, h.fields, List.map_singleton, List.map_singleton, hname]
  · have hlength := congrArg List.length hmembers
    rw [List.length_map, List.length_map, h.count] at hlength
    exact hlength
  · rw [hfields]
    exact List.forall_mem_append.mpr ⟨h.fieldMembers, by simpa using hmember⟩
  · have hall : ∀ member ∈ next.oneofs.map Oneof.member, isWord member = true := by
      rw [hmembers]
      exact List.forall_mem_map.mpr h.oneofMembers
    exact List.forall_mem_map.mp hall
  · intro index
    rw [hlast, ← h.slots index]
    rcases honeofs with ⟨hnone, heq⟩ | ⟨slot, hsome, heq⟩
    · rw [heq, hnone]
      simp
    · rw [heq, hsome, mem_modify_fields (h.count ▸ oneofOf_lt hsome)]
      simp

/-- Base names of a message are words, and its choices hold the fields that are declared for them. -/
theorem message_spelt {decl : Descriptor.Message} {tree : MessageTree}
    (h : context.message fullName place decl = .ok tree) (hfields : ∀ field ∈ decl.fields, isWord field.nameText = true)
    (honeofs : ∀ choice ∈ decl.realOneofs, isWord choice.2.nameText = true) :
    Progress.Names decl.realOneofs { members := {}, fields := tree.type.fields, oneofs := tree.type.oneofs } decl.fields := by
  obtain ⟨entry, progress, _, hprogress, _, _, _, _, _, htypes, hchoices, _⟩ := message_ok h
  obtain ⟨hlength, hnone, _⟩ := addOneofs_eq context entry fullName place decl.realOneofs
    { members := ⟨Naming.reservedMembers⟩, oneofs := [] }
  have hfresh : (context.addOneofs entry fullName place decl.realOneofs
      { members := ⟨Naming.reservedMembers⟩, oneofs := [] }).Fresh := addOneofs_fresh honeofs (List.forall_mem_nil _)
  generalize context.addOneofs .. = start at hlength hnone hfresh hprogress
  have hstart : Progress.Names decl.realOneofs start [] := by
    refine ⟨?_, ?_, ?_, fun oneof hmem => (hfresh oneof hmem).1, fun index => ?_⟩
    · rw [hnone]
      rfl
    · rw [hlength]
      simp
    · rw [hnone]
      exact List.forall_mem_nil _
    · constructor
      · rintro ⟨oneof, hmem, hindex⟩
        rw [(hfresh oneof hmem).2] at hindex
        cases hindex
      · rintro ⟨d, hd, _⟩
        cases hd
  have hnames : progress.Names decl.realOneofs decl.fields := by
    refine addFields_induction (P := fun done next => (∀ field ∈ done, isWord field.nameText = true) →
      next.Names decl.realOneofs done) hprogress (fun _ => hstart) (fun hdone hadd hwords => ?_) hfields
    obtain ⟨hfront, hlast⟩ := List.forall_mem_append.mp hwords
    exact addField_spelt (hdone hfront) (hlast _ (List.mem_singleton_self _)) hadd
  rw [htypes, hchoices]
  exact ⟨hnames.fields, hnames.count, hnames.fieldMembers, hnames.oneofMembers, hnames.slots⟩

end Context

/-! ## Names inside a message -/

open Context (fieldMembers oneofMembers)

theorem usable_fieldMembers {base : String} (h : isWord base = true) : ∀ name ∈ fieldMembers base, Usable name := by
  have hafter : ∀ front : String, isWord front = true → '_' ∈ front.toList → 2 ≤ front.toList.length →
      Usable (front ++ base) := by
    intro front hfront hmark hlength
    refine .plain (Naming.plain_of_underscore (Naming.isWord_append hfront (Naming.isWord_chars h)) ?_ ?_)
    · rw [String.toList_append]
      exact List.mem_append_left _ hmark
    · rw [String.toList_append, List.length_append]
      omega
  have hbefore : Usable (base ++ "_mut") := by
    refine .plain (Naming.plain_of_underscore (Naming.isWord_append h (List.all_eq_true.mp (by decide))) ?_ ?_)
    · simp
    · rw [String.toList_append, List.length_append]
      exact Nat.le_trans (by decide : 2 ≤ "_mut".toList.length) (Nat.le_add_left _ _)
  intro name hname
  simp only [fieldMembers, List.mem_cons, List.not_mem_nil, or_false] at hname
  rcases hname with rfl | rfl | rfl | rfl | rfl | rfl
  · exact Naming.usable_fieldName h
  · exact hafter "set_" (by decide) (by decide) (by decide)
  · exact hafter "clear_" (by decide) (by decide) (by decide)
  · exact hafter "has_" (by decide) (by decide) (by decide)
  · exact hbefore
  · exact hafter "add_" (by decide) (by decide) (by decide)

theorem usable_spare {member : String} (h : isWord member = true) : Usable ("_" ++ member ++ "_spare") := by
  have hfront : isWord ("_" ++ member) = true := Naming.isWord_append (by decide) (Naming.isWord_chars h)
  refine .plain (Naming.plain_of_underscore (Naming.isWord_append hfront (List.all_eq_true.mp (by decide))) ?_ ?_)
  · simp
  · rw [String.toList_append, List.length_append]
    exact Nat.le_trans (by decide : 2 ≤ "_spare".toList.length) (Nat.le_add_left _ _)

theorem MessageType.usable_memberNames {type : MessageType} (hfields : ∀ field ∈ type.fields, isWord field.member = true)
    (honeofs : ∀ oneof ∈ type.oneofs, isWord oneof.member = true) : ∀ name ∈ type.memberNames, Usable name := by
  intro name hname
  rcases List.mem_append.mp hname with hname | hname
  · rcases List.mem_append.mp hname with hname | hname
    · obtain ⟨base, hbase, hname⟩ := List.mem_flatMap.mp hname
      obtain ⟨oneof, honeof, rfl⟩ := List.mem_map.mp hbase
      exact usable_fieldMembers (honeofs oneof honeof) name ((oneofMembers_sublist _).subset hname)
    · obtain ⟨base, hbase, hname⟩ := List.mem_flatMap.mp hname
      obtain ⟨field, hfield, rfl⟩ := List.mem_map.mp hbase
      exact usable_fieldMembers (hfields field hfield) name hname
  · obtain ⟨oneof, honeof, hspare⟩ := List.mem_filterMap.mp hname
    rw [spareName?_eq hspare]
    exact usable_spare (honeofs oneof honeof)

/-! ## Variants of choices -/

namespace MessageType

variable {type : MessageType}

/-- The name of the field at a position. -/
def nameAt (type : MessageType) (index : Nat) : String := (type.fields[index]?.map Field.name).getD ""

/-- One variant for each member in order, named for the field at its position. -/
theorem variantsOf_spec (type : MessageType) (oneof : Oneof) : (type.variantsOf oneof).map Prod.fst = oneof.fields ∧
    ∀ pair ∈ type.variantsOf oneof, ∃ scope : Scope,
      pair.2 = scope.fresh (Naming.typeName (Naming.pascal (type.nameAt pair.1))) "" := by
  have hfold : ∀ (indices : List Nat) (state : List (Nat × String) × Scope),
      ∃ rest, (indices.foldl (fun state index =>
        let claimed := state.2.claim (Naming.typeName (Naming.pascal (type.nameAt index))) ""
        (state.1 ++ [(index, claimed.1)], claimed.2)) state).1 = state.1 ++ rest ∧ rest.map Prod.fst = indices ∧
          ∀ pair ∈ rest, ∃ scope : Scope,
            pair.2 = scope.fresh (Naming.typeName (Naming.pascal (type.nameAt pair.1))) "" := by
    intro indices
    induction indices with
    | nil =>
      intro state
      exact ⟨[], by simp, rfl, List.forall_mem_nil _⟩
    | cons index indices ih =>
      intro state
      rw [List.foldl_cons]
      obtain ⟨rest, heq, hfst, hnames⟩ := ih _
      refine ⟨_ :: rest, heq.trans (List.append_assoc ..), congrArg (index :: ·) hfst, ?_⟩
      exact List.forall_mem_cons.mpr ⟨⟨state.2, rfl⟩, hnames⟩
  obtain ⟨rest, heq, hfst, hnames⟩ := hfold oneof.fields ([], {})
  have hrest : type.variantsOf oneof = rest := heq
  rw [hrest]
  exact ⟨hfst, hnames⟩

end MessageType

/-- The names of the fields that belong to choices. -/
def memberSources (decl : Descriptor.Message) : List String :=
  (decl.fields.filter fun field => (Context.oneofOf decl.realOneofs field).isSome).map (·.nameText)

theorem variants_madeFrom {type : MessageType} {decl : Descriptor.Message}
    (hwords : ∀ field ∈ decl.fields, isWord field.nameText = true)
    (h : Context.Progress.Names decl.realOneofs { members := {}, fields := type.fields, oneofs := type.oneofs } decl.fields) :
    MadeFrom (memberSources decl) (type.variants.map Prod.snd) := by
  have hname : ∀ index (field : Descriptor.Field), decl.fields[index]? = some field → type.nameAt index = field.nameText := by
    intro index field hfield
    have hat := congrArg (·[index]?) h.fields
    simp only [List.getElem?_map, hfield] at hat
    rw [MessageType.nameAt, hat]
    rfl
  have hmade : ∀ index (field : Descriptor.Field) (scope : Scope), decl.fields[index]? = some field →
      Made field.nameText (scope.fresh (Naming.typeName (Naming.pascal (type.nameAt index))) "") := by
    intro index field scope hfield
    rw [hname index field hfield]
    have hword := hwords field (List.mem_of_getElem? hfield)
    exact Made.of_joined (Naming.joined_pascal (Naming.isWord_chars hword)) scope
  refine MadeFrom.of_each ?_ ?_
  · intro variant hvariant
    obtain ⟨pair, hpair, rfl⟩ := List.mem_map.mp hvariant
    obtain ⟨oneof, honeof, hpair⟩ := List.mem_flatMap.mp hpair
    obtain ⟨hfst, hnames⟩ := type.variantsOf_spec oneof
    have hindex : pair.1 ∈ oneof.fields := by
      rw [← hfst]
      exact List.mem_map_of_mem hpair
    obtain ⟨field, hfield, hsome⟩ := (h.slots pair.1).mp ⟨oneof, honeof, hindex⟩
    obtain ⟨scope, hfresh⟩ := hnames pair hpair
    refine ⟨field.nameText, List.mem_map_of_mem (List.mem_filter.mpr ⟨List.mem_of_getElem? hfield, hsome⟩), ?_⟩
    rw [hfresh]
    exact hmade pair.1 field scope hfield
  · intro source hsource
    obtain ⟨field, hfield, rfl⟩ := List.mem_map.mp hsource
    obtain ⟨hmem, hsome⟩ := List.mem_filter.mp hfield
    obtain ⟨index, hat⟩ := List.mem_iff_getElem?.mp hmem
    obtain ⟨oneof, honeof, hindex⟩ := (h.slots index).mpr ⟨field, hat, hsome⟩
    obtain ⟨hfst, hnames⟩ := type.variantsOf_spec oneof
    rw [← hfst] at hindex
    obtain ⟨pair, hpair, rfl⟩ := List.mem_map.mp hindex
    obtain ⟨scope, hfresh⟩ := hnames pair hpair
    refine ⟨pair.2, List.mem_map_of_mem (List.mem_flatMap.mpr ⟨oneof, honeof, hpair⟩), ?_⟩
    rw [hfresh]
    exact hmade pair.1 field scope hat

/-! ## Identifiers of a file -/

/-- The identifiers of an enum that keep all characters of a name: its modules, its type and the constants for
    further names. -/
def EnumType.keptNames (type : EnumType) : List String :=
  type.path.modules ++ type.path.name :: type.aliases.map fun extra => Naming.typeName extra.name

/-- Those that lose underscores: its variants. -/
def EnumType.joinedNames (type : EnumType) : List String := type.values.map (·.variant)

/-- The identifiers of a message that keep all characters of a name: its modules, its type, its own module, and the
    names of storage and methods. -/
def MessageType.keptNames (type : MessageType) : List String :=
  type.path.modules ++ [type.path.name, type.module] ++ type.memberNames

/-- Those that lose underscores: the types and the variants of its choices. -/
def MessageType.joinedNames (type : MessageType) : List String :=
  type.oneofs.map (·.path.name) ++ type.variants.map Prod.snd

/-- What the types and the variants of choices are named for. -/
def choiceSources (decl : Descriptor.Message) : List String :=
  decl.realOneofs.map (·.2.nameText) ++ memberSources decl

/-- What the identifiers of a declaration that lose underscores are named for. -/
def Declaration.sources : Declaration → List String
  | .message decl => choiceSources decl
  | .enum decl => variantSources decl

namespace Registry

variable {registry : Registry} {items : List Placed} {draft : Draft} {file : Descriptor.File} {keepsUnknown : Bool}

/-- The types of a message's choices. -/
theorem Holds.choices_madeFrom (h : Holds registry items) (hdraft : draft.registry = registry) (hspelt : draft.Spelt)
    {decl : Descriptor.Message} {tree : MessageTree} (hplaces : registry.Places tree)
    (hentry : ∀ entry, registry.get? tree.type.fullName = some entry → entry.declaration = .message decl)
    (hwords : ∀ choice ∈ decl.realOneofs, isWord choice.2.nameText = true)
    (hcovers : ∀ choice ∈ decl.realOneofs, (registry.oneofName? tree.type.fullName choice.1).isSome = true) :
    MadeFrom (decl.realOneofs.map (·.2.nameText)) (tree.type.oneofs.map (·.path.name)) := by
  obtain ⟨entry, _, hget, _, _, _, _, hpaths, _⟩ := hplaces
  have hdecl := hentry entry hget
  have hnames : tree.type.oneofs.map (·.path.name) =
      decl.realOneofs.map fun choice => (registry.oneofName? tree.type.fullName choice.1).getD "" := by
    have hmap := congrArg (List.map ItemPath.name) hpaths
    rw [choicePaths, hdecl, Declaration.choices, List.map_map, List.map_map, List.map_map] at hmap
    exact hmap
  obtain ⟨hplain, hspoilt⟩ := h.choices_iff hdraft hspelt hget hdecl hwords hcovers
  rw [hnames]
  constructor
  · intro hleads name hname
    obtain ⟨choice, hchoice, rfl⟩ := List.mem_map.mp hname
    obtain ⟨name, hname⟩ := Option.isSome_iff_exists.mp (hcovers choice hchoice)
    rw [hname, Option.getD_some]
    exact hplain (List.forall_mem_map.mp hleads) choice hchoice name hname
  · rintro ⟨source, hsource, hleads⟩
    obtain ⟨choice, hchoice, rfl⟩ := List.mem_map.mp hsource
    obtain ⟨other, hother, name, hname, hbad⟩ := hspoilt ⟨choice, hchoice, hleads⟩
    refine ⟨name, List.mem_map.mpr ⟨other, hother, ?_⟩, hbad⟩
    rw [hname, Option.getD_some]

/-- The path of a registered type is plain, and the module of a message. -/
theorem Draft.Spelt.allPlain (hspelt : draft.Spelt) {fullName : String} {entry : Registered}
    (h : draft.registry.get? fullName = some entry) : entry.AllPlain :=
  hspelt.types _ (mem_of_lookup h)

/-- The identifiers of an enum, next to its declaration. -/
structure EnumSpelt (declared : List (String × Declaration)) (type : EnumType) : Prop where
  kept : ∀ name ∈ type.keptNames, Usable name
  joined : ∃ decl, (type.fullName, .enum decl) ∈ declared ∧ MadeFrom (variantSources decl) type.joinedNames

theorem EnumSpelt.mono {declared more : List (String × Declaration)} {type : EnumType} (h : EnumSpelt declared type)
    (hsub : declared ⊆ more) : EnumSpelt more type := by
  obtain ⟨decl, hdecl, hmade⟩ := h.joined
  exact ⟨h.kept, decl, hsub hdecl, hmade⟩

theorem enums_spelt {context : Context} (hdraft : draft.registry = context.registry) (hspelt : draft.Spelt) {outer : String}
    {place : Place} {part : Part} {decls : List Descriptor.Enum} {types : List EnumType}
    (h : context.enums outer place part decls = .ok types) (hwords : AllWords (declaredEnums outer decls)) :
    ∀ type ∈ types, EnumSpelt (declaredEnums outer decls) type := by
  intro type htype
  obtain ⟨⟨decl, index⟩, hpair, henum⟩ := (mapM_ok h).2 type htype
  have hmem : decl ∈ decls := List.mem_of_getElem? (List.mem_zipIdx_iff_getElem?.mp hpair)
  have hdeclared : (qualify outer decl.nameText, Declaration.enum decl) ∈ declaredEnums outer decls :=
    List.mem_map_of_mem hmem
  obtain ⟨_, hvalues⟩ := List.forall_mem_cons.mp (hwords _ hdeclared)
  obtain ⟨hmade, haliases⟩ := Context.enum_names henum (List.forall_mem_map.mp hvalues)
  obtain ⟨entry, hentry, hrest⟩ := bind_ok henum
  have hget : draft.registry.get? (qualify outer decl.nameText) = some entry := by
    rw [hdraft]
    unfold Context.registered at hentry
    split at hentry
    · rename_i found hfound
      cases hentry
      exact hfound
    · cases hentry
  obtain ⟨hmodules, hname, _⟩ := hspelt.allPlain hget
  have hpath : type.path = entry.path := by
    cases hrest
    rfl
  have hfull : type.fullName = qualify outer decl.nameText := by
    cases hrest
    rfl
  refine ⟨?_, decl, by rwa [hfull], hmade⟩
  rw [EnumType.keptNames, hpath]
  refine List.forall_mem_append.mpr ⟨fun name hn => .plain (hmodules name hn), List.forall_mem_cons.mpr ⟨.plain hname, ?_⟩⟩
  exact List.forall_mem_map.mpr fun extra hextra => .plain (Naming.plain_typeName (haliases extra hextra))

/-- The identifiers of a message, next to its declaration. -/
structure MessageSpelt (declared : List (String × Declaration)) (type : MessageType) : Prop where
  kept : ∀ name ∈ type.keptNames, Usable name
  joined : ∃ decl, (type.fullName, .message decl) ∈ declared ∧ MadeFrom (choiceSources decl) type.joinedNames
  enums : ∀ enum ∈ type.enums, EnumSpelt declared enum

theorem Holds.message_spelt (h : Holds registry items) (hdraft : draft.registry = registry) (hspelt : draft.Spelt)
    {context : Context} (hcontext : context.registry = registry) {declared : List (String × Declaration)}
    (hcovers : registry.Covers declared) (hwords : AllWords declared) {tree : MessageTree}
    (hfrom : context.ResolvedFrom declared tree) : MessageSpelt declared tree.type := by
  subst hcontext
  obtain ⟨outer, place, decl, hsub, hmessage⟩ := hfrom
  have hplaces := Context.message_places hmessage fun item hitem => hcovers item (hsub hitem)
  have hown := hsub (Context.message_declared hmessage)
  obtain ⟨entry, hget, hdecl, hchoices⟩ := hcovers _ hown
  obtain ⟨hfields, honeofs⟩ := List.forall_mem_append.mp (List.forall_mem_cons.mp (hwords _ hown)).2
  have hfields : ∀ field ∈ decl.fields, isWord field.nameText = true := List.forall_mem_map.mp hfields
  have hreal : ∀ choice ∈ decl.realOneofs, isWord choice.2.nameText = true := by
    intro choice hchoice
    obtain ⟨pair, hpair, rfl⟩ := List.mem_map.mp (List.mem_of_mem_filter hchoice)
    exact honeofs _ (List.mem_map_of_mem (List.mem_of_getElem? (List.mem_zipIdx_iff_getElem?.mp hpair)))
  have hnames := Context.message_spelt hmessage hfields hreal
  have hdeclares : ∀ other, context.registry.get? tree.type.fullName = some other → other.declaration = .message decl := by
    intro other hother
    cases hget.symm.trans hother
    exact hdecl
  have hnamed : ∀ choice ∈ decl.realOneofs, (context.registry.oneofName? tree.type.fullName choice.1).isSome = true :=
    fun choice hchoice => hchoices _ (List.mem_map_of_mem hchoice)
  have hmade := (h.choices_madeFrom hdraft hspelt hplaces hdeclares hreal hnamed).append (variants_madeFrom hfields hnames)
  obtain ⟨found, _, hfound, _, hpath, hmodule, _⟩ := hplaces
  cases hget.symm.trans hfound
  obtain ⟨hmodules, hname, hinner⟩ := hspelt.allPlain (hdraft ▸ hget)
  refine ⟨?_, ⟨decl, hown, hmade⟩, ?_⟩
  · rw [MessageType.keptNames, hpath, hmodule]
    refine List.forall_mem_append.mpr ⟨List.forall_mem_append.mpr ⟨fun name hn => .plain (hmodules name hn), ?_⟩, ?_⟩
    · simpa using ⟨Usable.plain hname, Usable.plain (hinner decl hdecl)⟩
    · exact MessageType.usable_memberNames hnames.fieldMembers hnames.oneofMembers
  · obtain ⟨_, _, _, _, _, henums, _⟩ := Context.message_ok hmessage
    have hinside : declaredEnums (qualify outer decl.nameText) decl.enums ⊆ declared := by
      refine List.Subset.trans ?_ hsub
      rw [declaredMessage_eq]
      exact List.subset_cons_of_subset _ (List.subset_append_left _ _)
    intro enum henum
    exact (enums_spelt hdraft hspelt henums (fun item hitem => hwords item (hinside hitem)) enum henum).mono hinside

theorem resolve_spelt {files : List Descriptor.File} (h : ofFiles files = .ok registry)
    (hworded : ∀ file ∈ files, Worded file) (hfile : file ∈ files) {resolved : File}
    (hresolve : registry.resolve file keepsUnknown = .ok resolved) :
    (∀ type ∈ resolved.messageTypes, MessageSpelt (declaredFile file) type) ∧
      ∀ type ∈ resolved.enumTypes, EnumSpelt (declaredFile file) type := by
  obtain ⟨draft, hdraft, hspelt⟩ := ofFiles_spelt h hworded
  obtain ⟨_, herror, _⟩ | ⟨_, items, hok, hholds, hdeclared, _⟩ := ofFiles_cases files
  · cases h.symm.trans herror
  cases h.symm.trans hok
  have hsub : declaredFile file ⊆ items.map Placed.declared := by
    rw [hdeclared]
    exact fun item hitem => List.mem_flatMap.mpr ⟨file, hfile, hitem⟩
  have hcovers : registry.Covers (declaredFile file) := fun item hitem => hholds.covers item (hsub hitem)
  have hwords := (hworded file hfile).declared
  obtain ⟨context, hcontext, hfrom, henums⟩ := resolve_from hresolve
  have hmessages : ∀ type ∈ resolved.messageTypes, MessageSpelt (declaredFile file) type := by
    rw [File.messageTypes, flattenAll_eq]
    refine List.forall_mem_map.mpr fun tree htree => ?_
    exact hholds.message_spelt hdraft hspelt hcontext hcovers hwords (hfrom tree htree)
  refine ⟨hmessages, List.forall_mem_append.mpr ⟨fun type htype => ?_, fun type htype => ?_⟩⟩
  · have htop : declaredEnums file.packageText file.enums ⊆ declaredFile file := List.subset_append_left _ _
    rw [← hcontext] at hdraft
    exact (enums_spelt hdraft hspelt henums (fun item hitem => hwords item (htop hitem)) type htype).mono htop
  · obtain ⟨message, hmessage, htype⟩ := List.mem_flatMap.mp htype
    exact (hmessages message hmessage).enums type htype

/-- All identifiers derived for a file: those that keep the characters of a name are usable. The types of choices and
    the variants of choices and enums are usable just if what they are named for leads with a letter, and just then are
    they all identifiers. -/
theorem resolve_identifiers {files : List Descriptor.File} (h : ofFiles files = .ok registry)
    (hworded : ∀ file ∈ files, Worded file) (hfile : file ∈ files) {resolved : File}
    (hresolve : registry.resolve file keepsUnknown = .ok resolved) :
    (∀ name ∈ resolved.modules, Usable name) ∧
    (∀ type ∈ resolved.messageTypes, (∀ name ∈ type.keptNames, Usable name) ∧
      ∃ decl, (type.fullName, .message decl) ∈ declaredFile file ∧
        ((∀ name ∈ type.joinedNames, Usable name) ↔ ∀ source ∈ choiceSources decl, Leads source) ∧
        ((∀ name ∈ type.joinedNames, Naming.isIdentifier name = true) ↔ ∀ source ∈ choiceSources decl, Leads source)) ∧
    ∀ type ∈ resolved.enumTypes, (∀ name ∈ type.keptNames, Usable name) ∧
      ∃ decl, (type.fullName, .enum decl) ∈ declaredFile file ∧
        ((∀ name ∈ type.joinedNames, Usable name) ↔ ∀ source ∈ variantSources decl, Leads source) ∧
        ((∀ name ∈ type.joinedNames, Naming.isIdentifier name = true) ↔ ∀ source ∈ variantSources decl, Leads source) := by
  obtain ⟨hmessages, henums⟩ := resolve_spelt h hworded hfile hresolve
  refine ⟨?_, fun type htype => ?_, fun type htype => ?_⟩
  · have hmodules : resolved.modules = Naming.packageModules file.packageText := by
      unfold resolve at hresolve
      split at hresolve
      · obtain ⟨_, _, hresolve⟩ := bind_ok hresolve
        obtain ⟨_, _, hresolve⟩ := bind_ok hresolve
        cases hresolve
        rfl
      · cases hresolve
    rw [hmodules]
    exact fun name hname => .plain (plain_packageModules (hworded file hfile) name hname)
  · obtain ⟨decl, hdecl, hmade⟩ := (hmessages type htype).joined
    exact ⟨(hmessages type htype).kept, decl, hdecl, hmade.iff⟩
  · obtain ⟨decl, hdecl, hmade⟩ := (henums type htype).joined
    exact ⟨(henums type htype).kept, decl, hdecl, hmade.iff⟩

/-- Bare underscores, underscores before letters, and names that are keywords or become such. -/
def odd : Descriptor.File :=
  let fields := [
    Descriptor.Field.inOneof (.message "_self" 1 "._.Self._") 0, .inOneof (.scalar "_Match" 2 .int32) 0,
    .scalar "_" 3 .int32, .scalar "crate" 4 .bool, .scalar "type" 5 .bool]
  { package := some "_.Self", messages := [.withOneofs (.of "_" fields) ["_type"]]
    enums := [.of "Self" [("_A", 0), ("_", 0), ("__self", 1)]] }

set_option maxRecDepth 100000 in
theorem resolve_identifiers_odd : ∃ registry resolved, ofFiles [odd] = .ok registry ∧
    registry.resolve odd true = .ok resolved ∧ Worded odd ∧
    resolved.messageTypes.map MessageType.joinedNames = [["Type", "Self_", "Match"]] ∧
    resolved.enumTypes.map EnumType.joinedNames = [["A", "Self_"]] ∧
    (∀ type ∈ resolved.messageTypes, ∀ name ∈ type.keptNames ++ type.joinedNames, Usable name) ∧
    ∀ type ∈ resolved.enumTypes, ∀ name ∈ type.keptNames ++ type.joinedNames, Usable name := by
  have hworded : Worded odd := ⟨by decide +kernel, by unfold AllWords; decide +kernel⟩
  have hleads : ∀ item ∈ declaredFile odd, ∀ source ∈ item.2.sources, Leads source := by decide +kernel
  have hok : ((ofFiles [odd] >>= (·.resolve odd true)).toOption.any fun resolved =>
      resolved.messageTypes.map MessageType.joinedNames == [["Type", "Self_", "Match"]] &&
        resolved.enumTypes.map EnumType.joinedNames == [["A", "Self_"]]) = true := by
    decide +kernel
  cases hresolved : ofFiles [odd] >>= (·.resolve odd true) with
  | error e =>
    rw [hresolved] at hok
    cases hok
  | ok resolved =>
    rw [hresolved] at hok
    obtain ⟨hmessages, henums⟩ := Bool.and_eq_true_iff.mp hok
    obtain ⟨registry, hregistry, hresolve⟩ := bind_ok hresolved
    obtain ⟨_, hmessage, henum⟩ := resolve_identifiers hregistry (List.forall_mem_singleton.mpr hworded)
      (List.mem_singleton_self _) hresolve
    refine ⟨registry, resolved, hregistry, hresolve, hworded, beq_iff_eq.mp hmessages, beq_iff_eq.mp henums, ?_, ?_⟩
    · intro type htype
      obtain ⟨hkept, decl, hdecl, hjoined, _⟩ := hmessage type htype
      exact List.forall_mem_append.mpr ⟨hkept, hjoined.mpr (hleads _ hdecl)⟩
    · intro type htype
      obtain ⟨hkept, decl, hdecl, hjoined, _⟩ := henum type htype
      exact List.forall_mem_append.mpr ⟨hkept, hjoined.mpr (hleads _ hdecl)⟩

/-- Without its underscores a name may have nothing left, or begin with a digit. -/
theorem resolve_not_identifiers :
    let fields := [Descriptor.Field.inOneof (.scalar "_2" 1 .int32) 0]
    let file : Descriptor.File := {
      package := some "demo", messages := [.withOneofs (.of "M" fields) ["_1"]], enums := [.of "E" [("_", 0)]] }
    ((ofFiles [file] >>= (·.resolve file true)).toOption.map fun resolved =>
      (resolved.messageTypes.map MessageType.joinedNames, resolved.enumTypes.map EnumType.joinedNames)) =
        some ([["1", "2"]], [[""]]) ∧
      ["1", "2", ""].any Naming.isIdentifier = false ∧
      (Generate.generate .rust { listed := [""], files := [file] }).map (fun _ => ()) = .error .badName := by
  decide +kernel

end Registry

end Protobuf.Schema
