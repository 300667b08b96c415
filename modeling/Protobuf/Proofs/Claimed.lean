/-
  Protobuf.Proofs.Claimed — the names that registering takes.

  Where all declared names are words, every name taken for a module or a type is plain. The type of a choice asks for
  its name without underscores, which may be no identifier; if that is taken it asks for another. Drafts are followed
  with what they say about their names (`Draft.Spelt`), so in a registry the choices of a message are named well just
  if each of their own names leads with a letter (`Holds.choices_iff`).
-/

import Mathlib.Data.List.Pairwise
import Protobuf.Proofs.Identifiers
import Protobuf.Proofs.Members

namespace Protobuf.Schema

open Naming (Scope isWord isWordChar Plain Usable Leads Spoilt)

/-! ## Declared names -/

/-- The names that a declaration itself gives. -/
def Declaration.names : Declaration → List String
  | .message decl => decl.nameText :: (decl.fields.map (·.nameText) ++ decl.oneofs.map (·.nameText))
  | .enum decl => decl.nameText :: decl.values.map (·.nameText)

/-- All that is declared has words for names. -/
def AllWords (declared : List (String × Declaration)) : Prop :=
  ∀ item ∈ declared, ∀ name ∈ item.2.names, isWord name = true

/-- The parts of the package and all names declared in a file are words. -/
structure Worded (file : Descriptor.File) : Prop where
  package : ∀ part ∈ Text.splitOn '.' file.packageText, part.isEmpty = false → isWord part = true
  declared : AllWords (declaredFile file)

theorem plain_packageModules {file : Descriptor.File} (h : Worded file) :
    ∀ name ∈ Naming.packageModules file.packageText, Plain name := by
  intro name hname
  obtain ⟨part, hpart, rfl⟩ := List.mem_map.mp hname
  obtain ⟨hmem, hempty⟩ := List.mem_filter.mp hpart
  exact Naming.plain_typeName (Naming.isWord_snake (h.package part hmem (by simpa using hempty)))

/-- The module for what is declared inside. -/
def Registered.inside (entry : Registered) : List String := entry.path.modules ++ [entry.module]

/-- The names of an entry's path and of its module. -/
def Registered.AllPlain (entry : Registered) : Prop :=
  (∀ name ∈ entry.path.modules, Plain name) ∧ Plain entry.path.name ∧
    ∀ decl, entry.declaration = .message decl → Plain entry.module

namespace Registry

/-! ## Names taken -/

/-- A name that a claim of `base` can get. -/
def Claims (base name : String) : Prop := name = base ∨ ∃ i, name = Scope.numbered base "" i

variable {outer fullName name : String} {entry : Registered}

theorem Claims.plain {base : String} (h : Claims base name) (hbase : Plain base) : Plain name := by
  rcases h with rfl | ⟨i, rfl⟩
  · exact hbase
  · exact Naming.plain_numbered hbase.word (by simp) i

/-- What the type of a choice asks for first. -/
def choiceBase (oneof : Descriptor.Oneof) : String := Naming.typeName (Naming.pascal oneof.nameText)

/-- A choice has what it asks for, or else that was taken and its name ends in `Oneof`. -/
def NamesChoice (draft : Draft) (entry : Registered) (oneof : Descriptor.Oneof) (name : String) : Prop :=
  Claims (choiceBase oneof) name ∨
    draft.Taken ⟨entry.inside, choiceBase oneof⟩ ∧ Claims (choiceBase oneof ++ "Oneof") name

/-- Types and modules have plain names, choices are named as they ask, and any other name taken is plain. -/
structure Draft.Spelt (draft : Draft) : Prop where
  types : ∀ item ∈ draft.registry.types, item.2.AllPlain
  oneofs : ∀ item ∈ draft.registry.oneofs, ∃ entry decl oneof, (item.1.1, entry) ∈ draft.registry.types ∧
    entry.declaration = .message decl ∧ (item.1.2, oneof) ∈ decl.realOneofs ∧ NamesChoice draft entry oneof item.2
  taken : ∀ path, draft.Taken path → Plain path.name ∨ ∃ item ∈ draft.registry.oneofs,
    ∃ entry, (item.1.1, entry) ∈ draft.registry.types ∧ path = ⟨entry.inside, item.2⟩

/-- A later draft: nothing is lost, and names stay as they should be. -/
structure Continues (before after : Draft) : Prop where
  types : before.registry.types ⊆ after.registry.types
  spelt : before.Spelt → after.Spelt

theorem Continues.refl (draft : Draft) : Continues draft draft := ⟨List.Subset.refl _, id⟩

theorem Continues.trans {a b c : Draft} (h : Continues a b) (h' : Continues b c) : Continues a c :=
  ⟨List.Subset.trans h.types h'.types, fun hs => h'.spelt (h.spelt hs)⟩

/-- An action whose drafts continue each other, with what it returns. -/
def Keeps {α : Type} (action : Register α) (P : α → Prop) : Prop :=
  ∀ before a after, action.run before = .ok (a, after) → Continues before after ∧ P a

variable {α β : Type} {modules : List String} {before after : Draft}

theorem keeps_pure {P : α → Prop} {a : α} (h : P a) : Keeps (pure a) P := by
  intro before b after hrun
  cases hrun
  exact ⟨.refl _, h⟩

theorem Keeps.bind {x : Register α} {P : α → Prop} (hx : Keeps x P) {f : α → Register β} {Q : β → Prop}
    (hf : ∀ a, P a → Keeps (f a) Q) : Keeps (x >>= f) Q := by
  intro before b after hrun
  rw [StateT.run_bind] at hrun
  obtain ⟨⟨a, mid⟩, hfirst, hsecond⟩ := bind_ok hrun
  obtain ⟨hcontinues, ha⟩ := hx before a mid hfirst
  obtain ⟨hrest, hb⟩ := hf a ha mid b after hsecond
  exact ⟨hcontinues.trans hrest, hb⟩

theorem keeps_mapM {f : α → Register β} {Q : β → Prop} {xs : List α} (h : ∀ x ∈ xs, Keeps (f x) Q) :
    Keeps (xs.mapM f) fun ys => ∀ y ∈ ys, Q y := by
  induction xs with
  | nil => exact keeps_pure (List.forall_mem_nil _)
  | cons x xs ih =>
    obtain ⟨hx, hxs⟩ := List.forall_mem_cons.mp h
    rw [List.mapM_cons]
    exact hx.bind fun y hy => (ih hxs).bind fun ys hys => keeps_pure (List.forall_mem_cons.mpr ⟨hy, hys⟩)

theorem keeps_forM {f : α → Register Unit} {xs : List α} (h : ∀ x ∈ xs, Keeps (f x) fun _ => True) :
    Keeps (xs.forM f) fun _ => True := by
  induction xs with
  | nil => exact keeps_pure trivial
  | cons x xs ih =>
    obtain ⟨hx, hxs⟩ := List.forall_mem_cons.mp h
    exact hx.bind fun _ _ => ih hxs

theorem NamesChoice.mono {oneof : Descriptor.Oneof} (h : NamesChoice before entry oneof name)
    (htaken : ∀ path, before.Taken path → after.Taken path) : NamesChoice after entry oneof name :=
  h.imp_right fun hsecond => ⟨htaken _ hsecond.1, hsecond.2⟩

/-- Taking a plain name. -/
theorem continues_insert (h : Plain name) (before : Draft) :
    Continues before (before.setScope modules ((before.scope modules).insert name)) where
  types := List.Subset.refl _
  spelt hs := by
    refine ⟨hs.types, ?_, ?_⟩
    · intro item hitem
      obtain ⟨entry, decl, oneof, hentry, hdecl, hreal, hnames⟩ := hs.oneofs item hitem
      exact ⟨entry, decl, oneof, hentry, hdecl, hreal, hnames.mono fun path hp => Draft.taken_insert.mpr (.inr hp)⟩
    · intro path hpath
      rcases Draft.taken_insert.mp hpath with rfl | hpath
      · exact .inl h
      · exact hs.taken path hpath

theorem keeps_claim {base separator : String} (h : Plain base) (hseparator : ∀ c ∈ separator.toList, isWordChar c = true) :
    Keeps (claim modules base separator) Plain := by
  intro before name after hrun
  have hname := Naming.plain_fresh h hseparator (before.scope modules)
  cases hrun
  exact ⟨continues_insert hname before, hname⟩

theorem insert_ok (h : (insert fullName entry).run before = .ok ((), after)) :
    after = { before with registry := { before.registry with types := (fullName, entry) :: before.registry.types } } := by
  by_cases hsome : (before.registry.get? fullName).isSome = true
  · simp [insert, hsome] at h
    cases h
  · simp [insert, hsome] at h
    cases h
    rfl

/-- Registering a type whose names are plain. -/
theorem continues_type (h : entry.AllPlain) (hrun : (insert fullName entry).run before = .ok ((), after)) :
    Continues before after ∧ (fullName, entry) ∈ after.registry.types := by
  cases insert_ok hrun
  refine ⟨⟨List.subset_cons_self .., fun hs => ⟨List.forall_mem_cons.mpr ⟨h, hs.types⟩, ?_, ?_⟩⟩, List.mem_cons_self ..⟩
  · intro item hitem
    obtain ⟨owner, decl, oneof, howner, hrest⟩ := hs.oneofs item hitem
    exact ⟨owner, decl, oneof, List.mem_cons_of_mem _ howner, hrest⟩
  · intro path hpath
    refine (hs.taken path hpath).imp_right ?_
    rintro ⟨item, hitem, owner, howner, heq⟩
    exact ⟨item, hitem, owner, List.mem_cons_of_mem _ howner, heq⟩

/-! ## Types and modules -/

theorem keeps_claimType {message : Descriptor.Message} (h : isWord message.nameText = true) :
    Keeps (claimType modules message) Plain := by
  have hbase := Naming.plain_typeName h
  rw [claimType]
  split
  · exact keeps_pure hbase
  · exact keeps_claim hbase (by simp)

theorem keeps_claimModule {message : Descriptor.Message} (h : isWord message.nameText = true) :
    Keeps (claimModule modules message) Plain := by
  have hbase := Naming.plain_typeName (Naming.isWord_snake h)
  rw [claimModule]
  split
  · exact keeps_claim hbase (List.all_eq_true.mp (by decide))
  · exact keeps_pure hbase

theorem keeps_registerEnum {enum : Descriptor.Enum} (hmodules : ∀ name ∈ modules, Plain name)
    (h : isWord enum.nameText = true) : Keeps (registerEnum modules outer enum) fun _ => True := by
  refine (keeps_claim (Naming.plain_typeName h) (by simp)).bind fun name hname => ?_
  intro before _ after hrun
  refine ⟨(continues_type ⟨hmodules, hname, ?_⟩ hrun).1, trivial⟩
  intro decl hdecl
  cases hdecl

theorem keeps_openScope {messages : List Descriptor.Message} {enums : List Descriptor.Enum}
    (hmodules : ∀ name ∈ modules, Plain name) (hmessages : ∀ message ∈ messages, isWord message.nameText = true)
    (henums : ∀ enum ∈ enums, isWord enum.nameText = true) :
    Keeps (openScope modules outer messages enums) fun names => ∀ pair ∈ names, Plain pair.1 ∧ Plain pair.2 := by
  refine (keeps_mapM fun message hm => keeps_claimType (hmessages message hm)).bind fun types htypes => ?_
  refine (keeps_forM fun enum he => keeps_registerEnum hmodules (henums enum he)).bind fun _ _ => ?_
  refine (keeps_mapM fun message hm => keeps_claimModule (hmessages message hm)).bind fun inner hinner => ?_
  refine keeps_pure ?_
  intro pair hpair
  have hpair : (pair.1, pair.2) ∈ types.zip inner := hpair
  exact ⟨htypes _ (List.of_mem_zip hpair).1, hinner _ (List.of_mem_zip hpair).2⟩

/-! ## Choices -/

/-- The type of a choice: if what it asks for is taken, that stays so. -/
theorem continues_oneof {index : Nat} {oneof : Descriptor.Oneof} {decl : Descriptor.Message}
    (hentry : (fullName, entry) ∈ before.registry.types) (hdecl : entry.declaration = .message decl)
    (hreal : (index, oneof) ∈ decl.realOneofs)
    (hrun : (registerOneof entry.inside fullName index oneof).run before = .ok ((), after)) :
    Continues before after := by
  -- what was asked for in the end, and what the claim got
  let base := if (before.scope entry.inside).isTaken (choiceBase oneof) then choiceBase oneof ++ "Oneof" else choiceBase oneof
  let name := (before.scope entry.inside).fresh base ""
  have hafter : after = { (before.setScope entry.inside ((before.scope entry.inside).insert name)) with
      registry := { before.registry with oneofs := ((fullName, index), name) :: before.registry.oneofs } } := by
    cases hrun
    rfl
  have htaken : ∀ path, after.Taken path ↔ path = ⟨entry.inside, name⟩ ∨ before.Taken path := by
    intro path
    rw [hafter]
    exact Draft.taken_insert
  have hclaims : Claims base name := (before.scope entry.inside).fresh_cases base ""
  subst hafter
  refine ⟨List.Subset.refl _, fun hs => ⟨hs.types, ?_, ?_⟩⟩
  · refine List.forall_mem_cons.mpr ⟨⟨entry, decl, oneof, hentry, hdecl, hreal, ?_⟩, ?_⟩
    · by_cases hbase : (before.scope entry.inside).isTaken (choiceBase oneof) = true
      · refine .inr ⟨(htaken _).mpr (.inr hbase), ?_⟩
        have hbase' : base = choiceBase oneof ++ "Oneof" := if_pos hbase
        rwa [hbase'] at hclaims
      · have hbase' : base = choiceBase oneof := if_neg hbase
        rw [hbase'] at hclaims
        exact .inl hclaims
    · intro item hitem
      obtain ⟨owner, other, choice, howner, hother, hchoice, hnames⟩ := hs.oneofs item hitem
      exact ⟨owner, other, choice, howner, hother, hchoice, hnames.mono fun path hp => (htaken path).mpr (.inr hp)⟩
  · intro path hpath
    rcases (htaken path).mp hpath with rfl | hpath
    · exact .inr ⟨_, List.mem_cons_self .., entry, hentry, rfl⟩
    · refine (hs.taken path hpath).imp_right ?_
      rintro ⟨item, hitem, owner, howner, heq⟩
      exact ⟨item, List.mem_cons_of_mem _ hitem, owner, howner, heq⟩

theorem continues_oneofs {decl : Descriptor.Message} (hdecl : entry.declaration = .message decl)
    {real : List (Nat × Descriptor.Oneof)} (hreal : real ⊆ decl.realOneofs)
    (hentry : (fullName, entry) ∈ before.registry.types)
    (hrun : (real.forM fun (index, oneof) => registerOneof entry.inside fullName index oneof).run before = .ok ((), after)) :
    Continues before after := by
  induction real generalizing before with
  | nil =>
    cases hrun
    exact .refl _
  | cons pair real ih =>
    obtain ⟨hpair, hrest⟩ := List.cons_subset.mp hreal
    rw [List.forM, StateT.run_bind] at hrun
    obtain ⟨⟨_, mid⟩, hfirst, hrun⟩ := bind_ok hrun
    have hcontinues := continues_oneof hentry hdecl hpair hfirst
    exact hcontinues.trans (ih hrest (hcontinues.types hentry) hrun)

/-! ## Messages -/

theorem AllWords.messages {messages : List Descriptor.Message} (h : AllWords (declaredMessages outer messages)) :
    ∀ message ∈ messages, isWord message.nameText = true := by
  induction messages with
  | nil => exact List.forall_mem_nil _
  | cons message messages ih =>
    rw [declaredMessages, declaredMessage_eq] at h
    refine List.forall_mem_cons.mpr ⟨h _ (List.mem_cons_self ..) _ (List.mem_cons_self ..), ih fun item hitem => ?_⟩
    exact h item (List.mem_append_right _ hitem)

theorem AllWords.enums {enums : List Descriptor.Enum} (h : AllWords (declaredEnums outer enums)) :
    ∀ enum ∈ enums, isWord enum.nameText = true := by
  intro enum henum
  exact h _ (List.mem_map_of_mem henum) _ (List.mem_cons_self ..)

mutual

theorem keeps_registerMessage {modules : List String} {outer : String} {names : String × String}
    (hmodules : ∀ name ∈ modules, Plain name) (hnames : Plain names.1 ∧ Plain names.2) :
    ∀ {message : Descriptor.Message}, AllWords (declaredMessage outer message) →
      Keeps (registerMessage modules outer names message) fun _ => True
  | .mk name fields nested enums oneofs mapEntry, h => by
    intro before _ after hrun
    let message := Descriptor.Message.mk name fields nested enums oneofs mapEntry
    let entry : Registered := ⟨⟨modules, names.1⟩, names.2, .message message⟩
    have hplain : entry.AllPlain := ⟨hmodules, hnames.1, fun _ _ => hnames.2⟩
    have hinside : ∀ name ∈ entry.inside, Plain name :=
      List.forall_mem_append.mpr ⟨hmodules, by simpa using hnames.2⟩
    rw [declaredMessage] at h
    obtain ⟨henums, hnested⟩ := List.forall_mem_append.mp (List.forall_mem_cons.mp h).2
    rw [registerMessage, StateT.run_bind] at hrun
    obtain ⟨⟨_, first⟩, hinsert, hrun⟩ := bind_ok hrun
    rw [StateT.run_bind] at hrun
    obtain ⟨⟨inner, second⟩, hopen, hrun⟩ := bind_ok hrun
    rw [StateT.run_bind] at hrun
    obtain ⟨⟨_, third⟩, hmessages, hrun⟩ := bind_ok hrun
    obtain ⟨hfirst, hentry⟩ := continues_type hplain hinsert
    obtain ⟨hsecond, hinner⟩ := keeps_openScope hinside (AllWords.messages hnested) (AllWords.enums henums) _ _ _ hopen
    have hthird := (keeps_registerMessages hinside hinner hnested _ _ _ hmessages).1
    have hlast := continues_oneofs rfl (List.Subset.refl _) (hthird.types (hsecond.types hentry)) hrun
    exact ⟨hfirst.trans (hsecond.trans (hthird.trans hlast)), trivial⟩

theorem keeps_registerMessages {modules : List String} {outer : String} (hmodules : ∀ name ∈ modules, Plain name) :
    ∀ {names : List (String × String)} {messages : List Descriptor.Message}, (∀ pair ∈ names, Plain pair.1 ∧ Plain pair.2) →
      AllWords (declaredMessages outer messages) → Keeps (registerMessages modules outer names messages) fun _ => True
  | names :: more, message :: rest, hnames, h => by
    rw [declaredMessages] at h
    obtain ⟨hmessage, hrest⟩ := List.forall_mem_append.mp h
    obtain ⟨hown, hmore⟩ := List.forall_mem_cons.mp hnames
    rw [registerMessages]
    exact (keeps_registerMessage hmodules hown hmessage).bind fun _ _ => keeps_registerMessages hmodules hmore hrest
  | [], _, _, _ => by
    rw [registerMessages]
    · exact keeps_pure trivial
    · simp
  | _ :: _, [], _, _ => by
    rw [registerMessages]
    · exact keeps_pure trivial
    · simp

end

/-! ## Files -/

theorem keeps_registerFile {file : Descriptor.File} (h : Worded file) : Keeps (registerFile file) fun _ => True := by
  obtain ⟨henums, hmessages⟩ := List.forall_mem_append.mp h.declared
  have hmodules := plain_packageModules h
  refine (keeps_openScope hmodules (AllWords.messages hmessages) (AllWords.enums henums)).bind fun names hnames => ?_
  exact keeps_registerMessages hmodules hnames hmessages

/-- Of files whose names are words comes a registry with names as they should be. -/
theorem ofFiles_spelt {files : List Descriptor.File} {registry : Registry} (h : ofFiles files = .ok registry)
    (hworded : ∀ file ∈ files, Worded file) : ∃ draft : Draft, draft.registry = registry ∧ draft.Spelt := by
  have hempty := registry_reserved files
  have htaken := taken_reserved files
  dsimp only [ofFiles] at h
  generalize files.foldl (fun draft file => reserveModules draft (Naming.packageModules file.packageText)) {} = start at *
  have hstart : start.Spelt := by
    refine ⟨?_, ?_, fun path hpath => .inl ?_⟩
    · rw [hempty]
      exact List.forall_mem_nil _
    · rw [hempty]
      exact List.forall_mem_nil _
    · obtain ⟨file, hfile, hpath⟩ := List.mem_flatMap.mp ((htaken path).mp hpath)
      obtain ⟨pair, hpair, rfl⟩ := List.mem_map.mp hpath
      have hname : pair.1 ∈ Naming.packageModules file.packageText :=
        List.mem_of_getElem? (List.mem_zipIdx_iff_getElem?.mp hpair)
      exact plain_packageModules (hworded file hfile) pair.1 hname
  obtain ⟨⟨_, draft⟩, hrun, h⟩ := bind_ok h
  cases h
  exact ⟨draft, rfl, ((keeps_forM fun file hf => keeps_registerFile (hworded file hf)) _ _ _ hrun).1.spelt hstart⟩

/-! ## Names of choices -/

theorem mem_of_lookup {κ ν : Type} [BEq κ] [LawfulBEq κ] {key : κ} {value : ν} {pairs : List (κ × ν)}
    (h : pairs.lookup key = some value) : (key, value) ∈ pairs := by
  induction pairs with
  | nil => cases h
  | cons pair pairs ih =>
    obtain ⟨k, v⟩ := pair
    rw [List.lookup_cons] at h
    by_cases hk : key = k
    · subst hk
      rw [beq_self_eq_true] at h
      cases h
      exact List.mem_cons_self ..
    · rw [beq_false_of_ne hk] at h
      exact List.mem_cons_of_mem _ (ih h)

theorem plain_oneof {base : String} (h : Plain base) : Plain (base ++ "Oneof") where
  word := Naming.isWord_append h.word (List.all_eq_true.mp (by decide))
  free := by
    have hall : ∀ word ∈ Naming.keywords, ¬ "Oneof".toList <:+ word.toList := by decide +kernel
    refine Bool.eq_false_iff.mpr fun hkeyword => hall _ (List.contains_iff_mem.mp hkeyword) ?_
    rw [String.toList_append]
    exact List.suffix_append ..
  apart := by
    intro heq
    have hlength := congrArg (fun name => name.toList.length) heq
    simp at hlength

theorem plain_choiceBase {oneof : Descriptor.Oneof} (hword : isWord oneof.nameText = true) (h : Leads oneof.nameText) :
    Plain (choiceBase oneof) :=
  Naming.plain_typeName ((Naming.joined_pascal (Naming.isWord_chars hword)).isWord h)

theorem spoilt_choiceBase {oneof : Descriptor.Oneof} (hword : isWord oneof.nameText = true) (h : ¬ Leads oneof.nameText) :
    Spoilt (choiceBase oneof) := by
  have hspoilt := (Naming.joined_pascal (Naming.isWord_chars hword)).spoilt h
  rwa [choiceBase, Naming.spoilt_typeName hspoilt]

theorem Claims.spoilt {base name : String} (h : Claims base name) (hbase : Spoilt base) : Spoilt name := by
  rcases h with rfl | ⟨i, rfl⟩
  · exact hbase
  · exact Naming.spoilt_numbered hbase i

section

variable {registry : Registry} {items : List Placed} {fullName : String} {entry : Registered} {decl : Descriptor.Message}

theorem Holds.nodup_types (h : Holds registry items) : (registry.types.map Prod.fst).Nodup := by
  rw [(h.types.map Prod.fst).nodup_iff, List.map_map]
  exact h.names

theorem Holds.oneofName?_of_mem (h : Holds registry items) {index : Nat} {name : String}
    (hmem : ((fullName, index), name) ∈ registry.oneofs) : registry.oneofName? fullName index = some name := by
  obtain ⟨item, hitem, hentry⟩ := List.mem_flatMap.mp (h.oneofs.mem_iff.mp hmem)
  obtain ⟨choice, hchoice, heq⟩ := List.mem_map.mp hentry
  cases heq
  exact h.oneofName?_eq hitem hchoice

/-- Two messages do not share the module for their choices. -/
theorem Holds.inside_injective (h : Holds registry items) {other : String} {entry' : Registered}
    {decl' : Descriptor.Message} (hentry : (fullName, entry) ∈ registry.types) (hdecl : entry.declaration = .message decl)
    (hneeds : decl.needsModule = true) (hentry' : (other, entry') ∈ registry.types)
    (hdecl' : entry'.declaration = .message decl') (hneeds' : decl'.needsModule = true)
    (hinside : entry.inside = entry'.inside) : (fullName, entry) = (other, entry') := by
  have hpath : ∀ (name : String) (e : Registered) (d : Descriptor.Message), e.declaration = .message d → d.needsModule = true →
      ⟨e.path.modules, e.module⟩ ∈ e.paths ++ registry.choicePaths name e := by
    intro name e d hd hn
    refine List.mem_append_left _ ?_
    rw [Registered.paths, hd]
    simp [messagePaths, modulePaths, hn]
  have hnodup : (registry.types.flatMap fun item => item.2.paths ++ registry.choicePaths item.1 item.2).Nodup :=
    h.perm_paths.nodup_iff.mpr h.paths
  by_contra hne
  have : Std.Symm (Function.onFun List.Disjoint fun item : String × Registered =>
      item.2.paths ++ registry.choicePaths item.1 item.2) := ⟨fun _ _ hapart _ hb ha => hapart ha hb⟩
  have hapart := (List.nodup_flatMap.mp hnodup).2.forall hentry hentry' hne
  obtain ⟨hmodules, hmodule⟩ := List.append_inj' hinside rfl
  refine hapart (hpath fullName entry decl hdecl hneeds) ?_
  rw [hmodules, List.singleton_inj.mp hmodule]
  exact hpath other entry' decl' hdecl' hneeds'

theorem needsModule_of_mem {choice : Nat × Descriptor.Oneof} (h : choice ∈ decl.realOneofs) : decl.needsModule = true := by
  have hne : decl.realOneofs.isEmpty = false := by
    rw [List.isEmpty_eq_false_iff_exists_mem]
    exact ⟨choice, h⟩
  simp [Descriptor.Message.needsModule, hne]

theorem realOneofs_inj {index : Nat} {a b : Descriptor.Oneof} (ha : (index, a) ∈ decl.realOneofs)
    (hb : (index, b) ∈ decl.realOneofs) : a = b := by
  have hnodup := nodup_choices (.message decl)
  exact (Prod.mk.inj (List.inj_on_of_nodup_map hnodup ha hb rfl)).2

/-- The entry of a name is the only one. -/
theorem Holds.entry_eq (h : Holds registry items) {entry' : Registered} (hget : registry.get? fullName = some entry)
    (hmem : (fullName, entry') ∈ registry.types) : entry' = entry := by
  exact Option.some.inj ((lookup_of_mem h.nodup_types hmem).symm.trans hget)

/-- How a choice of a message got its name. -/
theorem Holds.namesChoice (h : Holds registry items) {draft : Draft} (hdraft : draft.registry = registry)
    (hspelt : draft.Spelt) (hget : registry.get? fullName = some entry) (hdecl : entry.declaration = .message decl)
    {index : Nat} {oneof : Descriptor.Oneof} (hreal : (index, oneof) ∈ decl.realOneofs) {name : String}
    (hname : registry.oneofName? fullName index = some name) : NamesChoice draft entry oneof name := by
  subst hdraft
  obtain ⟨entry', decl', oneof', hentry', hdecl', hreal', hnames⟩ := hspelt.oneofs _ (mem_of_lookup hname)
  cases h.entry_eq hget hentry'
  cases hdecl.symm.trans hdecl'
  cases realOneofs_inj hreal hreal'
  exact hnames

/-- The names of a message's choices are plain just if the choices' own names lead with a letter, and else one of them
    is no identifier. -/
theorem Holds.choices_iff (h : Holds registry items) {draft : Draft} (hdraft : draft.registry = registry)
    (hspelt : draft.Spelt) (hget : registry.get? fullName = some entry) (hdecl : entry.declaration = .message decl)
    (hwords : ∀ choice ∈ decl.realOneofs, isWord choice.2.nameText = true)
    (hcovers : ∀ choice ∈ decl.realOneofs, (registry.oneofName? fullName choice.1).isSome = true) :
    ((∀ choice ∈ decl.realOneofs, Leads choice.2.nameText) →
      ∀ choice ∈ decl.realOneofs, ∀ name, registry.oneofName? fullName choice.1 = some name → Plain name) ∧
    ((∃ choice ∈ decl.realOneofs, ¬ Leads choice.2.nameText) →
      ∃ choice ∈ decl.realOneofs, ∃ name, registry.oneofName? fullName choice.1 = some name ∧ Spoilt name) := by
  constructor
  · intro hleads choice hchoice name hname
    have hbase := plain_choiceBase (hwords choice hchoice) (hleads choice hchoice)
    rcases h.namesChoice hdraft hspelt hget hdecl hchoice hname with hclaims | ⟨_, hclaims⟩
    · exact hclaims.plain hbase
    · exact hclaims.plain (plain_oneof hbase)
  · rintro ⟨choice, hchoice, hleads⟩
    have hbase := spoilt_choiceBase (hwords choice hchoice) hleads
    obtain ⟨name, hname⟩ := Option.isSome_iff_exists.mp (hcovers choice hchoice)
    rcases h.namesChoice hdraft hspelt hget hdecl hchoice hname with hclaims | ⟨htaken, _⟩
    · exact ⟨choice, hchoice, name, hname, hclaims.spoilt hbase⟩
    · -- what it asked for was taken, and not by a plain name: by a choice, and so by one of the same message
      subst hdraft
      rcases hspelt.taken _ htaken with hplain | ⟨⟨⟨other, index⟩, taken⟩, hitem, entry', hentry', heq⟩
      · exact absurd hbase hplain.not_spoilt
      · obtain ⟨hinside, rfl⟩ := ItemPath.mk.inj heq
        obtain ⟨entry'', decl', oneof, hentry'', hdecl', hreal, _⟩ := hspelt.oneofs _ hitem
        cases h.entry_eq (lookup_of_mem h.nodup_types hentry') hentry''
        cases h.inside_injective (mem_of_lookup hget) hdecl (needsModule_of_mem hchoice) hentry' hdecl'
          (needsModule_of_mem hreal) hinside
        cases hdecl.symm.trans hdecl'
        exact ⟨_, hreal, _, h.oneofName?_of_mem hitem, hbase⟩

end

end Registry

end Protobuf.Schema
