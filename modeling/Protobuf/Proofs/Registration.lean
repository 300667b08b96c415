/-
  Protobuf.Proofs.Registration — every item has a path of its own.

  Registering claims paths in many scopes at different moments: the types and modules of a scope before what is inside
  them, the choices of a message after. A `Record` lists what some actions have registered and claimed, in their
  order; an action claims only free paths, and fails just if a name is declared twice (`Effect`). `Describes` ties a
  record to declarations: each declared item is placed once, and the paths of the items placed are those claimed,
  together with those claimed ahead of them.
-/

import Protobuf.Proofs.Resolved
import Protobuf.Proofs.Scopes

namespace Protobuf.Schema

open Naming (Scope)

/-! ## Declarations and paths -/

def declaredEnums (outer : String) (enums : List Descriptor.Enum) : List (String × Declaration) :=
  enums.map fun enum => (qualify outer enum.nameText, .enum enum)

mutual

/-- A message and all declared inside it, by full name. -/
def declaredMessage (outer : String) : Descriptor.Message → List (String × Declaration)
  | .mk name fields nested enums oneofs mapEntry =>
    let message := Descriptor.Message.mk name fields nested enums oneofs mapEntry
    let fullName := qualify outer message.nameText
    (fullName, .message message) :: (declaredEnums fullName enums ++ declaredMessages fullName nested)

def declaredMessages (outer : String) : List Descriptor.Message → List (String × Declaration)
  | [] => []
  | message :: rest => declaredMessage outer message ++ declaredMessages outer rest

end

theorem declaredMessage_eq (outer : String) (message : Descriptor.Message) : declaredMessage outer message =
    (qualify outer message.nameText, .message message) ::
      (declaredEnums (qualify outer message.nameText) message.enums ++
        declaredMessages (qualify outer message.nameText) message.nested) := by
  cases message
  rw [declaredMessage]
  rfl

/-- Every message and enum declared in a file, at any depth. -/
def declaredFile (file : Descriptor.File) : List (String × Declaration) :=
  declaredEnums file.packageText file.enums ++ declaredMessages file.packageText file.messages

/-- The path of a message's type; one that describes the entries of a map has none. -/
def typePaths (modules : List String) (name : String) (message : Descriptor.Message) : List ItemPath :=
  if message.isMapEntry then [] else [⟨modules, name⟩]

/-- The path of a message's module, if it needs one. -/
def modulePaths (modules : List String) (name : String) (message : Descriptor.Message) : List ItemPath :=
  if message.needsModule then [⟨modules, name⟩] else []

def messagePaths (modules : List String) (names : String × String) (message : Descriptor.Message) : List ItemPath :=
  typePaths modules names.1 message ++ modulePaths modules names.2 message

/-- The paths of an entry's type and module. -/
def Registered.paths (entry : Registered) : List ItemPath :=
  match entry.declaration with
  | .enum _ => [entry.path]
  | .message message => messagePaths entry.path.modules (entry.path.name, entry.module) message

/-- The positions of the choices. -/
def Declaration.choices : Declaration → List Nat
  | .enum _ => []
  | .message decl => decl.realOneofs.map Prod.fst

/-- The paths of the types of an entry's choices. -/
def Registry.choicePaths (registry : Registry) (fullName : String) (entry : Registered) : List ItemPath :=
  entry.declaration.choices.map fun index =>
    ⟨entry.path.modules ++ [entry.module], (registry.oneofName? fullName index).getD ""⟩

/-- The paths of all that is generated: types, modules of messages and types of choices. -/
def Registry.paths (registry : Registry) : List ItemPath :=
  registry.types.flatMap fun (fullName, entry) => entry.paths ++ registry.choicePaths fullName entry

/-- The modules of a package as paths. -/
def packagePaths (file : Descriptor.File) : List ItemPath :=
  let modules := Naming.packageModules file.packageText
  modules.zipIdx.map fun (name, depth) => ⟨modules.take depth, name⟩

namespace Registry

/-! ## Effects -/

/-- What actions have registered and claimed. -/
structure Record where
  entries : List (String × Registered) := []
  oneofs : List ((String × Nat) × String) := []
  claims : List ItemPath := []

instance : Append Record := ⟨fun r s => ⟨r.entries ++ s.entries, r.oneofs ++ s.oneofs, r.claims ++ s.claims⟩⟩

@[simp] theorem Record.entries_append (r s : Record) : (r ++ s).entries = r.entries ++ s.entries := rfl

@[simp] theorem Record.oneofs_append (r s : Record) : (r ++ s).oneofs = r.oneofs ++ s.oneofs := rfl

@[simp] theorem Record.claims_append (r s : Record) : (r ++ s).claims = r.claims ++ s.claims := rfl

theorem Record.append_assoc (r s t : Record) : r ++ s ++ t = r ++ (s ++ t) := by
  show Record.mk _ _ _ = Record.mk _ _ _
  simp

/-- The draft with the record added, all of whose paths were free. -/
structure Adds (before after : Draft) (record : Record) : Prop where
  types : after.registry.types.Perm (record.entries ++ before.registry.types)
  oneofs : after.registry.oneofs.Perm (record.oneofs ++ before.registry.oneofs)
  taken : ∀ path, after.Taken path ↔ path ∈ record.claims ∨ before.Taken path
  free : ∀ path ∈ record.claims, ¬ before.Taken path
  nodup : record.claims.Nodup

theorem adds_nothing (draft : Draft) : Adds draft draft {} where
  types := .refl _
  oneofs := .refl _
  taken := by simp
  free := by simp
  nodup := .nil

theorem Adds.trans {before mid after : Draft} {r s : Record} (h : Adds before mid r) (h' : Adds mid after s) :
    Adds before after (r ++ s) where
  types := by
    refine h'.types.trans ((h.types.append_left _).trans ?_)
    rw [Record.entries_append, ← List.append_assoc]
    exact List.perm_append_comm.append_right _
  oneofs := by
    refine h'.oneofs.trans ((h.oneofs.append_left _).trans ?_)
    rw [Record.oneofs_append, ← List.append_assoc]
    exact List.perm_append_comm.append_right _
  taken := by
    intro path
    rw [h'.taken, h.taken, Record.claims_append, List.mem_append]
    tauto
  free := by
    intro path hp
    rcases List.mem_append.mp hp with hp | hp
    · exact h.free path hp
    · exact fun ht => h'.free path hp ((h.taken path).mpr (.inr ht))
  nodup := by
    refine List.nodup_append.mpr ⟨h.nodup, h'.nodup, ?_⟩
    intro a ha b hb hab
    exact h'.free b hb ((h.taken b).mpr (.inl (hab ▸ ha)))

def Draft.names (draft : Draft) : List String := draft.registry.types.map Prod.fst

theorem Adds.names {before after : Draft} {record : Record} (h : Adds before after record) :
    after.names.Perm (record.entries.map Prod.fst ++ before.names) := by
  have hmap := h.types.map Prod.fst
  rwa [List.map_append] at hmap

/-- How an action ends that registers these names: with a record of them, or with one that is there twice. -/
inductive Effect {α : Type} (names : List String) (before : Draft) (P : α → Record → Prop) :
    Except SchemaError (α × Draft) → Prop
  | ok {a : α} {after : Draft} {record : Record} (adds : Adds before after record)
      (names_eq : record.entries.map Prod.fst = names) (nodup : before.names.Nodup → after.names.Nodup)
      (holds : P a record) : Effect names before P (.ok (a, after))
  | duplicate {name : String} (twice : 1 < (names ++ before.names).count name) :
      Effect names before P (.error (.duplicateType name))

def Registers {α : Type} (action : Register α) (names : List String) (P : α → Record → Prop) : Prop :=
  ∀ before, Effect names before P (action.run before)

variable {α β : Type} {names more : List String} {P : α → Record → Prop}

theorem Registers.imp {action : Register α} (h : Registers action names P) {Q : α → Record → Prop}
    (himp : ∀ a r, P a r → Q a r) : Registers action names Q := by
  intro before
  have heffect := h before
  generalize action.run before = result at heffect
  cases heffect with
  | ok adds hnames hnodup holds => exact .ok adds hnames hnodup (himp _ _ holds)
  | duplicate twice => exact .duplicate twice

theorem Registers.of_names {action : Register α} (h : Registers action names P) (he : names = more) :
    Registers action more P := he ▸ h

theorem registers_pure (a : α) : Registers (pure a) [] fun b r => b = a ∧ r = {} := by
  intro before
  exact .ok (adds_nothing before) rfl id ⟨rfl, rfl⟩

theorem Registers.bind {x : Register α} (hx : Registers x names P) {f : α → Register β} {Q : β → Record → Prop}
    (hf : ∀ a r, P a r → Registers (f a) more fun b s => Q b (r ++ s)) : Registers (x >>= f) (names ++ more) Q := by
  intro before
  rw [StateT.run_bind]
  have hfirst := hx before
  generalize x.run before = result at hfirst
  cases hfirst with
  | @duplicate name twice =>
    refine .duplicate (Nat.lt_of_lt_of_le twice ?_)
    simp only [List.count_append]
    omega
  | @ok a mid r adds hnames hnodup holds =>
    have hsecond := hf a r holds mid
    show Effect _ before Q ((f a).run mid)
    generalize (f a).run mid = result at hsecond
    have hmid := adds.names
    rw [hnames] at hmid
    cases hsecond with
    | @duplicate name twice =>
      refine .duplicate (Nat.lt_of_lt_of_le twice ?_)
      simp only [List.count_append, hmid.count_eq name]
      omega
    | @ok b after s adds' hnames' hnodup' holds' =>
      refine .ok (adds.trans adds') ?_ (fun hn => hnodup' (hnodup hn)) holds'
      rw [Record.entries_append, List.map_append, hnames, hnames']

/-- The actions of a list one after the other, given how what they did adds up. -/
theorem registers_forM {f : β → Register Unit} (names : β → List String) {Q : List β → Record → Prop} (nil : Q [] {})
    (cons : ∀ x xs r s, Q [x] r → Q xs s → Q (x :: xs) (r ++ s)) (h : ∀ x, Registers (f x) (names x) fun _ r => Q [x] r)
    (xs : List β) : Registers (xs.forM f) (xs.flatMap names) fun _ r => Q xs r := by
  induction xs with
  | nil =>
    refine (registers_pure ()).imp fun _ r hr => ?_
    rw [hr.2]
    exact nil
  | cons x xs ih =>
    refine (h x).bind fun _ r hr => ih.imp fun _ s hs => cons x xs r s hr hs

/-- Claims for the items of a list, one after the other. -/
theorem registers_mapM {f : α → Register String} {paths : α → String → List ItemPath}
    (h : ∀ x, Registers (f x) [] fun name r => r = ⟨[], [], paths x name⟩) (xs : List α) :
    Registers (xs.mapM f) [] fun found r =>
      found.length = xs.length ∧ r = ⟨[], [], (xs.zip found).flatMap fun pair => paths pair.1 pair.2⟩ := by
  induction xs with
  | nil =>
    refine (registers_pure []).imp fun found r hr => ?_
    obtain ⟨rfl, rfl⟩ := hr
    exact ⟨rfl, rfl⟩
  | cons x xs ih =>
    rw [List.mapM_cons]
    refine (h x).bind fun name r hr => ih.bind fun found s hs => (registers_pure _).imp fun all t ht => ?_
    obtain ⟨hlen, rfl⟩ := hs
    obtain ⟨rfl, rfl⟩ := ht
    subst hr
    refine ⟨congrArg (· + 1) hlen, ?_⟩
    show Record.mk _ _ _ = _
    simp

/-! ## Single actions -/

theorem registers_claim (modules : List String) (base separator : String) :
    Registers (claim modules base separator) [] fun name r => r = ⟨[], [], [⟨modules, name⟩]⟩ := by
  intro before
  have hadds : Adds before (before.setScope modules ((before.scope modules).claim base separator).2)
      ⟨[], [], [⟨modules, (before.scope modules).fresh base separator⟩]⟩ := by
    refine ⟨.refl _, .refl _, fun path => ?_, fun path hp ht => ?_, List.nodup_singleton _⟩
    · rw [List.mem_singleton]
      exact Draft.taken_insert
    · rw [List.mem_singleton.mp hp, Draft.Taken, Scope.isTaken_fresh] at ht
      cases ht
  exact .ok hadds rfl id rfl

theorem lookup_isSome_iff {κ ν : Type} [BEq κ] [LawfulBEq κ] {key : κ} {pairs : List (κ × ν)} :
    (pairs.lookup key).isSome = true ↔ key ∈ pairs.map Prod.fst := by
  induction pairs with
  | nil => simp
  | cons pair pairs ih =>
    obtain ⟨k, v⟩ := pair
    rw [List.lookup_cons]
    by_cases h : key = k
    · simp [h]
    · simp [beq_false_of_ne h, h, ih]

theorem registers_insert (fullName : String) (entry : Registered) :
    Registers (insert fullName entry) [fullName] fun _ r => r = ⟨[(fullName, entry)], [], []⟩ := by
  intro before
  have hrun : (insert fullName entry).run before =
      if (before.registry.get? fullName).isSome then .error (.duplicateType fullName)
      else .ok ((), { before with registry := { before.registry with
        types := (fullName, entry) :: before.registry.types } }) := by
    by_cases h : (before.registry.get? fullName).isSome
    · simp [insert, h]
      rfl
    · simp [insert, h]
      rfl
  rw [hrun]
  split
  · rename_i hsome
    refine .duplicate ?_
    have hmem : fullName ∈ before.names := lookup_isSome_iff.mp hsome
    have := List.count_pos_iff.mpr hmem
    simp only [List.count_append, List.count_singleton_self]
    omega
  · rename_i hnone
    have hnew : fullName ∉ before.names := fun hmem => hnone (lookup_isSome_iff.mpr hmem)
    have hadds : Adds before { before with registry := { before.registry with
        types := (fullName, entry) :: before.registry.types } } ⟨[(fullName, entry)], [], []⟩ := by
      refine ⟨.refl _, .refl _, fun path => ?_, List.forall_mem_nil _, .nil⟩
      rw [List.mem_nil_iff, false_or]
      exact Iff.rfl
    exact .ok hadds rfl (fun hnodup => List.nodup_cons.mpr ⟨hnew, hnodup⟩) rfl

theorem registers_claimType (modules : List String) (message : Descriptor.Message) :
    Registers (claimType modules message) [] fun name r => r = ⟨[], [], typePaths modules name message⟩ := by
  simp only [claimType, typePaths]
  cases message.isMapEntry with
  | true => exact (registers_pure _).imp fun _ r hr => hr.2
  | false => exact registers_claim modules _ _

theorem registers_claimModule (modules : List String) (message : Descriptor.Message) :
    Registers (claimModule modules message) [] fun name r => r = ⟨[], [], modulePaths modules name message⟩ := by
  simp only [claimModule, modulePaths]
  cases message.needsModule with
  | true => exact registers_claim modules _ _
  | false => exact (registers_pure _).imp fun _ r hr => hr.2

theorem registers_oneof (modules : List String) (message : String) (index : Nat) (oneof : Descriptor.Oneof) :
    Registers (registerOneof modules message index oneof) [] fun _ r =>
      ∃ name, r = ⟨[], [((message, index), name)], [⟨modules, name⟩]⟩ := by
  have hbind : ∀ name, Registers (modify fun draft : Draft => { draft with registry := { draft.registry with
      oneofs := ((message, index), name) :: draft.registry.oneofs } }) [] fun _ r =>
        r = ⟨[], [((message, index), name)], []⟩ := by
    intro name before
    have hadds : Adds before { before with registry := { before.registry with
        oneofs := ((message, index), name) :: before.registry.oneofs } } ⟨[], [((message, index), name)], []⟩ := by
      refine ⟨.refl _, .refl _, fun path => ?_, List.forall_mem_nil _, .nil⟩
      rw [List.mem_nil_iff, false_or]
      exact Iff.rfl
    exact .ok hadds rfl id rfl
  have hclaim : ∀ base, Registers (do
      let name ← claim modules base ""
      modify fun draft : Draft => { draft with registry := { draft.registry with
        oneofs := ((message, index), name) :: draft.registry.oneofs } }) [] fun _ r =>
          ∃ name, r = ⟨[], [((message, index), name)], [⟨modules, name⟩]⟩ := by
    intro base
    refine (registers_claim modules base "").bind fun name r hr => (hbind name).imp fun _ s hs => ⟨name, ?_⟩
    rw [hr, hs]
    rfl
  -- the scope decides about the name asked for, and then only the claim matters
  intro before
  exact hclaim _ before

/-! ## Items placed -/

/-- A declared item with its entry, and with the names of its choices by position. -/
structure Placed where
  fullName : String
  entry : Registered
  choices : List (Nat × String)

namespace Placed

def declared (item : Placed) : String × Declaration := (item.fullName, item.entry.declaration)

def binding (item : Placed) : String × Registered := (item.fullName, item.entry)

def oneofs (item : Placed) : List ((String × Nat) × String) :=
  item.choices.map fun choice => ((item.fullName, choice.1), choice.2)

def paths (item : Placed) : List ItemPath :=
  item.entry.paths ++ item.choices.map fun choice => ⟨item.entry.path.modules ++ [item.entry.module], choice.2⟩

end Placed

/-- The record is that of the items declared, one by one; paths were claimed `ahead` of the record for them, and
    in it for items that come `later`. -/
def Describes (ahead later : List ItemPath) (declared : List (String × Declaration)) (record : Record) : Prop :=
  ∃ items : List Placed, items.map Placed.declared = declared ∧
    (∀ item ∈ items, item.choices.map Prod.fst = item.entry.declaration.choices) ∧
    record.entries = items.map Placed.binding ∧ record.oneofs.Perm (items.flatMap Placed.oneofs) ∧
    (ahead ++ record.claims).Perm (items.flatMap Placed.paths ++ later)

variable {record : Record} {declared : List (String × Declaration)}

theorem Describes.append {a b c : List ItemPath} {first second : List (String × Declaration)} {r s : Record}
    (h : Describes a b first r) (h' : Describes b c second s) : Describes a c (first ++ second) (r ++ s) := by
  obtain ⟨items, hdeclared, hchoices, hentries, honeofs, hpaths⟩ := h
  obtain ⟨items', hdeclared', hchoices', hentries', honeofs', hpaths'⟩ := h'
  refine ⟨items ++ items', ?_, ?_, ?_, ?_, ?_⟩
  · rw [List.map_append, hdeclared, hdeclared']
  · intro item hitem
    rcases List.mem_append.mp hitem with hitem | hitem
    · exact hchoices item hitem
    · exact hchoices' item hitem
  · rw [Record.entries_append, hentries, hentries', List.map_append]
  · rw [Record.oneofs_append, List.flatMap_append]
    exact honeofs.append honeofs'
  · rw [Record.claims_append, List.flatMap_append, ← List.append_assoc, List.append_assoc (items.flatMap _)]
    refine (hpaths.append_right _).trans ?_
    rw [List.append_assoc]
    exact hpaths'.append_left _

/-- Paths that stay pending throughout. -/
theorem Describes.pending {a b : List ItemPath} (h : Describes a b declared record) (c : List ItemPath) :
    Describes (a ++ c) (b ++ c) declared record := by
  obtain ⟨items, hdeclared, hchoices, hentries, honeofs, hpaths⟩ := h
  refine ⟨items, hdeclared, hchoices, hentries, honeofs, ?_⟩
  have hswap : (a ++ c ++ record.claims).Perm (a ++ record.claims ++ c) := by
    rw [List.append_assoc, List.append_assoc]
    exact List.perm_append_comm.append_left a
  refine hswap.trans ?_
  rw [← List.append_assoc]
  exact hpaths.append_right c

theorem Describes.later_perm {a b c : List ItemPath} (h : Describes a b declared record) (hp : b.Perm c) :
    Describes a c declared record := by
  obtain ⟨items, hdeclared, hchoices, hentries, honeofs, hpaths⟩ := h
  exact ⟨items, hdeclared, hchoices, hentries, honeofs, hpaths.trans (hp.append_left _)⟩

theorem describes_nothing (paths : List ItemPath) : Describes paths paths [] {} :=
  ⟨[], rfl, List.forall_mem_nil _, rfl, .refl _, by rw [List.append_nil]; exact .refl _⟩

theorem describes_claims (ahead paths : List ItemPath) : Describes ahead (ahead ++ paths) [] ⟨[], [], paths⟩ :=
  ⟨[], rfl, List.forall_mem_nil _, rfl, .refl _, .refl _⟩

/-- Claims for later items around a record of others. -/
theorem Describes.between (h : Describes [] [] declared record) (before after : List ItemPath) :
    Describes [] (before ++ after) declared (⟨[], [], before⟩ ++ (record ++ (⟨[], [], after⟩ ++ {}))) := by
  have hrest := (h.pending before).append ((describes_claims before after).append (describes_nothing _))
  have hall := (describes_claims [] before).append hrest
  rwa [List.append_nil, List.append_nil] at hall

/-! ## Scopes -/

theorem registers_enums (modules : List String) (outer : String) (enums : List Descriptor.Enum) :
    Registers (enums.forM (registerEnum modules outer)) ((declaredEnums outer enums).map Prod.fst) fun _ r =>
      Describes [] [] (declaredEnums outer enums) r := by
  have hone : ∀ enum, Registers (registerEnum modules outer enum) [qualify outer enum.nameText] fun _ r =>
      Describes [] [] (declaredEnums outer [enum]) r := by
    intro enum
    refine (registers_claim modules _ "").bind fun name r hr => (registers_insert _ _).imp fun _ s hs => ?_
    rw [hr, hs]
    exact ⟨[⟨qualify outer enum.nameText, ⟨⟨modules, name⟩, "", .enum enum⟩, []⟩], rfl, by simp [Declaration.choices], rfl,
      .refl _, .refl _⟩
  have hall := registers_forM _ (Q := fun enums r => Describes [] [] (declaredEnums outer enums) r) (describes_nothing [])
    (fun x xs r s hr hs => hr.append hs) hone enums
  have hnames : (declaredEnums outer enums).map Prod.fst = enums.flatMap fun enum => [qualify outer enum.nameText] := by
    rw [declaredEnums, List.map_map, List.map_eq_flatMap]
    rfl
  rwa [hnames]

/-- The paths of the messages of a scope. -/
def scopePaths (modules : List String) (names : List (String × String)) (messages : List Descriptor.Message) :
    List ItemPath :=
  (names.zip messages).flatMap fun pair => messagePaths modules pair.1 pair.2

theorem perm_scopePaths (modules : List String) {messages : List Descriptor.Message} {types inner : List String}
    (ht : types.length = messages.length) (hi : inner.length = messages.length) :
    ((messages.zip types).flatMap (fun pair => typePaths modules pair.2 pair.1) ++
      (messages.zip inner).flatMap fun pair => modulePaths modules pair.2 pair.1).Perm
        (scopePaths modules (types.zip inner) messages) := by
  induction messages generalizing types inner with
  | nil => simp [scopePaths]
  | cons message messages ih =>
    cases types with
    | nil => simp at ht
    | cons type types =>
      cases inner with
      | nil => simp at hi
      | cons name inner =>
        have hrest := ih (Nat.succ.inj ht) (Nat.succ.inj hi)
        simp only [scopePaths, List.zip_cons_cons, List.flatMap_cons, messagePaths, List.append_assoc] at hrest ⊢
        refine List.Perm.append_left _ (List.Perm.trans ?_ (hrest.append_left _))
        rw [← List.append_assoc, ← List.append_assoc]
        exact List.perm_append_comm.append_right _

theorem registers_openScope (modules : List String) (outer : String) (messages : List Descriptor.Message)
    (enums : List Descriptor.Enum) :
    Registers (openScope modules outer messages enums) ((declaredEnums outer enums).map Prod.fst) fun names r =>
      names.length = messages.length ∧ Describes [] (scopePaths modules names messages) (declaredEnums outer enums) r := by
  have htypes := registers_mapM (registers_claimType modules) messages
  have hinner := registers_mapM (registers_claimModule modules) messages
  refine htypes.bind fun types r₁ h₁ => ((registers_enums modules outer enums).bind fun _ r₂ h₂ =>
    hinner.bind fun inner r₃ h₃ => (registers_pure _).imp fun names r₄ h₄ => ?_).of_names (List.append_nil _)
  obtain ⟨ht, rfl⟩ := h₁
  obtain ⟨hi, rfl⟩ := h₃
  obtain ⟨rfl, rfl⟩ := h₄
  refine ⟨by simp [ht, hi], ?_⟩
  exact (h₂.between _ _).later_perm (perm_scopePaths modules ht hi)

/-! ## Messages -/

/-- The record of the choices of a message. -/
def choiceRecord (modules : List String) (fullName : String) (choices : List (Nat × String)) : Record where
  oneofs := choices.map fun choice => ((fullName, choice.1), choice.2)
  claims := choices.map fun choice => ⟨modules, choice.2⟩

theorem registers_choices (modules : List String) (fullName : String) (real : List (Nat × Descriptor.Oneof)) :
    Registers (real.forM fun (index, oneof) => registerOneof modules fullName index oneof) [] fun _ r =>
      ∃ choices, choices.map Prod.fst = real.map Prod.fst ∧ r = choiceRecord modules fullName choices := by
  have hall := registers_forM (fun _ => []) (Q := fun real r =>
      ∃ choices, choices.map Prod.fst = real.map Prod.fst ∧ r = choiceRecord modules fullName choices)
    (f := fun (index, oneof) => registerOneof modules fullName index oneof) ⟨[], rfl, rfl⟩ ?_ ?_ real
  · exact hall.of_names (by simp)
  · intro x xs r s hr hs
    obtain ⟨first, hfirst, rfl⟩ := hr
    obtain ⟨rest, hrest, rfl⟩ := hs
    refine ⟨first ++ rest, ?_, ?_⟩
    · rw [List.map_append, hfirst, hrest]
      rfl
    · show Record.mk _ _ _ = _
      simp [choiceRecord]
  · intro x
    refine (registers_oneof modules fullName x.1 x.2).imp fun _ r hr => ?_
    obtain ⟨name, rfl⟩ := hr
    exact ⟨[(x.1, name)], rfl, rfl⟩

/-- A message with all inside it and its choices, its own paths claimed ahead. -/
theorem describes_message {modules : List String} {names : String × String} {fullName : String}
    {message : Descriptor.Message} {inside : List (String × Declaration)} (h : Describes [] [] inside record)
    {choices : List (Nat × String)} (hchoices : choices.map Prod.fst = message.realOneofs.map Prod.fst) :
    Describes (messagePaths modules names message) [] ((fullName, .message message) :: inside)
      (⟨[(fullName, ⟨⟨modules, names.1⟩, names.2, .message message⟩)], [], []⟩ ++
        (record ++ choiceRecord (modules ++ [names.2]) fullName choices)) := by
  obtain ⟨items, hdeclared, hitems, hentries, honeofs, hpaths⟩ := h
  refine ⟨⟨fullName, ⟨⟨modules, names.1⟩, names.2, .message message⟩, choices⟩ :: items, ?_, ?_, ?_, ?_, ?_⟩
  · rw [List.map_cons, hdeclared]
    rfl
  · intro item hitem
    rcases List.mem_cons.mp hitem with rfl | hitem
    · exact hchoices
    · exact hitems item hitem
  · simp [hentries, choiceRecord]
    rfl
  · simp only [Record.oneofs_append, List.flatMap_cons, choiceRecord, List.nil_append]
    exact (honeofs.append_right _).trans List.perm_append_comm
  · simp only [Record.claims_append, List.flatMap_cons, choiceRecord, List.nil_append, List.append_nil] at hpaths ⊢
    show (messagePaths modules names message ++ (record.claims ++ _)).Perm ((messagePaths modules names message ++ _) ++ _)
    rw [List.append_assoc]
    exact ((hpaths.append_right _).trans List.perm_append_comm).append_left _

mutual

theorem registers_message (modules : List String) (outer : String) (names : String × String) :
    ∀ message : Descriptor.Message,
      Registers (registerMessage modules outer names message) ((declaredMessage outer message).map Prod.fst) fun _ r =>
        Describes (messagePaths modules names message) [] (declaredMessage outer message) r
  | .mk name fields nested enums oneofs mapEntry => by
    rw [registerMessage, declaredMessage, List.map_cons, List.map_append]
    refine (registers_insert _ _).bind fun _ r₁ h₁ => ((registers_openScope _ _ nested enums).bind fun inner r₂ h₂ =>
      ((registers_messages _ _ inner nested h₂.1).bind fun _ r₃ h₃ =>
        (registers_choices _ _ _).imp fun _ r₄ h₄ => ?_).of_names (List.append_nil _))
    obtain ⟨choices, hchoices, rfl⟩ := h₄
    rw [h₁, ← Record.append_assoc r₂]
    exact describes_message (h₂.2.append h₃) hchoices

theorem registers_messages (modules : List String) (outer : String) :
    ∀ (names : List (String × String)) (messages : List Descriptor.Message), names.length = messages.length →
      Registers (registerMessages modules outer names messages) ((declaredMessages outer messages).map Prod.fst) fun _ r =>
        Describes (scopePaths modules names messages) [] (declaredMessages outer messages) r
  | [], [], _ => by
    rw [registerMessages, declaredMessages]
    · refine (registers_pure ()).imp fun _ r hr => ?_
      rw [hr.2]
      exact describes_nothing []
    · intro _ _ _ _ h
      cases h
  | names :: more, message :: rest, h => by
    rw [registerMessages, declaredMessages, List.map_append]
    refine (registers_message modules outer names message).bind fun _ r hr =>
      (registers_messages modules outer more rest (Nat.succ.inj h)).imp fun _ s hs => ?_
    exact (hr.pending _).append hs

end

/-! ## Files -/

theorem registers_file (file : Descriptor.File) :
    Registers (registerFile file) ((declaredFile file).map Prod.fst) fun _ r => Describes [] [] (declaredFile file) r := by
  rw [declaredFile, List.map_append]
  refine (registers_openScope _ _ file.messages file.enums).bind fun names r hr =>
    (registers_messages _ _ names file.messages hr.1).imp fun _ s hs => ?_
  exact hr.2.append hs

theorem registers_files (files : List Descriptor.File) :
    Registers (files.forM registerFile) ((files.flatMap declaredFile).map Prod.fst) fun _ r =>
      Describes [] [] (files.flatMap declaredFile) r := by
  have hone : ∀ file, Registers (registerFile file) ((declaredFile file).map Prod.fst) fun _ r =>
      Describes [] [] ([file].flatMap declaredFile) r := by
    intro file
    rw [List.flatMap_singleton]
    exact registers_file file
  have hcons : ∀ (file : Descriptor.File) (rest : List Descriptor.File) (r s : Record),
      Describes [] [] ([file].flatMap declaredFile) r → Describes [] [] (rest.flatMap declaredFile) s →
        Describes [] [] ((file :: rest).flatMap declaredFile) (r ++ s) := by
    intro file rest r s hr hs
    rw [List.flatMap_singleton] at hr
    exact hr.append hs
  rw [List.map_flatMap]
  exact registers_forM _ (Q := fun files r => Describes [] [] (files.flatMap declaredFile) r) (describes_nothing []) hcons
    hone files

/-- Before any type, the modules of all packages are taken, and nothing else. -/
theorem taken_reserved (files : List Descriptor.File) (path : ItemPath) :
    (files.foldl (fun draft file => reserveModules draft (Naming.packageModules file.packageText)) {}).Taken path ↔
      path ∈ files.flatMap packagePaths := by
  have hmodules : ∀ (modules : List String) (pairs : List (String × Nat)) (draft : Draft),
      (pairs.foldl (fun draft (name, depth) =>
        let outer := modules.take depth
        draft.setScope outer ((draft.scope outer).insert name)) draft).Taken path ↔
          path ∈ pairs.map (fun (name, depth) => ⟨modules.take depth, name⟩) ∨ draft.Taken path := by
    intro modules pairs
    induction pairs with
    | nil => simp
    | cons pair pairs ih =>
      intro draft
      rw [List.foldl_cons, ih, Draft.taken_insert, List.map_cons, List.mem_cons]
      tauto
  have hfiles : ∀ draft : Draft,
      (files.foldl (fun draft file => reserveModules draft (Naming.packageModules file.packageText)) draft).Taken path ↔
        path ∈ files.flatMap packagePaths ∨ draft.Taken path := by
    induction files with
    | nil => simp
    | cons file files ih =>
      intro draft
      rw [List.foldl_cons, ih, reserveModules, hmodules, List.flatMap_cons, List.mem_append, packagePaths]
      tauto
  rw [hfiles]
  simp [Draft.Taken, Draft.scope, Scope.isTaken]

theorem registry_reserved (files : List Descriptor.File) :
    (files.foldl (fun draft file => reserveModules draft (Naming.packageModules file.packageText)) {}).registry = {} := by
  have hmodules : ∀ (draft : Draft) (modules : List String), (reserveModules draft modules).registry = draft.registry := by
    intro draft modules
    rw [reserveModules]
    generalize modules.zipIdx = pairs
    induction pairs generalizing draft with
    | nil => rfl
    | cons pair pairs ih =>
      rw [List.foldl_cons, ih]
      rfl
  have hfiles : ∀ draft : Draft, (files.foldl (fun draft file =>
      reserveModules draft (Naming.packageModules file.packageText)) draft).registry = draft.registry := by
    induction files with
    | nil => exact fun _ => rfl
    | cons file files ih =>
      intro draft
      rw [List.foldl_cons, ih, hmodules]
  exact hfiles {}

/-- The items of a registry: each under its full name, with its choices, all at paths of their own. -/
structure Holds (registry : Registry) (items : List Placed) : Prop where
  types : registry.types.Perm (items.map Placed.binding)
  oneofs : registry.oneofs.Perm (items.flatMap Placed.oneofs)
  choices : ∀ item ∈ items, item.choices.map Prod.fst = item.entry.declaration.choices
  names : (items.map Placed.fullName).Nodup
  paths : (items.flatMap Placed.paths).Nodup

/-- Registering ends with a name declared twice, or with all that is declared, clear of the package modules. -/
theorem ofFiles_cases (files : List Descriptor.File) :
    (∃ name, ofFiles files = .error (.duplicateType name) ∧
      1 < ((files.flatMap declaredFile).map Prod.fst).count name) ∨
    ∃ registry items, ofFiles files = .ok registry ∧ Holds registry items ∧
      items.map Placed.declared = files.flatMap declaredFile ∧
      ∀ path ∈ items.flatMap Placed.paths, path ∉ files.flatMap packagePaths := by
  have hreg := registry_reserved files
  have htaken := taken_reserved files
  have heffect := registers_files files
    (files.foldl (fun draft file => reserveModules draft (Naming.packageModules file.packageText)) {})
  dsimp only [ofFiles]
  generalize files.foldl (fun draft file => reserveModules draft (Naming.packageModules file.packageText)) {} = start at *
  have hnone : start.names = [] := by
    rw [Draft.names, hreg]
    rfl
  generalize (files.forM registerFile).run start = result at heffect ⊢
  cases heffect with
  | @duplicate name twice =>
    rw [hnone, List.append_nil] at twice
    exact .inl ⟨name, rfl, twice⟩
  | @ok _ after record adds hnames hnodup holds =>
    obtain ⟨items, hdeclared, hchoices, hentries, honeofs, hpaths⟩ := holds
    have hclaims : record.claims.Perm (items.flatMap Placed.paths) := by
      rw [List.nil_append, List.append_nil] at hpaths
      exact hpaths
    have htypes := adds.types
    have hones := adds.oneofs
    rw [hreg, List.append_nil] at htypes hones
    rw [hentries] at htypes
    refine .inr ⟨after.registry, items, rfl, ⟨htypes, hones.trans honeofs, hchoices, ?_, ?_⟩, hdeclared, ?_⟩
    · have hafter := hnodup (by rw [hnone]; exact .nil)
      rw [Draft.names, (htypes.map Prod.fst).nodup_iff, List.map_map] at hafter
      exact hafter
    · exact hclaims.nodup_iff.mp adds.nodup
    · intro path hp hpackage
      exact adds.free path (hclaims.mem_iff.mpr hp) ((htaken path).mpr hpackage)

/-! ## What a registry gives -/

theorem lookup_of_mem {κ ν : Type} [BEq κ] [LawfulBEq κ] {key : κ} {value : ν} {pairs : List (κ × ν)}
    (hnodup : (pairs.map Prod.fst).Nodup) (h : (key, value) ∈ pairs) : pairs.lookup key = some value := by
  induction pairs with
  | nil => cases h
  | cons pair pairs ih =>
    obtain ⟨k, v⟩ := pair
    obtain ⟨hnew, hrest⟩ := List.nodup_cons.mp hnodup
    rcases List.mem_cons.mp h with heq | hmem
    · cases heq
      exact List.lookup_cons_self
    · have hne : key ≠ k := by
        rintro rfl
        exact hnew (List.mem_map.mpr ⟨_, hmem, rfl⟩)
      rw [List.lookup_cons, beq_false_of_ne hne]
      exact ih hrest hmem

theorem nodup_choices (declaration : Declaration) : declaration.choices.Nodup := by
  cases declaration with
  | enum decl => exact .nil
  | message decl =>
    have hindices : (decl.oneofs.zipIdx.map fun pair => (pair.2, pair.1)).map Prod.fst =
        List.range decl.oneofs.length := by
      rw [List.map_map, List.range_eq_range']
      exact List.zipIdx_map_snd 0 decl.oneofs
    have hall := List.nodup_range (n := decl.oneofs.length)
    rw [← hindices] at hall
    exact hall.sublist (List.filter_sublist.map _)

namespace Holds

variable {registry : Registry} {items : List Placed} {item : Placed}

theorem get?_eq (h : Holds registry items) (hi : item ∈ items) : registry.get? item.fullName = some item.entry := by
  refine lookup_of_mem ?_ (h.types.mem_iff.mpr (List.mem_map_of_mem hi))
  rw [(h.types.map Prod.fst).nodup_iff, List.map_map]
  exact h.names

theorem oneofName?_eq (h : Holds registry items) (hi : item ∈ items) {index : Nat} {name : String}
    (hc : (index, name) ∈ item.choices) : registry.oneofName? item.fullName index = some name := by
  refine lookup_of_mem ?_ (h.oneofs.mem_iff.mpr (List.mem_flatMap.mpr ⟨item, hi, List.mem_map_of_mem hc⟩))
  rw [(h.oneofs.map Prod.fst).nodup_iff, List.map_flatMap]
  refine List.nodup_flatMap.mpr ⟨fun other ho => ?_, ?_⟩
  · -- the choices of one message differ in their positions
    have hpositions := nodup_choices other.entry.declaration
    rw [← h.choices other ho] at hpositions
    have hkeys : (other.oneofs.map Prod.fst) = (other.choices.map Prod.fst).map fun i => (other.fullName, i) := by
      rw [Placed.oneofs, List.map_map, List.map_map]
      rfl
    rw [hkeys]
    exact hpositions.map fun i j hij => (Prod.mk.inj hij).2
  · have hnames := List.pairwise_map.mp h.names
    refine hnames.imp fun {a b} hne => ?_
    intro key ha hb
    obtain ⟨_, hx, rfl⟩ := List.mem_map.mp ha
    obtain ⟨_, hy, heq⟩ := List.mem_map.mp hb
    obtain ⟨_, _, rfl⟩ := List.mem_map.mp hx
    obtain ⟨_, _, rfl⟩ := List.mem_map.mp hy
    exact hne (Prod.mk.inj heq).1.symm

theorem choicePaths_eq (h : Holds registry items) (hi : item ∈ items) :
    registry.choicePaths item.fullName item.entry =
      item.choices.map fun choice => ⟨item.entry.path.modules ++ [item.entry.module], choice.2⟩ := by
  rw [choicePaths, ← h.choices item hi, List.map_map]
  refine List.map_congr_left fun choice hc => ?_
  rw [Function.comp_apply, h.oneofName?_eq hi hc]
  rfl

/-- The paths of a registry are those of its items. -/
theorem perm_paths (h : Holds registry items) : registry.paths.Perm (items.flatMap Placed.paths) := by
  refine (h.types.flatMap_right _).trans ?_
  rw [List.flatMap_map]
  refine .of_eq (List.flatMap_congr fun item hi => ?_)
  rw [Placed.paths, ← h.choicePaths_eq hi]
  rfl

end Holds

end Registry

end Protobuf.Schema
