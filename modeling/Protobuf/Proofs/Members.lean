/-
  Protobuf.Proofs.Members — names inside a generated message.

  Choices and then fields ask for a base name in turn, and get it if all names made from it are free, else a fallback
  that is not looked at again. No name is a reserved one, since every name made from a fallback ends as no reserved
  name does (`isMarked`). Names are distinct just if at each turn one of the two was free (`fallbacksFree`)
  and no place for a message put aside has the name of another place (`memberNames_nodup_iff`). Both can fail:
  `foo`, `has_foo_2` and `has_foo` with number 2 are three fields with two names.
-/

import Protobuf.Proofs.Paths
import Protobuf.Schema.Storage

namespace Protobuf.Schema

open Naming (Scope)

/-! ## Taking names in turn -/

/-- What a field or a choice asks for. -/
structure Request where
  names : String → List String
  base : String
  fallback : String

namespace Request

/-- The base name it gets, and the scope with the names made from that. -/
def take (scope : Scope) (request : Request) : String × Scope :=
  Context.takeMember scope request.names request.base request.fallback

/-- All names made from what the requests get. -/
def derived (scope : Scope) : List Request → List String
  | [] => []
  | request :: rest => request.names (request.take scope).1 ++ derived (request.take scope).2 rest

/-- Whether all names made from this one are free. -/
def isFree (scope : Scope) (request : Request) (name : String) : Bool := !(request.names name).any scope.isTaken

/-- Whether each request, at its turn, finds its base name or else its fallback free. -/
def fallbacksFree (scope : Scope) : List Request → Bool
  | [] => true
  | request :: rest =>
    (request.isFree scope request.base || request.isFree scope request.fallback) && fallbacksFree (request.take scope).2 rest

variable {scope : Scope} {request : Request} {requests : List Request}

theorem isFree_iff {name : String} : request.isFree scope name = true ↔ ∀ n ∈ request.names name, scope.isTaken n = false := by
  simp [isFree]

theorem take_eq : (request.take scope).1 = if request.isFree scope request.base then request.base else request.fallback := by
  cases h : (request.names request.base).any scope.isTaken with
  | true => simp [take, Context.takeMember, isFree, h]
  | false => simp [take, Context.takeMember, isFree, h]

theorem isTaken_take {name : String} : (request.take scope).2.isTaken name = true ↔
    name ∈ request.names (request.take scope).1 ∨ scope.isTaken name = true :=
  Scope.isTaken_insertAll

/-- What is taken is free just if the base name or the fallback is. -/
theorem isFree_take : request.isFree scope (request.take scope).1 =
    (request.isFree scope request.base || request.isFree scope request.fallback) := by
  rw [take_eq]
  cases h : request.isFree scope request.base with
  | true => simp [h]
  | false => simp

/-- The names made are distinct and were free just if at each turn the base name or the fallback was free. -/
theorem derived_iff (hnames : ∀ request ∈ requests, ∀ base, (request.names base).Nodup) :
    (derived scope requests).Nodup ∧ (∀ name ∈ derived scope requests, scope.isTaken name = false) ↔
      fallbacksFree scope requests = true := by
  induction requests generalizing scope with
  | nil => simp [derived, fallbacksFree]
  | cons request rest ih =>
    obtain ⟨hown, hrest⟩ := List.forall_mem_cons.mp hnames
    have hnext : ∀ name, (request.take scope).2.isTaken name = false ↔
        name ∉ request.names (request.take scope).1 ∧ scope.isTaken name = false := by
      intro name
      rw [Bool.eq_false_iff, Ne, isTaken_take, not_or, Bool.eq_false_iff]
    rw [derived, fallbacksFree, Bool.and_eq_true, ← isFree_take, ← ih hrest, isFree_iff, List.nodup_append]
    constructor
    · intro h
      obtain ⟨⟨_, hnodup, hapart⟩, hfree⟩ := h
      obtain ⟨hnow, hlater⟩ := List.forall_mem_append.mp hfree
      exact ⟨hnow, hnodup, fun name hname => (hnext name).mpr ⟨fun hmem => hapart name hmem name hname rfl, hlater name hname⟩⟩
    · intro h
      obtain ⟨hnow, hnodup, hlater⟩ := h
      refine ⟨⟨hown _, hnodup, fun a ha b hb hab => ?_⟩, List.forall_mem_append.mpr ⟨hnow, fun name hname => ?_⟩⟩
      · exact ((hnext b).mp (hlater b hb)).1 (hab ▸ ha)
      · exact ((hnext name).mp (hlater name hname)).2

/-- No name made is a reserved one if none made from a fallback is. -/
theorem derived_notReserved {reserved : List String}
    (hfallback : ∀ request ∈ requests, ∀ name ∈ request.names request.fallback, name ∉ reserved)
    (hscope : ∀ name ∈ reserved, scope.isTaken name = true) : ∀ name ∈ derived scope requests, name ∉ reserved := by
  induction requests generalizing scope with
  | nil => exact List.forall_mem_nil _
  | cons request rest ih =>
    obtain ⟨hown, hrest⟩ := List.forall_mem_cons.mp hfallback
    rw [derived]
    refine List.forall_mem_append.mpr ⟨fun name hname hmem => ?_, ih hrest fun name hname => ?_⟩
    · rw [take_eq] at hname
      split at hname
      · rename_i hfree
        have := isFree_iff.mp hfree name hname
        rw [hscope name hmem] at this
        cases this
      · exact hown name hname hmem
    · exact isTaken_take.mpr (.inr (hscope name hname))

end Request

/-! ## Names made from one base name -/

open Context (fieldMembers oneofMembers)

theorem length_fieldName (base : String) :
    base.toList.length ≤ (Naming.fieldName base).toList.length ∧
      (Naming.fieldName base).toList.length ≤ base.toList.length + 2 := by
  have hmark : "_".toList.length = 1 := rfl
  have hraw : "r#".toList.length = 2 := rfl
  unfold Naming.fieldName
  split
  · rw [String.toList_append, List.length_append]
    omega
  · split
    · rw [String.toList_append, List.length_append]
      omega
    · omega

/-- The names made from one base name differ in length or in how often they have these letters. -/
theorem nodup_fieldMembers (base : String) : (fieldMembers base).Nodup := by
  have hlen := length_fieldName base
  refine List.Nodup.of_map (fun name =>
    (name.toList.length, name.toList.count 'm', name.toList.count 's', name.toList.count 'h')) ?_
  simp [fieldMembers]
  omega

theorem oneofMembers_sublist (base : String) : (oneofMembers base).Sublist (fieldMembers base) := by
  simp [oneofMembers, fieldMembers]

theorem nodup_oneofMembers (base : String) : (oneofMembers base).Nodup :=
  (nodup_fieldMembers base).sublist (oneofMembers_sublist base)

/-! ## Names that are not reserved -/

/-- Whether a name ends as no reserved one does. -/
def isMarked (name : String) : Bool :=
  name.toList.getLast?.any Char.isDigit || ["_", "_mut", "_oneof", "_spare"].any (·.toList.isSuffixOf name.toList)

theorem not_mem_reservedMembers {name : String} (h : isMarked name = true) : name ∉ Naming.reservedMembers := by
  have hreserved : ∀ reserved ∈ Naming.reservedMembers, isMarked reserved = false := by decide +kernel
  intro hmem
  rw [hreserved name hmem] at h
  cases h

theorem isMarked_append {stem ending : String} (h : isMarked ending = true) : isMarked (stem ++ ending) = true := by
  simp only [isMarked, Bool.or_eq_true, List.any_eq_true, Option.any_eq_true, List.isSuffixOf_iff_suffix,
    String.toList_append] at h ⊢
  rcases h with ⟨c, hlast, hdigit⟩ | ⟨mark, hmark, hsuffix⟩
  · exact .inl ⟨c, by rw [List.getLast?_append, hlast, Option.some_or], hdigit⟩
  · exact .inr ⟨mark, hmark, hsuffix.trans (List.suffix_append ..)⟩

theorem isMarked_repr (n : Nat) : isMarked (Nat.repr n) = true := by
  rw [isMarked, Nat.toList_repr, List.getLast?_eq_some_getLast Nat.toDigits_ne_nil, Option.any_some, Bool.or_eq_true]
  exact .inl (Nat.isDigit_of_mem_toDigits (by decide) (by decide) (List.getLast_mem _))

theorem isMarked_fieldMembers {base : String} (h : isMarked base = true) : ∀ name ∈ fieldMembers base, isMarked name = true := by
  have hself : isMarked (Naming.fieldName base) = true := by
    unfold Naming.fieldName
    split
    · exact isMarked_append (by decide)
    · split
      · exact isMarked_append h
      · exact h
  intro name hname
  simp only [fieldMembers, List.mem_cons, List.not_mem_nil, or_false] at hname
  rcases hname with rfl | rfl | rfl | rfl | rfl | rfl
  · exact hself
  · exact isMarked_append h
  · exact isMarked_append h
  · exact isMarked_append h
  · exact isMarked_append (by decide)
  · exact isMarked_append h

/-! ## What a message asks for -/

namespace Request

def ofOneof (oneof : Descriptor.Oneof) : Request :=
  ⟨oneofMembers, Naming.snake oneof.nameText, Naming.snake oneof.nameText ++ "_oneof"⟩

def ofField (field : Descriptor.Field) : Request :=
  ⟨fieldMembers, Naming.snake field.nameText,
    Naming.snake field.nameText ++ "_" ++ Nat.repr field.numberValue.toInt.toNat⟩

/-- What a message asks for: choices first, then fields, as declared. -/
def ofMessage (decl : Descriptor.Message) : List Request :=
  (decl.realOneofs.map fun (_, oneof) => ofOneof oneof) ++ decl.fields.map ofField

theorem nodup_ofMessage {decl : Descriptor.Message} : ∀ request ∈ ofMessage decl, ∀ base, (request.names base).Nodup := by
  intro request hrequest
  rcases List.mem_append.mp hrequest with hmem | hmem
  · obtain ⟨oneof, _, rfl⟩ := List.mem_map.mp hmem
    exact nodup_oneofMembers
  · obtain ⟨field, _, rfl⟩ := List.mem_map.mp hmem
    exact nodup_fieldMembers

theorem isMarked_ofMessage {decl : Descriptor.Message} :
    ∀ request ∈ ofMessage decl, ∀ name ∈ request.names request.fallback, isMarked name = true := by
  intro request hrequest name hname
  rcases List.mem_append.mp hrequest with hmem | hmem
  · obtain ⟨oneof, _, rfl⟩ := List.mem_map.mp hmem
    exact isMarked_fieldMembers (isMarked_append (by decide)) name ((oneofMembers_sublist _).subset hname)
  · obtain ⟨field, _, rfl⟩ := List.mem_map.mp hmem
    exact isMarked_fieldMembers (isMarked_append (isMarked_repr _)) name hname

end Request

namespace MessageType

/-- Names of storage and methods made from the base names of choices and fields. -/
def derivedNames (type : MessageType) : List String :=
  (type.oneofs.map Oneof.member).flatMap oneofMembers ++ (type.fields.map Field.member).flatMap fieldMembers

/-- Names of the places for messages put aside. -/
def spareNames (type : MessageType) : List String := type.oneofs.filterMap type.spareName?

/-- All names inside the generated message but the reserved ones. -/
def memberNames (type : MessageType) : List String := type.derivedNames ++ type.spareNames

end MessageType

namespace Context

variable {context : Context} {fullName : String} {place : Place} {progress next : Progress}

/-- Names made so far, and those to come if these requests are made. -/
def Progress.names (progress : Progress) (requests : List Request) : List String :=
  (progress.oneofs.map Oneof.member).flatMap oneofMembers ++
    ((progress.fields.map Field.member).flatMap fieldMembers ++ Request.derived progress.members requests)

theorem addOneofs_names (entry : Registered) (real : List (Nat × Descriptor.Oneof)) (hfields : progress.fields = [])
    (rest : List Request) :
    (context.addOneofs entry fullName place real progress).names rest =
      progress.names ((real.map fun (_, oneof) => Request.ofOneof oneof) ++ rest) := by
  induction real generalizing progress with
  | nil => rfl
  | cons first real ih =>
    obtain ⟨index, oneof⟩ := first
    have hnext : (context.addOneof entry fullName place progress index oneof).fields = [] := hfields
    rw [addOneofs, List.foldl_cons, ← addOneofs]
    refine (ih hnext).trans ?_
    simp [Progress.names, addOneof, hfields, Request.derived, Request.take, Request.ofOneof]

theorem fieldNumber_eq {decl : Descriptor.Field} {fieldName : String} {number : Nat}
    (h : fieldNumber decl fieldName = .ok number) : number = decl.numberValue.toInt.toNat := by
  unfold fieldNumber at h
  dsimp only at h
  split at h
  · cases h
  · split at h
    · cases h
    · cases h
      rfl

theorem addField_names {real : List (Nat × Descriptor.Oneof)} {index : Nat} {decl : Descriptor.Field}
    (h : context.addField fullName place real progress index decl = .ok next) (rest : List Request) :
    next.names rest = progress.names (Request.ofField decl :: rest) := by
  rw [Progress.names, Progress.names, addField_oneofs h fun _ _ => rfl]
  obtain ⟨alone, field, hadds⟩ := addField_adds h
  obtain ⟨hmember, hmembers⟩ := Prod.mk.inj hadds.member
  rw [hadds.fields, hmembers, List.map_append, List.map_singleton, hmember, fieldNumber_eq hadds.number]
  simp only [Request.derived, List.flatMap_append, List.flatMap_singleton, List.append_assoc]
  rfl

theorem addFields_names {real : List (Nat × Descriptor.Oneof)} {decls : List Descriptor.Field}
    (h : context.addFields fullName place real progress decls = .ok next) (rest : List Request) :
    next.names rest = progress.names (decls.map Request.ofField ++ rest) := by
  refine addFields_induction (P := fun done next => ∀ rest, next.names rest = progress.names
    (done.map Request.ofField ++ rest)) h (fun _ => rfl) (fun {done before decl after} hdone hadd rest => ?_) rest
  rw [addField_names hadd, hdone, List.map_append, List.append_assoc]
  rfl

/-- The names made for a message are those its declaration asks for, in turn. -/
theorem message_names {decl : Descriptor.Message} {tree : MessageTree}
    (h : context.message fullName place decl = .ok tree) :
    tree.type.derivedNames = Request.derived ⟨Naming.reservedMembers⟩ (Request.ofMessage decl) := by
  obtain ⟨entry, progress, _, hprogress, _, _, _, _, _, hfields, honeofs, _⟩ := message_ok h
  have hnames := addFields_names hprogress []
  rw [addOneofs_names _ _ rfl, List.append_nil] at hnames
  rw [MessageType.derivedNames, hfields, honeofs]
  simpa [Progress.names, Request.derived, Request.ofMessage] using hnames

theorem message_declared {outer : String} {decl : Descriptor.Message} {tree : MessageTree}
    (h : context.message (qualify outer decl.nameText) place decl = .ok tree) :
    (tree.type.fullName, Declaration.message decl) ∈ declaredMessage outer decl := by
  obtain ⟨_, _, _, _, _, _, hfull, _⟩ := message_ok h
  rw [hfull, declaredMessage_eq]
  exact List.mem_cons_self ..

end Context

/-! ## Messages put aside -/

namespace MessageType

variable {type : MessageType}

/-- Names under which choices and fields are stored. -/
def storageNames (type : MessageType) : List String :=
  type.oneofs.map Oneof.storageName ++ type.fields.map Field.storageName

theorem spareName?_eq {oneof : Oneof} {spare : String} (h : type.spareName? oneof = some spare) :
    spare = "_" ++ oneof.member ++ "_spare" := by
  unfold spareName? at h
  split at h
  · cases h
  · exact (Option.some.inj h).symm

/-- No method has the name of a place for messages put aside: that begins with an underscore and ends in an `e`. -/
theorem mem_fieldMembers_spare {stem base : String} (h : "_" ++ stem ++ "_spare" ∈ fieldMembers base) :
    "_" ++ stem ++ "_spare" = Naming.fieldName base := by
  have hfirst : ("_" ++ stem ++ "_spare").toList.head? = some '_' := by simp
  have hlast : ("_" ++ stem ++ "_spare").toList.getLast? = some 'e' := by
    rw [String.toList_append, List.getLast?_append]
    rfl
  simp only [fieldMembers, List.mem_cons, List.not_mem_nil, or_false] at h
  rcases h with h | h | h | h | h | h
  · exact h
  · simp [h] at hfirst
  · simp [h] at hfirst
  · simp [h] at hfirst
  · simp [h] at hlast
  · simp [h] at hfirst

/-- The name of a place for messages put aside is made from a base name just if something is stored under it. -/
theorem mem_derivedNames_iff {spare : String} (h : spare ∈ type.spareNames) :
    spare ∈ type.derivedNames ↔ spare ∈ type.storageNames := by
  obtain ⟨oneof, _, hspare⟩ := List.mem_filterMap.mp h
  have hname := spareName?_eq hspare
  have hmember : ∀ base, spare ∈ fieldMembers base ↔ Naming.fieldName base = spare := by
    intro base
    constructor
    · intro hmem
      rw [hname] at hmem ⊢
      exact (mem_fieldMembers_spare hmem).symm
    · rintro rfl
      exact List.mem_cons_self ..
  have hchoice : ∀ base, spare ∈ oneofMembers base ↔ Naming.fieldName base = spare := by
    intro base
    constructor
    · intro hmem
      exact (hmember base).mp ((oneofMembers_sublist base).subset hmem)
    · rintro rfl
      exact List.mem_cons_self ..
  simp [derivedNames, storageNames, Oneof.storageName, Field.storageName, hmember, hchoice]

theorem nodup_spareNames (h : type.derivedNames.Nodup) : type.spareNames.Nodup := by
  have honeofs : (type.oneofs.flatMap fun oneof => oneofMembers oneof.member).Nodup := by
    rw [derivedNames, List.flatMap_map] at h
    exact h.of_append_left
  refine List.pairwise_filterMap.mpr ((List.nodup_flatMap.mp honeofs).2.imp ?_)
  intro a b hapart first hfirst second hsecond hsame
  rw [spareName?_eq hfirst, spareName?_eq hsecond] at hsame
  have hmember : a.member = b.member := by simpa using hsame
  have hstored : ∀ base, Naming.fieldName base ∈ oneofMembers base := fun base => List.mem_cons_self ..
  exact hapart (hstored a.member) (hmember ▸ hstored b.member)

theorem nodup_memberNames_iff : type.memberNames.Nodup ↔
    type.derivedNames.Nodup ∧ ∀ spare ∈ type.spareNames, spare ∉ type.storageNames := by
  rw [memberNames, List.nodup_append']
  constructor
  · intro h
    exact ⟨h.1, fun spare hspare hstored => h.2.2 ((mem_derivedNames_iff hspare).mpr hstored) hspare⟩
  · intro h
    refine ⟨h.1, nodup_spareNames h.1, fun spare hderived hspare => ?_⟩
    exact h.2 spare hspare ((mem_derivedNames_iff hspare).mp hderived)

end MessageType

/-! ## Generated messages -/

namespace Registry

/-- No name inside a generated message is reserved. The names are distinct just if each choice and field found its
    name or its fallback free at its turn, and nothing is stored under the name of a place for messages put aside. -/
theorem memberNames_nodup_iff {registry : Registry} {file : Descriptor.File} {keepsUnknown : Bool}
    {resolved : File} (h : registry.resolve file keepsUnknown = .ok resolved) :
    ∀ tree ∈ subtreesAll resolved.messages, ∃ decl,
      (tree.type.fullName, Declaration.message decl) ∈ declaredFile file ∧
      (∀ name ∈ tree.type.memberNames, name ∉ Naming.reservedMembers) ∧
      (tree.type.memberNames.Nodup ↔
        Request.fallbacksFree ⟨Naming.reservedMembers⟩ (Request.ofMessage decl) = true ∧
          ∀ spare ∈ tree.type.spareNames, spare ∉ tree.type.storageNames) := by
  obtain ⟨context, _, hfrom, _⟩ := resolve_from h
  intro tree ht
  obtain ⟨outer, place, decl, hsub, hmessage⟩ := hfrom tree ht
  have hnames := Context.message_names hmessage
  have hreserved : ∀ name ∈ tree.type.derivedNames, name ∉ Naming.reservedMembers := by
    rw [hnames]
    refine Request.derived_notReserved (fun request hr name hn => ?_) fun name hn => Scope.isTaken_iff.mpr hn
    exact not_mem_reservedMembers (Request.isMarked_ofMessage request hr name hn)
  have hdistinct : tree.type.derivedNames.Nodup ↔
      Request.fallbacksFree ⟨Naming.reservedMembers⟩ (Request.ofMessage decl) = true := by
    rw [← Request.derived_iff Request.nodup_ofMessage, ← hnames, and_iff_left]
    intro name hn
    exact Bool.eq_false_iff.mpr fun htaken => hreserved name hn (Scope.isTaken_iff.mp htaken)
  refine ⟨decl, hsub (Context.message_declared hmessage), List.forall_mem_append.mpr ⟨hreserved, fun spare hspare => ?_⟩, ?_⟩
  · obtain ⟨oneof, _, hspare⟩ := List.mem_filterMap.mp hspare
    rw [MessageType.spareName?_eq hspare]
    exact not_mem_reservedMembers (isMarked_append (by decide))
  · rw [MessageType.nodup_memberNames_iff, hdistinct]

/-- A choice and its fields ask for `foo`, another field for the name of a method of the choice, the last for a
    reserved name. -/
def meeting : Descriptor.Message :=
  let fields := [
    Descriptor.Field.inOneof (.message "foo" 1 ".Meeting") 0, .inOneof (.scalar "Foo" 2 .int32) 0,
    .scalar "clear_foo" 4 .int32, .scalar "clear" 5 .int32]
  .withOneofs (.of "Meeting" fields) ["foo"]

set_option maxRecDepth 100000 in
theorem memberNames_nodup_meeting : ∃ registry resolved, ofFiles [{ messages := [meeting] }] = .ok registry ∧
    registry.resolve { messages := [meeting] } true = .ok resolved ∧ (subtreesAll resolved.messages).length = 1 ∧
    ∀ tree ∈ subtreesAll resolved.messages, tree.type.memberNames.Nodup := by
  have hok : (((ofFiles [{ messages := [meeting] }]) >>= (·.resolve { messages := [meeting] } true)).toOption.any
      fun resolved => (subtreesAll resolved.messages).length == 1 && (subtreesAll resolved.messages).all fun tree =>
        tree.type.spareNames.all (!tree.type.storageNames.contains ·)) = true := by
    decide +kernel
  have hfree : Request.fallbacksFree ⟨Naming.reservedMembers⟩ (Request.ofMessage meeting) = true := by decide +kernel
  have hdeclared : declaredFile { messages := [meeting] } = [("Meeting", .message meeting)] := rfl
  cases hresolved : ofFiles [{ messages := [meeting] }] >>= (·.resolve { messages := [meeting] } true) with
  | error e =>
    rw [hresolved] at hok
    cases hok
  | ok resolved =>
    rw [hresolved] at hok
    obtain ⟨hone, hspares⟩ := Bool.and_eq_true_iff.mp hok
    obtain ⟨registry, hregistry, hresolve⟩ := bind_ok hresolved
    refine ⟨registry, resolved, hregistry, hresolve, beq_iff_eq.mp hone, fun tree ht => ?_⟩
    obtain ⟨decl, hdecl, _, hiff⟩ := memberNames_nodup_iff hresolve tree ht
    rw [hdeclared] at hdecl
    have hsame : decl = meeting := Declaration.message.inj (congrArg Prod.snd (List.mem_singleton.mp hdecl))
    subst hsame
    refine hiff.mpr ⟨hfree, fun spare hspare => ?_⟩
    simpa using List.all_eq_true.mp (List.all_eq_true.mp hspares tree ht) spare hspare

/-- The third field finds a method of the first under its name, and its fallback is the name of the second. -/
theorem memberNames_collide :
    let fields := [
      Descriptor.Field.scalar "foo" 1 .int32, .scalar "has_foo_2" 3 .int32, .scalar "has_foo" 2 .int32]
    let file : Descriptor.File := { package := some "demo", messages := [.of "M" fields] }
    ((ofFiles [file] >>= (·.resolve file true)).toOption.map fun resolved =>
      resolved.messages.map fun tree => (tree.type.fields.map Field.member, decide tree.type.memberNames.Nodup)) =
        some [(["foo", "has_foo_2", "has_foo_2"], false)] := by
  decide +kernel

/-- A choice with a message has a place for one put aside, and a field can have the name of that place. -/
example :
    let fields := [Descriptor.Field.inOneof (.message "m" 1 ".M") 0, .scalar "_x_spare" 2 .int32]
    let file : Descriptor.File := { messages := [.withOneofs (.of "M" fields) ["x"]] }
    ((ofFiles [file] >>= (·.resolve file true)).toOption.map fun resolved =>
      resolved.messages.map fun tree => (tree.type.spareNames, tree.type.storageNames)) =
        some [(["_x_spare"], ["x", "m", "_x_spare"])] := by
  decide +kernel

end Registry

end Protobuf.Schema
