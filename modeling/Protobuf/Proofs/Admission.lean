/-
  Protobuf.Proofs.Admission — which schemas code is generated for.

  Every check is made while a message is resolved, so a message that is resolved has passed them all
  (`Context.Accepts.sound`). Resolving a file resolves each of its messages at any depth, but for the entries of maps
  inside messages: those, and with them whatever is declared inside them, are passed over (`checkedFile`,
  `Context.Accepts.checked`). A failure anywhere in a listed file is the whole answer (`generate_sound`).
-/

import Protobuf.Plugin.Response
import Protobuf.Proofs.Declared

namespace Protobuf

namespace Schema

open Registry (Means)

/-! ## What is asked of a schema -/

/-- Integers, booleans and strings. -/
def keyTypes : List ScalarType := [
  .int32, .int64, .uint32, .uint64, .sint32, .sint64, .fixed32, .fixed64, .sfixed32, .sfixed64, .bool, .string]

/-- The first field with number 1 has a type for keys. -/
def HasKey (entry : Descriptor.Message) : Prop :=
  ∃ key, (entry.fields.find? fun field => field.numberValue == 1) = some key ∧
    ∃ type ∈ keyTypes, key.type = some (.scalar type)

/-- A field of a message with this full name, where these types are declared. -/
structure SoundField (declared : List (String × Declaration)) (scope : String) (field : Descriptor.Field) : Prop where
  positive : 1 ≤ field.numberValue.toInt
  bounded : field.numberValue.toInt ≤ 536870911
  unreserved : ¬(19000 ≤ field.numberValue.toInt ∧ field.numberValue.toInt ≤ 19999)
  noGroup : field.type ≠ some .group
  message : field.type = some .message → ∃ message, Means declared scope field.typeNameText (.message message)
  enum : field.type = some .enum → ∃ enum, Means declared scope field.typeNameText (.enum enum)
  untyped : field.type = none → ∃ declaration, Means declared scope field.typeNameText declaration
  /-- A map is a repeated field of entries. -/
  key : field.labelValue = .repeated → field.type = some .message ∨ field.type = none →
    ∀ entry, Means declared scope field.typeNameText (.message entry) → entry.isMapEntry = true → HasKey entry

structure SoundMessage (declared : List (String × Declaration)) (fullName : String) (decl : Descriptor.Message) : Prop where
  fields : ∀ field ∈ decl.fields, SoundField declared fullName field
  nodup : (decl.fields.map Descriptor.Field.numberValue).Nodup

mutual

/-- A message and those inside it, by full name, without the entries of maps and all inside those. -/
def checkedMessage (outer : String) : Descriptor.Message → List (String × Descriptor.Message)
  | .mk name fields nested enums oneofs mapEntry =>
    let decl := Descriptor.Message.mk name fields nested enums oneofs mapEntry
    let fullName := qualify outer decl.nameText
    (fullName, decl) :: checkedNested fullName nested

def checkedNested (outer : String) : List Descriptor.Message → List (String × Descriptor.Message)
  | [] => []
  | decl :: rest => (if decl.isMapEntry then [] else checkedMessage outer decl) ++ checkedNested outer rest

end

def checkedFile (file : Descriptor.File) : List (String × Descriptor.Message) :=
  file.messages.flatMap (checkedMessage file.packageText)

structure SoundFile (declared : List (String × Declaration)) (file : Descriptor.File) : Prop where
  dialect : file.dialectText ∈ ["", "proto2", "proto3"]
  messages : ∀ item ∈ checkedFile file, SoundMessage declared item.1 item.2

end Schema

/-- No type is declared twice, and each listed file is there and sound. -/
structure Generate.Request.Sound (request : Generate.Request) : Prop where
  nodup : ((request.files.flatMap Schema.declaredFile).map Prod.fst).Nodup
  listed : ∀ name ∈ request.listed, ∃ file, (request.files.find? fun file => file.nameText == name) = some file ∧
    Schema.SoundFile (request.files.flatMap Schema.declaredFile) file

namespace Schema

/-! ## Checks -/

theorem mem_keyTypes_of_isMapKey {type : ScalarType} (h : type.isMapKey = true) : type ∈ keyTypes := by
  revert h
  cases type <;> decide

theorem Dialect.ofText?_some {text : String} {dialect : Dialect} (h : Dialect.ofText? text = some dialect) :
    text ∈ ["", "proto2", "proto3"] := by
  unfold Dialect.ofText? at h
  split at h
  · simp
  · simp
  · simp
  · cases h

namespace Context

variable {context : Context} {files : List Descriptor.File} {fieldName fullName scope : String}

theorem fieldNumber_sound {decl : Descriptor.Field} {number : Nat} (h : fieldNumber decl fieldName = .ok number) :
    1 ≤ decl.numberValue.toInt ∧ decl.numberValue.toInt ≤ 536870911 ∧
      ¬(19000 ≤ decl.numberValue.toInt ∧ decl.numberValue.toInt ≤ 19999) := by
  have hnumber := fieldNumber_eq h
  obtain ⟨hne, hle⟩ := fieldNumber_ok h
  have hmax : FieldNumber.max = 536870911 := rfl
  unfold fieldNumber at h
  dsimp only at h
  split at h
  · cases h
  · split at h
    · cases h
    · rename_i hreserved
      simp only [FieldNumber.isReserved, Bool.and_eq_true, decide_eq_true_eq] at hreserved
      omega

theorem mapType_key {entry : Descriptor.Message} {entryName : String} {type : FieldType}
    (h : context.mapType entry fieldName entryName = .ok type) : HasKey entry := by
  unfold mapType at h
  dsimp only at h
  split at h
  · rename_i key hkey
    split at h
    · obtain ⟨⟨value, declaration⟩, hvalue, h⟩ := bind_ok h
      dsimp only at h
      split at h
      · rename_i scalar
        split at h
        · obtain ⟨_, hthrow, _⟩ := bind_ok h
          cases hthrow
        · rename_i hmapKey
          obtain ⟨_, hdeclared, htype, _⟩ | ⟨_, _, _, _, ⟨_, _, htype, _⟩ | ⟨_, _, htype, _⟩⟩ := valueType_ok hvalue
          · cases htype
            exact ⟨key, hkey, scalar, mem_keyTypes_of_isMapKey (by simpa using hmapKey), hdeclared⟩
          · cases htype
          · cases htype
      · cases h
    · cases h
  · cases h

/-- A repeated field of entries is a map with a key. -/
theorem fieldType_key {decl : Descriptor.Field} {entry : Descriptor.Message} {ref : TypeRef}
    {whole : FieldType × Cardinality} (hlabel : decl.labelValue = .repeated) (hentry : entry.isMapEntry = true)
    (h : context.fieldType decl fieldName (.message ref) (some (.message entry)) = .ok whole) : HasKey entry := by
  simp only [fieldType, hlabel, mapEntry?, if_pos hentry] at h
  obtain ⟨type, htype, _⟩ := bind_ok h
  exact mapType_key htype

theorem FieldFrom.sound (hfiles : Registry.ofFiles files = .ok context.registry) {decl : Descriptor.Field} {field : Field}
    (h : context.FieldFrom fullName decl field) : SoundField (files.flatMap declaredFile) fullName decl := by
  obtain ⟨hpositive, hbounded, hunreserved⟩ := fieldNumber_sound h.number
  obtain ⟨alone, halone, _⟩ := h.alone
  obtain ⟨type, declaration, hvalue, hwhole, _⟩ := field_steps halone
  rcases valueType_ok hvalue with ⟨scalar, hscalar, _⟩ | ⟨name, entry, hfind, rfl, hkind⟩
  · refine ⟨hpositive, hbounded, hunreserved, ?_, ?_, ?_, ?_, ?_⟩ <;> simp [hscalar]
  · have hmeans := Registry.find?_means hfiles hfind
    have hnodup := Registry.nodup_declared hfiles
    rcases hkind with ⟨message, hmessage, rfl, htype⟩ | ⟨enum, henum, rfl, htype⟩
    · rw [hmessage] at hmeans hwhole
      refine ⟨hpositive, hbounded, hunreserved, ?_, fun _ => ⟨_, hmeans⟩, ?_, fun _ => ⟨_, hmeans⟩, ?_⟩
      · rcases htype with htype | htype <;> simp [htype]
      · rcases htype with htype | htype <;> simp [htype]
      · intro hlabel _ other hother hentry
        -- the entries that the name stands for are those that were found, as no name is declared twice
        cases hmeans.unique hnodup hother
        exact fieldType_key hlabel hentry hwhole
    · rw [henum] at hmeans
      refine ⟨hpositive, hbounded, hunreserved, ?_, ?_, fun _ => ⟨_, hmeans⟩, fun _ => ⟨_, hmeans⟩, ?_⟩
      · rcases htype with htype | htype <;> simp [htype]
      · rcases htype with htype | htype <;> simp [htype]
      · intro _ _ other hother
        cases hmeans.unique hnodup hother

/-! ## Messages -/

/-- The message is resolved somewhere in its file. -/
def Accepts (context : Context) (fullName : String) (decl : Descriptor.Message) : Prop :=
  ∃ place tree, context.message fullName place decl = .ok tree

theorem Accepts.sound (hfiles : Registry.ofFiles files = .ok context.registry) {decl : Descriptor.Message}
    (h : context.Accepts fullName decl) : SoundMessage (files.flatMap declaredFile) fullName decl := by
  obtain ⟨place, tree, h⟩ := h
  have hfrom := message_fields h
  constructor
  · intro field hf
    obtain ⟨resolved, _, hresolved⟩ := exists_of_forall₂ hfrom hf
    exact hresolved.sound hfiles
  · -- distinct as the natural numbers they are read as, hence as declared
    have hnumbers : tree.type.fields.map Field.number =
        (decl.fields.map Descriptor.Field.numberValue).map fun number => number.toInt.toNat := by
      rw [List.map_map, ← List.forall₂_eq_eq_eq, List.forall₂_map_left_iff, List.forall₂_map_right_iff]
      exact (hfrom.imp fun _ _ h => fieldNumber_eq h.number).flip
    have hnodup := (message_wellFormed h _ tree.type_mem_flatten).nodup
    rw [hnumbers] at hnodup
    exact hnodup.of_map _

/-- Each message is resolved but for the entries of maps inside a message. -/
theorem messages_accepts {outer : String} {place : Place} {part : Part} {index : Nat} {decls : List Descriptor.Message}
    {trees : List MessageTree} (h : context.messages outer place part index decls = .ok trees) :
    ∀ decl ∈ decls, part = .nestedMessage ∧ decl.isMapEntry = true ∨ context.Accepts (qualify outer decl.nameText) decl := by
  induction decls generalizing index trees with
  | nil => exact List.forall_mem_nil _
  | cons decl rest ih =>
    rw [messages] at h
    split at h
    · rename_i hskip
      exact List.forall_mem_cons.mpr ⟨.inl hskip, ih h⟩
    · obtain ⟨tree, htree, h⟩ := bind_ok h
      obtain ⟨others, hothers, h⟩ := bind_ok h
      exact List.forall_mem_cons.mpr ⟨.inr ⟨_, tree, htree⟩, ih hothers⟩

mutual

theorem Accepts.checked {outer : String} : ∀ {decl : Descriptor.Message},
    context.Accepts (qualify outer decl.nameText) decl →
      ∀ item ∈ checkedMessage outer decl, context.Accepts item.1 item.2
  | .mk name fields nested enums oneofs mapEntry, h => by
    rw [checkedMessage]
    refine List.forall_mem_cons.mpr ⟨h, accepts_nested fun decl hd hentry => ?_⟩
    obtain ⟨place, tree, h⟩ := h
    obtain ⟨_, _, _, _, hnested, _⟩ := message_ok h
    rcases messages_accepts hnested decl hd with ⟨_, hskip⟩ | haccepts
    · rw [hentry] at hskip
      cases hskip
    · exact haccepts

theorem accepts_nested {outer : String} : ∀ {decls : List Descriptor.Message},
    (∀ decl ∈ decls, decl.isMapEntry = false → context.Accepts (qualify outer decl.nameText) decl) →
      ∀ item ∈ checkedNested outer decls, context.Accepts item.1 item.2
  | [], _ => by
    rw [checkedNested]
    exact List.forall_mem_nil _
  | decl :: rest, h => by
    obtain ⟨hfirst, hrest⟩ := List.forall_mem_cons.mp h
    rw [checkedNested]
    refine List.forall_mem_append.mpr ⟨?_, accepts_nested hrest⟩
    split
    · exact List.forall_mem_nil _
    · rename_i hentry
      exact (hfirst (Bool.eq_false_iff.mpr hentry)).checked

end

end Context

/-! ## Files -/

theorem Registry.resolve_sound {registry : Registry} {files : List Descriptor.File} (hfiles : ofFiles files = .ok registry)
    {file : Descriptor.File} {keepsUnknown : Bool} {resolved : File} (h : registry.resolve file keepsUnknown = .ok resolved) :
    SoundFile (files.flatMap declaredFile) file := by
  obtain ⟨context, hregistry, hdialect, htrees, _⟩ := resolve_ok h
  rw [← hregistry] at hfiles
  refine ⟨Dialect.ofText?_some hdialect, fun item hitem => ?_⟩
  obtain ⟨decl, hdecl, hitem⟩ := List.mem_flatMap.mp hitem
  rcases Context.messages_accepts htrees decl hdecl with ⟨hpart, _⟩ | haccepts
  · cases hpart
  · exact (haccepts.checked item hitem).sound hfiles

end Schema

namespace Generate

open Schema

variable {language : Code.Language}

theorem generateFile_sound {request : Request} {options : Options} {registry : Registry}
    (hfiles : Registry.ofFiles request.files = .ok registry) {taken : Naming.Scope} {name : String}
    {result : List OutputFile × Naming.Scope} (h : generateFile language request options registry taken name = .ok result) :
    ∃ file, (request.files.find? fun file => file.nameText == name) = some file ∧
      SoundFile (request.files.flatMap declaredFile) file := by
  unfold generateFile at h
  split at h
  · rename_i file hfile
    obtain ⟨resolved, hresolved, _⟩ := bind_ok h
    exact ⟨file, hfile, Registry.resolve_sound hfiles (mapError_ok hresolved)⟩
  · cases h

theorem generate_sound {request : Request} {outputs : List OutputFile} (h : generate language request = .ok outputs) :
    request.Sound := by
  unfold generate at h
  obtain ⟨options, _, h⟩ := bind_ok h
  obtain ⟨registry, hregistry, h⟩ := bind_ok h
  obtain ⟨_, hrun, _⟩ := bind_ok h
  have hfiles := mapError_ok hregistry
  refine ⟨Registry.nodup_declared hfiles, fun name hname => ?_⟩
  obtain ⟨before, after, hstep⟩ := foldlM_each hrun name hname
  obtain ⟨_, hfile, _⟩ := bind_ok hstep
  exact generateFile_sound hfiles hfile

end Generate

namespace Plugin.Response

/-- Files are returned without an error only, and only for a sound request: if anything in a listed file is unsound
    there is an error and no file at all. So it is whatever the language accepts as names, paths and programs. -/
theorem ofRequest_sound (language : Code.Language) (request : Generate.Request) :
    ((ofRequest language request).files ≠ [] → (ofRequest language request).error? = none) ∧
    ((ofRequest language request).error? = none → request.Sound) ∧
    (¬request.Sound → (ofRequest language request).error?.isSome = true ∧ (ofRequest language request).files = []) := by
  unfold ofRequest
  cases hgenerate : Generate.generate language request with
  | error cause => simp [error?, files]
  | ok outputs =>
    have hsound := Generate.generate_sound hgenerate
    simp [error?, hsound]

/-- A message with a field number that is none. -/
def unnumbered : Descriptor.Message := .of "Inner" [.scalar "bad" 0 .int32]

/-- The message is declared inside the entries of a map. -/
def covering : Descriptor.File where
  name := some "t.proto"
  package := some "demo"
  dialect := some "proto3"
  messages := [(Descriptor.Message.of "M" [.scalar "x" 1 .int32]).withNested
    [.mk (some "E") [] [unnumbered] [] [] (some true)]]

/-- What is declared inside the entries of a map is not checked. -/
theorem ofRequest_unchecked :
    let response := ofRequest .rust { listed := ["t.proto"], files := [covering] }
    response.error? = none ∧ response.files.length = 1 ∧
      ("demo.M.E.Inner", Schema.Declaration.message unnumbered) ∈ Schema.declaredFile covering ∧
      unnumbered.isMapEntry = false ∧ unnumbered.fields.map (fun field => field.numberValue.toInt) = [0] := by
  intro response
  have hanswer : response.error? = none ∧ response.files.length = 1 := by decide +kernel
  have hinner : (Schema.declaredFile covering)[2]? = some ("demo.M.E.Inner", .message unnumbered) := rfl
  exact ⟨hanswer.1, hanswer.2, List.mem_of_getElem? hinner, rfl, rfl⟩

end Plugin.Response

end Protobuf
