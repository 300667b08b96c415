/-
  Protobuf.Proofs.Resolved — the types that come from declarations are well formed.

  Resolving checks each field number against those before it, gives out presence bits one after the
  other and reads defaults by the kind of their field, so what it has made of a message's fields is well
  formed at each step (`addField_wellFormed`) and so is every type of a resolved file
  (`resolve_wellFormed`).
-/

import Protobuf.Proofs.Reuse

namespace Protobuf

/-! ## Computations that can fail -/

section Fallible

variable {ε α β : Type}

theorem bind_ok {x : Except ε α} {f : α → Except ε β} {b : β} (h : (x >>= f) = .ok b) :
    ∃ a, x = .ok a ∧ f a = .ok b := by
  cases x with
  | error e => cases h
  | ok a => exact ⟨a, rfl, h⟩

theorem bind_eq_ok_iff {x : Except ε α} {f : α → Except ε β} {b : β} :
    x >>= f = .ok b ↔ ∃ a, x = .ok a ∧ f a = .ok b := by
  constructor
  · exact bind_ok
  · rintro ⟨a, rfl, h⟩
    exact h

theorem map_ok {x : Except ε α} {f : α → β} {b : β} (h : (f <$> x) = .ok b) : ∃ a, x = .ok a ∧ f a = b := by
  cases x with
  | error e => cases h
  | ok a =>
    cases h
    exact ⟨a, rfl, rfl⟩

theorem map_eq_ok_iff {x : Except ε α} {f : α → β} {b : β} : f <$> x = .ok b ↔ ∃ a, x = .ok a ∧ f a = b := by
  constructor
  · exact map_ok
  · rintro ⟨a, rfl, rfl⟩
    rfl

theorem mapError_ok {ε' : Type} {x : Except ε α} {f : ε → ε'} {a : α} (h : x.mapError f = .ok a) : x = .ok a := by
  cases x with
  | error e => cases h
  | ok a =>
    cases h
    rfl

/-- Two checks in a row, and what passes both. -/
theorem checked_eq_ok_iff {p : Prop} [Decidable p] {q : α → Prop} [DecidablePred q] {a : α} {b : β}
    {f : α → β} {e e' : ε} :
    ((if p then .ok a else .error e) >>= fun x => if q x then .error e' else .ok (f x)) = Except.ok b ↔
      p ∧ ¬ q a ∧ f a = b := by
  by_cases hp : p
  · rw [if_pos hp]
    show (if q a then .error e' else .ok (f a)) = Except.ok b ↔ _
    by_cases hq : q a <;> simp [hp, hq]
  · rw [if_neg hp]
    show Except.error e = Except.ok b ↔ _
    simp [hp]

theorem mapM_ok {f : α → Except ε β} {xs : List α} {ys : List β} (h : xs.mapM f = .ok ys) :
    ys.length = xs.length ∧ ∀ y ∈ ys, ∃ x ∈ xs, f x = .ok y := by
  induction xs generalizing ys with
  | nil =>
    cases h
    exact ⟨rfl, List.forall_mem_nil _⟩
  | cons x xs ih =>
    rw [List.mapM_cons] at h
    obtain ⟨y, hy, h⟩ := bind_ok h
    obtain ⟨rest, hrest, h⟩ := bind_ok h
    cases h
    obtain ⟨hlen, hmem⟩ := ih hrest
    refine ⟨congrArg (· + 1) hlen, List.forall_mem_cons.mpr ⟨⟨x, List.mem_cons_self .., hy⟩, fun z hz => ?_⟩⟩
    obtain ⟨w, hw, hz⟩ := hmem z hz
    exact ⟨w, List.mem_cons_of_mem _ hw, hz⟩

/-- Every step of a run that ends well was taken. -/
theorem foldlM_each {f : β → α → Except ε β} {xs : List α} {b b' : β} (h : xs.foldlM f b = .ok b') :
    ∀ a ∈ xs, ∃ before after, f before a = .ok after := by
  induction xs generalizing b with
  | nil => exact List.forall_mem_nil _
  | cons a xs ih =>
    rw [List.foldlM_cons] at h
    obtain ⟨c, hc, h⟩ := bind_ok h
    exact List.forall_mem_cons.mpr ⟨⟨b, c, hc⟩, ih h⟩

end Fallible

end Protobuf

namespace Protobuf.Schema

/-! ## Defaults -/

theorem Default.kind_read {type : ScalarType} {text : String} {value : Scalar} (h : Default.read type text = .ok value) :
    value.kind = .scalar type := by
  unfold Default.read at h
  cases type with
  | string =>
    cases h
    rfl
  | _ =>
    obtain ⟨_, _, rfl⟩ := map_ok h
    rfl

namespace Context

variable {context : Context} {plain : PlainType} {field : Field} {fieldName fullName : String} {decl : Descriptor.Field}
  {progress next : Progress} {place : Place} {real : List (Nat × Descriptor.Oneof)} {index : Nat}

/-- A default is of the kind of its field. -/
theorem kind_defaultValue {field : Descriptor.Field} {declaration : Option Declaration} {value : Scalar}
    (h : defaultValue field fieldName (.plain plain) declaration = .ok (some value)) : value.kind = plain.kind := by
  unfold defaultValue at h
  split at h
  · rename_i text heq _
    cases heq
    obtain ⟨_, hread, hsome⟩ := map_ok h
    cases hsome
    exact Default.kind_read (mapError_ok hread)
  · cases h
  · rename_i heq _
    cases heq
    split at h <;> cases h
    rfl
  · rename_i heq _
    cases heq
    obtain ⟨_, _, rfl⟩ := Option.map_eq_some_iff.mp (Except.ok.inj h)
    rfl
  · cases h
  · cases h
  · cases h

theorem fieldNumber_ok {field : Descriptor.Field} {number : Nat} (h : fieldNumber field fieldName = .ok number) :
    number ≠ 0 ∧ number ≤ FieldNumber.max := by
  unfold fieldNumber at h
  dsimp only at h
  split at h
  · cases h
  · rename_i hrange
    split at h <;> cases h
    simp only [FieldNumber.inRange, not_or, Bool.not_eq_true', Bool.not_eq_false, Bool.and_eq_true,
      decide_eq_true_eq] at hrange
    omega

/-- What an entry of a map without a value has is of the kind of its values. -/
theorem kind_mapType {entry : Descriptor.Message} {entryName : String} {key : ScalarType} {start : Scalar}
    (h : context.mapType entry fieldName entryName = .ok (.map key (.plain plain) (some start))) :
    start.kind = plain.kind := by
  unfold mapType at h
  dsimp only at h
  split at h
  · split at h
    · obtain ⟨⟨_, _⟩, _, h⟩ := bind_ok h
      dsimp only at h
      split at h
      · split at h
        · obtain ⟨_, hthrow, _⟩ := bind_ok h
          cases hthrow
        · obtain ⟨⟨value, declaration⟩, _, h⟩ := bind_ok h
          obtain ⟨valueDefault, hdefault, h⟩ := bind_ok h
          cases h
          exact kind_defaultValue hdefault
      · cases h
    · cases h
  · cases h

theorem kind_fieldType {type : ValueType} {declaration : Option Declaration} {cardinality : Cardinality}
    {key : ScalarType} {start : Scalar}
    (h : context.fieldType decl fieldName type declaration = .ok (.map key (.plain plain) (some start), cardinality)) :
    start.kind = plain.kind := by
  unfold fieldType at h
  split at h
  · obtain ⟨whole, hwhole, h⟩ := bind_ok h
    cases h
    exact kind_mapType hwhole
  · cases h
  · cases h

/-- The steps in which a field is resolved by itself. -/
theorem field_steps {scope : String} {number : Nat} (h : context.field decl fieldName number scope = .ok field) :
    ∃ type declaration, context.valueType decl fieldName scope = .ok (type, declaration) ∧
      context.fieldType decl fieldName type declaration = .ok (field.type, field.cardinality) ∧
      fieldDefault decl fieldName field.type declaration = .ok field.default ∧
      field.name = decl.nameText ∧ field.number = number ∧
      field.presence = context.presence decl type field.cardinality := by
  unfold Context.field at h
  obtain ⟨⟨type, declaration⟩, htype, h⟩ := bind_ok h
  obtain ⟨⟨whole, cardinality⟩, hwhole, h⟩ := bind_ok h
  obtain ⟨start, hstart, h⟩ := bind_ok h
  cases h
  exact ⟨type, declaration, htype, hwhole, hstart, rfl, rfl, rfl⟩

theorem field_ok {scope : String} {number : Nat} (h : context.field decl fieldName number scope = .ok field) :
    (∀ plain value, field.type = .value (.plain plain) → field.default = some value → value.kind = plain.kind) ∧
      ∀ key plain start, field.type = .map key (.plain plain) (some start) → start.kind = plain.kind := by
  obtain ⟨type, declaration, _, hwhole, hstart, _⟩ := field_steps h
  refine ⟨fun plain value htype hvalue => ?_, fun key plain entryStart htype => ?_⟩
  · rw [htype, hvalue] at hstart
    exact kind_defaultValue hstart
  · rw [htype] at hwhole
    exact kind_fieldType hwhole

/-! ## Fields of a message -/

/-- Fields resolved so far are well formed, in a message with so many oneofs. -/
structure Progress.WellFormed (count : Nat) (progress : Progress) : Prop where
  length_oneofs : progress.oneofs.length = count
  number_ne : ∀ field ∈ progress.fields, field.number ≠ 0
  number_le : ∀ field ∈ progress.fields, field.number ≤ FieldNumber.max
  nodup : (progress.fields.map Field.number).Nodup
  initial : ∀ field ∈ progress.fields, ∀ plain presence, field.strategy = .singular plain presence →
    (field.initial plain).kind = plain.kind
  bits : ∀ field ∈ progress.fields, ∀ bit, field.presenceBit = some bit →
    bit < progress.bits ∧ ∃ plain presence, field.strategy = .singular plain presence
  tracked : ∀ field ∈ progress.fields, ∀ plain, field.strategy = .singular plain .explicit → field.presenceBit ≠ none
  ownBits : progress.fields.Pairwise fun a b => ∀ bit, a.presenceBit = some bit → b.presenceBit ≠ some bit
  members : ∀ field ∈ progress.fields, ∀ slot value, field.strategy = .member slot value → slot < count
  entries : ∀ field ∈ progress.fields, ∀ key plain start, field.type = .map key (.plain plain) (some start) →
    start.kind = plain.kind

/-- A field with a presence bit is one of a single value. -/
theorem strategy_of_needsBit (h : needsBit field = true) :
    ∃ plain, field.strategy = .singular plain field.presence := by
  unfold needsBit at h
  obtain ⟨h, htype⟩ := Bool.and_eq_true_iff.mp h
  obtain ⟨h, hone⟩ := Bool.and_eq_true_iff.mp h
  obtain ⟨hcard, _⟩ := Bool.and_eq_true_iff.mp h
  have hone : field.oneof = none := Option.isNone_iff_eq_none.mp hone
  have hcard : field.cardinality = .singular := eq_of_beq hcard
  unfold Field.strategy
  cases hft : field.type with
  | map key value start =>
    rw [hft] at htype
    cases htype
  | value type =>
    rw [hft] at htype
    cases type with
    | message ref => cases htype
    | plain plain =>
      rw [hone, hcard]
      exact ⟨plain, rfl⟩

theorem of_singular {presence : Presence} (h : field.strategy = .singular plain presence) :
    field.type = .value (.plain plain) ∧ field.oneof = none ∧ field.cardinality = .singular ∧ field.presence = presence := by
  unfold Field.strategy at h
  split at h
  · cases h
  · rename_i type htype
    split at h
    · cases h
    · cases h
    · rename_i hone hcard
      cases h
      exact ⟨htype, hone, hcard, rfl⟩
    · cases h
    · split at h
      · cases h
      · split at h <;> cases h

theorem needsBit_of_strategy (h : field.strategy = .singular plain .explicit) : needsBit field = true := by
  obtain ⟨htype, hone, hcard, hpresence⟩ := of_singular h
  rw [needsBit, htype, hone, hcard, hpresence]
  rfl

theorem kind_initial (h : ∀ value, field.default = some value → value.kind = plain.kind) :
    (field.initial plain).kind = plain.kind := by
  unfold Field.initial
  cases hd : field.default with
  | none =>
    cases plain with
    | scalar type => cases type <;> rfl
    | enum ref => rfl
  | some value => exact h value hd

/-- One more field whose number is not taken. -/
theorem Progress.WellFormed.add {count : Nat} (h : progress.WellFormed count) (hne : field.number ≠ 0)
    (hle : field.number ≤ FieldNumber.max) (hfresh : ∀ other ∈ progress.fields, other.number ≠ field.number)
    (hinitial : ∀ plain presence, field.strategy = .singular plain presence → (field.initial plain).kind = plain.kind)
    (hmembers : ∀ slot value, field.strategy = .member slot value → slot < count)
    (hentries : ∀ key plain start, field.type = .map key (.plain plain) (some start) → start.kind = plain.kind)
    (hbit : ∀ bit, field.presenceBit = some bit →
      (progress.bits ≤ bit ∧ bit < next.bits) ∧ ∃ plain presence, field.strategy = .singular plain presence)
    (htracked : ∀ plain, field.strategy = .singular plain .explicit → field.presenceBit ≠ none)
    (hfields : next.fields = progress.fields ++ [field]) (hbits : progress.bits ≤ next.bits)
    (honeofs : next.oneofs.length = progress.oneofs.length) : next.WellFormed count := by
  have hall : ∀ {P : Field → Prop}, (∀ other ∈ progress.fields, P other) → P field → ∀ other ∈ next.fields, P other := by
    intro P hbefore hnew other ho
    rw [hfields] at ho
    rcases List.mem_append.mp ho with ho | ho
    · exact hbefore other ho
    · cases List.mem_singleton.mp ho
      exact hnew
  refine ⟨honeofs.trans h.length_oneofs, hall h.number_ne hne, hall h.number_le hle, ?_, hall h.initial hinitial,
    hall (fun other ho bit hb => ?_) (fun bit hb => (hbit bit hb).imp_left And.right), hall h.tracked htracked, ?_,
    hall h.members hmembers, hall h.entries hentries⟩
  · rw [hfields, List.map_append]
    refine List.nodup_append.mpr ⟨h.nodup, List.nodup_singleton _, fun a ha b hb => ?_⟩
    obtain ⟨other, ho, rfl⟩ := List.mem_map.mp ha
    cases List.mem_singleton.mp hb
    exact hfresh other ho
  · obtain ⟨hlt, hs⟩ := h.bits other ho bit hb
    exact ⟨Nat.lt_of_lt_of_le hlt hbits, hs⟩
  · rw [hfields]
    refine List.pairwise_append.mpr ⟨h.ownBits, List.pairwise_singleton .., fun other ho last hl bit hb hb' => ?_⟩
    cases List.mem_singleton.mp hl
    have := (h.bits other ho bit hb).1
    have := (hbit bit hb').1.1
    omega

theorem oneofOf_lt {slot : Nat} (h : oneofOf real decl = some slot) : slot < real.length := by
  unfold oneofOf at h
  split at h
  · exact (List.findIdx?_eq_some_iff_getElem.mp h).1
  · cases h

/-- The field that resolving one more declaration adds, and what it is by itself. -/
structure Adds (context : Context) (fullName : String) (real : List (Nat × Descriptor.Oneof)) (progress : Progress)
    (index : Nat) (decl : Descriptor.Field) (next : Progress) (alone field : Field) : Prop where
  fields : next.fields = progress.fields ++ [field]
  number : fieldNumber decl (fullName ++ "." ++ decl.nameText) = .ok field.number
  fresh : (progress.fields.find? fun other => other.number == field.number) = none
  resolved : context.field decl (fullName ++ "." ++ decl.nameText) field.number fullName = .ok alone
  name : field.name = alone.name
  type : field.type = alone.type
  cardinality : field.cardinality = alone.cardinality
  default : field.default = alone.default
  oneof : field.oneof = oneofOf real decl
  presence : field.presence = if field.oneof.isSome then .explicit else alone.presence
  bit : field.presenceBit = if needsBit field then some progress.bits else none
  member : (field.member, next.members) = takeMember progress.members fieldMembers (Naming.snake decl.nameText)
    (Naming.snake decl.nameText ++ "_" ++ Nat.repr field.number)
  oneofs : next.oneofs = field.oneof.elim progress.oneofs fun slot =>
    progress.oneofs.modify slot fun o => { o with fields := o.fields ++ [index] }
  bits : next.bits = if needsBit field then progress.bits + 1 else progress.bits

theorem addField_adds (h : context.addField fullName place real progress index decl = .ok next) :
    ∃ alone field, context.Adds fullName real progress index decl next alone field := by
  unfold addField at h
  obtain ⟨number, hnumber, h⟩ := bind_ok h
  split at h
  · cases h
  · rename_i hfind
    obtain ⟨alone, halone, h⟩ := bind_ok h
    obtain ⟨_, _, _, _, _, _, rfl, _⟩ := field_steps halone
    cases h
    refine ⟨alone, _, ⟨rfl, hnumber, ?_, halone, rfl, rfl, rfl, rfl, rfl, rfl, rfl, rfl, ?_, rfl⟩⟩
    · exact Option.eq_none_iff_forall_ne_some.mpr hfind
    · dsimp only
      cases oneofOf real decl <;> rfl

theorem addField_wellFormed (hw : progress.WellFormed real.length)
    (h : context.addField fullName place real progress index decl = .ok next) : next.WellFormed real.length := by
  obtain ⟨alone, field, hadds⟩ := addField_adds h
  obtain ⟨hne, hle⟩ := fieldNumber_ok hadds.number
  obtain ⟨hkind, hentries⟩ := field_ok hadds.resolved
  refine hw.add hne hle ?_ ?_ ?_ (hadds.type ▸ hentries) ?_ ?_ hadds.fields ?_ ?_
  · intro other ho he
    exact List.find?_eq_none.mp hadds.fresh other ho (beq_iff_eq.mpr he)
  · intro plain presence hs
    refine kind_initial fun value hvalue => hkind plain value ?_ ?_
    · exact hadds.type ▸ (of_singular hs).1
    · exact hadds.default ▸ hvalue
  · intro slot value hs
    exact oneofOf_lt (hadds.oneof.symm.trans (Field.oneof_of_strategy hs))
  · intro bit hb
    rw [hadds.bit] at hb
    split at hb
    · rename_i hneeds
      cases hb
      obtain ⟨plain, hs⟩ := strategy_of_needsBit hneeds
      rw [hadds.bits, if_pos hneeds]
      exact ⟨⟨Nat.le_refl _, Nat.lt_succ_self _⟩, plain, _, hs⟩
    · cases hb
  · intro plain hs
    rw [hadds.bit, if_pos (needsBit_of_strategy hs)]
    exact Option.some_ne_none _
  · rw [hadds.bits]
    split
    · exact Nat.le_succ _
    · exact Nat.le_refl _
  · rw [hadds.oneofs]
    cases field.oneof with
    | none => rfl
    | some slot => exact List.length_modify ..

/-- The choices of a message, added one after the other. -/
def addOneofs (context : Context) (entry : Registered) (fullName : String) (place : Place)
    (real : List (Nat × Descriptor.Oneof)) (progress : Progress) : Progress :=
  real.foldl (fun progress choice => context.addOneof entry fullName place progress choice.1 choice.2) progress

/-- The fields of a message, added one after the other. -/
def addFields (context : Context) (fullName : String) (place : Place) (real : List (Nat × Descriptor.Oneof))
    (progress : Progress) (decls : List Descriptor.Field) : Resolve Progress :=
  decls.zipIdx.foldlM (fun progress pair => context.addField fullName place real progress pair.2 pair.1) progress

/-- What holds at the start and is kept by each field that is added holds at the end. -/
theorem addFields_induction {P : List Descriptor.Field → Progress → Prop} {decls : List Descriptor.Field}
    (h : context.addFields fullName place real progress decls = .ok next) (hstart : P [] progress)
    (hstep : ∀ {done before decl after}, P done before →
      context.addField fullName place real before done.length decl = .ok after → P (done ++ [decl]) after) :
    P decls next := by
  have hrest : ∀ (rest done : List Descriptor.Field) (before : Progress), P done before →
      (rest.zipIdx done.length).foldlM (fun progress pair =>
        context.addField fullName place real progress pair.2 pair.1) before = .ok next → P (done ++ rest) next := by
    intro rest
    induction rest with
    | nil =>
      intro done before hp h
      cases h
      rwa [List.append_nil]
    | cons decl rest ih =>
      intro done before hp h
      rw [List.zipIdx_cons, List.foldlM_cons] at h
      obtain ⟨after, hfirst, h⟩ := bind_ok h
      rw [List.append_cons]
      refine ih (done ++ [decl]) after (hstep hp hfirst) ?_
      rwa [List.length_append, List.length_singleton]
  exact hrest decls [] progress hstart h

theorem addOneofs_eq (context : Context) (entry : Registered) (fullName : String) (place : Place)
    (real : List (Nat × Descriptor.Oneof)) (progress : Progress) :
    let next := context.addOneofs entry fullName place real progress
    next.oneofs.length = progress.oneofs.length + real.length ∧ next.fields = progress.fields ∧
      next.bits = progress.bits := by
  induction real generalizing progress with
  | nil => exact ⟨rfl, rfl, rfl⟩
  | cons first real ih =>
    obtain ⟨hlen, hrest⟩ := ih (context.addOneof entry fullName place progress first.1 first.2)
    refine ⟨?_, hrest⟩
    rw [addOneofs, List.foldl_cons, ← addOneofs, hlen, List.length_cons]
    show (progress.oneofs ++ [_]).length + real.length = _
    rw [List.length_append, List.length_singleton]
    omega

theorem addOneofs_wellFormed (context : Context) (entry : Registered) (fullName : String) (place : Place)
    (real : List (Nat × Descriptor.Oneof)) (members : Naming.Scope) :
    (context.addOneofs entry fullName place real { members, oneofs := [] }).WellFormed real.length := by
  obtain ⟨hlen, hfields, _⟩ := addOneofs_eq context entry fullName place real { members, oneofs := [] }
  have hnone : ∀ {P : Field → Prop},
      ∀ field ∈ (context.addOneofs entry fullName place real { members, oneofs := [] }).fields, P field := by
    intro P field hf
    rw [hfields] at hf
    cases hf
  refine ⟨hlen.trans (Nat.zero_add _), hnone, hnone, ?_, hnone, hnone, hnone, ?_, hnone, hnone⟩
  · rw [hfields]
    exact List.nodup_nil
  · rw [hfields]
    exact .nil

/-! ## Types -/

theorem Progress.WellFormed.messageType {count : Nat} (h : progress.WellFormed count) {type : MessageType}
    (hfields : type.fields = progress.fields) (honeofs : type.oneofs = progress.oneofs)
    (hwords : type.presenceWords = (progress.bits + 31) / 32) : type.WellFormed where
  number_ne := hfields ▸ h.number_ne
  number_le := hfields ▸ h.number_le
  nodup := hfields ▸ h.nodup
  initial := hfields ▸ h.initial
  bits := by
    intro field hf bit hb
    obtain ⟨hlt, hs⟩ := h.bits field (hfields ▸ hf) bit hb
    refine ⟨?_, hs⟩
    rw [hwords]
    omega
  tracked := hfields ▸ h.tracked
  ownBits := hfields ▸ h.ownBits
  members := by
    intro field hf slot value hs
    rw [honeofs, h.length_oneofs]
    exact h.members field (hfields ▸ hf) slot value hs
  entries := hfields ▸ h.entries

/-- How a message is resolved: its choices, then its fields, then what is declared inside it. -/
theorem message_ok {decl : Descriptor.Message} {tree : MessageTree} (h : context.message fullName place decl = .ok tree) :
    ∃ entry progress, context.registered fullName = .ok entry ∧
      context.addFields fullName place decl.realOneofs (context.addOneofs entry fullName place decl.realOneofs
        { members := ⟨Naming.reservedMembers⟩, oneofs := [] }) decl.fields = .ok progress ∧
      context.messages fullName place .nestedMessage 0 decl.nested = .ok tree.nested ∧
      context.enums fullName place .nestedEnum decl.enums = .ok tree.type.enums ∧
      tree.type.fullName = fullName ∧ tree.type.path = entry.path ∧ tree.type.module = entry.module ∧
      tree.type.fields = progress.fields ∧ tree.type.oneofs = progress.oneofs ∧
      tree.type.presenceWords = (progress.bits + 31) / 32 := by
  obtain ⟨name, fields, nested, enums, oneofs, mapEntry⟩ := decl
  rw [message] at h
  obtain ⟨entry, hentry, h⟩ := bind_ok h
  obtain ⟨progress, hprogress, h⟩ := bind_ok h
  obtain ⟨inner, hinner, h⟩ := bind_ok h
  obtain ⟨types, htypes, h⟩ := bind_ok h
  cases h
  exact ⟨entry, progress, hentry, hprogress, hinner, htypes, rfl, rfl, rfl, rfl, rfl, rfl⟩

mutual

theorem message_wellFormed {context : Context} {fullName : String} {place : Place} :
    ∀ {decl : Descriptor.Message} {tree : MessageTree}, context.message fullName place decl = .ok tree →
      ∀ type ∈ tree.flatten, type.WellFormed
  | .mk name fields nested enums oneofs mapEntry, ⟨type, inner⟩, h => by
    obtain ⟨entry, progress, _, hprogress, hinner, _, _, _, _, hfields, honeofs, hwords⟩ := message_ok h
    have hinner : context.messages fullName place .nestedMessage 0 nested = .ok inner := hinner
    have hfinal : progress.WellFormed _ := addFields_induction (P := fun _ progress => progress.WellFormed _) hprogress
      (addOneofs_wellFormed ..) addField_wellFormed
    rw [MessageTree.flatten]
    exact List.forall_mem_cons.mpr ⟨hfinal.messageType hfields honeofs hwords, messages_wellFormed hinner⟩

theorem messages_wellFormed {context : Context} {outer : String} {place : Place} {part : Part} {index : Nat} :
    ∀ {decls : List Descriptor.Message} {trees : List MessageTree},
      context.messages outer place part index decls = .ok trees → ∀ type ∈ flattenAll trees, type.WellFormed
  | [], trees, h => by
    rw [messages] at h
    cases h
    exact nofun
  | decl :: rest, trees, h => by
    rw [messages] at h
    split at h
    · exact messages_wellFormed h
    · obtain ⟨tree, htree, h⟩ := bind_ok h
      obtain ⟨others, hothers, h⟩ := bind_ok h
      cases h
      intro type ht
      rw [flattenAll] at ht
      rcases List.mem_append.mp ht with ht | ht
      · exact message_wellFormed htree type ht
      · exact messages_wellFormed hothers type ht

end

end Context

/-- How a file is resolved: its messages, then its enums, with the dialect it names. -/
theorem Registry.resolve_ok {registry : Registry} {file : Descriptor.File} {keepsUnknown : Bool} {resolved : File}
    (h : registry.resolve file keepsUnknown = .ok resolved) :
    ∃ context : Context, context.registry = registry ∧ Dialect.ofText? file.dialectText = some context.dialect ∧
      context.messages file.packageText [] .message 0 file.messages = .ok resolved.messages ∧
      context.enums file.packageText [] .enum file.enums = .ok resolved.enums ∧ resolved.name = file.nameText := by
  unfold resolve at h
  split at h
  · rename_i dialect hdialect
    obtain ⟨messages, hmessages, h⟩ := bind_ok h
    obtain ⟨enums, henums, h⟩ := bind_ok h
    cases h
    exact ⟨_, rfl, hdialect, hmessages, henums, rfl⟩
  · cases h

theorem Registry.resolve_wellFormed {registry : Registry} {file : Descriptor.File} {keepsUnknown : Bool} {resolved : File}
    (h : registry.resolve file keepsUnknown = .ok resolved) : ∀ type ∈ resolved.messageTypes, type.WellFormed := by
  obtain ⟨_, _, _, hmessages, _⟩ := resolve_ok h
  exact Context.messages_wellFormed hmessages

/-- A table of types that all come from declarations, of one file or of several. -/
def TypeTable.Generated (table : TypeTable) : Prop :=
  ∀ type ∈ table.messages, ∃ (registry : Registry) (file : Descriptor.File) (keepsUnknown : Bool) (resolved : File),
    registry.resolve file keepsUnknown = .ok resolved ∧ type ∈ resolved.messageTypes

theorem TypeTable.Generated.wellFormed {table : TypeTable} (h : table.Generated) {type : MessageType}
    (ht : type ∈ table.messages) : type.WellFormed := by
  obtain ⟨_, _, _, _, hresolve, hmem⟩ := h type ht
  exact Registry.resolve_wellFormed hresolve type hmem

theorem MessageType.wellFormed_default : (default : MessageType).WellFormed := by
  have hnone : ∀ {P : Field → Prop}, ∀ field ∈ (default : MessageType).fields, P field := by
    intro P field hf
    cases hf
  exact { number_ne := hnone, number_le := hnone, nodup := List.nodup_nil, initial := hnone, bits := hnone,
          tracked := hnone, ownBits := .nil, members := hnone, entries := hnone }

theorem TypeTable.message_mem_or_default (table : TypeTable) (name : String) :
    table.message name ∈ table.messages ∨ table.message name = default := by
  unfold TypeTable.message
  cases hfind : table.messages.find? fun type => type.fullName == name with
  | none => exact .inr rfl
  | some type => exact .inl (List.mem_of_find?_eq_some hfind)

/-- What holds of the types of a table and of the empty type holds of the type of any sub-message. -/
theorem TypeTable.childAt_of_messages {table : TypeTable} {P : MessageType → Prop} (h : ∀ type ∈ table.messages, P type)
    (hdefault : P default) (type : MessageType) (index : Nat) : P (table.childAt type index) := by
  have hmessage : ∀ name, P (table.message name) := by
    intro name
    rcases table.message_mem_or_default name with hmem | heq
    · exact h _ hmem
    · exact heq ▸ hdefault
  unfold TypeTable.childAt TypeTable.child
  split
  · exact hmessage _
  · exact hmessage _
  · exact hdefault

theorem TypeTable.Generated.childAt {table : TypeTable} (h : table.Generated) (type : MessageType) (index : Nat) :
    (table.childAt type index).WellFormed :=
  childAt_of_messages (fun _ ht => h.wellFormed ht) MessageType.wellFormed_default type index

theorem TypeTable.message_mem {table : TypeTable} {name : String}
    (h : (table.messages.any fun type => type.fullName == name) = true) : table.message name ∈ table.messages := by
  unfold TypeTable.message
  cases hfind : table.messages.find? fun type => type.fullName == name with
  | none =>
    obtain ⟨type, ht, hname⟩ := List.any_eq_true.mp h
    exact absurd hname (List.find?_eq_none.mp hfind type ht)
  | some type => exact List.mem_of_find?_eq_some hfind

/-- The types of a sample are those of its file, resolved. -/
theorem mem_tableOf {file : Descriptor.File} {keepsUnknown : Bool} {type : MessageType}
    (h : type ∈ (Sample.tableOf file keepsUnknown).messages) :
    ∃ registry resolved, Registry.ofFiles [file] = .ok registry ∧ registry.resolve file keepsUnknown = .ok resolved ∧
      type ∈ resolved.messageTypes := by
  unfold Sample.tableOf at h
  split at h
  · cases h
  · rename_i registry hregistry
    split at h
    · cases h
    · rename_i resolved hresolved
      exact ⟨registry, resolved, hregistry, hresolved, h⟩

theorem generated_tableOf (file : Descriptor.File) (keepsUnknown : Bool) :
    (Sample.tableOf file keepsUnknown).Generated := by
  intro type ht
  obtain ⟨registry, resolved, _, hresolved, hmem⟩ := mem_tableOf ht
  exact ⟨registry, file, keepsUnknown, resolved, hresolved, hmem⟩

end Protobuf.Schema
