/-
  Protobuf.Proofs.Maps — what a map holds after a merge.

  The payload of an entry is read as a message of two fields, the key and the value, and stands for one pair
  (`PairOf`): each of the two is what its last occurrence says, a message value what all its occurrences make,
  and whatever else the payload holds is stepped over. A whole entry puts its pair in place of the one with the
  same key, and one that fails leaves the map as it is; so a merge, be it whole or not, inserts the pairs of the
  whole entries in order (`Runs.entries`, `Ends.entries`).

  What an entry without a value has is decided where the map is resolved: the default that its value declares,
  else the first number of an enum that does not start at zero, else zero (`Registry.StartsWith`).
-/

import Protobuf.Proofs.Declared
import Protobuf.Proofs.Failure
import Protobuf.Proofs.Occurrences

namespace Protobuf

open Schema

/-! ## Entries without a value -/

namespace Schema

/-- What a value starts with by its declaration, if it does not start with zero. -/
inductive Registry.StartsWith (registry : Registry) (scope : String) (decl : Descriptor.Field) :
    ValueType → Option Scalar → Prop
  | message (ref : TypeRef) : StartsWith registry scope decl (.message ref) none
  | zero (type : ScalarType) : decl.default = none → StartsWith registry scope decl (.plain (.scalar type)) none
  | declared {type : ScalarType} {text : String} {v : Scalar} : decl.default = some text →
      Default.read type text = .ok v → StartsWith registry scope decl (.plain (.scalar type)) (some v)
  | enumZero {name : String} {entry : Registered} {enum : Descriptor.Enum} : decl.default = none →
      registry.find? decl.typeNameText scope = some (name, entry) → entry.declaration = .enum enum →
      (∀ first ∈ enum.values.head?, first.numberValue = 0) →
      StartsWith registry scope decl (.plain (.enum ⟨name, entry.path⟩)) none
  | enumFirst {name : String} {entry : Registered} {enum : Descriptor.Enum} {first : Descriptor.EnumValue} :
      decl.default = none → registry.find? decl.typeNameText scope = some (name, entry) →
      entry.declaration = .enum enum → enum.values.head? = some first → first.numberValue ≠ 0 →
      StartsWith registry scope decl (.plain (.enum ⟨name, entry.path⟩)) (some (.enum first.numberValue))
  | enumDeclared {name text : String} {entry : Registered} {enum : Descriptor.Enum} {value : Descriptor.EnumValue} :
      decl.default = some text → registry.find? decl.typeNameText scope = some (name, entry) →
      entry.declaration = .enum enum → (enum.values.find? fun value => value.nameText == text) = some value →
      StartsWith registry scope decl (.plain (.enum ⟨name, entry.path⟩)) (some (.enum value.numberValue))

namespace Context

variable {context : Context} {decl : Descriptor.Field} {fieldName scope : String} {key : ScalarType} {value : ValueType}
  {declaration : Option Declaration} {start : Option Scalar}

theorem defaultValue_startsWith (hvalue : context.valueType decl fieldName scope = .ok (value, declaration))
    (h : defaultValue decl fieldName value declaration = .ok start) :
    context.registry.StartsWith scope decl value start := by
  rcases valueType_ok hvalue with ⟨type, _, rfl, rfl⟩ | ⟨name, entry, hfind, rfl, hkind⟩
  · unfold defaultValue at h
    cases hdefault : decl.default with
    | none =>
      rw [hdefault] at h
      cases h
      exact .zero type hdefault
    | some text =>
      rw [hdefault] at h
      obtain ⟨v, hread, rfl⟩ := map_ok h
      exact .declared hdefault (mapError_ok hread)
  · rcases hkind with ⟨message, _, rfl, _⟩ | ⟨enum, henum, rfl, _⟩
    · unfold defaultValue at h
      cases hdefault : decl.default with
      | none =>
        rw [hdefault] at h
        cases h
        exact .message _
      | some text =>
        rw [hdefault] at h
        cases h
    · unfold defaultValue at h
      rw [henum] at h
      cases hdefault : decl.default with
      | none =>
        rw [hdefault] at h
        cases h
        cases hhead : enum.values.head? with
        | none => exact .enumZero hdefault hfind henum (by simp [hhead])
        | some first =>
          by_cases hzero : first.numberValue = 0
          · simp only [hzero, Option.map_some, ne_eq, not_true_eq_false, decide_false, Option.filter_some, if_neg,
              Bool.false_eq_true, not_false_eq_true, Option.map_none]
            exact .enumZero hdefault hfind henum (by simp [hhead, hzero])
          · simp only [hzero, Option.map_some, ne_eq, not_false_eq_true, decide_true, Option.filter_some, if_pos]
            exact .enumFirst hdefault hfind henum hhead hzero
      | some text =>
        rw [hdefault] at h
        dsimp only at h
        split at h
        · rename_i found hfound
          cases h
          exact .enumDeclared hdefault hfind henum hfound
        · cases h

/-- The value of a map is what the second field of its entry is resolved to. -/
theorem mapType_value {entry : Descriptor.Message} {entryName : String}
    (h : context.mapType entry fieldName entryName = .ok (.map key value start)) :
    ∃ decl, (entry.fields.find? fun field => field.numberValue == 2) = some decl ∧
      context.registry.StartsWith entryName decl value start := by
  unfold mapType at h
  dsimp only at h
  split at h
  · split at h
    · rename_i decl hdecl
      obtain ⟨⟨_, _⟩, _, h⟩ := bind_ok h
      dsimp only at h
      split at h
      · split at h
        · obtain ⟨_, hthrow, _⟩ := bind_ok h
          cases hthrow
        · obtain ⟨⟨_, _⟩, hvalue, h⟩ := bind_ok h
          obtain ⟨_, hstart, h⟩ := bind_ok h
          cases h
          exact ⟨decl, hdecl, defaultValue_startsWith hvalue hstart⟩
      · cases h
    · cases h
  · cases h

theorem mapEntry?_some {entry : Descriptor.Message} (h : mapEntry? declaration = some entry) :
    declaration = some (.message entry) := by
  unfold mapEntry? at h
  split at h
  · split at h
    · cases h
      rfl
    · cases h
  · cases h

/-- A map field names an entry, and has the value of that. -/
theorem FieldFrom.map {fullName : String} {field : Field} (h : context.FieldFrom fullName decl field)
    (hmap : field.type = .map key value start) :
    ∃ name found entry valueDecl, context.registry.find? decl.typeNameText fullName = some (name, found) ∧
      found.declaration = .message entry ∧ (entry.fields.find? fun f => f.numberValue == 2) = some valueDecl ∧
      context.registry.StartsWith name valueDecl value start := by
  obtain ⟨alone, halone, htype, _⟩ := h.alone
  obtain ⟨valueType, declaration, hvalue, hwhole, -⟩ := field_steps halone
  rw [← htype, hmap] at hwhole
  unfold fieldType at hwhole
  split at hwhole
  · rename_i ref entry hlabel hentry
    obtain ⟨whole, hmapType, hwhole⟩ := bind_ok hwhole
    obtain ⟨rfl, _⟩ := Prod.mk.inj (Except.ok.inj hwhole)
    obtain ⟨valueDecl, hdecl, hstarts⟩ := mapType_value hmapType
    have hdeclared := mapEntry?_some hentry
    rcases valueType_ok hvalue with ⟨_, _, hplain, _⟩ | ⟨name, found, hfind, rfl, ⟨_, _, href, _⟩ | ⟨_, _, hplain, _⟩⟩
    · cases hplain
    · cases href
      exact ⟨name, found, entry, valueDecl, hfind, Option.some.inj hdeclared, hdecl, hstarts⟩
    · cases hplain
  · cases hwhole
  · cases hwhole

end Context

/-- A map field of a resolved type is declared in its file, and so is what its entries start with. -/
theorem Registry.resolve_map {registry : Registry} {file : Descriptor.File} {keepsUnknown : Bool} {resolved : File}
    (h : registry.resolve file keepsUnknown = .ok resolved) {type : MessageType} (ht : type ∈ resolved.messageTypes)
    {index : Nat} {field : Field} {key : ScalarType} {value : ValueType} {start : Option Scalar}
    (hf : type.fields[index]? = some field) (hmap : field.type = .map key value start) :
    ∃ message decl name found entry valueDecl, (type.fullName, Declaration.message message) ∈ declaredFile file ∧
      message.fields[index]? = some decl ∧ registry.find? decl.typeNameText type.fullName = some (name, found) ∧
      found.declaration = .message entry ∧ (entry.fields.find? fun f => f.numberValue == 2) = some valueDecl ∧
      registry.StartsWith name valueDecl value start := by
  obtain ⟨context, message, rfl, hdeclared, hfields⟩ := resolve_fields h ht
  have hlt : index < message.fields.length := by
    rw [hfields.length_eq]
    exact (List.getElem?_eq_some_iff.mp hf).1
  have hdecl := List.getElem?_eq_getElem hlt
  have hfrom : context.FieldFrom type.fullName message.fields[index] field := by
    obtain ⟨hlt', rfl⟩ := List.getElem?_eq_some_iff.mp hf
    exact hfields.get hlt hlt'
  obtain ⟨name, found, entry, valueDecl, hfind, hentry, hvalue, hstarts⟩ := hfrom.map hmap
  exact ⟨message, _, name, found, entry, valueDecl, hdeclared, hdecl, hfind, hentry, hvalue, hstarts⟩

end Schema

/-! ## Inserting -/

/-- After inserting one after the other, a key has the value of the last entry with it. -/
theorem Entry.valueOf_foldl_insert_last {M : Type} (entries new : List (Entry M)) (key : Scalar) :
    valueOf (new.foldl insert entries) key = (valueOf new.reverse key).or (valueOf entries key) := by
  induction new generalizing entries with
  | nil => rfl
  | cons entry new ih =>
    rw [List.foldl_cons, ih, valueOf_insert, List.reverse_cons, valueOf_append, valueOf_cons, Option.or_assoc]
    by_cases hk : key = entry.key
    · rw [if_pos hk, if_pos hk.symm]
      rfl
    · rw [if_neg hk, if_neg (Ne.symm hk)]
      rfl

namespace Message

variable {table : TypeTable} {type : MessageType} {room index : Nat} {field : Field} {key : ScalarType} {value : ValueType}
  {start : Option Scalar} {m out : Message} {fields : List (Tag × Bytes)} {r : Reader}

/-! ## Pairs -/

/-- The pair that the fields in an entry stand for. -/
structure PairOf (table : TypeTable) (child : MessageType) (room : Nat) (key : ScalarType) (value : ValueType)
    (start : Option Scalar) (fields : List (Tag × Bytes)) (pair : Entry Message) : Prop where
  key : IsLast (.scalar key) (fields.filter fun f => f.1 = Tag.make 1 (Kind.scalar key).wireType) (.zero (.scalar key)) pair.key
  plain : ∀ type, value = .plain type → ∃ v, pair.value = .scalar v ∧
    IsLast type.kind (fields.filter fun f => f.1 = Tag.make 2 type.kind.wireType) (start.getD (.zero type.kind)) v
  message : ∀ ref, value = .message ref → ∃ x, pair.value = .message x ∧
    mergeEach table child (room - 1) (new child)
      ((fields.filter fun f => f.1 = Tag.make 2 .lengthDelimited).map bodyOf) = some x

/-- An entry that is read whole stands for the pair of its fields. -/
theorem pairOf_entry (hg : table.Generated) (hw : (entryType key value start).WellFormed) {entry : Message}
    (h : Runs table (entryType key value start) room (new (entryType key value start)) fields entry) :
    PairOf table (table.childAt (entryType key value start) 1) room key value start fields
      (entryOf (table.childAt (entryType key value start) 1) entry) := by
  have hn := hw.toNumbered
  have hnew := held_new table hw
  refine ⟨?_, ?_, ?_⟩
  · obtain ⟨f, hf, hs, hown⟩ : ∃ f, (entryType key value start).fields[0]? = some f ∧
        f.strategy = .singular (.scalar key) .implicit ∧ f.number = 1 := ⟨_, rfl, rfl, rfl⟩
    obtain ⟨v, hslot, hlast⟩ := h.singular hg hw hnew hf hs rfl
    rw [occurrences_field hn hf (by rw [hs]; rfl) (by simp [hs]), hs, hown] at hlast
    simp only [entryOf, hslot]
    exact hlast
  · intro type hvalue
    subst hvalue
    obtain ⟨f, hf, hs, hown⟩ : ∃ f, (entryType key (.plain type) start).fields[1]? = some f ∧
        f.strategy = .singular type .implicit ∧ f.number = 2 := ⟨_, rfl, rfl, rfl⟩
    obtain ⟨v, hslot, hlast⟩ := h.singular hg hw hnew hf hs rfl
    rw [occurrences_field hn hf (by rw [hs]; rfl) (by simp [hs]), hs, hown] at hlast
    refine ⟨v, ?_, hlast⟩
    simp only [entryOf, hslot]
  · intro ref hvalue
    subst hvalue
    obtain ⟨f, hf, hs, hown⟩ : ∃ f, (entryType key (.message ref) start).fields[1]? = some f ∧
        f.strategy = .message ref ∧ f.number = 2 := ⟨_, rfl, rfl, rfl⟩
    obtain ⟨x, heach, hpresent⟩ := h.message hg hw hnew hf hs
    have hempty : (new (entryType key (.message ref) start)).slotAt 1 = .message .empty := rfl
    rw [start_message hempty, occurrences_field hn hf (by rw [hs]; rfl) (by simp [hs]), hs, hown] at heach
    refine ⟨x, ?_, heach⟩
    by_cases hnone : occurrences (entryType key (.message ref) start) (.field 1) fields = []
    · have hslot := (h.keeps_of_none hw hnone).slotAt (.inl rfl)
      rw [hempty] at hslot
      rw [occurrences_field hn hf (by rw [hs]; rfl) (by simp [hs]), hs, hown] at hnone
      rw [hnone] at heach
      cases heach
      simp only [entryOf, hslot]
      rfl
    · simp only [entryOf, hpresent hnone]
      rfl

/-! ## Entries of a map -/

section Map

variable (hw : type.WellFormed) (hf : type.fields[index]? = some field) (hmap : field.type = .map key value start)

include hmap

theorem strategy_of_map : field.strategy = .map key value := by
  rw [Field.strategy, hmap]

include hf in
theorem Held.slotAt_map (hm : Held table type m) : ∃ entries, m.slotAt index = .map entries := by
  obtain ⟨found, hslot, hkept⟩ := hm.slot hf
  have hform := hkept.form
  rw [strategy_of_map hmap] at hform
  cases hform
  exact ⟨_, slotAt_of_getElem? hslot⟩

include hf in
theorem entries_insertEntry (hm : Held table type m) (pair : Entry Message) :
    (m.insertEntry index pair).entries index = Entry.insert (m.entries index) pair := by
  obtain ⟨entries, hslot⟩ := hm.slotAt_map hf hmap
  simp only [Message.entries, insertEntry, hslot, slotAt_setSlot (hm.lt_slots hf)]

include hw hf

theorem step_map (m : Message) : m.step table type (Tag.make field.number .lengthDelimited) = fun r =>
    .ofNested false r m (.entry index) (entryType key value start) (new (entryType key value start)) := by
  have hs := strategy_of_map hmap
  have hown : m.step table type (Tag.make field.number field.strategy.wireType) = _ := step_own hw.toNumbered hf m
  rw [hs] at hown
  refine hown.trans (funext fun r => ?_)
  simp only [readField, hs, hmap]

theorem entryType_of_map : (entryType key value start).WellFormed := by
  refine entryType_wellFormed fun plain v hvalue hstart => ?_
  subst hvalue hstart
  exact hw.entries field (List.mem_of_getElem? hf) key plain v hmap

/-- Whole entries put in their pairs one after the other. -/
theorem Runs.entries (hg : table.Generated) (hm : Held table type m) (h : Runs table type room m fields out)
    (htag : ∀ f ∈ fields, f.1 = Tag.make field.number .lengthDelimited) :
    ∃ pairs, List.Forall₂ (fun f pair => ∃ inner, Complete room inner ∧ bytesOf inner = bodyOf f ∧
        PairOf table (table.childAt type index) room key value start inner pair) fields pairs ∧
      out.entries index = pairs.foldl Entry.insert (m.entries index) := by
  induction h with
  | nil m => exact ⟨[], .nil, rfl⟩
  | @cons m m' out tag head payload fields spells tail reads rest ih =>
    obtain rfl := htag _ (List.mem_cons_self ..)
    have hentry := entryType_of_map hw hf hmap
    obtain ⟨pairs, hpairs, hout⟩ := ih (reads.held hg hw hm) fun f hf => htag f (List.mem_cons_of_mem _ hf)
    obtain ⟨entry, hmerge, rfl⟩ := reads.opened spells (step_map hw hf hmap m)
    obtain ⟨inner, hbody, hruns⟩ := runs_of_mergeWithin hg hentry (held_new table hentry) hmerge
    have hpair := pairOf_entry hg hentry hruns
    rw [childAt_entryType hf hmap] at hpair
    refine ⟨_ :: pairs, .cons ⟨inner, hruns.complete, hbody.symm, hpair⟩ hpairs, ?_⟩
    rw [hout, put, entries_insertEntry hf hmap hm]
    rfl

/-- Where a merge ends, whether by failing or not, the map is as it was there. -/
theorem Ends.entries (hv : r.Valid) (h : Ends table type m r) :
    (m.merge table type r).message.entries index = m.entries index := by
  cases h with
  | done hwin => rw [merge_done hv hwin]
  | tag ht => rw [merge_tag_error ht]
  | @field tag s e ht he =>
    rw [merge_one ht, he]
    dsimp only
    have hs := strategy_of_map hmap
    by_cases hregion : type.region tag = .field index
    · have htag := MessageType.region_field hregion hf (by rw [hs]; rfl)
      rw [hs] at htag
      have hstep := (congrArg (m.step table type) htag).trans (step_map hw hf hmap m)
      -- neither a length that cannot be read nor a broken entry reaches the map
      cases ho : Reader.openNested false s with
      | error e' s' =>
        rw [readOne_stop (by rw [hstep]; simp only [Step.ofNested, ho]; rfl)]
      | ok nested s' =>
        have hinto : m.step table type tag s = .into m (.entry index) (entryType key value start)
            (new (entryType key value start)) nested.inner nested.outer := by
          rw [hstep]
          simp only [Step.ofNested, ho]
        cases hinner : ((new (entryType key value start)).merge table (entryType key value start) nested.inner).error with
        | none =>
          rw [readOne_into hinto hinner] at he
          cases he
        | some e' =>
          rw [readOne_into_failed hinto hinner]
          rfl
    · have hkeeps := readOne_keeps table type m tag s
      have hslot : ¬ (type.region tag).Covers type (.slot index) :=
        fun hcovers => Region.disjoint hw hregion hcovers (.inl rfl)
      rw [Message.entries, Message.entries, hkeeps.slotAt hslot]

end Map

/-- A merge runs over whole fields up to a rest that does not begin with one, and ends there. -/
theorem mergeWithin_front (hg : table.Generated) (hw : type.WellFormed) (hm : Held table type m) (room : Nat)
    (bytes : Bytes) :
    ∃ fields rest before s, Runs table type room m fields before ∧ bytesOf fields ++ rest = bytes ∧ s.Valid ∧
      Ends table type before s ∧ (mergeWithin table type room m bytes).1 = (before.merge table type s).message ∧
      (∀ part, part <+: rest → part ≠ [] → (mergeWithin table type room before part).2 ≠ none) ∧
      ((mergeWithin table type room m bytes).2 = none → rest = []) := by
  obtain ⟨hv, hwin⟩ := Reader.valid_ofBytesWithin bytes room
  obtain ⟨fields, rest, before, s, hruns, hsplit, hpast, hmerge, hends⟩ := merge_runs hg hw hm hv
  rw [hwin] at hsplit
  obtain ⟨hvs, hws⟩ := hpast.valid hv (hwin.trans hsplit)
  have hfront : mergeWithin table type room m (bytesOf fields) = (before, none) := hruns.mergeWithin_eq
  have hrest : ∀ part, part <+: rest → part ≠ [] → (mergeWithin table type room before part).2 ≠ none := by
    intro part hpart hne
    rw [← hws] at hpart
    have hfirst := hends.first hg hw (hruns.held hg hw hm) hvs hpart hne
    rwa [hpast.room_eq] at hfirst
  refine ⟨fields, rest, before, s, hruns, hsplit.symm, hvs, hends, congrArg Outcome.message hmerge, hrest, ?_⟩
  intro hok
  by_contra hne
  refine hrest rest (List.prefix_refl rest) hne ?_
  rw [← mergeWithin_append hfront rest, ← hsplit]
  exact hok

/-- A merge, whether it fails or not, reads whole fields up to a rest that does not begin with one, and makes of a map
    what it held and, in order, the pairs of the whole entries. So a key has the value of the last whole entry with it.
    An entry without a value has the one its declaration gives: its default, else the first number of an enum that does
    not start at zero, else zero. -/
theorem mergeWithin_map {registry : Registry} {file : Descriptor.File} {keepsUnknown : Bool} {resolved : File}
    (h : registry.resolve file keepsUnknown = .ok resolved) {type : MessageType} (ht : type ∈ resolved.messageTypes)
    {index : Nat} {field : Field} {key : ScalarType} {value : ValueType} {start : Option Scalar}
    (hf : type.fields[index]? = some field) (hmap : field.type = .map key value start) :
    (∃ message decl name found entry valueDecl, (type.fullName, Declaration.message message) ∈ declaredFile file ∧
      message.fields[index]? = some decl ∧ registry.find? decl.typeNameText type.fullName = some (name, found) ∧
      found.declaration = .message entry ∧ (entry.fields.find? fun f => f.numberValue == 2) = some valueDecl ∧
      registry.StartsWith name valueDecl value start) ∧
    ∀ (table : TypeTable) (room : Nat) (m : Message) (bytes : Bytes), table.Generated → Held table type m →
      let out := mergeWithin table type room m bytes
      ∃ fields rest before pairs, bytesOf fields ++ rest = bytes ∧ Complete room fields ∧
        mergeWithin table type room m (bytesOf fields) = (before, none) ∧
        (∀ part, part <+: rest → part ≠ [] → (mergeWithin table type room before part).2 ≠ none) ∧
        (out.2 = none → rest = []) ∧
        List.Forall₂ (fun f pair => ∃ inner, Complete room inner ∧ bytesOf inner = bodyOf f ∧
            PairOf table (table.childAt type index) room key value start inner pair)
          (fields.filter fun f => f.1 = Tag.make field.number .lengthDelimited) pairs ∧
        out.1.entries index = pairs.foldl Entry.insert (m.entries index) ∧
        ∀ k, out.1.lookup index k = (Entry.valueOf pairs.reverse k).or (m.lookup index k) := by
  refine ⟨Registry.resolve_map h ht hf hmap, fun table room m bytes hg hm => ?_⟩
  intro out
  have hw := Registry.resolve_wellFormed h type ht
  have hs := strategy_of_map hmap
  obtain ⟨fields, rest, before, s, hruns, hsplit, hv, hends, hmessage, hrest, hwhole⟩ := mergeWithin_front hg hw hm room bytes
  -- the entries among the fields are all that reaches the map
  obtain ⟨middle, hown, hagree⟩ := hruns.region hw (.field index)
  rw [occurrences_field hw.toNumbered hf (by rw [hs]; rfl) (by simp [hs]), hs] at hown
  obtain ⟨pairs, hpairs, hentries⟩ := hown.entries hw hf hmap hg hm fun f hmem => of_decide_eq_true (List.mem_filter.mp hmem).2
  have hout : out.1.entries index = pairs.foldl Entry.insert (m.entries index) := by
    rw [hmessage, hends.entries hw hf hmap hv, ← hentries, Message.entries, Message.entries, hagree.slotAt (.inl rfl)]
  refine ⟨fields, rest, before, pairs, hsplit, hruns.complete, hruns.mergeWithin_eq, hrest, hwhole, hpairs, hout, ?_⟩
  intro k
  have hlookup : out.1.lookup index k = Entry.valueOf (out.1.entries index) k := rfl
  rw [hlookup, hout, Entry.valueOf_foldl_insert_last]
  rfl

set_option maxRecDepth 100000 in
/-- An entry with two keys, two values and an unknown field among them: the last key counts, both values do, and
    nothing of what the key had before is left. An entry that is cut off changes nothing. -/
theorem mergeWithin_map_anchors :
    let table := Sample.Shapes.table
    let shape := table.message "demo.shapes.Shape"
    let before := (mergeBytes table shape (new shape) [0x4a, 6, 8, 1, 0x12, 2, 8, 9]).1
    let left : Tag × Bytes := (Tag.make 2 .lengthDelimited, [0x12] ++ ([2] ++ [8, 1]))
    let unknown : Tag × Bytes := (Tag.make 3 .varint, [0x18] ++ [7])
    let three : Tag × Bytes := (Tag.make 1 .varint, [8] ++ [3])
    let up : Tag × Bytes := (Tag.make 2 .lengthDelimited, [0x12] ++ ([2] ++ [16, 2]))
    let one : Tag × Bytes := (Tag.make 1 .varint, [8] ++ [1])
    let entry : Tag × Bytes := (Tag.make 9 .lengthDelimited, [0x4a] ++ ([14] ++ bytesOf [left, unknown, three, up, one]))
    let weight : Tag × Bytes := (Tag.make 5 .varint, [0x28] ++ [3])
    ∃ out x, mergeWithin table shape 100 before (bytesOf [weight, entry]) = (out, none) ∧
      mergeEach table (table.childAt shape 8) 99 (new (table.childAt shape 8)) [[8, 1], [16, 2]] = some x ∧
      out.lookup 8 (.int32 1) = some (.message x) ∧ out.lookup 8 (.int32 3) = none ∧
      ((mergeWithin table shape 100 out [0x4a, 3, 8, 2, 0x12]).1.entries 8).length = 1 := by
  intro table shape before left unknown three up one entry weight
  let fields := [weight, entry]
  let inner := [left, unknown, three, up, one]
  let out := (mergeWithin table shape 100 before (bytesOf fields)).1
  let point : TypeRef := ⟨"demo.shapes.Point", ⟨["demo", "shapes"], "Point"⟩⟩
  obtain ⟨hnamed, hok, hanchors, hthree, hbroken⟩ :
      (table.messages.any fun type => type.fullName == "demo.shapes.Shape") = true ∧
      (mergeWithin table shape 100 before (bytesOf fields)).2 = none ∧
      (shape.fields[8]?.map fun field => (field.type, field.number)) = some (.map .int32 (.message point) none, 9) ∧
      (before.lookup 8 (.int32 3)).isNone = true ∧
      ((mergeWithin table shape 100 out [0x4a, 3, 8, 2, 0x12]).1.entries 8).length = 1 := by
    decide +kernel
  have hg : table.Generated := generated_tableOf _ _
  have htype := TypeTable.message_mem hnamed
  have hw := hg.wellFormed htype
  have hbefore : Held table shape before := held_merge hg hw (held_new table hw) _
  obtain ⟨field, hf, hpair⟩ := Option.map_eq_some_iff.mp hanchors
  obtain ⟨hmap, hnumber⟩ := Prod.mk.inj hpair
  obtain ⟨registry, resolved, hfiles, hresolve, hmem⟩ := mem_tableOf htype
  obtain ⟨_, hmerge⟩ := mergeWithin_map hresolve hmem hf hmap
  obtain ⟨whole, rest, _, pairs, hsplit, hwhole, _, _, hrest, hpairs, hentries, hlookup⟩ :=
    hmerge table 100 before (bytesOf fields) hg hbefore
  obtain rfl := hrest hok
  have hinner : Complete 100 inner := by
    refine .plain ⟨rfl, by decide, by decide, rfl⟩ (.framed rfl rfl) ?_
    refine .plain ⟨rfl, by decide, by decide, rfl⟩ (.varint rfl rfl) ?_
    refine .plain ⟨rfl, by decide, by decide, rfl⟩ (.varint rfl rfl) ?_
    refine .plain ⟨rfl, by decide, by decide, rfl⟩ (.framed rfl rfl) ?_
    exact .plain ⟨rfl, by decide, by decide, rfl⟩ (.varint rfl rfl) (.nil 100)
  have hcomplete : Complete 100 fields := by
    refine .plain ⟨rfl, by decide, by decide, rfl⟩ (.varint rfl rfl) ?_
    exact .plain ⟨rfl, by decide, by decide, rfl⟩ (.framed rfl rfl) (.nil 100)
  rw [List.append_nil] at hsplit
  obtain rfl := complete_unique hwhole hcomplete hsplit
  have hone : (fields.filter fun f => f.1 = Tag.make field.number .lengthDelimited) = [entry] := by
    rw [hnumber]
    decide +kernel
  rw [hone] at hpairs
  cases hpairs with
  | @cons _ pair _ _ hentry hnone =>
    cases hnone
    obtain ⟨within, hwithin, hbody, hpair⟩ := hentry
    obtain rfl := complete_unique hwithin hinner (hbody.trans (by decide +kernel))
    obtain ⟨x, hvalue, heach⟩ := hpair.message point rfl
    have hread : scalarOf (.scalar .int32) one = some (.int32 1) := by decide +kernel
    have hkey : pair.key = .int32 1 := Option.some.inj ((hpair.key.2 [three] one (by decide +kernel)).symm.trans hread)
    refine ⟨out, x, Prod.ext rfl hok, heach, ?_, ?_, hbroken⟩
    · rw [hlookup, List.reverse_singleton, Entry.valueOf_cons, if_pos hkey, hvalue]
      rfl
    · rw [hlookup, List.reverse_singleton, Entry.valueOf_cons, hkey, if_neg (by decide), Option.isNone_iff_eq_none.mp hthree]
      rfl

/-- A file in which the value of a map declares a default. -/
def counted : Descriptor.File where
  dialect := some "proto3"
  messages :=
    [ (Descriptor.Message.of "M" [.repeated (.message "counts" 1 ".M.CountsEntry")])
        |>.withNested [.entryOf "CountsEntry" .int32 (.withDefault (.scalar "" 0 .int32) "5")] ]

/-- The default stands for a value that an entry does not have, in place of zero. -/
theorem mergeWithin_map_declared :
    let table := Sample.tableOf counted true
    let type := table.message "M"
    let out := mergeWithin table type 100 (new type) [0x0a, 2, 8, 1]
    out.2 = none ∧ ((out.1.lookup 0 (.int32 1)).bind fun value => value.scalar?) = some (.int32 5) := by
  decide +kernel

end Message

end Protobuf
