/-
  Protobuf.Proofs.Packing — values of a repeated field by themselves and in runs.

  A repeated field of numbers is read in two forms whichever it is written in: a tag and one value, or a tag, a
  length and a run of values. `Chunk` is one stretch of an input seen from such a field: some of its values in
  either form, or a field that belongs elsewhere.

  (1) A field of another region is read the same whatever the slot holds, and leaves it (`Reads.beside`).

  (2) A run of chunks appends their values in order, and does with the other fields what they do by themselves
  (`runs_chunks`, `runs_others`). So how values are cut and packed makes no difference (`mergeBytes_chunks`).
-/

import Protobuf.Proofs.Items

namespace Protobuf

open Schema

theorem Scalar.sized_of_kind {v : Scalar} (h : v.kind.isLengthDelimited = false) : v.Sized := by
  cases v with
  | string v => cases h
  | bytes v => cases h
  | _ => trivial

namespace Message

/-! ## Chunks -/

/-- A stretch of an input, seen from a repeated field of numbers. -/
inductive Chunk where
  /-- Values in one run, behind one tag. -/
  | run (values : List Scalar)
  /-- Values each behind a tag. -/
  | each (values : List Scalar)
  /-- A field that belongs elsewhere, with its tag and all its bytes. -/
  | other (field : Tag × Bytes)

namespace Chunk

def values : Chunk → List Scalar
  | run values => values
  | each values => values
  | other _ => []

/-- The chunk as whole fields, for a field of this number and kind. -/
def fields (number : Nat) (kind : Kind) : Chunk → List (Tag × Bytes)
  | run values =>
    let tag := Tag.make number .lengthDelimited
    [(tag, Tag.encode tag ++ Frame.encode (Scalar.encodeAll values))]
  | each values =>
    let tag := Tag.make number kind.wireType
    values.map fun value => (tag, Tag.encode tag ++ value.encode)
  | other field => [field]

/-- What belongs elsewhere. -/
def others : Chunk → List (Tag × Bytes)
  | other field => [field]
  | _ => []

/-- Values are of the kind and a run as long as a length can say; the rest is whole fields, with groups at most so
    deep, whose tag does not lead to the field. -/
def Suits (type : MessageType) (index : Nat) (kind : Kind) (depth : Nat) : Chunk → Prop
  | run values => (∀ value ∈ values, value.kind = kind) ∧ (Scalar.encodeAll values).length < 0x10000000000000000
  | each values => ∀ value ∈ values, value.kind = kind
  | other field => Complete depth [field] ∧ ∀ entry ∈ type.dispatch, entry.tag = field.1 → entry.field ≠ index

end Chunk

variable {table : TypeTable} {type : MessageType} {room index : Nat} {field : Field} {kind : Kind} {tag : Tag}
  {head payload : Bytes} {m m' out : Message} {fields : List (Tag × Bytes)}

/-! ## Runs in parts -/

theorem reads_of_nexts (h : Step.Nexts (m.step table type tag) head room payload m') :
    Reads table type room tag head payload m m' := by
  intro r rest hv hb hw hroom
  obtain ⟨s, hs, hp⟩ := h r rest hv hb hw hroom
  exact ⟨s, readOne_next hs, hp⟩

theorem runs_append {others : List (Tag × Bytes)} :
    Runs table type room m (fields ++ others) out ↔
      ∃ middle, Runs table type room m fields middle ∧ Runs table type room middle others out := by
  constructor
  · intro h
    induction fields generalizing m with
    | nil => exact ⟨m, .nil m, h⟩
    | cons f fields ih =>
      cases h with
      | cons spells tail reads rest =>
        obtain ⟨middle, hfirst, hsecond⟩ := ih rest
        exact ⟨middle, .cons spells tail reads hfirst, hsecond⟩
  · intro h
    obtain ⟨middle, hfirst, hsecond⟩ := h
    induction hfirst with
    | nil m => exact hsecond
    | cons spells tail reads _ ih => exact .cons spells tail reads (ih hsecond)

theorem Runs.unique {out' : Message} (h : Runs table type room m fields out) (h' : Runs table type room m fields out') :
    out = out' :=
  congrArg Prod.fst (h.mergeWithin_eq.symm.trans h'.mergeWithin_eq)

/-! ## Fields of other regions -/

/-- A field of another region is read the same whatever the slot holds, and leaves what it holds. -/
theorem Reads.beside (hw : type.WellFormed) (hne : type.region tag ≠ .field index)
    (h : Reads table type room tag head payload m m') (slot : Slot Message) :
    Reads table type room tag head payload (m.setSlot index slot) (m'.setSlot index slot) := by
  have hset := touches_setSlot (S := fun cell => cell = .slot index) rfl slot
  have hoff : ∀ cell, (type.region tag).Covers type cell → ¬ cell = .slot index := by
    intro cell hc hslot
    exact Region.disjoint hw hne hc (.inl hslot)
  obtain ⟨n, hn, hin⟩ := h.frame ((hset.writes m).symm.mono hoff)
  -- in the region of the field `n` is as `m'`, and elsewhere as `m` with the slot set
  have houtside := hn.keeps.trans (hset.reads (fun cell hslot hc => hoff cell hc hslot) h.keeps).symm
  have hagree : Agree (fun _ => True) n (m'.setSlot index slot) := by
    refine { houtside with cells := fun cell _ => ?_ }
    by_cases hc : (type.region tag).Covers type cell
    · exact (hin.symm.cells cell hc).trans ((hset.writes m').symm.cells cell (hoff cell hc))
    · exact houtside.cells cell hc
  rw [← hagree.eq fun _ => trivial]
  exact hn

theorem Reads.slot_eq (hw : type.WellFormed) (hne : type.region tag ≠ .field index)
    (h : Reads table type room tag head payload m m') : m'.body.slots[index]? = m.body.slots[index]? :=
  h.keeps.cells (.slot index) fun hc => Region.disjoint hw hne hc (.inl rfl)

/-! ## Values of the field -/

theorem reads_element (hn : type.Numbered) (hf : type.fields[index]? = some field)
    (hrun : field.strategy.runKind? = some kind) (hlt : index < m.body.slots.length) (head : Bytes) (old : List Scalar)
    {value : Scalar} (hkind : value.kind = kind) :
    Reads table type room (Tag.make field.number kind.wireType) head value.encode (m.setSlot index (.scalars old))
      (m.setSlot index (.scalars (old ++ [value]))) := by
  have hentry : (⟨Tag.make field.number kind.wireType, index, .element⟩ : Dispatch) ∈ type.dispatch := by
    refine MessageType.mem_dispatch_iff.mpr ⟨index, field, hf, ?_⟩
    simp [Field.dispatch, hrun]
  have hsized : value.Sized := Scalar.sized_of_kind (hkind ▸ Field.kind_of_runKind hrun)
  apply reads_of_nexts
  have hstep : (m.setSlot index (.scalars old)).step table type (Tag.make field.number kind.wireType) = fun r =>
      .ofRead (Reader.readScalar value.kind) r (m.setSlot index (.scalars old)) fun v =>
        m.setSlot index (.scalars (old ++ [v])) := by
    rw [step_entry hn hentry hf]
    funext r
    cases hs : field.strategy with
    | repeated plain | packed plain =>
      rw [hs] at hrun
      cases hrun
      simp [readField, hs, hkind, appendScalars, slotAt_setSlot hlt]
    | _ =>
      rw [hs] at hrun
      cases hrun
  rw [hstep]
  exact Step.nexts_ofRead (Reader.takes_readScalar hsized) _ _ _ _

theorem reads_run (hn : type.Numbered) (hf : type.fields[index]? = some field)
    (hrun : field.strategy.runKind? = some kind) (hlt : index < m.body.slots.length) (head : Bytes) (old : List Scalar)
    {values : List Scalar} (hvalues : ∀ value ∈ values, value.kind = kind)
    (hlength : (Scalar.encodeAll values).length < 0x10000000000000000) :
    Reads table type room (Tag.make field.number .lengthDelimited) head (Frame.encode (Scalar.encodeAll values))
      (m.setSlot index (.scalars old)) (m.setSlot index (.scalars (old ++ values))) := by
  have hentry : (⟨Tag.make field.number .lengthDelimited, index, .run⟩ : Dispatch) ∈ type.dispatch := by
    refine MessageType.mem_dispatch_iff.mpr ⟨index, field, hf, ?_⟩
    simp [Field.dispatch, hrun]
  have hsized : ∀ value ∈ values, value.kind = kind ∧ value.Sized := fun value hv =>
    ⟨hvalues value hv, Scalar.sized_of_kind (hvalues value hv ▸ Field.kind_of_runKind hrun)⟩
  apply reads_of_nexts
  intro r rest hv _ hw _
  have hread := Reader.readRun_encodeAll hsized (Reader.spells_encode hlength) hv hw
  refine ⟨_, ?_, Reader.past_forward r _⟩
  rw [step_entry hn hentry hf]
  cases hs : field.strategy with
  | repeated plain | packed plain =>
    rw [hs] at hrun
    cases hrun
    simp [readField, hs, Step.ofRun, hread, appendScalars, slotAt_setSlot hlt, Frame.encode]
  | _ =>
    rw [hs] at hrun
    cases hrun

/-! ## Chunk by chunk -/

/-- A tag that does not lead to a field does not belong to it. -/
theorem region_ne (h : ∀ entry ∈ type.dispatch, entry.tag = tag → entry.field ≠ index) :
    type.region tag ≠ .field index := by
  unfold MessageType.region
  split
  · simp
  · rename_i entry hfind
    have htag : entry.tag = tag := by simpa using List.find?_some hfind
    have hne := h entry (List.mem_of_find?_eq_some hfind) htag
    split
    · simp
    · simpa using hne

section Chunks

variable (hw : type.WellFormed) (hf : type.fields[index]? = some field)
  (hrun : field.strategy.runKind? = some kind) {depth : Nat} {chunk : Chunk} {chunks : List Chunk} {old : List Scalar}

include hw hf hrun

/-- The values of a chunk are appended, whichever form they have. -/
theorem runs_values (hlt : index < m.body.slots.length) (hc : chunk.Suits type index kind depth)
    (hother : chunk.others = []) (old : List Scalar) :
    Runs table type room (m.setSlot index (.scalars old)) (chunk.fields field.number kind)
      (m.setSlot index (.scalars (old ++ chunk.values))) := by
  have hspells : ∀ w, Tag.Spells (Tag.encode (Tag.make field.number w)) (Tag.make field.number w) :=
    Tag.spells_make (hw.number_ne field (List.mem_of_getElem? hf)) (hw.number_le field (List.mem_of_getElem? hf))
  cases chunk with
  | other f => simp [Chunk.others] at hother
  | run values =>
    have hpayload : Payload (Tag.make field.number .lengthDelimited) (Frame.encode (Scalar.encodeAll values)) :=
      .framed (Tag.wireType?_make ..) (Reader.spells_encode hc.2)
    exact .cons (hspells _) (.plain hpayload) (reads_run hw.toNumbered hf hrun hlt _ old hc.1 hc.2) (.nil _)
  | each values =>
    have hkinds : ∀ value ∈ values, value.kind = kind := hc
    simp only [Chunk.fields, Chunk.values]
    clear hc hother
    induction values generalizing old with
    | nil =>
      rw [List.append_nil]
      exact .nil _
    | cons value values ih =>
      have hkind := hkinds value (List.mem_cons_self ..)
      have hpayload : Payload (Tag.make field.number kind.wireType) value.encode := by
        refine payload_encode (Scalar.sized_of_kind (hkind ▸ Field.kind_of_runKind hrun)) ?_
        rw [Tag.wireType?_make, hkind]
      have hrest := ih (old ++ [value]) fun v hv => hkinds v (List.mem_cons_of_mem _ hv)
      rw [List.append_assoc] at hrest
      exact .cons (hspells _) (.plain hpayload) (reads_element hw.toNumbered hf hrun hlt _ old hkind) hrest

/-- Chunks append their values in order, and the other fields among them do what they do by themselves. -/
theorem runs_chunks (hlt : index < m.body.slots.length) (hc : ∀ chunk ∈ chunks, chunk.Suits type index kind depth)
    (h : Runs table type room m (chunks.flatMap Chunk.others) out) (old : List Scalar) :
    Runs table type room (m.setSlot index (.scalars old)) (chunks.flatMap (Chunk.fields field.number kind))
      (out.setSlot index (.scalars (old ++ chunks.flatMap Chunk.values))) := by
  induction chunks generalizing m old with
  | nil =>
    cases h
    rw [List.flatMap_nil, List.flatMap_nil, List.append_nil]
    exact .nil _
  | cons chunk chunks ih =>
    have hhead := hc chunk (List.mem_cons_self ..)
    have htail := fun other ho => hc other (List.mem_cons_of_mem _ ho)
    rw [List.flatMap_cons] at h ⊢
    rw [List.flatMap_cons, ← List.append_assoc]
    refine runs_append.mpr ?_
    obtain ⟨middle, hfirst, hsecond⟩ := runs_append.mp h
    cases chunk with
    | run values | each values =>
      cases hfirst
      exact ⟨_, runs_values hw hf hrun hlt hhead rfl old, ih hlt htail hsecond _⟩
    | other f =>
      cases hfirst with
      | cons spells tail reads rest =>
        cases rest
        have hlt' : index < middle.body.slots.length := by rw [reads.keeps.length_slots]; exact hlt
        have hbeside := reads.beside hw (region_ne hhead.2) (.scalars old)
        refine ⟨_, .cons spells tail hbeside (.nil _), ?_⟩
        rw [Chunk.values, List.append_nil]
        exact ih hlt' htail hsecond old

/-- If all is read, so are the other fields by themselves, and they leave the slot. -/
theorem runs_others (hlt : index < m.body.slots.length) (hc : ∀ chunk ∈ chunks, chunk.Suits type index kind depth)
    {old : List Scalar}
    (h : Runs table type room (m.setSlot index (.scalars old)) (chunks.flatMap (Chunk.fields field.number kind)) out) :
    ∃ rest, Runs table type room m (chunks.flatMap Chunk.others) rest ∧
      rest.body.slots[index]? = m.body.slots[index]? := by
  induction chunks generalizing m old with
  | nil => exact ⟨m, .nil m, rfl⟩
  | cons chunk chunks ih =>
    have hhead := hc chunk (List.mem_cons_self ..)
    have htail := fun other ho => hc other (List.mem_cons_of_mem _ ho)
    obtain ⟨middle, hfirst, hsecond⟩ := runs_append.mp h
    rw [List.flatMap_cons]
    cases chunk with
    | run values | each values =>
      obtain rfl := hfirst.unique (runs_values hw hf hrun hlt hhead rfl old)
      exact ih hlt htail hsecond
    | other f =>
      cases hfirst with
      | cons spells tail reads rest =>
        cases rest
        -- with the slot as it was in `m`, the field leaves `middle` with that slot
        obtain ⟨slot, hslot⟩ : ∃ slot, m.body.slots[index]? = some slot := ⟨_, List.getElem?_eq_getElem hlt⟩
        have hback := reads.beside hw (region_ne hhead.2) slot
        rw [setSlot_setSlot, setSlot_self hslot] at hback
        have hkept : middle.body.slots[index]? = some (.scalars old) :=
          (reads.slot_eq hw (region_ne hhead.2)).trans (getElem?_setSlot hlt _)
        have hlt' : index < (middle.setSlot index slot).body.slots.length := by
          rw [hback.keeps.length_slots]
          exact hlt
        have hmiddle : (middle.setSlot index slot).setSlot index (.scalars old) = middle := by
          rw [setSlot_setSlot, setSlot_self hkept]
        rw [← hmiddle] at hsecond
        obtain ⟨rest, hrest, hsame⟩ := ih hlt' htail hsecond
        exact ⟨rest, .cons spells tail hback hrest, hsame.trans (hback.slot_eq hw (region_ne hhead.2))⟩

theorem complete_chunks (hlt : index < m.body.slots.length)
    (hc : ∀ chunk ∈ chunks, chunk.Suits type index kind depth) :
    Complete depth (chunks.flatMap (Chunk.fields field.number kind)) ∧ Complete depth (chunks.flatMap Chunk.others) := by
  induction chunks with
  | nil => exact ⟨.nil depth, .nil depth⟩
  | cons chunk chunks ih =>
    have hhead := hc chunk (List.mem_cons_self ..)
    obtain ⟨hfields, hothers⟩ := ih fun other ho => hc other (List.mem_cons_of_mem _ ho)
    cases chunk with
    | run values | each values =>
      have hruns : Runs default type depth _ _ _ := runs_values hw hf hrun hlt hhead rfl []
      exact ⟨hruns.complete.append hfields, hothers⟩
    | other f => exact ⟨hhead.1.append hfields, hhead.1.append hothers⟩

end Chunks

/-- A repeated field of numbers is read one by one and in runs, whichever it is declared as. -/
theorem runKind_of_repeated {plain : PlainType} (htype : field.type = .value (.plain plain)) (honeof : field.oneof = none)
    (hrepeated : field.cardinality ≠ .singular) (hkind : plain.kind.isLengthDelimited = false) :
    field.strategy.runKind? = some plain.kind := by
  unfold Field.strategy
  rw [htype, honeof]
  cases hc : field.cardinality with
  | singular => exact absurd hc hrepeated
  | packed => simp [hkind, Strategy.runKind?]
  | _ => simp [hkind, Strategy.runKind?]

/-- However the values of a repeated field are cut into runs and single values, and whatever other fields stand
    between them, merging appends the values in order and does with the other fields what it does without them. -/
theorem mergeBytes_chunks (table : TypeTable) (type : MessageType) (m : Message) (hg : table.Generated)
    (htype : type ∈ table.messages) (hm : Held table type m) {index : Nat} {field : Field} {plain : PlainType}
    (hf : type.fields[index]? = some field) (hplain : field.type = .value (.plain plain)) (honeof : field.oneof = none)
    (hrepeated : field.cardinality ≠ .singular) (hkind : plain.kind.isLengthDelimited = false) {depth : Nat}
    (chunks : List Chunk) (hchunks : ∀ chunk ∈ chunks, chunk.Suits type index plain.kind depth) :
    ∃ old, m.slotAt index = .scalars old ∧
      (∀ rest, mergeBytes table type m (bytesOf (chunks.flatMap Chunk.others)) = (rest, none) →
        rest.slotAt index = .scalars old ∧
        mergeBytes table type m (bytesOf (chunks.flatMap (Chunk.fields field.number plain.kind))) =
          (rest.setSlot index (.scalars (old ++ chunks.flatMap Chunk.values)), none)) ∧
      ((mergeBytes table type m (bytesOf (chunks.flatMap (Chunk.fields field.number plain.kind)))).2 = none →
        (mergeBytes table type m (bytesOf (chunks.flatMap Chunk.others))).2 = none) := by
  have hw := hg.wellFormed htype
  have hrun := runKind_of_repeated hplain honeof hrepeated hkind
  have hshaped : m.body.Shaped type := by
    obtain ⟨body⟩ := m
    exact hm.shaped
  obtain ⟨slot, hslot, hform⟩ := hshaped.slot_of_field hf
  obtain ⟨old, rfl⟩ : ∃ old, slot = .scalars old := by
    generalize field.strategy = strategy at hrun hform
    cases hform with
    | repeated | packed => exact ⟨_, rfl⟩
    | _ => cases hrun
  have hlt : index < m.body.slots.length := (List.getElem?_eq_some_iff.mp hslot).1
  obtain ⟨hfields, hothers⟩ := complete_chunks hw hf hrun hlt hchunks
  refine ⟨old, slotAt_of_getElem? hslot, fun rest hok => ?_, fun hok => ?_⟩
  · obtain ⟨fields, hbytes, hruns⟩ := runs_of_mergeWithin hg hw hm hok
    obtain rfl := complete_unique hothers hruns.complete hbytes
    have hall := runs_chunks hw hf hrun hlt hchunks hruns old
    obtain ⟨rest', hrest, hsame⟩ := runs_others hw hf hrun hlt hchunks hall
    obtain rfl := hruns.unique hrest
    rw [setSlot_self hslot] at hall
    exact ⟨slotAt_of_getElem? (hsame.trans hslot), hall.mergeWithin_eq⟩
  · obtain ⟨fields, hbytes, hruns⟩ := runs_of_mergeWithin hg hw hm (Prod.ext rfl hok)
    obtain rfl := complete_unique hfields hruns.complete hbytes
    rw [← setSlot_self hslot] at hruns
    obtain ⟨rest, hrest, _⟩ := runs_others hw hf hrun hlt hchunks hruns
    exact congrArg Prod.snd hrest.mergeWithin_eq

set_option maxRecDepth 100000 in
/-- `offsets` is declared without runs; among its values stand a name and its own number with another wire type. -/
theorem mergeBytes_chunks_offsets :
    let table := Sample.Shapes.table
    let shape := table.message "demo.shapes.Shape"
    let name : Tag × Bytes := (Tag.make 1 .lengthDelimited, [0x0a] ++ ([1] ++ [0x61]))
    let misread : Tag × Bytes := (Tag.make 6 .fixed64, [0x31] ++ [1, 2, 3, 4, 5, 6, 7, 8])
    let m := (new shape).setSlot 5 (.scalars [.sint64 9])
    ∃ rest, mergeBytes table shape m (bytesOf [name, misread]) = (rest, none) ∧
      mergeBytes table shape m
        ([0x30, 1] ++ name.2 ++ [0x32, 2, 4, 5] ++ [0x32, 0] ++ misread.2 ++ [0x30, 8, 0x30, 10]) =
          (rest.setSlot 5 (.scalars [.sint64 9, .sint64 (-1), .sint64 2, .sint64 (-3), .sint64 4, .sint64 5]), none) := by
  intro table shape name misread m
  have hg : table.Generated := generated_tableOf _ _
  obtain ⟨hnamed, hheld, hok, hoffsets, hforeign, hlt⟩ :
      (table.messages.any fun type => type.fullName == "demo.shapes.Shape") = true ∧
      isHeld table 1 shape m = true ∧
      (mergeBytes table shape m (bytesOf [name, misread])).2 = none ∧
      (shape.fields[5]?.map fun field =>
        (field.number, field.type, field.oneof, field.cardinality)) =
          some (6, .value (.plain (.scalar .sint64)), none, .repeated) ∧
      (∀ entry ∈ shape.dispatch, entry.field = 5 → entry.tag ≠ name.1 ∧ entry.tag ≠ misread.1) ∧
      5 < (new shape).body.slots.length := by
    decide +kernel
  obtain ⟨field, hf, hdeclared⟩ := Option.map_eq_some_iff.mp hoffsets
  simp only [Prod.mk.injEq] at hdeclared
  obtain ⟨hnumber, htype, honeof, hcardinality⟩ := hdeclared
  have hkinds : ∀ values : List Scalar, (values.all fun value => value.kind == .scalar .sint64) = true →
      ∀ value ∈ values, value.kind = .scalar .sint64 := by
    intro values h value hv
    exact beq_iff_eq.mp (List.all_eq_true.mp h value hv)
  let chunks : List Chunk := [.each [.sint64 (-1)], .other name, .run [.sint64 2, .sint64 (-3)], .run [], .other misread,
    .each [.sint64 4, .sint64 5]]
  have hchunks : ∀ chunk ∈ chunks, chunk.Suits shape 5 (.scalar .sint64) 0 := by
    refine List.forall_mem_cons.mpr ⟨hkinds _ rfl, List.forall_mem_cons.mpr ⟨⟨?_, ?_⟩, List.forall_mem_cons.mpr
      ⟨⟨hkinds _ rfl, by decide +kernel⟩, List.forall_mem_cons.mpr ⟨⟨hkinds _ rfl, by decide +kernel⟩, List.forall_mem_cons.mpr
        ⟨⟨?_, ?_⟩, List.forall_mem_cons.mpr ⟨hkinds _ rfl, List.forall_mem_nil _⟩⟩⟩⟩⟩⟩
    · exact .plain ⟨rfl, by decide, by decide, rfl⟩ (.framed rfl rfl) (.nil 0)
    · exact fun entry he htag hfield => (hforeign entry he hfield).1 htag
    · exact .plain ⟨rfl, by decide, by decide, rfl⟩ (.fixed64 rfl rfl) (.nil 0)
    · exact fun entry he htag hfield => (hforeign entry he hfield).2 htag
  obtain ⟨old, hold, happends, _⟩ := mergeBytes_chunks table shape m hg (TypeTable.message_mem hnamed) (held_of_isHeld 1 hheld)
    hf htype honeof (by simp [hcardinality]) rfl chunks hchunks
  cases (slotAt_setSlot hlt _).symm.trans hold
  have hbytes : bytesOf (chunks.flatMap (Chunk.fields 6 (.scalar .sint64))) =
      [0x30, 1] ++ name.2 ++ [0x32, 2, 4, 5] ++ [0x32, 0] ++ misread.2 ++ [0x30, 8, 0x30, 10] := by
    decide +kernel
  refine ⟨_, Prod.ext rfl hok, ?_⟩
  rw [← hbytes, ← hnumber]
  exact (happends _ (Prod.ext rfl hok)).2

end Message

end Protobuf
