/-
  Protobuf.Proofs.Encoding — the two passes write what one pass without memory would.

  (1) Measuring changes no content and no encoding, and leaves every message in use with the number of
  its bytes (`measure_measured`), whatever sizes were remembered before.

  (2) A measured message is written as its `wire`: every length that is written is a remembered size and
  fits its 32 bits (`writes_wire`).
-/

import Protobuf.Proofs.Reference
import Protobuf.Sample.Shapes

namespace Protobuf

open Schema

/-! ## Writing one level -/

theorem lengthBytes_of_lt {n : Nat} (h : n < 0x100000000) : lengthBytes n = Varint.encode n := by
  rw [lengthBytes, Nat.mod_eq_of_lt h]

/-- It remembers the number of its bytes, which can be written. -/
structure Written.Exact (written : Written) : Prop where
  size_eq : written.size = written.bytes.length
  lt : written.size < 0x100000000

theorem Written.Exact.framed_eq {written : Written} (h : written.Exact) :
    written.framed = Frame.encode written.bytes := by
  rw [Written.framed, lengthBytes_of_lt h.lt, h.size_eq, Frame.encode]

theorem Value.encode_eq {value : Value Written} (h : ∀ w, value = .message w → w.Exact) :
    value.encode = (value.map Written.bytes).wire := by
  cases value with
  | scalar v => rfl
  | message w => exact (h w rfl).framed_eq

theorem Entry.encode_eq {entry : Entry Written} (h : ∀ w, entry.value = .message w → w.Exact)
    (hlt : (entry.map Written.size).size < 0x100000000) :
    entry.encode = Frame.encode (entry.map Written.bytes).wire := by
  have hsize : (entry.map Written.size).size = (entry.map Written.bytes).wire.length := by
    rw [Entry.length_wire]
    obtain ⟨key, value⟩ := entry
    cases value with
    | scalar v => rfl
    | message w =>
      show 2 + key.size + Frame.size w.size = 2 + key.size + Frame.size w.bytes.length
      rw [(h w rfl).size_eq]
  have hwireType : (entry.value.map Written.bytes).wireType = entry.value.wireType := by cases entry.value <;> rfl
  rw [Entry.encode, lengthBytes_of_lt hlt, hsize, Frame.encode, Value.encode_eq h]
  simp only [Entry.wire, Entry.map, hwireType, List.append_assoc]

/-- A slot is written as it is without memory, if its sub-messages remember their sizes. -/
theorem Body.encodeSlot_eq {body : Body Written} {field : Field} {index : Nat} {slot : Slot Written}
    (hparts : ∀ w ∈ slot.inUse, w.Exact) (hmember : ∀ w, body.memberAt field index = some (.message w) → w.Exact)
    (hlt : ∀ n ∈ (slot.mapParts Written.size Written.size).lengths field, n < 0x100000000) :
    body.encodeSlot field index slot =
      (slot.mapParts Written.bytes Written.bytes).wire field body.presence
        ((body.memberAt field index).map (Value.map Written.bytes)) := by
  cases slot with
  | scalar v => rfl
  | scalars vs =>
    rw [encodeSlot, Slot.mapParts, Slot.wire]
    split
    · rename_i hpacked
      split
      · rfl
      · rw [lengthBytes_of_lt (hlt _ _), Frame.encode, Scalar.length_encodeAll, List.append_assoc]
        rw [Slot.mapParts, Slot.lengths, if_pos hpacked]
        exact List.mem_singleton_self _
    · rfl
  | texts vs => rfl
  | message value =>
    cases value with
    | absent kept => rfl
    | present w =>
      show field.tagBytes ++ w.framed = (field.tagBytes ++ Frame.encode w.bytes) ++ []
      rw [(hparts w (List.mem_singleton_self w)).framed_eq, List.append_nil]
  | messages values =>
    rw [encodeSlot, Slot.mapParts, Slot.wire, Repeated.active_mapParts, List.flatMap_map]
    refine List.flatMap_congr fun w hw => ?_
    rw [(hparts w hw).framed_eq]
  | map entries =>
    rw [encodeSlot, Slot.mapParts, Slot.wire, List.flatMap_map]
    refine List.flatMap_congr fun entry he => ?_
    rw [Entry.encode_eq]
    · intro w hw
      exact hparts w (List.mem_filterMap.mpr ⟨entry, he, by rw [hw]; rfl⟩)
    · refine hlt _ (List.mem_append_left _ ?_)
      rw [List.map_map]
      exact List.mem_map.mpr ⟨entry, he, rfl⟩
  | member =>
    rw [encodeSlot, Slot.mapParts, Slot.wire]
    cases hat : body.memberAt field index with
    | none => rfl
    | some value =>
      show field.tagBytes ++ value.encode = (field.tagBytes ++ (value.map Written.bytes).wire) ++ []
      rw [Value.encode_eq fun w hw => hmember w (hw ▸ hat), List.append_nil]

/-- A level is written as it is without memory. -/
theorem Body.pieces_eq (table : TypeTable) {type : MessageType} {body : Body Written} (hshaped : body.Shaped type)
    (hparts : ∀ part ∈ body.inUse, part.2.size = part.2.bytes.length)
    (hlt : ∀ n ∈ (body.mapTyped table type fun _ => Written.size).lengths type, n < 0x100000000) :
    body.pieces type = (body.mapTyped table type fun _ => Written.bytes).segments type ++ [body.unknown] := by
  have hexact : ∀ index w, (index, w) ∈ body.inUse → w.Exact := by
    intro index w hw
    have hsize : (index, w.size) ∈ (body.mapTyped table type fun _ => Written.size).inUse :=
      (inUse_mapTyped table type _ body).mpr ⟨w, hw, rfl⟩
    exact ⟨hparts (index, w) hw, hlt _ ((hshaped.mapTyped table _).mem_lengths hsize)⟩
  rw [pieces, segments]
  congr 1
  refine List.ext_getElem? fun index => ?_
  rw [List.getElem?_mapIdx, List.getElem?_mapIdx]
  cases hs : body.slots[index]? with
  | none =>
    have hnone : ∀ (N : Type) (slots : List (Slot N)), slots[index]? = none → (type.fields.zip slots)[index]? = none := by
      intro N slots h
      rw [List.getElem?_eq_none_iff] at h ⊢
      rw [List.length_zip]
      omega
    rw [hnone _ _ hs, hnone _ _ (by rw [slots_mapTyped, hs]; rfl)]
    rfl
  | some slot =>
    obtain ⟨field, hf, _⟩ := hshaped.field_of_slot hs
    have hs' : (body.mapTyped table type fun _ => Written.bytes).slots[index]? =
        some (slot.mapParts Written.bytes Written.bytes) := by
      rw [slots_mapTyped, hs]
      rfl
    have hz : (type.fields.zip body.slots)[index]? = some (field, slot) := List.getElem?_zip_eq_some.mpr ⟨hf, hs⟩
    have hz' : (type.fields.zip (body.mapTyped table type fun _ => Written.bytes).slots)[index]? =
        some (field, slot.mapParts Written.bytes Written.bytes) := List.getElem?_zip_eq_some.mpr ⟨hf, hs'⟩
    rw [hz, hz']
    refine congrArg some (Eq.trans (encodeSlot_eq ?_ ?_ ?_) ?_)
    · intro w hw
      exact hexact index w (mem_parts_iff.mpr (.inl ⟨slot, hs, hw⟩))
    · intro w hw
      exact hexact index w (mem_inUse_of_memberAt hw)
    · intro n hn
      refine hlt n (List.mem_append_left _ (List.mem_flatMap.mpr ⟨(field, _), List.mem_of_getElem? (i := index) ?_, hn⟩))
      rw [List.getElem?_zip_eq_some]
      refine ⟨hf, ?_⟩
      rw [slots_mapTyped, hs]
      rfl
    · show _ = Slot.wire field body.presence ((body.mapTyped table type fun _ => Written.bytes).memberAt field index) _
      rw [memberAt_mapTyped]

/-! ## Measuring -/

namespace Message

variable (table : TypeTable)

theorem wire_mk (type : MessageType) (body : Body Message) :
    (mk body).wire table type = (body.mapTyped table type fun t m => m.wire table t).wire type :=
  foldTyped_mk ..

/-- Apart from what is kept aside, measuring is measuring the sub-messages and remembering a size. -/
theorem measure_mk (type : MessageType) (body : Body Message) :
    ∃ fresh, (mk body).measure table type = mk fresh ∧
      fresh.tidy = (body.mapTyped table type fun t m => m.measure table t).tidy ∧
      fresh.cachedSize = (fresh.mapTyped table type fun _ => cachedSize).size type := by
  let fresh := (body.mapTyped table type fun t m => m.foldTyped table t measureStep).mapParts Prod.snd Prod.fst
  refine ⟨{ fresh with cachedSize := (fresh.map cachedSize).size type }, ?_, ?_, ?_⟩
  · rw [measure, foldTyped_mk]
    rfl
  · refine Body.tidy_ext (fun index => ?_) (fun slot => ?_) rfl rfl
    · show Option.map _ ((body.mapTyped table type _).slots.map _)[index]? = _
      rw [List.getElem?_map, Body.slots_mapTyped, Body.slots_mapTyped]
      cases body.slots[index]? with
      | none => rfl
      | some s =>
        refine congrArg some ?_
        rw [Slot.mapParts_mapParts]
        exact Slot.tidy_congr fun _ _ => rfl
    · simp only [fresh, Body.mapParts, Body.mapTyped, List.getElem?_map]
      cases body.choices[slot]? with
      | none => rfl
      | some choice =>
        refine congrArg some ?_
        show (choice.selected.map _).map _ = choice.selected.map _
        rw [Option.map_map]
        exact congrArg (Option.map · choice.selected) (funext fun member => Member.map_map _ _ member)
  · rw [← Body.map_eq_mapTyped]
    rfl

/-- Measuring changes nothing that is computed from a message without what is kept aside or remembered. -/
theorem foldTyped_measure {α : Type} {step : MessageType → Body α → α}
    (hstep : ∀ type body, step type body.tidy = step type body) (m : Message) (type : MessageType) :
    (m.measure table type).foldTyped table type step = m.foldTyped table type step := by
  induction m using Message.induct generalizing type with
  | step body ih =>
    obtain ⟨fresh, hmeasure, hfresh, _⟩ := measure_mk table type body
    have hagree : ((body.mapTyped table type fun t m => m.measure table t).mapTyped table type
        fun t m => m.foldTyped table t step).tidy = (body.mapTyped table type fun t m => m.foldTyped table t step).tidy := by
      rw [Body.mapTyped_mapTyped]
      exact Body.tidy_congr table type fun part hp => ih part hp _
    rw [hmeasure, foldTyped_mk, foldTyped_mk, ← hstep, Body.tidy_mapTyped, hfresh, ← Body.tidy_mapTyped, hagree, hstep]

/-- Measuring changes no encoding. -/
theorem wire_measure (m : Message) (type : MessageType) : (m.measure table type).wire table type = m.wire table type :=
  foldTyped_measure table Body.wire_tidy m type

/-- Measuring changes no content. -/
theorem measure_same (m : Message) (type : MessageType) : (m.measure table type).Same m := by
  induction m using Message.induct generalizing type with
  | step body ih =>
    obtain ⟨fresh, hmeasure, hfresh, _⟩ := measure_mk table type body
    have hself : body.Rel (· = ·) body := Body.rel_refl fun _ _ => rfl
    have hrel : (body.mapTyped table type fun t m => m.measure table t).Rel Same
        (body.mapTyped table type fun _ m => m) := by
      refine hself.mapTyped ?_
      rintro index x _ hx - rfl
      exact ih (index, x) hx _
    rw [Body.mapTyped_id] at hrel
    rw [hmeasure, same_mk_iff, ← Body.rel_tidy_left, hfresh, Body.rel_tidy_left]
    exact hrel

/-- Every message in use remembers the number of its bytes. -/
def Measured : MessageType → Message → Prop :=
  Throughout table fun type body => body.cachedSize = ((mk body).wire table type).length

variable {table} {type : MessageType} {m : Message}

theorem Measured.cachedSize_eq (h : Measured table type m) : m.cachedSize = (m.wire table type).length := by
  cases h with
  | mk level _ => exact level

theorem wire_length_mk {body : Body Message} (h : body.Shaped type) :
    ((mk body).wire table type).length = (body.sizes table type).size type := by
  rw [wire_mk, Body.length_wire table (h.mapTyped table _), Body.mapTyped_mapTyped]
  rfl

/-- After measuring, every message in use remembers the number of its bytes, whatever it did before. -/
theorem measure_measured (h : Typed table type m) : Measured table type (m.measure table type) := by
  induction h with
  | @mk type body level parts ih =>
    obtain ⟨fresh, hmeasure, hfresh, hsize⟩ := measure_mk table type body
    have hagree : ((body.mapTyped table type fun t m => m.measure table t).mapTyped table type
        fun _ => cachedSize).tidy = (body.sizes table type).tidy := by
      rw [Body.mapTyped_mapTyped]
      refine Body.tidy_congr table type fun part hp => ?_
      rw [(ih part hp).cachedSize_eq, wire_measure]
    have hcount : fresh.cachedSize = ((mk body).wire table type).length := by
      rw [hsize, ← Body.size_tidy, Body.tidy_mapTyped, hfresh, ← Body.tidy_mapTyped, hagree, Body.size_tidy,
        wire_length_mk level.1]
    rw [hmeasure]
    refine .mk ?_ ?_
    · rw [hcount, ← hmeasure, wire_measure]
    · rintro ⟨index, y⟩ hy
      rw [← Body.inUse_tidy, hfresh, Body.inUse_tidy, Body.inUse_mapTyped] at hy
      obtain ⟨x, hx, rfl⟩ := hy
      exact ih (index, x) hx

/-! ## The same content -/

/-- Messages with the same content take the same number of bytes. -/
theorem Same.length_wire {a b : Message} (h : a.Same b) (hb : Typed table type b) :
    (a.wire table type).length = (b.wire table type).length := by
  induction hb generalizing a with
  | @mk type b level _ ih =>
    obtain ⟨a⟩ := a
    have hrel := same_mk_iff.mp h
    have hsizes : (a.sizes table type).Rel (· = ·) (b.sizes table type) :=
      hrel.mapTyped fun index x y _ hy hxy => ih (index, y) hy hxy
    rw [wire_length_mk (hrel.shaped level.1), wire_length_mk level.1,
      hsizes.size_eq (level.1.mapTyped table _)]

theorem Same.fits {a b : Message} (h : a.Same b) (hb : Typed table type b) (hf : Fits table type b) :
    Fits table type a := by
  refine Throughout.of_same hf hb h fun {type a b} ht hlevel hrel n hn => hlevel n ?_
  have hsizes : (a.sizes table type).Rel (· = ·) (b.sizes table type) := by
    refine hrel.mapTyped fun index x y _ hy hxy => ?_
    cases ht with
    | mk _ parts => exact hxy.length_wire (parts (index, y) hy)
  exact hsizes.mem_lengths (ht.shaped.mapTyped table _) hn

/-! ## Writing -/

/-- A level whose sub-messages are measured and written as their encodings is written as its own. -/
theorem pieces_of_parts {body : Body Message} (hshaped : body.Shaped type)
    (hfits : ∀ n ∈ (body.sizes table type).lengths type, n < 0x100000000)
    (hsize : ∀ part ∈ body.inUse, part.2.cachedSize = (part.2.wire table (table.childAt type part.1)).length)
    (hwritten : ∀ part ∈ body.inUse, part.2.foldTyped table (table.childAt type part.1) writeStep =
      ⟨part.2.wire table (table.childAt type part.1), part.2.cachedSize⟩) :
    (body.mapTyped table type fun t m => m.foldTyped table t writeStep).pieces type =
      (body.mapTyped table type fun t m => m.wire table t).segments type ++ [body.unknown] := by
  have hsizes : ((body.mapTyped table type fun t m => m.foldTyped table t writeStep).mapTyped table type
      fun _ => Written.size).tidy = (body.sizes table type).tidy := by
    rw [Body.mapTyped_mapTyped]
    refine Body.tidy_congr table type fun part hp => ?_
    rw [hwritten part hp, hsize part hp]
  have hbytes : ((body.mapTyped table type fun t m => m.foldTyped table t writeStep).mapTyped table type
      fun _ => Written.bytes).tidy = (body.mapTyped table type fun t m => m.wire table t).tidy := by
    rw [Body.mapTyped_mapTyped]
    exact Body.tidy_congr table type fun part hp => by rw [hwritten part hp]
  rw [Body.pieces_eq table (hshaped.mapTyped table _), ← Body.segments_tidy, hbytes, Body.segments_tidy]
  · rfl
  · rintro ⟨index, w⟩ hw
    obtain ⟨x, hx, rfl⟩ := (Body.inUse_mapTyped table type _ body).mp hw
    show (x.foldTyped table (table.childAt type index) writeStep).size = _
    rw [hwritten (index, x) hx, hsize (index, x) hx]
  · intro n hn
    rw [← Body.lengths_tidy, hsizes, Body.lengths_tidy] at hn
    exact hfits n hn

/-- A measured message is written as its encoding without memory. -/
theorem writes_wire (h : Measured table type m) (ht : Typed table type m) (hf : Fits table type m) :
    m.foldTyped table type writeStep = ⟨m.wire table type, m.cachedSize⟩ := by
  induction h with
  | @mk type body _ parts ih =>
    cases ht with
    | mk typed typedParts =>
      cases hf with
      | mk fits fitsParts =>
        have hpieces := pieces_of_parts typed.1 fits (fun part hp => Measured.cachedSize_eq (parts part hp))
          fun part hp => ih part hp (typedParts part hp) (fitsParts part hp)
        rw [foldTyped_mk, writeStep, hpieces, wire_mk, Body.wire]
        simp only [List.flatten_append, List.flatten_singleton]
        rfl

theorem encode_eq_wire (ht : Typed table type m) (hf : Fits table type m) :
    m.encode table type = m.wire table type := by
  have hsame := measure_same table m type
  rw [encode, encodeRaw, writes_wire (measure_measured ht) (hsame.typed ht) (hsame.fits ht hf), wire_measure]

/-- Unknown bytes are written last, as they stand. -/
theorem encode_ends (table : TypeTable) (type : MessageType) (m : Message) :
    ∃ front, m.encode table type = front ++ m.body.unknown := by
  obtain ⟨body⟩ := m
  obtain ⟨fresh, hmeasure, hfresh, _⟩ := measure_mk table type body
  have htidy := congrArg Body.unknown hfresh
  rw [encode, hmeasure, encodeRaw, foldTyped_mk, writeStep, Body.pieces, List.flatten_append, List.flatten_singleton]
  exact ⟨_, congrArg _ htidy⟩

theorem foldl_append (pieces : List Bytes) (out : Bytes) :
    pieces.foldl (fun out piece => out ++ piece) out = out ++ pieces.flatten := by
  induction pieces generalizing out with
  | nil => rw [List.foldl_nil, List.flatten_nil, List.append_nil]
  | cons piece pieces ih => rw [List.foldl_cons, ih, List.flatten_cons, List.append_assoc]

theorem encodeOnto_eq (table : TypeTable) (type : MessageType) (m : Message) (out : Bytes) :
    m.encodeOnto table type out = out ++ m.encode table type := by
  rw [encodeOnto, foldl_append, encode, encodeRaw]
  congr 1
  cases m.measure table type with
  | mk body => rw [foldTyped_mk, writeStep]; rfl

/-! ## All that is nested -/

variable (table) in
/-- The second message is the first, or in use in it at some depth. -/
inductive Nested : MessageType → Message → MessageType → Message → Prop
  | self (type : MessageType) (m : Message) : Nested type m type m
  | part {type inner : MessageType} {body : Body Message} {index : Nat} {child m : Message}
      (mem : (index, child) ∈ body.inUse) (nested : Nested (table.childAt type index) child inner m) :
      Nested type (mk body) inner m

theorem Throughout.nested {P : MessageType → Body Message → Prop} (h : Throughout table P type m)
    {inner : MessageType} {child : Message} (hn : Nested table type m inner child) : Throughout table P inner child := by
  induction hn with
  | self type m => exact h
  | part mem _ ih =>
    cases h with
    | mk _ parts => exact ih (parts _ mem)

/-- Measuring gives the number of bytes written and leaves it with every message nested in `m`, whatever
    sizes were remembered before; what is written is the encoding said without remembered sizes, behind
    what the output already held. -/
theorem two_pass_encoding (table : TypeTable) (type : MessageType) (m : Message) (out : Bytes)
    (ht : Typed table type m) (hf : Fits table type m) :
    m.size table type = (m.encode table type).length ∧
      (m.measure table type).Same m ∧
      (∀ inner child, Nested table type (m.measure table type) inner child →
        child.cachedSize = (child.encode table inner).length) ∧
      m.encode table type = m.wire table type ∧
      m.encodeOnto table type out = out ++ m.encode table type := by
  have hmeasured := measure_measured ht
  have hsame := measure_same table m type
  refine ⟨?_, hsame, ?_, encode_eq_wire ht hf, encodeOnto_eq table type m out⟩
  · rw [size, hmeasured.cachedSize_eq, wire_measure, encode_eq_wire ht hf]
  · intro inner child hn
    rw [encode_eq_wire ((hsame.typed ht).nested hn) ((hsame.fits ht hf).nested hn)]
    exact Measured.cachedSize_eq (Throughout.nested hmeasured hn)

set_option maxRecDepth 100000 in
/-- A point that remembers a wrong size, as a field, as a map value and as the member of a oneof. -/
theorem two_pass_encoding_stale :
    let table := Sample.Shapes.table
    let shape := table.message "demo.shapes.Shape"
    let point := ((new (table.message "demo.shapes.Point")).setSlot 0 (.scalar (.int32 7))).update fun body =>
      { body with cachedSize := 99 }
    let m := (((new shape).setSlot 2 (.message (.present point))).setSlot 8 (.map [⟨.int32 3, .message point⟩])).setChoice 0
      { selected := some ⟨10, .message point⟩ }
    m.size table shape = (m.encode table shape).length ∧
      (m.measure table shape).Same m ∧
      (∀ inner child, Nested table shape (m.measure table shape) inner child →
        child.cachedSize = (child.encode table inner).length) ∧
      m.encode table shape = m.wire table shape ∧
      m.encodeOnto table shape [1, 2] = [1, 2] ++ m.encode table shape := by
  intro table shape point m
  refine two_pass_encoding table shape m [1, 2] (throughout_of_holds 2 ?_) (throughout_of_holds 2 ?_)
  · decide +kernel
  · decide +kernel

end Message

end Protobuf
