/-
  Protobuf.Proofs.Occurrences — what a merge makes of the occurrences of a field.

  What ends up in a region depends on the fields of an input that belong to it and on no others
  (`Runs.region`). One such occurrence is read off its own bytes: the value behind its tag (`scalarOf`), or
  the payload behind its tag and length (`bodyOf`), which is merged into a sub-message (`Reads.scalar`,
  `Reads.opened`).

  From these, over any number of occurrences: a single value is the last one (`Runs.singular`), and a
  sub-message takes all payloads one after the other (`mergeEach`, `Runs.each`).
-/

import Protobuf.Proofs.Accessors
import Protobuf.Proofs.Packing

namespace Protobuf

open Schema

/-! ## Bytes of an occurrence -/

/-- What stands behind the number at the front of `bytes`. -/
def Varint.behind (bytes : Bytes) : Bytes :=
  ((decode bytes).toOption.map fun found => bytes.drop found.2).getD []

theorem Varint.behind_of_spells {head : Bytes} {n : Nat} (h : Spells head n) (rest : Bytes) :
    behind (head ++ rest) = rest := by
  simp [behind, Reader.decode_of_spells h, Except.toOption]

/-- The value behind the tag of a field, if one of the kind can be read there. -/
def scalarOf (kind : Kind) (field : Tag × Bytes) : Option Scalar :=
  (Reader.ending (Reader.readScalar kind (.ofBytes (Varint.behind field.2)))).toOption

/-- The payload behind the tag and the length of a field. -/
def bodyOf (field : Tag × Bytes) : Bytes := Varint.behind (Varint.behind field.2)

theorem scalarOf_of_takes {kind : Kind} {tag : Tag} {head payload : Bytes} {v : Scalar} (hs : Tag.Spells head tag)
    (h : Reader.Takes (Reader.readScalar kind) payload v) : scalarOf kind (tag, head ++ payload) = some v := by
  obtain ⟨hv, hw⟩ := Reader.valid_ofBytesWithin payload Reader.defaultMaxDepth
  have hread := h (.ofBytes payload) [] hv (by rw [Reader.ofBytes, hw, List.append_nil])
  simp only [scalarOf, Varint.behind_of_spells hs.spells, hread, Reader.ending, Except.toOption]

theorem bodyOf_of_spells {tag : Tag} {head size body : Bytes} {n : Nat} (hs : Tag.Spells head tag)
    (hsize : Varint.Spells size n) : bodyOf (tag, head ++ (size ++ body)) = body := by
  simp only [bodyOf, Varint.behind_of_spells hs.spells, Varint.behind_of_spells hsize]

/-- The fields that belong to a region, in order. -/
def occurrences (type : MessageType) (region : Region) (fields : List (Tag × Bytes)) : List (Tag × Bytes) :=
  fields.filter fun field => type.region field.1 = region

theorem region_of_mem_occurrences {type : MessageType} {region : Region} {fields : List (Tag × Bytes)}
    {field : Tag × Bytes} (h : field ∈ occurrences type region fields) : type.region field.1 = region :=
  of_decide_eq_true (List.mem_filter.mp h).2

namespace Schema

variable {type : MessageType} {tag : Tag} {index slot : Nat} {field : Field}

/-- The tags of a field that is not read in runs. -/
theorem Field.tag_of_dispatch {entry : Dispatch} (h : entry ∈ field.dispatch index)
    (hrun : field.strategy.runKind? = none) : entry.tag = Tag.make field.number field.strategy.wireType := by
  unfold dispatch at h
  rw [hrun] at h
  cases List.mem_singleton.mp h
  rfl

theorem MessageType.region_field (h : type.region tag = .field index) (hf : type.fields[index]? = some field)
    (hrun : field.strategy.runKind? = none) : tag = Tag.make field.number field.strategy.wireType := by
  unfold region at h
  split at h
  · cases h
  · rename_i entry hfind
    obtain ⟨found, hfound, hmem, rfl⟩ := Message.field_of_find hfind
    split at h
    · cases h
    · cases h
      cases hf.symm.trans hfound
      exact Field.tag_of_dispatch hmem hrun

/-- A field that is not read in runs has the tag it is written with and no other. -/
theorem occurrences_field (hn : type.Numbered) (hf : type.fields[index]? = some field)
    (hrun : field.strategy.runKind? = none) (hmember : ∀ slot valueType, field.strategy ≠ .member slot valueType)
    (fields : List (Tag × Bytes)) :
    occurrences type (.field index) fields =
      fields.filter fun f => f.1 = Tag.make field.number field.strategy.wireType := by
  have hown : type.region (Tag.make field.number field.strategy.wireType) = .field index := by
    have hentry : field.own index ∈ type.dispatch :=
      MessageType.mem_dispatch_iff.mpr ⟨index, field, hf, field.own_mem index⟩
    have hfind : (type.dispatch.find? fun entry => entry.tag == Tag.make field.number field.strategy.wireType) =
        some (field.own index) := hn.find_entry hentry
    have hfield : type.fields[(field.own index).field]? = some field := hf
    unfold MessageType.region
    rw [hfind]
    dsimp only
    rw [hfield, Option.getD_some]
    split
    · rename_i slot valueType hs
      exact absurd hs (hmember slot valueType)
    · rfl
  refine List.filter_congr fun f _ => decide_eq_decide.mpr ⟨fun h => MessageType.region_field h hf hrun, fun h => ?_⟩
  rw [h, hown]

/-- A tag of a oneof belongs to one of its members. -/
theorem MessageType.region_oneof (h : type.region tag = .oneof slot) :
    ∃ (index : Nat) (field : Field) (valueType : ValueType), type.fields[index]? = some field ∧
      field.strategy = .member slot valueType ∧ tag = Tag.make field.number field.strategy.wireType := by
  unfold region at h
  split at h
  · cases h
  · rename_i entry hfind
    obtain ⟨found, hfound, hmem, htag⟩ := Message.field_of_find hfind
    rw [hfound, Option.getD_some] at h
    split at h
    · rename_i slot' valueType hs
      cases h
      exact ⟨_, found, valueType, hfound, hs, htag ▸ Field.tag_of_dispatch hmem (by rw [hs]; rfl)⟩
    · cases h

end Schema

namespace Message

variable {table : TypeTable} {type : MessageType} {room index : Nat} {field : Field} {tag : Tag}
  {head payload : Bytes} {m m' out : Message} {fields : List (Tag × Bytes)}

/-! ## Payloads one after the other -/

/-- Merges payloads into a message one after the other. -/
def mergeEach (table : TypeTable) (type : MessageType) (room : Nat) (m : Message) (bodies : List Bytes) : Option Message :=
  bodies.foldlM (fun m body =>
    let out := mergeWithin table type room m body
    if out.2 = none then some out.1 else none) m

theorem mergeEach_cons {body : Bytes} (h : mergeWithin table type room m body = (m', none)) (bodies : List Bytes) :
    mergeEach table type room m (body :: bodies) = mergeEach table type room m' bodies := by
  simp [mergeEach, h]

/-- From the same content the payloads lead to the same content. -/
theorem mergeEach_twins (hg : table.Generated) (hw : type.WellFormed) {a b : Message} (h : a.Twins table type b)
    {bodies : List Bytes} {x : Message} (hx : mergeEach table type room a bodies = some x) :
    ∃ y, mergeEach table type room b bodies = some y ∧ x.Twins table type y := by
  induction bodies generalizing a b with
  | nil =>
    cases hx
    exact ⟨b, rfl, h⟩
  | cons body bodies ih =>
    obtain ⟨htwins, _, herror⟩ := merge_twins hg hw h (.ofBytesWithin body room)
    cases ha : (mergeWithin table type room a body).2 with
    | some e => simp [mergeEach, ha] at hx
    | none =>
      rw [mergeEach_cons (Prod.ext rfl ha)] at hx
      obtain ⟨y, hy, hxy⟩ := ih htwins hx
      have hb : (mergeWithin table type room b body).2 = none := herror.symm.trans ha
      exact ⟨y, (mergeEach_cons (Prod.ext rfl hb) bodies).trans hy, hxy⟩

/-! ## One occurrence -/

/-- A field that is read as one value changes the message by that value. -/
theorem Reads.scalar (h : Reads table type room tag head payload m m') (hs : Tag.Spells head tag) {kind : Kind}
    {m₁ : Message} {change : Scalar → Message}
    (hstep : m.step table type tag = fun r => .ofRead (Reader.readScalar kind) r m₁ change) :
    ∃ v, scalarOf kind (tag, head ++ payload) = some v ∧ m' = change v := by
  obtain ⟨r, hv, hb, hwin, hroom⟩ := exists_behind room head payload
  obtain ⟨s, hone, hpast⟩ := h r [] hv hb hwin (Nat.le_of_eq hroom.symm)
  cases hread : Reader.readScalar kind r with
  | error e s' =>
    have hstop : m.step table type tag r = .stop m₁ s' e := by simp only [hstep, Step.ofRead, hread]
    rw [readOne_stop hstop] at hone
    cases hone
  | ok v s' =>
    have hnext : m.step table type tag r = .next (change v) s' := by simp only [hstep, Step.ofRead, hread]
    rw [readOne_next hnext] at hone
    cases hone
    obtain ⟨bytes, rest, hsplit, rfl, htakes⟩ := (Reader.readScalar_local kind).ok hv hread
    have hlength : bytes.length = payload.length := Nat.add_left_cancel hpast.pos_eq
    obtain ⟨rfl, _⟩ := List.append_inj (hsplit.symm.trans hwin) hlength
    exact ⟨v, scalarOf_of_takes hs htakes, rfl⟩

/-- A field that is read as a sub-message puts there what its payload makes of the one it starts from. -/
theorem Reads.opened (h : Reads table type room tag head payload m m') (hs : Tag.Spells head tag) {counted : Bool}
    {m₁ start : Message} {place : Place} {child : MessageType}
    (hstep : m.step table type tag = fun r => .ofNested counted r m₁ place child start) :
    ∃ x, mergeWithin table child (room - Reader.levels counted) start (bodyOf (tag, head ++ payload)) = (x, none) ∧
      m' = m₁.put table type place x := by
  obtain ⟨r, hv, hb, hwin, hroom⟩ := exists_behind room head payload
  obtain ⟨s, hone, hpast⟩ := h r [] hv hb hwin (Nat.le_of_eq hroom.symm)
  cases ho : Reader.openNested counted r with
  | error e s' =>
    have hstop : m.step table type tag r = .stop m₁ s' e := by simp only [hstep, Step.ofNested, ho]
    rw [readOne_stop hstop] at hone
    cases hone
  | ok nested s' =>
    have hinto : m.step table type tag r = .into m₁ place child start nested.inner nested.outer := by
      simp only [hstep, Step.ofNested, ho]
    obtain ⟨size, body, rest, hsplit, hsize, _, hinside, hbehind⟩ := Reader.openNested_ok hv ho
    cases he : (start.merge table child nested.inner).error with
    | some e =>
      rw [readOne_into_failed hinto he] at hone
      cases hone
    | none =>
      rw [readOne_into hinto he] at hone
      cases hone
      have hlength : (size ++ body).length = payload.length :=
        Nat.add_left_cancel (hbehind.pos_eq.symm.trans hpast.pos_eq)
      rw [← List.append_assoc] at hsplit
      obtain ⟨rfl, _⟩ := List.append_inj (hsplit.symm.trans hwin) hlength
      rw [bodyOf_of_spells hs hsize]
      -- what was read inside is what the payload alone gives with the levels left
      obtain ⟨hmessage, hmatches⟩ := @merge_same table child start _ _ hinside.alike
      rw [hroom] at hmessage hmatches
      rw [Outcome.ending_of_none he] at hmatches
      generalize hend : Outcome.ending _ = ending at hmatches
      cases hmatches
      have herror := (Outcome.error_eq (hend.trans (Outcome.ending_of_none he).symm)).trans he
      exact ⟨_, Prod.ext hmessage herror, rfl⟩

/-! ## The occurrences of a region -/

theorem Runs.held (hg : table.Generated) (hw : type.WellFormed) (h : Held table type m)
    (hr : Runs table type room m fields out) : Held table type out := by
  induction hr with
  | nil m => exact h
  | cons _ _ reads _ ih => exact ih (reads.held hg hw h)

/-- Fields of other regions leave a region as it is. -/
theorem Runs.keeps (hw : type.WellFormed) {region : Region} (h : Runs table type room m fields out)
    (hne : ∀ f ∈ fields, type.region f.1 ≠ region) : Agree (region.Covers type) out m := by
  induction h with
  | nil m => exact agree_refl _ m
  | @cons m m' out tag head payload fields spells tail reads rest ih =>
    have hfirst := hne _ (List.mem_cons_self ..)
    have hrest := fun f hf => hne f (List.mem_cons_of_mem _ hf)
    refine (ih hrest).trans (reads.keeps.mono ?_)
    intro cell hc hcell
    exact Region.disjoint hw hfirst hcell hc

theorem Runs.keeps_of_none (hw : type.WellFormed) {region : Region} (h : Runs table type room m fields out)
    (hnone : occurrences type region fields = []) : Agree (region.Covers type) out m :=
  h.keeps hw fun f hf hregion => (List.filter_eq_nil_iff.mp hnone) f hf (decide_eq_true hregion)

/-- The fields of a region can be read in front of all others. -/
theorem reordered_occurrences (type : MessageType) (region : Region) (fields : List (Tag × Bytes)) :
    Reordered type fields
      (occurrences type region fields ++ fields.filter fun f => !decide (type.region f.1 = region)) := by
  refine ⟨List.filter_append_perm .., fun other => ?_⟩
  rw [occurrences, List.filter_append, List.filter_filter, List.filter_filter]
  by_cases ho : other = region
  · subst ho
    simp
  · have hnone : (fields.filter fun f => decide (type.region f.1 = other) && decide (type.region f.1 = region)) = [] := by
      simp only [List.filter_eq_nil_iff, Bool.and_eq_true, decide_eq_true_eq]
      rintro f _ ⟨hother, hregion⟩
      exact ho (hother.symm.trans hregion)
    rw [hnone, List.nil_append]
    refine List.filter_congr fun f _ => ?_
    by_cases hf : type.region f.1 = other
    · simp [hf, ho]
    · simp [hf]

/-- What ends up in a region depends on its own fields only. -/
theorem Runs.region (hw : type.WellFormed) (h : Runs table type room m fields out) (region : Region) :
    ∃ middle, Runs table type room m (occurrences type region fields) middle ∧
      Agree (region.Covers type) out middle := by
  obtain ⟨middle, hfirst, hrest⟩ := runs_append.mp (h.reordered hw (reordered_occurrences type region fields))
  refine ⟨middle, hfirst, hrest.keeps hw fun f hf => ?_⟩
  simpa using (List.mem_filter.mp hf).2

/-- The last field of a region is the last to change it. -/
theorem Runs.last (hw : type.WellFormed) (h : Runs table type room m fields out) {region : Region}
    {earlier : List (Tag × Bytes)} {last : Tag × Bytes} (hsplit : occurrences type region fields = earlier ++ [last]) :
    ∃ n middle head payload, last = (last.1, head ++ payload) ∧ Tag.Spells head last.1 ∧
      Runs table type room m earlier n ∧ Reads table type room last.1 head payload n middle ∧
      Agree (region.Covers type) out middle := by
  obtain ⟨middle, hruns, hagree⟩ := h.region hw region
  rw [hsplit] at hruns
  obtain ⟨n, hearlier, hlast⟩ := runs_append.mp hruns
  cases hlast with
  | cons spells tail reads rest =>
    cases rest
    exact ⟨n, middle, _, _, rfl, spells, hearlier, reads, hagree⟩

/-! ## Single values -/

theorem slotAt_mark (m : Message) (field : Field) (index : Nat) : (m.mark field).slotAt index = m.slotAt index := by
  unfold mark
  split <;> rfl

theorem Held.lt_slots (hm : Held table type m) (hf : type.fields[index]? = some field) : index < m.body.slots.length := by
  obtain ⟨slot, hslot, _⟩ := hm.slot hf
  exact (List.getElem?_eq_some_iff.mp hslot).1

/-- The value of the last of these fields, or `start` if there is none. -/
def IsLast (kind : Kind) (fields : List (Tag × Bytes)) (start v : Scalar) : Prop :=
  (fields = [] → v = start) ∧ ∀ earlier last, fields = earlier ++ [last] → scalarOf kind last = some v

/-- A single value is that of the last occurrence. -/
theorem Runs.singular (hg : table.Generated) (hw : type.WellFormed) (hm : Held table type m)
    (hf : type.fields[index]? = some field) {plain : PlainType} {presence : Presence}
    (hs : field.strategy = .singular plain presence) {start : Scalar} (hstart : m.slotAt index = .scalar start)
    (h : Runs table type room m fields out) :
    ∃ v, out.slotAt index = .scalar v ∧ IsLast plain.kind (occurrences type (.field index) fields) start v := by
  rcases List.eq_nil_or_concat' (occurrences type (.field index) fields) with hnone | ⟨earlier, last, hsplit⟩
  · refine ⟨start, ?_, fun _ => rfl, fun earlier last hsplit => ?_⟩
    · rw [(h.keeps_of_none hw hnone).slotAt (.inl rfl), hstart]
    · simp [hnone] at hsplit
  · obtain ⟨n, middle, head, payload, hlast, hspells, hearlier, hreads, hagree⟩ := h.last hw hsplit
    have hmem : last ∈ occurrences type (.field index) fields := by
      rw [hsplit]
      simp
    have hregion := region_of_mem_occurrences hmem
    have hstep : n.step table type last.1 = fun r =>
        .ofRead (Reader.readScalar plain.kind) r n (n.setScalar field index) := by
      rw [MessageType.region_field hregion hf (by rw [hs]; rfl), step_own hw.toNumbered hf]
      funext r
      simp only [readField, hs]
    obtain ⟨v, hv, rfl⟩ := hreads.scalar hspells hstep
    have hlt := (hearlier.held hg hw hm).lt_slots hf
    refine ⟨v, ?_, fun hnone => ?_, fun earlier' last' hsplit' => ?_⟩
    · rw [hagree.slotAt (.inl rfl), setScalar, slotAt_mark, slotAt_setSlot hlt]
    · simp [hnone] at hsplit
    · obtain ⟨_, hsame⟩ := List.append_inj' (hsplit.symm.trans hsplit') rfl
      cases hsame
      exact hlast ▸ hv

/-! ## Sub-messages -/

/-- The field holds one sub-message at a time, by itself or as a member of a oneof. -/
def HoldsMessage (field : Field) : Prop :=
  (∃ ref, field.strategy = .message ref) ∨ ∃ slot ref, field.strategy = .member slot (.message ref)

theorem HoldsMessage.runKind (h : HoldsMessage field) : field.strategy.runKind? = none := by
  obtain ⟨ref, hs⟩ | ⟨slot, ref, hs⟩ := h <;> rw [hs] <;> rfl

theorem Held.slotAt_member (hm : Held table type m) (hf : type.fields[index]? = some field) {slot : Nat}
    {valueType : ValueType} (hs : field.strategy = .member slot valueType) : m.slotAt index = .member := by
  obtain ⟨found, hslot, hkept⟩ := hm.slot hf
  have hform := hkept.form
  rw [hs] at hform
  cases hform
  exact slotAt_of_getElem? hslot

theorem Held.slotAt_message (hm : Held table type m) (hf : type.fields[index]? = some field) {ref : TypeRef}
    (hs : field.strategy = .message ref) : ∃ value, m.slotAt index = .message value := by
  obtain ⟨found, hslot, hkept⟩ := hm.slot hf
  have hform := hkept.form
  rw [hs] at hform
  cases hform
  exact ⟨_, slotAt_of_getElem? hslot⟩

theorem choiceAt_setChoice {slot : Nat} (h : slot < m.body.choices.length) (choice : Choice Message) :
    (m.setChoice slot choice).choiceAt slot = choice :=
  choiceAt_of_getElem? (List.getElem?_set_self h)

theorem Held.lt_choices (hm : Held table type m) {slot : Nat} (hlt : slot < type.oneofs.length) :
    slot < m.body.choices.length := by
  obtain ⟨choice, hc, _⟩ := hm.choice hlt
  exact (List.getElem?_eq_some_iff.mp hc).1

section Parts

variable (hw : type.WellFormed) (hm : Held table type m) (hf : type.fields[index]? = some field)
  (hpart : HoldsMessage field)

include hw hm hf hpart

/-- Its tag opens the sub-message that the field starts with. -/
theorem step_start :
    m.step table type (Tag.make field.number field.strategy.wireType) = fun r =>
      .ofNested true r (m.start table type field index).1 (m.start table type field index).2.1 (table.childAt type index)
        (m.start table type field index).2.2 := by
  rw [step_own hw.toNumbered hf]
  funext r
  obtain ⟨ref, hs⟩ | ⟨slot, ref, hs⟩ := hpart
  · obtain ⟨value, hvalue⟩ := hm.slotAt_message hf hs
    simp only [start_message hvalue, readField, hs, hvalue]
  · simp only [start_member (hm.slotAt_member hf hs) (Field.oneof_of_strategy hs), readField, hs]

/-- What is put back is what the field holds and what it starts with next. -/
theorem start_put (x : Message) :
    let after := (m.start table type field index).1.put table type (m.start table type field index).2.1 x
    after.value? field index = some (.message x) ∧ (after.start table type field index).2.2 = x := by
  obtain ⟨ref, hs⟩ | ⟨slot, ref, hs⟩ := hpart
  · obtain ⟨value, hvalue⟩ := hm.slotAt_message hf hs
    have hlt := hm.lt_slots hf
    simp only [start_message hvalue, put, setSlot_setSlot]
    have hslot := slotAt_setSlot hlt (.message (.present x))
    refine ⟨?_, ?_⟩
    · unfold value?
      rw [hslot]
      cases field.oneof <;> rfl
    · rw [start_message hslot]
      rfl
  · have hone := Field.oneof_of_strategy hs
    have hmember := hm.slotAt_member hf hs
    have hlt := hm.lt_choices (hw.members field (List.mem_of_getElem? hf) slot _ hs)
    simp only [start_member hmember hone, put, setMember_setChoice hlt]
    generalize hafter : Choice.mk _ _ = after
    have hslot : (m.setChoice slot after).slotAt index = .member := hmember
    have hselected : after.selected = some ⟨index, .message x⟩ := by rw [← hafter]
    refine ⟨?_, ?_⟩
    · simp [value?, hone, hslot, choiceAt_setChoice hlt, hselected]
    · rw [start_member hslot hone, choiceAt_setChoice hlt]
      have hcurrent := Choice.current_eq_some_iff.mpr hselected
      rcases after.select_cases (clear (table.childAt type index)) (new (table.childAt type index)) index with hc | ⟨hc, _⟩
      · exact Option.some.inj (hc.symm.trans hcurrent)
      · cases hc.symm.trans hcurrent

end Parts

/-- Occurrences of one sub-message are merged into it one after the other. -/
theorem Runs.each (hg : table.Generated) (hw : type.WellFormed) (hm : Held table type m)
    (hf : type.fields[index]? = some field) (hpart : HoldsMessage field) (h : Runs table type room m fields out)
    (htag : ∀ f ∈ fields, f.1 = Tag.make field.number field.strategy.wireType) :
    mergeEach table (table.childAt type index) (room - 1) (m.start table type field index).2.2 (fields.map bodyOf) =
      some (out.start table type field index).2.2 ∧
    (fields ≠ [] → out.value? field index = some (.message (out.start table type field index).2.2)) := by
  induction h with
  | nil m => exact ⟨rfl, fun hne => absurd rfl hne⟩
  | @cons m m' out tag head payload fields spells tail reads rest ih =>
    obtain rfl := htag _ (List.mem_cons_self ..)
    obtain ⟨hrest, hvalue⟩ := ih (reads.held hg hw hm) fun f hf => htag f (List.mem_cons_of_mem _ hf)
    obtain ⟨x, hx, rfl⟩ := reads.opened spells (step_start hw hm hf hpart)
    obtain ⟨hput, hstart⟩ := start_put hw hm hf hpart x
    rw [hstart] at hrest
    refine ⟨(mergeEach_cons hx _).trans hrest, fun _ => ?_⟩
    cases fields with
    | nil =>
      cases rest
      rw [hput, hstart]
    | cons f fields => exact hvalue (List.cons_ne_nil _ _)

/-- A sub-message is what it starts with and all its payloads make, and is there once one occurs. -/
theorem Runs.message (hg : table.Generated) (hw : type.WellFormed) (hm : Held table type m)
    (hf : type.fields[index]? = some field) {ref : TypeRef} (hs : field.strategy = .message ref)
    (h : Runs table type room m fields out) :
    ∃ x, mergeEach table (table.childAt type index) (room - 1) (m.start table type field index).2.2
        ((occurrences type (.field index) fields).map bodyOf) = some x ∧
      (occurrences type (.field index) fields ≠ [] → out.slotAt index = .message (.present x)) := by
  have hpart : HoldsMessage field := .inl ⟨ref, hs⟩
  obtain ⟨middle, hruns, hagree⟩ := h.region hw (.field index)
  have htag : ∀ f ∈ occurrences type (.field index) fields, f.1 = Tag.make field.number field.strategy.wireType :=
    fun f hmem => MessageType.region_field (region_of_mem_occurrences hmem) hf hpart.runKind
  obtain ⟨heach, hvalue⟩ := hruns.each hg hw hm hf hpart htag
  refine ⟨_, heach, fun hne => ?_⟩
  obtain ⟨value, hslot⟩ := (hruns.held hg hw hm).slotAt_message hf hs
  rw [hagree.slotAt (.inl rfl), hslot, start_message hslot]
  specialize hvalue hne
  rw [start_message hslot] at hvalue
  cases value with
  | present x => rfl
  | absent kept =>
    unfold value? at hvalue
    rw [hslot] at hvalue
    cases hone : field.oneof <;> simp [hone, Singular.get?] at hvalue

end Message

end Protobuf
