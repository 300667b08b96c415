/-
  Protobuf.Proofs.Failure — what a merge that fails leaves.

  A merge that fails has read whole fields before the one it fails in, and so far it did what merging these
  alone does. Of the failing field it leaves nothing, except in a sub-message it had begun to read and in a
  repeated field, where an element or the front of a run is appended (`Spoiled`).
-/

import Protobuf.Proofs.Regions

namespace Protobuf

open Schema

/-! ## Runs of values -/

/-- Bytes that are values of a kind, one behind the other. -/
inductive Reader.Packed (kind : Kind) : Bytes → List Scalar → Prop
  | nil : Packed kind [] []
  | cons {bytes rest : Bytes} {value : Scalar} {values : List Scalar} (takes : Takes (readScalar kind) bytes value)
      (packed : Packed kind rest values) : Packed kind (bytes ++ rest) (value :: values)

namespace Reader

/-- What was read of a run, be it all or not, is at the front of it. -/
theorem readValues_front (kind : Kind) {r : Reader} (hv : r.Valid) :
    ∃ front, front <+: r.window ∧ Packed kind front (readValues kind r).values := by
  fun_induction readValues kind r with
  | case1 r => exact ⟨[], List.nil_prefix, .nil⟩
  | case2 r => exact ⟨[], List.nil_prefix, .nil⟩
  | case3 r hl v s hs rest ih =>
    obtain ⟨bytes, tail, hw, rfl, htakes⟩ := (readScalar_local kind).ok hv hs
    obtain ⟨hv', hw'⟩ := hv.forward hw
    obtain ⟨front, hfront, hpacked⟩ := ih hv'
    rw [hw'] at hfront
    refine ⟨bytes ++ front, ?_, .cons htakes hpacked⟩
    rw [hw]
    exact (List.prefix_append_right_inj bytes).mpr hfront

/-- The values that a packed run gave before it failed. -/
def ReadOf (kind : Kind) (bytes : Bytes) (values : List Scalar) : Prop :=
  values = [] ∨ ∃ size body rest front, bytes = size ++ (body ++ rest) ∧ Varint.Spells size body.length ∧
    front <+: body ∧ Packed kind front values

theorem readRun_front (kind : Kind) {r : Reader} (hv : r.Valid) : ReadOf kind r.window (readRun kind r).values := by
  cases ho : openRun kind r with
  | error e s =>
    left
    rw [readRun, ho]
  | ok outer inner =>
    obtain ⟨size, body, rest, hw, hs, hk⟩ := openRun_inv hv ho
    obtain ⟨hv', hw'⟩ := hv.forward hw
    obtain ⟨hinner, hbody⟩ := hv'.confined hw' false
    obtain ⟨front, hfront, hpacked⟩ := readValues_front kind hinner
    rw [hbody] at hfront
    rw [(readRun_of_spells hv hw hs hk).1]
    exact .inr ⟨size, body, rest, front, hw, hs, hfront, hpacked⟩

end Reader

/-! ## One field -/

namespace Message

/-- What a field that fails behind its tag, in front of `bytes`, leaves of a message. -/
def Spoiled (type : MessageType) (tag : Tag) (bytes : Bytes) (before after : Message) : Prop :=
  match type.dispatch.find? fun entry => entry.tag == tag with
  | none => after = before
  | some entry =>
    let index := entry.field
    match (type.fields[index]?.getD default).strategy with
    | .singular _ _ | .map _ _ | .member _ (.plain _) => after = before
    | .repeated plain | .packed plain =>
      if entry.action = .run then
        ∃ values added, before.slotAt index = .scalars values ∧
          after = before.setSlot index (.scalars (values ++ added)) ∧ Reader.ReadOf plain.kind bytes added
      else after = before
    | .texts plain =>
      ∃ values added, before.slotAt index = .texts values ∧ after = before.setSlot index (.texts added) ∧
        added.active = values.active ++ [.zero plain.kind]
    | .messages _ =>
      ∃ values added last, before.slotAt index = .messages values ∧ after = before.setSlot index (.messages added) ∧
        added.active = values.active ++ [last]
    | .message _ => ∃ child, after = before.setSlot index (.message (.present child))
    | .member slot (.message _) => ∃ choice, after = before.setChoice slot choice

end Message

namespace Step

/-- What holds of the message that a step leaves by failing, in itself or in the sub-message it opens. -/
def Fails (table : TypeTable) (type : MessageType) (P : Message → Prop) : Step → Prop
  | next _ _ => True
  | stop m _ _ => P m
  | into m place _ _ _ _ => ∀ child, P (m.putFailed table type place child)

variable {table : TypeTable} {type : MessageType} {P : Message → Prop} {m : Message}

theorem fails_ofRead {α : Type} (read : Read α) (r : Reader) (change : α → Message) (h : P m) :
    (ofRead read r m change).Fails table type P := by
  unfold ofRead
  split
  · exact h
  · trivial

theorem fails_ofRun (run : Reader.Run) {change : List Scalar → Message} (h : P (change run.values)) :
    (ofRun run change).Fails table type P := by
  unfold ofRun
  split
  · exact h
  · trivial

theorem fails_ofNested (counted : Bool) (r : Reader) {place : Place} (childType : MessageType) (child : Message)
    (h : P m) (hput : ∀ child, P (m.putFailed table type place child)) :
    (ofNested counted r m place childType child).Fails table type P := by
  unfold ofNested
  split
  · exact h
  · exact hput

end Step

namespace Message

variable {table : TypeTable} {type : MessageType} {m : Message} {tag : Tag} {r : Reader}

theorem readField_fails (hw : type.WellFormed) (hm : m.body.Shaped type) (hv : r.Valid) {entry : Dispatch} {field : Field}
    (hfind : (type.dispatch.find? fun entry => entry.tag == tag) = some entry)
    (hf : type.fields[entry.field]? = some field) :
    (m.readField table type field entry.field entry.action r).Fails table type (Spoiled type tag r.window m) := by
  obtain ⟨slot, hs, hform⟩ := hm.slot_of_field hf
  have hslot := slotAt_of_getElem? hs
  have hlt : entry.field < m.body.slots.length := (List.getElem?_eq_some_iff.mp hs).1
  unfold readField Spoiled
  simp only [hfind, hf, Option.getD_some]
  generalize hstrategy : field.strategy = strategy at hform
  cases hform with
  | singular kind => exact Step.fails_ofRead _ _ _ rfl
  | @repeated plain values kinds | @packed plain values kinds =>
    by_cases hrun : entry.action = .run
    · simp only [hrun, if_true]
      refine Step.fails_ofRun _ ⟨values, _, hslot, ?_, Reader.readRun_front plain.kind hv⟩
      simp only [appendScalars, hslot]
    · simp only [hrun, if_false]
      exact Step.fails_ofRead _ _ _ rfl
  | @texts plain values kinds =>
    refine Step.fails_ofRead _ _ _ ⟨values, _, hslot, ?_, Repeated.active_add _ values⟩
    simp only [addText, hslot]
  | @message ref value =>
    simp only [hslot]
    refine Step.fails_ofNested _ _ _ _ ⟨_, rfl⟩ fun child => ⟨child, ?_⟩
    exact setSlot_setSlot ..
  | @messages ref values =>
    simp only [hslot]
    refine Step.fails_ofNested _ _ _ _ ⟨values, _, _, rfl, rfl, Repeated.active_push values _⟩ fun child => ?_
    simp only [putFailed, put, slotAt_setSlot hlt, setSlot_setSlot]
    refine ⟨values, _, child, rfl, rfl, ?_⟩
    rw [Repeated.setLast, Repeated.active_modify, Repeated.active_push, List.dropLast_concat]
  | map suit nodup => exact Step.fails_ofNested _ _ _ _ rfl fun child => rfl
  | @member place value =>
    cases value with
    | plain plain => exact Step.fails_ofRead _ _ _ rfl
    | message ref =>
      have hchoice : place < m.body.choices.length := by
        rw [hm.length_choices]
        exact hw.members field (List.mem_of_getElem? hf) place _ hstrategy
      exact Step.fails_ofNested _ _ _ _ ⟨_, rfl⟩ fun child => ⟨_, setMember_setChoice hchoice _ _ _⟩

theorem step_fails (table : TypeTable) (hw : type.WellFormed) (hm : m.body.Shaped type) (hv : r.Valid) (tag : Tag) :
    (m.step table type tag r).Fails table type (Spoiled type tag r.window m) := by
  obtain ⟨entry, field, hfind, hf, _, _, hstep⟩ | ⟨hfind, hstep⟩ := step_cases table type tag
  · rw [hstep]
    exact readField_fails hw hm hv hfind hf
  · have hspoiled : Spoiled type tag r.window m m := by
      unfold Spoiled
      rw [hfind]
    rw [hstep]
    unfold readUnknown
    split <;> exact Step.fails_ofRead _ _ _ hspoiled

theorem readOne_fails (hw : type.WellFormed) (hm : m.body.Shaped type) (hv : r.Valid) {e : DecodeError}
    (he : (m.readOne table type tag r).error = some e) :
    Spoiled type tag r.window m (m.readOne table type tag r).message := by
  have hfails := step_fails table hw hm hv tag
  cases hs : m.step table type tag r with
  | next m' s =>
    rw [readOne_next hs] at he
    cases he
  | stop m' s e' =>
    rw [hs] at hfails
    rw [readOne_stop hs]
    exact hfails
  | into m' place childType child inner outer =>
    rw [hs] at hfails
    cases hchild : (child.merge table childType inner).error with
    | none =>
      rw [readOne_into hs hchild] at he
      cases he
    | some e' =>
      rw [readOne_into_failed hs hchild]
      exact hfails _

/-! ## Where a merge fails -/

variable (table type) in
/-- A merge into `before` fails in the first field of `bytes`, or at its tag, and leaves `after`. -/
structure FailsFirst (bytes : Bytes) (e : DecodeError) (before after : Message) : Prop where
  fails : mergeBytes table type before bytes = (after, some e)
  /-- No part of it is whole fields. -/
  first : ∀ part, part <+: bytes → part ≠ [] → (mergeBytes table type before part).2 ≠ none
  leaves : ((∀ head tag, Tag.Spells head tag → ¬ head <+: bytes) ∧ after = before) ∨
    ∃ head tag payload, Tag.Spells head tag ∧ bytes = head ++ payload ∧ Spoiled type tag payload before after

variable {bytes : Bytes} {out : Message}

/-- Bytes that merge begin with a tag and a field that is read. -/
theorem Runs.first {fields : List (Tag × Bytes)} {room : Nat} (h : Runs table type room m fields out)
    (hne : bytesOf fields ≠ []) :
    ∃ head tag payload rest m', bytesOf fields = head ++ (payload ++ rest) ∧ Tag.Spells head tag ∧
      Reads table type room tag head payload m m' := by
  cases h with
  | nil => exact absurd rfl hne
  | @cons _ m' _ tag head payload fields spells _ reads _ =>
    refine ⟨head, tag, payload, bytesOf fields, m', ?_, spells, reads⟩
    rw [bytesOf_cons, List.append_assoc]

theorem not_spells_of_readTag {s : Reader} {e : DecodeError} (hv : r.Valid) (ht : r.readTag = .error e s) (head : Bytes)
    (tag : Tag) (hs : Tag.Spells head tag) : ¬ head <+: r.window := by
  rintro ⟨rest, hrest⟩
  rw [Reader.readTag_of_spells hv hs hrest.symm] at ht
  cases ht

/-- Where a merge ends by failing, no part of the rest is whole fields. -/
theorem Ends.first (hg : table.Generated) (hw : type.WellFormed) (hm : Held table type m) (hv : r.Valid)
    (h : Ends table type m r) {part : Bytes} (hpart : part <+: r.window) (hne : part ≠ []) :
    (mergeWithin table type r.room m part).2 ≠ none := by
  intro hok
  obtain ⟨fields, rfl, hruns⟩ := runs_of_mergeWithin hg hw hm (Prod.ext rfl hok)
  obtain ⟨head, tag, payload, rest, m', hbytes, hs, hreads⟩ := hruns.first hne
  obtain ⟨more, hmore⟩ := hpart
  rw [hbytes, List.append_assoc, List.append_assoc] at hmore
  cases h with
  | done hwin =>
    rw [hwin] at hmore
    exact hs.ne_nil (List.append_eq_nil_iff.mp hmore).1
  | tag ht => exact not_spells_of_readTag hv ht head tag hs ⟨_, hmore⟩
  | @field tag' s e ht he =>
    obtain rfl : tag = tag' := by
      have htag := (Reader.readTag_of_spells hv hs hmore.symm).symm.trans ht
      exact Option.some.inj (EStateM.Result.ok.inj htag).1
    cases (Reader.readTag_of_spells hv hs hmore.symm).symm.trans ht
    obtain ⟨hv', hw'⟩ := (Reader.past_pastTag r head.length).valid hv hmore.symm
    obtain ⟨s, hone, _⟩ := hreads _ _ hv' (Reader.behind_pastTag hv hmore.symm) hw' (Nat.le_refl _)
    rw [hone] at he
    cases he

/-- What a merge leaves where it ends by failing. -/
theorem Ends.leaves (hw : type.WellFormed) (hm : m.body.Shaped type) (hv : r.Valid) {e : DecodeError}
    (h : Ends table type m r) (he : (m.merge table type r).error = some e) :
    ((∀ head tag, Tag.Spells head tag → ¬ head <+: r.window) ∧ (m.merge table type r).message = m) ∨
      ∃ head tag payload, Tag.Spells head tag ∧ r.window = head ++ payload ∧
        Spoiled type tag payload m (m.merge table type r).message := by
  cases h with
  | done hwin =>
    rw [merge_done hv hwin] at he
    cases he
  | tag ht =>
    rw [merge_tag_error ht]
    exact .inl ⟨not_spells_of_readTag hv ht, rfl⟩
  | @field tag s e' ht he' =>
    obtain ⟨head, payload, hwin, hs, rfl⟩ := Reader.readTag_some ht
    obtain ⟨hv', hw'⟩ := (Reader.past_pastTag r head.length).valid hv hwin
    have hspoiled := readOne_fails hw hm hv' he'
    rw [hw'] at hspoiled
    rw [merge_one ht, he']
    exact .inr ⟨head, tag, payload, hs, hwin, hspoiled⟩

/-- A merge that fails leaves what merging the whole fields in front leaves, but for the field it fails in. -/
theorem mergeBytes_failed (table : TypeTable) (type : MessageType) (m out : Message) (bytes : Bytes) (e : DecodeError)
    (hg : table.Generated) (htype : type ∈ table.messages) (hm : Held table type m)
    (h : mergeBytes table type m bytes = (out, some e)) :
    ∃ front back before, bytes = front ++ back ∧ mergeBytes table type m front = (before, none) ∧
      FailsFirst table type back e before out := by
  have hw := hg.wellFormed htype
  obtain ⟨hv, hwin⟩ := Reader.valid_ofBytesWithin bytes 100
  obtain ⟨fields, back, before, s, hruns, hsplit, hpast, hmerge, hends⟩ := merge_runs hg hw hm hv
  rw [hwin] at hsplit
  obtain ⟨hvs, hws⟩ := hpast.valid hv (hwin.trans hsplit)
  have hfront : mergeBytes table type m (bytesOf fields) = (before, none) := hruns.mergeWithin_eq
  obtain ⟨rfl, herror⟩ := Prod.mk.inj h
  have hbefore : Held table type before := by
    obtain rfl : _ = before := congrArg Prod.fst hfront
    exact held_merge hg hw hm _
  refine ⟨bytesOf fields, back, before, hsplit, hfront, ?_, ?_, ?_⟩
  · rw [← h, hsplit]
    exact (mergeWithin_append hfront back).symm
  · intro part hpart hne
    rw [← hws] at hpart
    have hfirst := hends.first hg hw hbefore hvs hpart hne
    rwa [hpast.room_eq] at hfirst
  · obtain ⟨body⟩ := before
    have hleaves := Ends.leaves (m := mk body) hw hbefore.shaped hvs hends
      ((congrArg Outcome.error hmerge).symm.trans herror)
    rwa [← hmerge, hws] at hleaves

set_option maxRecDepth 100000 in
/-- A name, and then a run of weights whose third breaks off: the two before it are appended to the one there was. -/
theorem mergeBytes_failed_run :
    let table := Sample.Shapes.table
    let shape := table.message "demo.shapes.Shape"
    let start := (mergeBytes table shape (new shape) [0x28, 7]).1
    let bytes := [0x0a, 1, 0x41, 0x2a, 3, 1, 2, 0x80]
    let out := mergeBytes table shape start bytes
    out.2 = some .malformedPackedField ∧ (out.1.slotAt 4).values = [.int32 7, .int32 1, .int32 2] ∧
      ∃ front back before, bytes = front ++ back ∧ mergeBytes table shape start front = (before, none) ∧
        FailsFirst table shape back .malformedPackedField before out.1 := by
  intro table shape start bytes out
  have hg : table.Generated := generated_tableOf _ _
  obtain ⟨hnamed, hfails, hvalues⟩ :
      (table.messages.any fun type => type.fullName == "demo.shapes.Shape") = true ∧
      out.2 = some .malformedPackedField ∧ (out.1.slotAt 4).values = [.int32 7, .int32 1, .int32 2] := by
    decide +kernel
  have htype := TypeTable.message_mem hnamed
  have hw := hg.wellFormed htype
  exact ⟨hfails, hvalues, mergeBytes_failed table shape start _ _ _ hg htype
    (held_merge hg hw (held_new table hw) _) (Prod.ext rfl hfails)⟩

end Message

end Protobuf
