/-
  Protobuf.Proofs.Roundtrip — what is written reads back.

  Reading an encoding into a new message lays the written message over it, which leaves what was written
  (`overlay_new`). The order in which the entries of maps are written makes no difference to this, and
  where no map has two entries there is only one order, so that the bytes come back as well
  (`Same.wire_eq`).
-/

import Protobuf.Proofs.Settled
import Protobuf.Sample.Legacy
import Protobuf.Sample.Old
import Protobuf.Sample.Plain

namespace Protobuf

open Schema

/-! ## One order of entries -/

/-- The number of entries in a slot. -/
def Slot.entryCount {M : Type} : Slot M → Nat
  | map entries => entries.length
  | _ => 0

/-- No map of the level has two entries, which could be written in two orders. -/
def Body.SingleOrder {M : Type} (body : Body M) : Prop := ∀ slot ∈ body.slots, slot.entryCount ≤ 1

instance {M : Type} (body : Body M) : Decidable body.SingleOrder :=
  inferInstanceAs (Decidable (∀ slot ∈ body.slots, slot.entryCount ≤ 1))

theorem Slot.entryCount_mapParts {M N : Type} (f g : M → N) (slot : Slot M) :
    (slot.mapParts f g).entryCount = slot.entryCount := by
  cases slot with
  | map entries => exact List.length_map ..
  | _ => rfl

theorem Slot.Rel.entryCount_eq {M N : Type} {R : M → N → Prop} {a : Slot M} {b : Slot N} (h : a.Rel R b) :
    a.entryCount = b.entryCount := by
  cases h with
  | map h =>
    have hlen := h.keys.length_eq
    rwa [List.length_map, List.length_map] at hlen
  | _ => rfl

/-- The order of entries is no part of the content. -/
theorem Entry.rel_of_perm {M : Type} {R : M → M → Prop} (hR : ∀ m, R m m) {as bs : List (Entry M)} (h : as.Perm bs)
    (hn : (bs.map Entry.key).Nodup) : Entry.Rel R as bs := by
  have hkeys := h.map Entry.key
  refine ⟨hkeys, fun key => ?_⟩
  have hvalue : Entry.valueOf as key = Entry.valueOf bs key := by
    cases hv : Entry.valueOf as key with
    | none =>
      have hout := Entry.valueOf_eq_none_iff.mp hv
      exact (Entry.valueOf_eq_none_iff.mpr fun hin => hout (hkeys.mem_iff.mpr hin)).symm
    | some value => exact (Entry.valueOf_of_mem hn (h.mem_iff.mp (Entry.mem_of_valueOf hv))).symm
  rw [hvalue]
  cases Entry.valueOf bs key with
  | none => exact .none
  | some value =>
    cases value with
    | scalar v => exact .some (.scalar v)
    | message m => exact .some (.message (hR m))

theorem Slot.Rel.wire_eq {a b : Slot Bytes} (h : a.Rel (· = ·) b) {strategy : Strategy} (hb : Slot.Form strategy b)
    (hcount : b.entryCount ≤ 1) (field : Field) (presence : PresenceBits) (member : Option (Value Bytes)) :
    a.wire field presence member = b.wire field presence member := by
  cases h with
  | scalar v => rfl
  | scalars vs => rfl
  | texts h => rw [wire, wire, h]
  | message h => rw [wire, wire, rel_eq h]
  | messages h => rw [wire, wire, forall₂_eq h]
  | @map as bs h =>
    cases hb with
    | map _ nodup =>
      have hperm := h.perm nodup
      cases bs with
      | nil => rw [hperm.eq_nil]
      | cons entry rest =>
        have hle : rest.length + 1 ≤ 1 := hcount
        have hrest : rest = [] := List.eq_nil_of_length_eq_zero (by omega)
        subst hrest
        rw [hperm.eq_singleton]
  | member => rfl

namespace Body

variable {type : MessageType}

theorem SingleOrder.mapTyped {M N : Type} {body : Body M} (h : body.SingleOrder) (table : TypeTable)
    (f : MessageType → M → N) : (body.mapTyped table type f).SingleOrder := by
  intro slot hs
  obtain ⟨index, hi⟩ := List.getElem?_of_mem hs
  rw [slots_mapTyped] at hi
  obtain ⟨before, hbefore, rfl⟩ := Option.map_eq_some_iff.mp hi
  rw [Slot.entryCount_mapParts]
  exact h before (List.mem_of_getElem? hbefore)

theorem SingleOrder.of_rel {M N : Type} {R : M → N → Prop} {a : Body M} {b : Body N} (hb : b.SingleOrder)
    (h : a.Rel R b) : a.SingleOrder := by
  intro slot hs
  obtain ⟨index, hi⟩ := List.getElem?_of_mem hs
  obtain ⟨slot', hi', hrel⟩ := exists_of_rel (h.slots index) hi
  rw [hrel.entryCount_eq]
  exact hb slot' (List.mem_of_getElem? hi')

theorem Rel.memberAt_eq {M : Type} {a b : Body M} (h : a.Rel (· = ·) b) (field : Field) (index : Nat) :
    a.memberAt field index = b.memberAt field index := by
  have hselected : ∀ slot : Nat, a.choices[slot]?.bind Choice.selected = b.choices[slot]?.bind Choice.selected := by
    intro slot
    cases ha : a.choices[slot]? with
    | none => rw [(rel_none (h.choices slot)).mp ha]
    | some choice =>
      obtain ⟨choice', hb, hrel⟩ := exists_of_rel (h.choices slot) ha
      rw [hb]
      exact Choice.Rel.selected_eq hrel
  unfold memberAt
  cases field.oneof with
  | none => rfl
  | some slot =>
    dsimp only
    rw [hselected]

theorem Rel.wire_eq {a b : Body Bytes} (h : a.Rel (· = ·) b) (hb : b.Shaped type) (hu : b.SingleOrder) :
    a.wire type = b.wire type := by
  have hsegments : a.segments type = b.segments type := by
    refine List.ext_getElem? fun index => ?_
    cases hf : type.fields[index]? with
    | none =>
      have hnone : ∀ body : Body Bytes, (body.segments type)[index]? = none := by
        intro body
        rw [List.getElem?_eq_none_iff, segments, List.length_mapIdx, List.length_zip]
        exact Nat.le_trans (Nat.min_le_left ..) (List.getElem?_eq_none_iff.mp hf)
      rw [hnone, hnone]
    | some field =>
      obtain ⟨slot, hs, hform⟩ := hb.slot_of_field hf
      obtain ⟨slot', hs', _⟩ := (h.shaped hb).slot_of_field hf
      obtain ⟨_, hs'', hrel⟩ := exists_of_rel (h.slots index) hs'
      rw [hs] at hs''
      cases hs''
      rw [getElem?_segments hf hs', getElem?_segments hf hs, h.presence, h.memberAt_eq,
        hrel.wire_eq hform (hu slot (List.mem_of_getElem? hs))]
  rw [wire, wire, hsegments, h.unknown]

end Body

namespace Message

variable {table : TypeTable} {type : MessageType} {a b m : Message} {room : Nat}

/-- At no depth does a map have two entries. -/
def SingleOrder (table : TypeTable) : MessageType → Message → Prop := Throughout table fun _ body => body.SingleOrder

/-- Messages with the same content and no map of two entries are written the same. -/
theorem Same.wire_eq (h : a.Same b) (hb : Typed table type b) (hu : SingleOrder table type b) :
    a.wire table type = b.wire table type := by
  induction hb generalizing a with
  | @mk type b level _ ih =>
    obtain ⟨a⟩ := a
    cases hu with
    | mk single singleParts =>
      have hrel : (a.mapTyped table type (wire table)).Rel (· = ·) (b.mapTyped table type (wire table)) :=
        (same_mk_iff.mp h).mapTyped fun index x y _ hy hxy => ih (index, y) hy hxy (singleParts _ hy)
      rw [wire_mk, wire_mk]
      exact hrel.wire_eq (level.1.mapTyped table _) (single.mapTyped table _)

/-! ## Reading back -/

theorem same_setSlot (m : Message) (index : Nat) {a b : Slot Message} (h : a.Rel Same b) :
    (m.setSlot index a).Same (m.setSlot index b) := by
  obtain ⟨body⟩ := m
  refine same_mk_iff.mpr ⟨fun i => ?_, fun i => ?_, rfl, rfl⟩
  · show Option.Rel _ (body.slots.set index a)[i]? (body.slots.set index b)[i]?
    rw [List.getElem?_set, List.getElem?_set]
    by_cases hi : index = i
    · rw [if_pos hi, if_pos hi]
      split
      · exact .some h
      · exact .none
    · rw [if_neg hi, if_neg hi]
      exact ((same_mk_iff.mp (same_refl (mk body))).slots i)
  · exact (same_mk_iff.mp (same_refl (mk body))).choices i

theorem Same.settled (h : a.Same b) (hb : Typed table type b) (hs : Settled table type b) : Settled table type a :=
  Throughout.of_same hs hb h fun _ hlevel hrel => hlevel.of_rel hrel

theorem Same.zeroDefaults (h : a.Same b) (hb : Typed table type b) (hz : ZeroDefaults table type b) :
    ZeroDefaults table type a :=
  Throughout.of_same hz hb h fun _ hlevel _ => hlevel

theorem Same.singleOrder (h : a.Same b) (hb : Typed table type b) (hu : SingleOrder table type b) :
    SingleOrder table type a :=
  Throughout.of_same hu hb h fun _ hlevel hrel => hlevel.of_rel hrel

theorem Same.nests (h : a.Same b) (hb : Typed table type b) (hn : Nests table room type b) : Nests table room type a := by
  induction hn generalizing a with
  | mk unknown complete foreign room_pos _ ih =>
    obtain ⟨a⟩ := a
    have hrel := same_mk_iff.mp h
    have hshaped := hb.shaped
    cases hb with
    | mk _ typed =>
      refine .mk (hrel.unknown.trans unknown) complete foreign ?_ ?_
      · rintro ⟨index, x⟩ hx
        obtain ⟨y, hy, _⟩ := hrel.exists_inUse hshaped hx
        exact room_pos (index, y) hy
      · rintro ⟨index, x⟩ hx
        obtain ⟨y, hy, hxy⟩ := hrel.exists_inUse hshaped hx
        exact ih (index, y) hy hxy (typed _ hy)

/-- A message whose content is `m`, whatever the order in its maps, is read back as `m` from its bytes, and
    these are written again unless the order could have been another. -/
theorem mergeBytes_encode (table : TypeTable) (type : MessageType) (m written : Message) (hg : table.Generated)
    (htype : type ∈ table.messages) (ht : Typed table type m) (hs : Settled table type m)
    (hz : ZeroDefaults table type m) (hn : Nests table 100 type m) (hf : Fits table type m) (hsame : written.Same m) :
    ∃ back, mergeBytes table type (new type) (written.encode table type) = (back, none) ∧ back.Same m ∧
      (SingleOrder table type m → back.encode table type = written.encode table type) := by
  have hw := hg.wellFormed htype
  have htyped := hsame.typed ht
  have hfits := hsame.fits ht hf
  have hlays := lays_of_typed hg.childAt hw htyped hfits (hsame.nests ht hn)
  obtain ⟨back, hmerge, hback⟩ := mergeBytes_of_lays hlays htyped hfits (held_new table hw)
  have hread : back.Same written :=
    hback.trans (overlay_new hg.childAt hw htyped (hsame.settled ht hs) (hsame.zeroDefaults ht hz))
  refine ⟨back, hmerge, hread.trans hsame, fun hu => ?_⟩
  rw [encode_eq_wire (hread.typed htyped) (hread.fits htyped hfits), encode_eq_wire htyped hfits]
  exact hread.wire_eq htyped (hsame.singleOrder ht hu)

/-- Where all types of a table have zero as the default of untracked fields, so have those met in a message. -/
theorem zeroDefaults_of_messages (h : ∀ type ∈ table.messages, type.ZeroDefaults) (htype : type.ZeroDefaults)
    (m : Message) : ZeroDefaults table type m := by
  have hdefault : (default : MessageType).ZeroDefaults := by
    intro field hf
    cases hf
  induction m using Message.induct generalizing type with
  | step body ih => exact .mk htype fun part hp => ih part hp (TypeTable.childAt_of_messages h hdefault type part.1)

theorem zeroDefaults_samples :
    ∀ table ∈ [Sample.Shapes.table, Sample.Kit.table, Sample.Legacy.table, Sample.Old.table, Sample.Plain.table],
      ∀ type ∈ table.messages, type.ZeroDefaults := by
  decide +kernel

set_option maxRecDepth 100000 in
/-- A present zero, a negative zero, an empty point and a map inside a child, with unknown bytes behind: read
    back where two entries of a map are swapped, and written again where there is one. -/
theorem mergeBytes_encode_shapes :
    let table := Sample.Shapes.table
    let shape := table.message "demo.shapes.Shape"
    let label := fun (name : String) (n : Int64) => (⟨.string name, .scalar (.int64 n)⟩ : Entry Message)
    let child := (new shape).setSlot 7 (.map [label "" 0])
    let corner := (⟨10, .message (new (table.message "demo.shapes.Point"))⟩ : Member Message)
    let zeros := ((new shape).setScalar (shape.fields[13]?.getD default) 13 (.uint32 0)).setSlot 17
      (.scalar (.float 0x80000000))
    let plain := ((zeros.setChoice 0 { selected := some corner }).setSlot 19 (.messages (.ofList [child]))).addUnknown
      (Tag.encode (Tag.make 99 .varint) ++ Varint.encode 5)
    let labelled := fun labels => plain.setSlot 7 (.map labels)
    let m := labelled [label "a" 1, label "b" 2]
    let swapped := labelled [label "b" 2, label "a" 1]
    let single := labelled [label "a" 1]
    (∃ back, mergeBytes table shape (new shape) (swapped.encode table shape) = (back, none) ∧ back.Same m) ∧
      ∃ back, mergeBytes table shape (new shape) (single.encode table shape) = (back, none) ∧ back.Same single ∧
        back.encode table shape = single.encode table shape := by
  intro table shape label child corner zeros plain labelled m swapped single
  have hg : table.Generated := generated_tableOf _ _
  have htype : shape ∈ table.messages := TypeTable.message_mem (by decide +kernel)
  have hzero : ∀ m, ZeroDefaults table shape m :=
    have hall := zeroDefaults_samples table (.head _)
    zeroDefaults_of_messages hall (hall shape htype)
  have hspells := Tag.spells_make (show 99 ≠ 0 by decide) (by decide) .varint
  have hcomplete : Complete 100 [(Tag.make 99 .varint, Tag.encode (Tag.make 99 .varint) ++ Varint.encode 5)] :=
    .plain hspells (.varint rfl (Reader.spells_encode (by decide))) (.nil 100)
  constructor
  · have hnests : Nests table 100 shape m :=
      nests_of_unknown 1 (by decide +kernel) hcomplete (by decide +kernel) (by decide +kernel) (by decide)
    have hsame : swapped.Same m := same_setSlot plain 7 (.map (Entry.rel_of_perm same_refl (.swap ..) (by decide)))
    obtain ⟨back, hmerge, hback, _⟩ := mergeBytes_encode table shape m swapped hg htype
      (throughout_of_holds 2 (by decide +kernel)) (throughout_of_holds 2 (by decide +kernel)) (hzero _) hnests
      (throughout_of_holds 2 (by decide +kernel)) hsame
    exact ⟨back, hmerge, hback⟩
  · have hnests : Nests table 100 shape single :=
      nests_of_unknown 1 (by decide +kernel) hcomplete (by decide +kernel) (by decide +kernel) (by decide)
    obtain ⟨back, hmerge, hback, hagain⟩ := mergeBytes_encode table shape single single hg htype
      (throughout_of_holds 2 (by decide +kernel)) (throughout_of_holds 2 (by decide +kernel)) (hzero _) hnests
      (throughout_of_holds 2 (by decide +kernel)) (same_refl single)
    exact ⟨back, hmerge, hback, hagain (throughout_of_holds 2 (by decide +kernel))⟩

end Message

end Protobuf
