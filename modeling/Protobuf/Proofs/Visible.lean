/-
  Protobuf.Proofs.Visible — what a message shows, and all that is computed from it.

  `Message.visible` is the message without what does not show: what is kept aside, remembered sizes, and
  what a tracked field holds while its presence bit is clear. Two messages are `Alike` if they show the
  same; maps are compared as finite maps and floats by their bits.

  In messages that are `Settled` a field that is not set holds its default, so there all content shows
  (`visible_same`). Messages with the same content have the same size and the same hash, lack the same
  required fields and can be written in the same ways (`WrittenAs`): a map can be written in any order.
-/

import Protobuf.Message.Equality
import Protobuf.Proofs.Settled

namespace Protobuf

open Schema

/-! ## What shows -/

/-- A field with nothing kept aside. -/
def Slot.copied {M : Type} : Slot M → Slot M
  | .message value => .message value.copy
  | .messages values => .messages values.copy
  | .texts values => .texts values.copy
  | slot => slot

/-- What shows of a field; one that is not set looks like a new one. -/
def Slot.shown (field : Field) (presence : PresenceBits) : Slot Message → Slot Message
  | .scalar value =>
    match field.presenceBit with
    | some bit => if presence.isSet bit then .scalar value else Slot.new field
    | none => .scalar value
  | slot => slot.copied

namespace Message

def visibleStep (type : MessageType) (body : Body Message) : Message :=
  mk { slots := List.zipWith (fun field slot => slot.shown field body.presence) type.fields body.slots
       choices := body.choices.map fun choice => ⟨choice.selected, none⟩
       presence := body.presence
       unknown := body.unknown }

/-- The message with nothing in it that does not show. -/
def visible (table : TypeTable) (type : MessageType) (m : Message) : Message := m.foldTyped table type visibleStep

/-- The same visible content. -/
def Alike (table : TypeTable) (type : MessageType) (a b : Message) : Prop :=
  (a.visible table type).Same (b.visible table type)

end Message

theorem Slot.Rel.copied {M N : Type} {R : M → N → Prop} {a : Slot M} {b : Slot N} (h : a.Rel R b) : a.copied.Rel R b := by
  cases h with
  | scalar value => exact .scalar value
  | scalars values => exact .scalars values
  | texts h => exact .texts h
  | @message a b h =>
    refine .message ?_
    rw [Singular.get?_copy]
    exact h
  | messages h => exact .messages h
  | map h => exact .map h
  | member => exact .member

/-- A field shows as it is if it holds its default when it is not set. -/
theorem Slot.Rel.shown {R : Message → Message → Prop} {a b : Slot Message} (h : a.Rel R b) {field : Field}
    {presence : PresenceBits}
    (hinitial : ∀ bit, field.presenceBit = some bit → presence.isSet bit = false → b.isInitial field = true) :
    (a.shown field presence).Rel R b := by
  cases h with
  | scalar value =>
    unfold Slot.shown
    cases hbit : field.presenceBit with
    | none => exact .scalar value
    | some bit =>
      dsimp only
      split
      · exact .scalar value
      · rename_i hclear
        have hinit := hinitial bit hbit (Bool.eq_false_iff.mpr hclear)
        unfold Slot.isInitial at hinit
        unfold Slot.new
        cases hs : field.strategy with
        | singular plain presence =>
          rw [hs] at hinit
          have hvalue : value = field.initial plain := eq_of_beq hinit
          rw [hvalue]
          exact .scalar _
        | _ =>
          rw [hs] at hinit
          cases hinit
  | scalars values => exact .scalars values
  | texts h => exact (Slot.Rel.texts h).copied
  | message h => exact (Slot.Rel.message h).copied
  | messages h => exact (Slot.Rel.messages h).copied
  | map h => exact .map h
  | member => exact .member

namespace Message

variable {table : TypeTable} {type : MessageType} {a b m : Message}

/-- All content of a settled message shows. -/
theorem visible_same (hm : Held table type m) (hs : Settled table type m) : (m.visible table type).Same m := by
  induction hm with
  | @mk type body shaped _ _ ih _ =>
    cases hs with
    | mk settled parts =>
      have hself : body.Rel (· = ·) body := Body.rel_refl fun _ _ => rfl
      have hparts : (body.mapTyped table type fun t m => m.visible table t).Rel Same
          (body.mapTyped table type fun _ m => m) := by
        refine hself.mapTyped ?_
        rintro index x _ hx - rfl
        exact ih (index, x) hx (parts _ hx)
      rw [Body.mapTyped_id] at hparts
      rw [visible, foldTyped_mk]
      refine same_mk_iff.mpr ⟨fun index => ?_, fun slot => ?_, rfl, rfl⟩
      · have hrel := hparts.slots index
        show Option.Rel _ (List.zipWith _ type.fields (body.mapTyped table type fun t m => m.visible table t).slots)[index]? _
        rw [List.getElem?_zipWith]
        cases hslot : body.slots[index]? with
        | none =>
          rw [hslot] at hrel
          rw [(rel_none hrel).mpr rfl]
          cases type.fields[index]? <;> exact .none
        | some slot =>
          obtain ⟨field, hf, _⟩ := shaped.field_of_slot hslot
          rw [hslot] at hrel
          generalize (body.mapTyped table type fun t m => m.visible table t).slots[index]? = before at hrel
          cases hrel with
          | some hrel =>
            rw [hf]
            refine .some (hrel.shown fun bit hbit hclear => ?_)
            exact settled (field, slot) (List.mem_of_getElem? (List.getElem?_zip_eq_some.mpr ⟨hf, hslot⟩)) bit hbit hclear
      · have hrel := hparts.choices slot
        show Option.Rel _ ((body.mapTyped table type fun t m => m.visible table t).choices.map _)[slot]? _
        rw [List.getElem?_map]
        exact rel_map_left.mpr hrel

end Message

/-! ## One level -/

/-- What is computed from each slot of related levels is the same. -/
theorem Body.Rel.map_slots {M α : Type} {a b : Body M} (h : a.Rel (· = ·) b) {type : MessageType} (hb : b.Shaped type)
    {f : Slot M → α} (hf : ∀ {strategy s t}, Slot.Form strategy t → s.Rel (· = ·) t → f s = f t) :
    a.slots.map f = b.slots.map f := by
  refine List.ext_getElem? fun index => ?_
  rw [List.getElem?_map, List.getElem?_map]
  cases hs : b.slots[index]? with
  | none => rw [(rel_none (h.slots index)).mpr hs]
  | some t =>
    obtain ⟨_, _, hform⟩ := hb.field_of_slot hs
    have hrel := h.slots index
    rw [hs] at hrel
    generalize a.slots[index]? = s at hrel
    cases hrel with
    | some hrel => exact congrArg some (hf hform hrel)

theorem Body.Rel.map_selected {M : Type} {a b : Body M} (h : a.Rel (· = ·) b) :
    a.choices.map Choice.selected = b.choices.map Choice.selected := by
  refine List.ext_getElem? fun slot => ?_
  rw [List.getElem?_map, List.getElem?_map]
  cases ha : a.choices[slot]? with
  | none => rw [(rel_none (h.choices slot)).mp ha]
  | some choice =>
    obtain ⟨choice', hb, hrel⟩ := exists_of_rel (h.choices slot) ha
    rw [hb]
    exact congrArg some (Choice.Rel.selected_eq hrel)

/-! ## Required fields -/

theorem Slot.Rel.isSet_eq {M : Type} {a b : Slot M} (h : a.Rel (· = ·) b) (field : Field) (presence : PresenceBits) :
    a.isSet field presence = b.isSet field presence := by
  unfold Slot.isSet
  cases field.presenceBit with
  | some bit => rfl
  | none =>
    cases h with
    | message h => exact congrArg Option.isSome (rel_eq h)
    | _ => rfl

theorem Slot.Rel.isComplete_eq {a b : Slot Bool} (h : a.Rel (· = ·) b) {strategy : Strategy} (hb : Slot.Form strategy b) :
    a.isComplete = b.isComplete := by
  cases h with
  | message h => rw [isComplete, isComplete, rel_eq h]
  | messages h => rw [isComplete, isComplete, forall₂_eq h]
  | map h =>
    cases hb with
    | map _ nodup => exact (h.perm nodup).all_eq
  | _ => rfl

theorem Body.Rel.isComplete_eq {type : MessageType} {a b : Body Bool} (h : a.Rel (· = ·) b) (hb : b.Shaped type) :
    a.isComplete type = b.isComplete type := by
  let check (presence : PresenceBits) (slot : Slot Bool) (field : Field) : Bool :=
    (!field.required || slot.isSet field presence) && slot.isComplete
  have hslots : ∀ body : Body Bool, (type.fields.zip body.slots).all (fun pair => check body.presence pair.2 pair.1) =
      (type.fields.zip (body.slots.map (check body.presence))).all fun pair => pair.2 pair.1 := by
    intro body
    rw [List.zip_map_right, List.all_map]
    rfl
  have hchoices : ∀ body : Body Bool,
      body.choices.all (fun choice => choice.selected.all fun member => member.value.isComplete) =
        (body.choices.map Choice.selected).all fun selected => selected.all fun member => member.value.isComplete := by
    intro body
    rw [List.all_map]
    rfl
  have hmap : a.slots.map (check a.presence) = b.slots.map (check b.presence) := by
    rw [h.presence]
    refine h.map_slots hb fun hform hrel => funext fun field => ?_
    show ((!field.required || _) && _) = ((!field.required || _) && _)
    rw [hrel.isSet_eq, hrel.isComplete_eq hform]
  show ((type.fields.zip a.slots).all (fun pair => check a.presence pair.2 pair.1) && _) =
    ((type.fields.zip b.slots).all (fun pair => check b.presence pair.2 pair.1) && _)
  rw [hslots, hslots, hmap, hchoices, hchoices, h.map_selected]

/-! ## Hashing -/

theorem Hash.map_perm {as bs : List Bytes} (h : as.Perm bs) : Hash.map as = Hash.map bs := by
  have hsum := (h.map (SipHash.hash 0 0)).foldl_eq (f := (· + ·)) 0
  rw [Hash.map, Hash.map, h.length_eq, hsum]

theorem Slot.Rel.hashBytes_eq {a b : Slot Bytes} (h : a.Rel (· = ·) b) {strategy : Strategy} (hb : Slot.Form strategy b) :
    a.hashBytes = b.hashBytes := by
  cases h with
  | texts h => rw [hashBytes, hashBytes, h]
  | message h => rw [hashBytes, hashBytes, rel_eq h]
  | messages h => rw [hashBytes, hashBytes, forall₂_eq h]
  | map h =>
    cases hb with
    | map _ nodup => exact Hash.map_perm ((h.perm nodup).map _)
  | _ => rfl

theorem Body.Rel.hashBytes_eq {type : MessageType} {a b : Body Bytes} (h : a.Rel (· = ·) b) (hb : b.Shaped type) :
    a.hashBytes type = b.hashBytes type := by
  have hslots := h.map_slots hb (f := Slot.hashBytes) fun hform hrel => hrel.hashBytes_eq hform
  have hchoices : ∀ body : Body Bytes, body.choices.flatMap (Choice.hashBytes type) =
      (body.choices.map Choice.selected).flatMap fun selected => Choice.hashBytes type ⟨selected, none⟩ := by
    intro body
    rw [List.flatMap_map]
    rfl
  simp only [Body.hashBytes, hchoices, h.map_selected, h.presence, h.unknown, List.flatMap_def, hslots]

/-! ## Ways to write -/

namespace Message

/-- What a level can be written as, given what its sub-messages can: entries stand in any order. -/
def writingsStep (type : MessageType) (body : Body (Written → Prop)) (written : Written) : Prop :=
  ∃ level : Body Written, level.Rel (fun w can => can w) body ∧
    written = ⟨(level.pieces type).flatten, (level.map Written.size).size type⟩

def writings (table : TypeTable) (type : MessageType) (m : Message) : Written → Prop :=
  m.foldTyped table type writingsStep

/-- Bytes the message can be written as, with the entries of its maps, at every depth, in some order. -/
def WrittenAs (table : TypeTable) (type : MessageType) (m : Message) (bytes : Bytes) : Prop :=
  ∃ size, m.writings table type ⟨bytes, size⟩

variable {table : TypeTable} {type : MessageType} {a b m : Message}

theorem writings_mk (type : MessageType) (body : Body Message) :
    (mk body).writings table type = writingsStep type (body.mapTyped table type fun t m => m.writings table t) :=
  foldTyped_mk ..

theorem size_writeStep (type : MessageType) (m : Message) : (m.foldTyped table type writeStep).size = m.cachedSize := by
  obtain ⟨body⟩ := m
  rw [foldTyped_mk]
  rfl

theorem writings_encode (m : Message) (type : MessageType) :
    m.writings table type ((m.measure table type).foldTyped table type writeStep) := by
  induction m using Message.induct generalizing type with
  | step body ih =>
    obtain ⟨fresh, hmeasure, hfresh, hsize⟩ := measure_mk table type body
    rw [hmeasure, foldTyped_mk, writings_mk]
    refine ⟨fresh.mapTyped table type fun t m => m.foldTyped table t writeStep, ?_, ?_⟩
    · have hself : body.Rel (· = ·) body := Body.rel_refl fun _ _ => rfl
      rw [← Body.rel_tidy_left, Body.tidy_mapTyped, hfresh, ← Body.tidy_mapTyped, Body.rel_tidy_left, Body.mapTyped_mapTyped]
      refine hself.mapTyped ?_
      rintro index x _ hx - rfl
      exact ih (index, x) hx _
    · have hsizes : (fresh.mapTyped table type fun t m => m.foldTyped table t writeStep).map Written.size =
          fresh.mapTyped table type fun _ => cachedSize := by
        rw [Body.map_eq_mapTyped table type, Body.mapTyped_mapTyped]
        simp only [size_writeStep]
      rw [hsizes, ← hsize]
      rfl

/-- A message can be written as what it is encoded as. -/
theorem writtenAs_encode (table : TypeTable) (type : MessageType) (m : Message) :
    m.WrittenAs table type (m.encode table type) :=
  ⟨_, writings_encode m type⟩

theorem Same.writings (h : a.Same b) {written : Written} (ha : a.writings table type written) :
    b.writings table type written := by
  induction a using Message.induct generalizing b type written with
  | step a ih =>
    obtain ⟨b⟩ := b
    rw [writings_mk] at ha ⊢
    obtain ⟨level, hlevel, hwritten⟩ := ha
    have hrel : (a.mapTyped table type fun t m => m.writings table t).Rel (fun can can' => ∀ w, can w → can' w)
        (b.mapTyped table type fun t m => m.writings table t) :=
      (same_mk_iff.mp h).mapTyped fun index x y hx _ hxy w hw => ih (index, x) hx hxy hw
    exact ⟨level, Body.rel_trans hlevel hrel fun _ _ _ _ hw hcan => hcan _ hw, hwritten⟩

theorem Same.writtenAs (h : a.Same b) {bytes : Bytes} (ha : a.WrittenAs table type bytes) : b.WrittenAs table type bytes :=
  ha.imp fun _ => h.writings

/-! ## The same content -/

theorem Same.isComplete_eq (h : a.Same b) (hb : Held table type b) : a.isComplete table type = b.isComplete table type := by
  induction hb generalizing a with
  | @mk type b shaped _ _ ih _ =>
    obtain ⟨a⟩ := a
    have hrel : (a.mapTyped table type fun t m => m.isComplete table t).Rel (· = ·)
        (b.mapTyped table type fun t m => m.isComplete table t) :=
      (same_mk_iff.mp h).mapTyped fun index x y _ hy hxy => ih (index, y) hy hxy
    rw [isComplete, isComplete, foldTyped_mk, foldTyped_mk]
    exact hrel.isComplete_eq (shaped.mapTyped table _)

theorem Same.hashBytes_eq (h : a.Same b) (hb : Held table type b) : a.hashBytes table type = b.hashBytes table type := by
  induction hb generalizing a with
  | @mk type b shaped _ _ ih _ =>
    obtain ⟨a⟩ := a
    have hrel : (a.mapTyped table type fun t m => m.hashBytes table t).Rel (· = ·)
        (b.mapTyped table type fun t m => m.hashBytes table t) :=
      (same_mk_iff.mp h).mapTyped fun index x y _ hy hxy => ih (index, y) hy hxy
    rw [hashBytes, hashBytes, foldTyped_mk, foldTyped_mk]
    exact hrel.hashBytes_eq (shaped.mapTyped table _)

theorem size_mk (type : MessageType) (body : Body Message) :
    (mk body).size table type = (body.mapTyped table type fun t m => m.size table t).size type := by
  obtain ⟨fresh, hmeasure, hfresh, hsize⟩ := measure_mk table type body
  show ((mk body).measure table type).cachedSize = _
  rw [hmeasure]
  show fresh.cachedSize = _
  rw [hsize, ← Body.size_tidy, Body.tidy_mapTyped, hfresh, ← Body.tidy_mapTyped, Body.size_tidy, Body.mapTyped_mapTyped]
  rfl

theorem Same.size_eq (h : a.Same b) (hb : Held table type b) : a.size table type = b.size table type := by
  induction hb generalizing a with
  | @mk type b shaped _ _ ih _ =>
    obtain ⟨a⟩ := a
    have hrel : (a.mapTyped table type fun t m => m.size table t).Rel (· = ·)
        (b.mapTyped table type fun t m => m.size table t) :=
      (same_mk_iff.mp h).mapTyped fun index x y _ hy hxy => ih (index, y) hy hxy
    rw [size_mk, size_mk]
    exact hrel.size_eq (shaped.mapTyped table _)

end Message

end Protobuf
