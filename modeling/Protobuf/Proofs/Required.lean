/-
  Protobuf.Proofs.Required — a required field is missed by the writer just where it is missed by the reader.

  `Body.Lacks` says of one level that a required field is not set. A message is complete unless it or a message
  nested in it lacks one (`isComplete_eq_false_iff`): the check goes through what is in use and through nothing
  that is kept aside.

  What is read back is the message with the values that are not written started over. Presence bits and sub-messages
  stay, so it is complete just if the message was (`isComplete_restarted`). A field that is not tracked may come back
  with another value, but such a field is never missing.
-/

import Protobuf.Proofs.Twins
import Protobuf.Proofs.Visible
import Protobuf.Sample.Old

namespace Protobuf

open Schema

/-! ## One level -/

section Level

variable {M N : Type} {type : MessageType}

/-- Whether it is the slot of a message and holds none. -/
def Slot.isAbsent : Slot M → Bool
  | message (.absent _) => true
  | _ => false

/-- A required field is not set: its presence bit is clear, or it has none and holds no message. A required field
    that has neither a bit nor a slot for a message has no presence of its own and is never lacking: a scalar that is
    not tracked, or a member of a oneof. For a message in a oneof the check that is generated does not even compile,
    since it reads a field the structure does not have. -/
inductive Body.Lacks (type : MessageType) (body : Body M) : Prop
  | bit {index bit : Nat} {field : Field} (mem : type.fields[index]? = some field) (required : field.required = true)
      (tracked : field.presenceBit = some bit) (clear : body.presence.isSet bit = false)
  | message {index : Nat} {field : Field} (mem : type.fields[index]? = some field) (required : field.required = true)
      (untracked : field.presenceBit = none) (absent : body.slots[index]?.map Slot.isAbsent = some true)

theorem Slot.isAbsent_mapParts (f g : M → N) (slot : Slot M) : (slot.mapParts f g).isAbsent = slot.isAbsent := by
  cases slot with
  | message value => cases value <;> rfl
  | _ => rfl

theorem Slot.isSet_eq_false_iff {field : Field} {presence : PresenceBits} {slot : Slot M} :
    slot.isSet field presence = false ↔ (∃ bit, field.presenceBit = some bit ∧ presence.isSet bit = false) ∨
      (field.presenceBit = none ∧ slot.isAbsent = true) := by
  unfold Slot.isSet
  cases field.presenceBit with
  | some bit => simp
  | none =>
    cases slot with
    | message value => cases value <;> simp [isAbsent, Singular.isPresent, Singular.get?]
    | _ => simp [isAbsent]

namespace Body

/-- Whether a field is missing depends on the presence bits and on where there are messages. -/
theorem Lacks.congr {a : Body M} {b : Body N} (h : a.Lacks type) (hpresence : b.presence = a.presence)
    (habsent : ∀ index : Nat, b.slots[index]?.map Slot.isAbsent = a.slots[index]?.map Slot.isAbsent) : b.Lacks type := by
  cases h with
  | bit mem required tracked clear => exact .bit mem required tracked (hpresence ▸ clear)
  | message mem required untracked absent => exact .message mem required untracked ((habsent _).trans absent)

theorem lacks_mapTyped (table : TypeTable) (f : MessageType → M → N) (body : Body M) :
    (body.mapTyped table type f).Lacks type ↔ body.Lacks type := by
  have habsent : ∀ index : Nat, (body.mapTyped table type f).slots[index]?.map Slot.isAbsent =
      body.slots[index]?.map Slot.isAbsent := by
    intro index
    rw [slots_mapTyped, Option.map_map]
    exact congrArg (Option.map · _) (funext fun slot => Slot.isAbsent_mapParts _ _ slot)
  exact ⟨fun h => h.congr rfl fun index => (habsent index).symm, fun h => h.congr rfl habsent⟩

theorem lacks_iff {body : Body M} (hlen : body.slots.length = type.fields.length) :
    body.Lacks type ↔ ∃ pair ∈ type.fields.zip body.slots, pair.1.required = true ∧
      pair.2.isSet pair.1 body.presence = false := by
  constructor
  · intro h
    cases h with
    | @bit index bit field mem required tracked clear =>
      have hs := List.getElem?_eq_getElem (hlen ▸ (List.getElem?_eq_some_iff.mp mem).1)
      exact ⟨(field, _), List.mem_of_getElem? (List.getElem?_zip_eq_some.mpr ⟨mem, hs⟩), required,
        Slot.isSet_eq_false_iff.mpr (.inl ⟨bit, tracked, clear⟩)⟩
    | @message index field mem required untracked absent =>
      obtain ⟨slot, hs, habsent⟩ := Option.map_eq_some_iff.mp absent
      exact ⟨(field, slot), List.mem_of_getElem? (List.getElem?_zip_eq_some.mpr ⟨mem, hs⟩), required,
        Slot.isSet_eq_false_iff.mpr (.inr ⟨untracked, habsent⟩)⟩
  · rintro ⟨⟨field, slot⟩, hmem, required, hunset⟩
    obtain ⟨index, hpair⟩ := List.getElem?_of_mem hmem
    obtain ⟨hf, hs⟩ := List.getElem?_zip_eq_some.mp hpair
    rcases Slot.isSet_eq_false_iff.mp hunset with ⟨bit, tracked, clear⟩ | ⟨untracked, absent⟩
    · exact .bit hf required tracked clear
    · exact .message hf required untracked (Option.map_eq_some_iff.mpr ⟨slot, hs, absent⟩)

end Body

theorem Slot.isComplete_iff (slot : Slot Bool) : slot.isComplete = true ↔ ∀ x ∈ slot.inUse, x = true := by
  cases slot with
  | message value => cases value <;> simp [isComplete, inUse, Singular.get?]
  | messages values => simp [isComplete, inUse]
  | map entries =>
    simp only [isComplete, inUse, List.all_eq_true, List.mem_filterMap]
    constructor
    · rintro h x ⟨⟨key, value⟩, hmem, hx⟩
      cases value with
      | scalar v => cases hx
      | message y =>
        cases hx
        exact h _ hmem
    · rintro h ⟨key, value⟩ hmem
      cases value with
      | scalar v => rfl
      | message y => exact h y ⟨_, hmem, rfl⟩
  | _ => simp [isComplete, inUse]

/-- A level is complete if it lacks nothing and all in use in it is complete. -/
theorem Body.isComplete_iff {body : Body Bool} (hlen : body.slots.length = type.fields.length) :
    body.isComplete type = true ↔ ¬ body.Lacks type ∧ ∀ part ∈ body.inUse, part.2 = true := by
  rw [isComplete, Bool.and_eq_true, List.all_eq_true, List.all_eq_true, lacks_iff hlen]
  constructor
  · intro ⟨hslots, hchoices⟩
    refine ⟨?_, ?_⟩
    · rintro ⟨pair, hmem, required, hunset⟩
      have hset := (Bool.and_eq_true_iff.mp (hslots pair hmem)).1
      simp [required, hunset] at hset
    · rintro ⟨index, x⟩ hx
      rcases mem_parts_iff.mp hx with ⟨slot, hs, hx⟩ | ⟨_, choice, hc, hsel⟩
      · have hlt : index < type.fields.length := hlen ▸ (List.getElem?_eq_some_iff.mp hs).1
        have hpair : (type.fields.zip body.slots)[index]? = some (type.fields[index], slot) :=
          List.getElem?_zip_eq_some.mpr ⟨List.getElem?_eq_getElem hlt, hs⟩
        exact (Slot.isComplete_iff slot).mp (Bool.and_eq_true_iff.mp (hslots _ (List.mem_of_getElem? hpair))).2 x hx
      · have hmember := hchoices choice (List.mem_of_getElem? hc)
        rw [hsel] at hmember
        exact hmember
  · intro ⟨hlacks, hparts⟩
    refine ⟨?_, ?_⟩
    · rintro ⟨field, slot⟩ hmem
      obtain ⟨index, hpair⟩ := List.getElem?_of_mem hmem
      have hs := (List.getElem?_zip_eq_some.mp hpair).2
      have hcomplete : slot.isComplete = true :=
        (Slot.isComplete_iff slot).mpr fun x hx => hparts (index, x) (mem_parts_iff.mpr (.inl ⟨slot, hs, hx⟩))
      have hset : field.required = true → slot.isSet field body.presence = true := by
        intro required
        by_contra hunset
        exact hlacks ⟨_, hmem, required, Bool.eq_false_iff.mpr hunset⟩
      cases hr : field.required with
      | false => simp [hr, hcomplete]
      | true => simp [hset hr, hcomplete]
    · intro choice hc
      obtain ⟨slot, hc⟩ := List.getElem?_of_mem hc
      cases hsel : choice.selected with
      | none => rfl
      | some member =>
        obtain ⟨index, value⟩ := member
        cases value with
        | scalar v => rfl
        | message x => exact hparts (index, x) (mem_parts_iff.mpr (.inr ⟨slot, choice, hc, hsel⟩))

end Level

/-! ## All levels -/

namespace Message

variable {table : TypeTable} {type : MessageType} {m : Message}

theorem isComplete_mk {body : Body Message} (hlen : body.slots.length = type.fields.length) :
    (mk body).isComplete table type = true ↔ ¬ body.Lacks type ∧
      ∀ index x, (index, x) ∈ body.inUse → x.isComplete table (table.childAt type index) = true := by
  have hmapped : (body.mapTyped table type fun t m => m.isComplete table t).slots.length = type.fields.length := by
    rw [← hlen, Body.mapTyped, List.length_mapIdx]
  rw [isComplete, foldTyped_mk]
  refine (Body.isComplete_iff hmapped).trans (and_congr (not_congr (Body.lacks_mapTyped table _ body)) ?_)
  constructor
  · intro h index x hx
    exact h (index, _) ((Body.inUse_mapTyped table type _ body).mpr ⟨x, hx, rfl⟩)
  · rintro h ⟨index, y⟩ hy
    obtain ⟨x, hx, rfl⟩ := (Body.inUse_mapTyped table type _ body).mp hy
    exact h index x hx

/-- A message is complete unless it lacks a required field, or one nested in it does. -/
theorem isComplete_eq_false_iff (ht : Typed table type m) :
    m.isComplete table type = false ↔ ∃ inner child, Nested table type m inner child ∧ child.body.Lacks inner := by
  induction ht with
  | @mk type body level _ ih =>
    rw [← Bool.not_eq_true, isComplete_mk level.1.length_slots]
    constructor
    · intro h
      by_cases hlacks : body.Lacks type
      · exact ⟨type, mk body, .self .., hlacks⟩
      · simp only [hlacks, not_false_eq_true, true_and, not_forall] at h
        obtain ⟨index, x, hx, hincomplete⟩ := h
        obtain ⟨inner, child, hnested, hchild⟩ := (ih (index, x) hx).mp (Bool.eq_false_iff.mpr hincomplete)
        exact ⟨inner, child, .part hx hnested, hchild⟩
    · rintro ⟨inner, child, hnested, hchild⟩ ⟨hlacks, hparts⟩
      cases hnested with
      | self => exact hlacks hchild
      | @part _ _ _ index x _ hx hnested =>
        have hincomplete := (ih (index, x) hx).mpr ⟨inner, child, hnested, hchild⟩
        rw [hparts index x hx] at hincomplete
        cases hincomplete

/-! ## Read back -/

section Back

variable {field : Field} {slot : Slot Message} {body : Body Message} {index : Nat}

/-- Only a scalar starts over, and it stays one. -/
theorem restarted_keeps (hform : Slot.Form field.strategy slot) (presence : PresenceBits) :
    (slot.restarted field presence).isAbsent = slot.isAbsent ∧ (slot.restarted field presence).inUse = slot.inUse := by
  generalize hstrategy : field.strategy = strategy at hform
  cases hform with
  | @singular plain tracked value kind =>
    rw [Slot.restarted]
    split
    · exact ⟨rfl, rfl⟩
    · rw [Slot.new, hstrategy]
      exact ⟨rfl, rfl⟩
  | _ => exact ⟨rfl, rfl⟩

theorem slots_restarted (hshaped : body.Shaped type) (hs : body.slots[index]? = some slot) :
    ∃ kept, (body.restarted type).slots[index]? = some kept ∧ kept.isAbsent = slot.isAbsent ∧ kept.inUse = slot.inUse := by
  obtain ⟨field, hf, hform⟩ := hshaped.field_of_slot hs
  refine ⟨slot.restarted field body.presence, ?_, restarted_keeps hform _⟩
  rw [Body.restarted, List.getElem?_zipWith, hf, hs]

theorem slots_restarted_none (hs : body.slots[index]? = none) : (body.restarted type).slots[index]? = none := by
  rw [Body.restarted, List.getElem?_zipWith, hs]
  cases type.fields[index]? <;> rfl

theorem lacks_restarted (hshaped : body.Shaped type) : (body.restarted type).Lacks type ↔ body.Lacks type := by
  have habsent : ∀ index : Nat,
      (body.restarted type).slots[index]?.map Slot.isAbsent = body.slots[index]?.map Slot.isAbsent := by
    intro index
    cases hs : body.slots[index]? with
    | none => rw [slots_restarted_none hs]
    | some slot =>
      obtain ⟨kept, hkept, hsame, _⟩ := slots_restarted hshaped hs
      rw [hkept]
      exact congrArg some hsame
  exact ⟨fun h => h.congr rfl fun index => (habsent index).symm, fun h => h.congr rfl habsent⟩

theorem parts_restarted (hshaped : body.Shaped type) {x : Message} :
    (index, x) ∈ (body.restarted type).inUse ↔ (index, x) ∈ body.inUse := by
  rw [Body.inUse, Body.inUse, Body.mem_parts_iff, Body.mem_parts_iff]
  refine or_congr_left ?_
  cases hs : body.slots[index]? with
  | none => rw [slots_restarted_none hs]
  | some slot =>
    obtain ⟨kept, hkept, _, hinUse⟩ := slots_restarted hshaped hs
    simp [hkept, hinUse]

/-- A message stays as complete as it is when what is not written starts over. -/
theorem isComplete_restarted (ht : Typed table type m) :
    (m.restarted table type).isComplete table type = m.isComplete table type := by
  induction ht with
  | @mk type body level _ ih =>
    have hshaped := level.1
    have hmapped : (body.mapTyped table type (restarted table)).Shaped type := hshaped.mapTyped ..
    have hlen : ((body.mapTyped table type (restarted table)).restarted type).slots.length = type.fields.length := by
      rw [Body.restarted, List.length_zipWith, hmapped.length_slots, Nat.min_self]
    rw [restarted_mk, Bool.eq_iff_iff, isComplete_mk hlen, isComplete_mk hshaped.length_slots, lacks_restarted hmapped,
      Body.lacks_mapTyped]
    refine and_congr_right fun _ => ⟨fun h index x hx => ?_, fun h index y hy => ?_⟩
    · rw [← ih (index, x) hx]
      exact h index _ ((parts_restarted hmapped).mpr ((Body.inUse_mapTyped table type _ body).mpr ⟨x, hx, rfl⟩))
    · obtain ⟨x, hx, rfl⟩ := (Body.inUse_mapTyped table type _ body).mp ((parts_restarted hmapped).mp hy)
      rw [ih (index, x) hx]
      exact h index x hx

/-- What is read back from the bytes of a message is the message laid over a new one, and as complete as that. -/
theorem exists_back (hg : table.Generated) (htype : type ∈ table.messages) (ht : Typed table type m)
    (hn : Nests table 100 type m) (hf : Fits table type m) :
    ∃ back, mergeBytes table type (new type) (m.encode table type) = (back, none) ∧
      back.Same (m.overlay table type (new type)) ∧ back.isComplete table type = m.isComplete table type := by
  have hw := hg.wellFormed htype
  obtain ⟨back, hmerge, hsame⟩ := mergeBytes_of_lays (lays_of_typed hg.childAt hw ht hf hn) ht hf (held_new table hw)
  have hback : Held table type (mergeBytes table type (new type) (m.encode table type)).1 :=
    held_merge hg hw (held_new table hw) _
  rw [hmerge] at hback
  have hrestarted := (hsame.trans (overlay_new_restarted ht)).symm.isComplete_eq hback
  exact ⟨back, hmerge, hsame, hrestarted.symm.trans (isComplete_restarted ht)⟩

end Back

/-- A message that lacks a required field, or has one nested in it that does, is refused by the writer and, from its
    bytes, by the reader. All others are written and read. -/
theorem required_enforced (table : TypeTable) (type : MessageType) (m : Message) (hg : table.Generated)
    (htype : type ∈ table.messages) (ht : Typed table type m) (hn : Nests table 100 type m) (hf : Fits table type m) :
    let lacking := ∃ inner child, Nested table type m inner child ∧ child.body.Lacks inner
    (m.tryEncode table type = .error (.missingRequiredFields type.fullName) ↔ lacking) ∧
      (decode table type (m.encode table type) = .error (.missingRequiredFields type.fullName) ↔ lacking) ∧
      (¬ lacking → m.tryEncode table type = .ok (m.encode table type) ∧
        ∃ back, decode table type (m.encode table type) = .ok back) := by
  intro lacking
  obtain ⟨back, hmerge, _, hcomplete⟩ := exists_back hg htype ht hn hf
  have hiff : m.isComplete table type = false ↔ lacking := isComplete_eq_false_iff ht
  rw [← hiff, tryEncode, decode, hmerge]
  dsimp only
  rw [hcomplete]
  cases m.isComplete table type with
  | false => simp
  | true => simp

set_option maxRecDepth 100000 in
/-- A required number is missing in the value of a map. One that is missing in a message kept aside does no harm. -/
theorem required_enforced_old :
    let table := Sample.Old.table
    let req := table.message "old.Req"
    let inner := table.message "old.Inner"
    let set := fun (type : MessageType) (index : Nat) (value : Scalar) (m : Message) =>
      m.setScalar (type.fields[index]?.getD default) index value
    let must := set inner 0 (.uint32 0) (new inner)
    let filled := (set req 0 (.int32 0) (set req 1 (.string "") (set req 4 (.enum 7) (new req)))).setSlot 3
      (.message (.present must))
    let lacking := filled.setSlot 31 (.map [⟨.int32 1, .message must⟩, ⟨.int32 2, .message (new inner)⟩])
    let whole := filled.setSlot 32 (.messages ⟨[must], [new inner]⟩)
    lacking.tryEncode table req = .error (.missingRequiredFields "old.Req") ∧
      decode table req (lacking.encode table req) = .error (.missingRequiredFields "old.Req") ∧
      whole.tryEncode table req = .ok (whole.encode table req) ∧
      ∃ back, decode table req (whole.encode table req) = .ok back := by
  intro table req inner set must filled lacking whole
  obtain ⟨hnamed, hname, hforms, hincomplete, hcomplete⟩ :
      (table.messages.any fun type => type.fullName == "old.Req") = true ∧ req.fullName = "old.Req" ∧
      (∀ m ∈ [lacking, whole],
        holds table (fun type body => body.Shaped type ∧ ∀ value ∈ body.values, value.Sized) 2 req m = true ∧
        holds table (fun _ body => body.unknown = []) 2 req m = true ∧
        holds table (fun type body => ∀ n ∈ (body.sizes table type).lengths type, n < 0x100000000) 2 req m = true) ∧
      lacking.isComplete table req = false ∧ whole.isComplete table req = true := by
    decide +kernel
  have hg : table.Generated := generated_tableOf _ _
  have hall : ∀ m ∈ [lacking, whole], Typed table req m ∧ Nests table 100 req m ∧ Fits table req m := by
    intro m hm
    obtain ⟨htyped, hunknown, hfits⟩ := hforms m hm
    exact ⟨throughout_of_holds 2 htyped, nests_of_holds 2 hunknown (by decide), throughout_of_holds 2 hfits⟩
  obtain ⟨ht, hn, hf⟩ := hall lacking (by simp)
  obtain ⟨ht', hn', hf'⟩ := hall whole (by simp)
  have htype := TypeTable.message_mem hnamed
  obtain ⟨hwrite, hread, _⟩ := required_enforced table req lacking hg htype ht hn hf
  obtain ⟨_, _, hfine⟩ := required_enforced table req whole hg htype ht' hn' hf'
  have hlacks := (isComplete_eq_false_iff ht).mp hincomplete
  rw [hname] at hwrite hread
  refine ⟨hwrite.mpr hlacks, hread.mpr hlacks, hfine fun hlacks' => ?_⟩
  rw [(isComplete_eq_false_iff ht').mpr hlacks'] at hcomplete
  cases hcomplete

end Message

end Protobuf
