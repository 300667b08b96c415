/-
  Protobuf.Proofs.Nesting — a message as the only thing set in another one of its type.

  `around` puts a message into a repeated field of a new one. That adds one tag and one length to its bytes
  (`wire_around`), takes one more level to read (`absorbs_around`) and fails where the message inside does
  (`fails_around`). So what cannot be read back where no level is left cannot be read back any number of
  levels deep (`exists_deeper`).
-/

import Protobuf.Proofs.Settled

namespace Protobuf

open Schema

/-! ## Bytes -/

theorem flatten_eq_of_others {α : Type} {lists : List (List α)} {i : Nat} {x : List α} (hi : lists[i]? = some x)
    (h : ∀ j y, lists[j]? = some y → j ≠ i → y = []) : lists.flatten = x := by
  induction lists generalizing i with
  | nil => cases hi
  | cons first lists ih =>
    rw [List.flatten_cons]
    cases i with
    | zero =>
      cases hi
      have hrest : lists.flatten = [] := by
        refine List.flatten_eq_nil_iff.mpr fun y hy => ?_
        obtain ⟨j, hj⟩ := List.getElem?_of_mem hy
        exact h (j + 1) y hj (Nat.succ_ne_zero j)
      rw [hrest, List.append_nil]
    | succ i =>
      rw [h 0 first rfl (Nat.succ_ne_zero i).symm, List.nil_append]
      exact ih hi fun j y hy hne => h (j + 1) y hy fun he => hne (Nat.succ.inj he)

namespace Message

variable {table : TypeTable} {type : MessageType} {index room : Nat} {field : Field} {m : Message} {ref : TypeRef}

/-- A new message but for one element of a repeated field. -/
def around (type : MessageType) (index : Nat) (m : Message) : Message :=
  (new type).setSlot index (.messages (.ofList [m]))

/-- An unset field is not written. -/
theorem wire_slot_new (hw : type.WellFormed) (hz : type.ZeroDefaults) {f : Field} (hf : f ∈ type.fields)
    (g : Message → Bytes) : ((Slot.new f).mapParts g g).wire f (.none type.presenceWords) none = [] := by
  unfold Slot.new
  cases hs : f.strategy with
  | singular plain presence =>
    have hn : f.isWritten (.none type.presenceWords) (f.initial plain) = false := by
      unfold Field.isWritten
      cases hbit : f.presenceBit with
      | some bit => exact PresenceBits.isSet_none ..
      | none =>
        cases presence with
        | explicit => exact absurd hbit (hw.tracked f hf plain hs)
        | implicit =>
          have hzero := hz f hf
          rw [Field.startsAtZero, hs] at hzero
          simpa using hzero
    show (if f.isWritten _ _ then _ else _) = _
    rw [hn]
    rfl
  | repeated plain =>
    show (if f.isPacked then _ else _) = _
    split <;> rfl
  | packed plain =>
    show (if f.isPacked then _ else _) = _
    split <;> rfl
  | message ref => rfl
  | texts plain => rfl
  | messages ref => rfl
  | map key value => rfl
  | member slot value => rfl

theorem choices_around {slot : Nat} {choice : Choice Message} (h : (around type index m).body.choices[slot]? = some choice) :
    choice = {} := by
  have h : (type.oneofs.map fun _ => ({} : Choice Message))[slot]? = some choice := h
  rw [List.getElem?_map] at h
  obtain ⟨_, _, rfl⟩ := Option.map_eq_some_iff.mp h
  rfl

theorem slots_around (hf : type.fields[index]? = some field) {i : Nat} {f : Field} (hfi : type.fields[i]? = some f) :
    (around type index m).body.slots[i]? = some (if i = index then .messages (.ofList [m]) else Slot.new f) := by
  show ((type.fields.map Slot.new).set index (.messages (.ofList [m])))[i]? = _
  by_cases hi : i = index
  · subst hi
    rw [if_pos rfl, List.getElem?_set_self]
    rw [List.length_map]
    exact (List.getElem?_eq_some_iff.mp hf).1
  · rw [if_neg hi, List.getElem?_set_ne (Ne.symm hi), List.getElem?_map, hfi]
    rfl

theorem memberAt_around (f : Field) (i : Nat) : (around type index m).body.memberAt f i = none := by
  unfold Body.memberAt
  cases f.oneof with
  | none => rfl
  | some slot =>
    dsimp only
    cases hc : (around type index m).body.choices[slot]? with
    | none => rfl
    | some choice =>
      rw [choices_around hc]
      rfl

theorem wire_around (hw : type.WellFormed) (hz : type.ZeroDefaults) (hf : type.fields[index]? = some field)
    (hchild : table.childAt type index = type) (m : Message) :
    (around type index m).wire table type = field.tagBytes ++ Frame.encode (m.wire table type) := by
  show (mk (around type index m).body).wire table type = _
  have hsegment : ∀ {i f}, type.fields[i]? = some f →
      (((around type index m).body.mapTyped table type (wire table)).segments type)[i]? =
        some (if i = index then field.tagBytes ++ Frame.encode (m.wire table type) else []) := by
    intro i f hfi
    have hslot := Body.slots_mapTyped table type (wire table) (around type index m).body i
    rw [slots_around hf hfi] at hslot
    rw [Body.getElem?_segments hfi hslot, Body.memberAt_mapTyped, memberAt_around]
    by_cases hi : i = index
    · subst hi
      cases hf.symm.trans hfi
      rw [if_pos rfl, if_pos rfl, hchild]
      exact congrArg some (List.append_nil _)
    · rw [if_neg hi, if_neg hi]
      exact congrArg some (wire_slot_new hw hz (List.mem_of_getElem? hfi) _)
  rw [wire_mk, Body.wire, flatten_eq_of_others ((hsegment hf).trans (congrArg some (if_pos rfl))) ?_]
  · exact List.append_nil _
  · intro j y hy hne
    cases hfj : type.fields[j]? with
    | some f =>
      rw [hsegment hfj, if_neg hne] at hy
      exact (Option.some.inj hy).symm
    | none =>
      have hlen := List.getElem?_eq_none_iff.mp hfj
      have hlt := (List.getElem?_eq_some_iff.mp hy).1
      rw [Body.segments, List.length_mapIdx, List.length_zip] at hlt
      omega

theorem lengths_slot_new {f : Field} {n : Nat} (g : Message → Nat) (h : n ∈ ((Slot.new f).mapParts g g).lengths f) : n = 0 := by
  have hrun : n ∈ (if f.isPacked then [Scalar.sizeAll []] else []) → n = 0 := by
    intro h
    split at h
    · exact List.mem_singleton.mp h
    · cases h
  unfold Slot.new at h
  cases hs : f.strategy with
  | repeated plain | packed plain =>
    rw [hs] at h
    exact hrun h
  | _ =>
    rw [hs] at h
    cases h

theorem fits_around (hf : type.fields[index]? = some field) (hchild : table.childAt type index = type)
    (hm : Fits table type m) (hlt : (m.wire table type).length < 0x100000000) :
    Fits table type (around type index m) := by
  show Fits table type (mk (around type index m).body)
  refine .mk (fun n hn => ?_) ?_
  · rcases List.mem_append.mp hn with hn | hn
    · obtain ⟨⟨f, slot⟩, hp, hn⟩ := List.mem_flatMap.mp hn
      obtain ⟨i, hi⟩ := List.getElem?_of_mem hp
      obtain ⟨hfi, hsi⟩ := List.getElem?_zip_eq_some.mp hi
      dsimp only at hfi hsi
      rw [Body.sizes, Body.slots_mapTyped, slots_around hf hfi] at hsi
      obtain rfl := Option.some.inj hsi
      by_cases he : i = index
      · subst he
        simp only [if_true] at hn
        cases List.mem_singleton.mp hn
        rwa [hchild]
      · simp only [he, if_false] at hn
        rw [lengths_slot_new _ hn]
        decide
    · obtain ⟨choice, hc, hsel⟩ := List.mem_filterMap.mp hn
      obtain ⟨slot, hslot⟩ := List.getElem?_of_mem hc
      rw [Body.sizes, Body.mapTyped, List.getElem?_map] at hslot
      obtain ⟨before, hbefore, rfl⟩ := Option.map_eq_some_iff.mp hslot
      rw [choices_around hbefore] at hsel
      cases hsel
  · rintro ⟨i, x⟩ hx
    rcases Body.mem_parts_iff.mp hx with ⟨slot, hs, hmem⟩ | ⟨_, choice, hc, hsel⟩
    · cases hfi : type.fields[i]? with
      | none =>
        have hlen : i < ((type.fields.map Slot.new).set index (.messages (.ofList [m]))).length :=
          (List.getElem?_eq_some_iff.mp hs).1
        rw [List.length_set, List.length_map] at hlen
        have := List.getElem?_eq_none_iff.mp hfi
        omega
      | some f =>
        rw [slots_around hf hfi] at hs
        obtain rfl := Option.some.inj hs
        by_cases he : i = index
        · subst he
          rw [if_pos rfl] at hmem
          cases List.mem_singleton.mp hmem
          rwa [hchild]
        · rw [if_neg he, Slot.inUse_new] at hmem
          cases hmem
    · rw [choices_around hc] at hsel
      cases hsel

/-- One more level is read where one more is left. -/
theorem absorbs_around (hw : type.WellFormed) (hf : type.fields[index]? = some field) (hs : field.strategy = .messages ref)
    (hchild : table.childAt type index = type) {bytes : Bytes} (hlt : bytes.length < 0x100000000)
    (h : Absorbs table type room bytes (new type) m) :
    Absorbs table type (room + 1) (field.tagBytes ++ Frame.encode bytes) (new type) (around type index m) := by
  have hslot : (new type).body.slots[index]? = some (.messages .empty) := by
    rw [slots_new hf, Slot.new, hs]
  refine absorbs_added hw.toNumbered hf hs (List.getElem?_eq_some_iff.mp hslot).1 (slotAt_of_getElem? hslot) hlt
    (Nat.succ_pos room) ?_
  rw [hchild]
  exact h

/-- What fails at some depth fails one level further in as well. -/
theorem fails_around (hw : type.WellFormed) (hf : type.fields[index]? = some field) (hs : field.strategy = .messages ref)
    (hchild : table.childAt type index = type) {bytes : Bytes} (hlt : bytes.length < 0x100000000)
    (h : (mergeWithin table type room (new type) bytes).2 ≠ none) :
    (mergeWithin table type (room + 1) (new type) (field.tagBytes ++ Frame.encode bytes)).2 ≠ none := by
  have hslot : (new type).slotAt index = .messages .empty := by
    rw [slotAt_of_getElem? (slots_new hf), Slot.new, hs]
  have hopens : Step.Opens ((new type).step table type (Tag.make field.number field.strategy.wireType)) field.tagBytes
      (room + 1) (Frame.encode bytes) bytes true ((new type).setSlot index (.messages (Repeated.empty.push (new type))))
      (.element index) type (new type) := by
    have hread : (new type).readField table type field index field.ownAction = fun r =>
        .ofNested true r ((new type).setSlot index (.messages (Repeated.empty.push (new type)))) (.element index) type
          (new type) := by
      funext r
      simp only [readField, hs, hslot, hchild]
      rfl
    rw [step_own hw.toNumbered hf, hread]
    have hroom : Reader.levels true ≤ room + 1 := Nat.succ_pos room
    exact Step.opens_ofNested (Reader.spells_encode (Nat.lt_trans hlt (by decide))) hroom _ _ _ _
  obtain ⟨hv, hwin⟩ := Reader.valid_ofBytesWithin (field.tagBytes ++ Frame.encode bytes) (room + 1)
  obtain ⟨hv', hwin'⟩ := (Reader.past_pastTag _ field.tagBytes.length).valid hv hwin
  obtain ⟨inner, outer, hstep, hin, _⟩ := hopens _ [] hv' (Reader.behind_pastTag hv hwin)
    (hwin'.trans (List.append_nil _).symm) (Nat.le_refl _)
  obtain ⟨hvb, hwb⟩ := Reader.valid_ofBytesWithin bytes room
  have halike : Reader.Alike (.ofBytesWithin bytes room) inner := by
    refine ⟨hvb, hin.valid, hin.window_eq.trans hwb.symm, ?_⟩
    rw [hin.room_eq]
    rfl
  have hmatches : Reader.Matches _ _ ((new type).merge table type (.ofBytesWithin bytes room)).ending
      ((new type).merge table type inner).ending := (merge_same halike).2
  show (merge table type (new type) (.ofBytesWithin _ (room + 1))).error ≠ none
  rw [merge_into (Reader.readTag_of_spells hv (spells_own hw.toNumbered hf) hwin) hstep]
  cases herror : ((new type).merge table type inner).error with
  | some e => exact Option.some_ne_none e
  | none =>
    rw [Outcome.ending_of_none herror] at hmatches
    cases hbefore : ((new type).merge table type (.ofBytesWithin bytes room)).error with
    | none => exact absurd hbefore h
    | some e =>
      rw [Outcome.ending_of_error hbefore] at hmatches
      cases hmatches

/-- What can be read but not read back where no level is left can stand any number of levels deep. -/
theorem exists_deeper (hw : type.WellFormed) (hz : type.ZeroDefaults)
    (hf : type.fields[index]? = some field) (hs : field.strategy = .messages ref)
    (hchild : table.childAt type index = type) {bytes : Bytes} {last : Message}
    (hlast : mergeWithin table type 0 (new type) bytes = (last, none)) (hfits : Fits table type last)
    (hfails : (mergeWithin table type 0 (new type) (last.wire table type)).2 ≠ none) {wrap : Bytes → Bytes}
    (hwrap : ∀ bytes, wrap bytes = field.tagBytes ++ Frame.encode bytes) (count : Nat)
    (hlen : ∀ n < count, (Nat.repeat wrap n bytes).length < 0x100000000 ∧
      (Nat.repeat wrap n (last.wire table type)).length < 0x100000000) :
    ∃ out, Absorbs table type count (Nat.repeat wrap count bytes) (new type) out ∧ Fits table type out ∧
      out.wire table type = Nat.repeat wrap count (last.wire table type) ∧
      (mergeWithin table type count (new type) (out.wire table type)).2 ≠ none := by
  induction count with
  | zero =>
    obtain ⟨hv, hwin⟩ := Reader.valid_ofBytesWithin bytes 0
    obtain ⟨hmessage, herror⟩ := Prod.mk.inj hlast
    have habsorbs := merge_absorbs hv herror
    rw [hwin, hmessage] at habsorbs
    exact ⟨last, habsorbs, hfits, rfl, hfails⟩
  | succ count ih =>
    obtain ⟨out, habsorbs, hout, hwire, hno⟩ := ih fun n hn => hlen n (Nat.lt_succ_of_lt hn)
    obtain ⟨hbytes, hlength⟩ := hlen count (Nat.lt_succ_self count)
    rw [← hwire] at hlength
    have haround := wire_around hw hz hf hchild out
    refine ⟨around type index out, ?_, fits_around hf hchild hout hlength, ?_, ?_⟩
    · show Absorbs table type (count + 1) (wrap (Nat.repeat wrap count bytes)) _ _
      rw [hwrap]
      exact absorbs_around hw hf hs hchild hbytes habsorbs
    · show _ = wrap (Nat.repeat wrap count (last.wire table type))
      rw [haround, hwrap, hwire]
    · rw [haround]
      exact fails_around hw hf hs hchild hlength hno

end Message

end Protobuf
