/-
  Protobuf.Proofs.Invariant — every message that a program can have is consistent.

  A step of a merge leaves consistent messages (`step_consistent`), hence so does a merge, failed ones included
  (`merge_consistent`). An operation that starts from a consistent message and is handed such leaves one
  (`apply_consistent`). New messages are consistent, and so are all that are reached (`reached_consistent`).
-/

import Protobuf.Proofs.Consistent
import Protobuf.Proofs.Operation

namespace Protobuf

open Schema

/-! ## Reading -/

/-- A step of which the message is stocked and an opened sub-message consistent. -/
def Step.Stocked (table : TypeTable) (type : MessageType) : Step → Prop
  | next m _ => m.Stocked table type
  | stop m _ _ => m.Stocked table type
  | into m _ childType child _ _ => m.Stocked table type ∧ child.Consistent table childType

namespace Message

variable {table : TypeTable} {type childType : MessageType} {m x : Message} {index : Nat} {field : Field} {place : Place}
  {r : Reader}

theorem stocked_ofRead {α : Type} {read : Read α} {change : α → Message} (h : m.Stocked table type)
    (hchange : ∀ v s, read r = .ok v s → (change v).Stocked table type) :
    (Step.ofRead read r m change).Stocked table type := by
  unfold Step.ofRead
  split
  · exact h
  · rename_i v s hr
    exact hchange v s hr

theorem stocked_ofRun {run : Reader.Run} {change : List Scalar → Message}
    (h : (change run.values).Stocked table type) : (Step.ofRun run change).Stocked table type := by
  unfold Step.ofRun
  split
  · exact h
  · exact h

theorem stocked_ofNested {counted : Bool} (h : m.Stocked table type) (hx : Consistent table childType x) :
    (Step.ofNested counted r m place childType x).Stocked table type := by
  unfold Step.ofNested
  split
  · exact h
  · exact ⟨h, hx⟩

theorem readField_stocked (hg : table.Generated) (hw : type.WellFormed) (hf : type.fields[index]? = some field)
    (h : m.Stocked table type) (action : Action) : (m.readField table type field index action r).Stocked table type := by
  have hwc := hg.childAt type index
  have hslot := h.slotAt index
  unfold readField
  cases hs : field.strategy with
  | singular plain presence => exact stocked_ofRead h fun v s _ => h.setScalar ..
  | repeated plain | packed plain =>
    dsimp only
    split
    · exact stocked_ofRun (h.appendScalars ..)
    · exact stocked_ofRead h fun v s _ => h.appendScalars ..
  | texts plain => exact stocked_ofRead (h.addText ..) fun v s _ => (h.addText ..).setLastText ..
  | message ref =>
    dsimp only
    split
    · rename_i value hv
      rw [hv] at hslot
      exact stocked_ofNested (h.setSlot (Slot.stocked_present (hslot.getOrInit hwc))) (hslot.getOrInit hwc)
    · exact h
  | messages ref =>
    dsimp only
    split
    · rename_i values hv
      rw [hv] at hslot
      exact stocked_ofNested (h.setSlot (hslot.pushed (hslot.spare hwc))) (hslot.spare hwc)
    · exact h
  | map key value =>
    obtain ⟨start, htype⟩ := type_of_map hs
    have hplace : (Place.entry index).Suits table type (entryType key value start) := .entry hf htype
    simp only [htype]
    exact stocked_ofNested h (consistent_new table (wellFormed_of_suits hg hw hplace))
  | member slot value =>
    cases value with
    | plain plain => exact stocked_ofRead h fun v s _ => h.setMember nofun
    | message ref =>
      obtain ⟨hstart, hchoice⟩ := (h.choiceAt slot).select hwc
      exact stocked_ofNested (h.setChoice hchoice) hstart

/-- A field that is kept is a whole one, also where what comes after it fails. -/
theorem readUnknown_stocked {tag : Tag} {head : Bytes} (hs : Tag.Spells head tag) (hv : r.Valid)
    (hb : Reader.Behind head r) (hforeign : ∀ entry ∈ type.dispatch, entry.tag ≠ tag) (h : m.Stocked table type) :
    (m.readUnknown type tag r).Stocked table type := by
  unfold readUnknown
  split
  · refine stocked_ofRead h fun raw s hr => ?_
    obtain ⟨payload, rfl, htail⟩ := Reader.readRaw_ok hv hb hr
    exact ⟨h.unknown.append hs htail hforeign, h.inUse, h.aside⟩
  · exact stocked_ofRead h fun _ _ _ => h

theorem step_stocked (hg : table.Generated) (hw : type.WellFormed) {tag : Tag} {head : Bytes}
    (hs : Tag.Spells head tag) (hv : r.Valid) (hb : Reader.Behind head r) (h : m.Stocked table type) :
    (m.step table type tag r).Stocked table type := by
  obtain ⟨entry, f, _, hf, _, _, hstep⟩ | ⟨hfind, hstep⟩ := step_cases table type tag
  · rw [hstep]
    exact readField_stocked hg hw hf h entry.action
  · rw [hstep]
    refine readUnknown_stocked hs hv hb (fun entry he heq => ?_) h
    exact List.find?_eq_none.mp hfind entry he (beq_iff_eq.mpr heq)

end Message

/-- A step that leaves consistent messages, and readers to go on with. -/
inductive Step.Consistent (table : TypeTable) (type : MessageType) : Step → Prop
  | next {m : Message} {r : Reader} : m.Consistent table type → r.Valid → Consistent table type (.next m r)
  | stop {m : Message} (r : Reader) (e : DecodeError) : m.Consistent table type → Consistent table type (.stop m r e)
  | into {m x : Message} {place : Place} {childType : MessageType} {inner outer : Reader} : m.Consistent table type →
      place.Suits table type childType → x.Consistent table childType → inner.Valid → outer.Valid →
      Consistent table type (.into m place childType x inner outer)

namespace Message

variable {table : TypeTable} {type childType : MessageType} {m x : Message} {index : Nat} {place : Place} {r : Reader}

theorem step_consistent (hg : table.Generated) (hw : type.WellFormed) (hm : Consistent table type m) (hv : r.Valid)
    {tag : Tag} {s : Reader} (ht : r.readTag = .ok (some tag) s) : (m.step table type tag s).Consistent table type := by
  have hlawful := Rule.lawful_any table
  have hdefaults : type.Defaults Rule.any.value := fun _ _ _ _ => trivial
  obtain ⟨hvs, _, hsound, hwhole, htwins⟩ := step_behind_sound hg hlawful hw hdefaults hm.held hv (hm.settled.sound _) ht
  obtain ⟨head, rest, hwin, hspells, rfl⟩ := Reader.readTag_some ht
  have hstocked := step_stocked hg hw hspells hvs (Reader.behind_pastTag hv hwin) hm.stocked
  generalize m.step table type tag _ = step at hsound hwhole htwins hstocked
  cases htwins with
  | next r' htwins =>
    obtain ⟨payload, rest, hwin, _, hpast⟩ := hwhole
    exact .next (hstocked.consistent htwins.left hsound.settled) (hpast.valid hvs hwin).1
  | stop r' e htwins => exact .stop r' e (hstocked.consistent htwins.left hsound.settled)
  | into inner outer htwins hp hx =>
    obtain ⟨payload, rest, hwin, _, hpast⟩ := hwhole
    obtain ⟨hsound, hvi, _, _⟩ := hsound
    exact .into (hstocked.1.consistent htwins.left hsound.settled) hp hstocked.2 hvi (hpast.valid hvs hwin).1

theorem put_consistent (hg : table.Generated) (hw : type.WellFormed) (hm : Consistent table type m)
    (hp : place.Suits table type childType) (hx : Consistent table childType x) :
    Consistent table type (m.put table type place x) := by
  have hpeers := hm.peers.put hg hw hp hx.peers
  exact (hm.stocked.put hg hp hx).consistent hpeers.right hpeers.settled

theorem putFailed_consistent (hg : table.Generated) (hw : type.WellFormed) (hm : Consistent table type m)
    (hp : place.Suits table type childType) (hx : Consistent table childType x) :
    Consistent table type (m.putFailed table type place x) := by
  cases hp with
  | entry hf htype => exact hm
  | field hf hs => exact put_consistent hg hw hm (.field hf hs) hx
  | element hf hs => exact put_consistent hg hw hm (.element hf hs) hx
  | member hf hs => exact put_consistent hg hw hm (.member hf hs) hx

/-- Merging leaves a consistent message, also when it fails. -/
theorem merge_consistent (hg : table.Generated) (hw : type.WellFormed) (hm : Consistent table type m) (hv : r.Valid) :
    Consistent table type (m.merge table type r).message := by
  fun_induction merge table type m r with
  | case1 type m r e s ht => exact hm
  | case2 type m r s ht => exact hm
  | case3 type m r tag s ht m' s' e hs =>
    have hstep := step_consistent hg hw hm hv ht
    rw [hs] at hstep
    cases hstep with
    | stop _ _ hm' => exact hm'
  | case4 type m r tag s ht m' s' hs ih =>
    have hstep := step_consistent hg hw hm hv ht
    rw [hs] at hstep
    cases hstep with
    | next hm' hv' => exact ih hw hm' hv'
  | case5 =>
    rename_i type m r tag s ht m' place childType child inner outer hs out e he ih
    have hstep := step_consistent hg hw hm hv ht
    rw [hs] at hstep
    cases hstep with
    | into hm' hp hx hvi _ => exact putFailed_consistent hg hw hm' hp (ih (wellFormed_of_suits hg hw hp) hx hvi)
  | case6 =>
    rename_i type m r tag s ht m' place childType child inner outer hs out he ihInner ihOuter
    have hstep := step_consistent hg hw hm hv ht
    rw [hs] at hstep
    cases hstep with
    | into hm' hp hx hvi hvo =>
      exact ihOuter hw (put_consistent hg hw hm' hp (ihInner (wellFormed_of_suits hg hw hp) hx hvi)) (hvo.tagged _)

/-! ## Measuring and copying -/

theorem consistent_of_mapped {active idle : Nat → Message → Message} {before after : Body Message}
    (h : Body.Mapped active idle before after) (hb : before.Consistent type)
    (hactive : ∀ part ∈ before.inUse, Consistent table (table.childAt type part.1) (active part.1 part.2))
    (hidle : ∀ part ∈ before.aside, Consistent table (table.childAt type part.1) (idle part.1 part.2)) :
    Consistent table type (mk after) :=
  .mk (hb.of_rel h.rel) (h.forall_inUse hactive) (h.forall_aside hidle)

theorem consistent_measureStep (h : Consistent table type m) :
    Consistent table type (m.foldTyped table type measureStep).1 ∧
      Consistent table type (m.foldTyped table type measureStep).2 := by
  induction h with
  | @mk type body level _ _ ihUse ihAside =>
    have hmapped := fun active =>
      Body.Mapped.mapTyped table type (fun t m => m.foldTyped table t measureStep) active Prod.fst body
    have hidle := fun part hp => (ihAside part hp).1
    rw [foldTyped_mk]
    refine ⟨consistent_of_mapped (hmapped Prod.fst) level (fun part hp => (ihUse part hp).1) hidle, ?_⟩
    obtain ⟨slots, choices, presence, unknown⟩ := hmapped Prod.snd
    exact consistent_of_mapped ⟨slots, choices, presence, unknown⟩ level (fun part hp => (ihUse part hp).2) hidle

theorem consistent_copy (h : Consistent table type m) : Consistent table type m.copy := by
  induction h with
  | @mk type body level _ _ ihUse ihAside =>
    have hrel := (copy_same (mk body)).body
    obtain ⟨hinUse, haside⟩ :=
      forall_parts_copy (Q := fun part => Consistent table (table.childAt type part.1) part.2) ihUse ihAside
    rw [copy_mk] at hrel hinUse haside ⊢
    exact .mk (level.of_rel hrel) hinUse haside

/-! ## Operations -/

theorem Stocked.lookup (h : m.Stocked table type) {key : Scalar} (hl : m.lookup index key = some (.message x)) :
    Consistent table (table.childAt type index) x := by
  have hslot := h.slotAt index
  obtain ⟨entry, hfind, hvalue⟩ := Option.map_eq_some_iff.mp hl
  have he := List.mem_of_find?_eq_some hfind
  unfold Message.entries at he
  split at he
  · rename_i entries hs
    rw [hs] at hslot
    refine hslot.inUse x (List.mem_filterMap.mpr ⟨entry, he, ?_⟩)
    rw [hvalue]
    rfl
  · cases he

/-- The sub-message that an operation goes on in, and what becomes of the message with another in its place. -/
theorem Consistent.enter (hg : table.Generated) (hm : Consistent table type m) (hw : type.WellFormed) {place : Inner}
    (hplace : place.Suits type) {back : Message → Message} (h : m.enter table type place = some (x, back)) :
    Consistent table (table.childAt type place.index) x ∧
      ∀ y, Consistent table (table.childAt type place.index) y → (back y).Stocked table type := by
  have hstocked := hm.stocked
  cases hplace with
  | @start index strategy ref hat href =>
    obtain ⟨hf, rfl⟩ := MessageType.fieldAt_of_strategyAt hat
    obtain ⟨m', _, here, _, _, hstart, _, _, hsuits, _⟩ := hm.peers.start hg hw hf href
    obtain ⟨hm', hx⟩ := hstocked.start (hg.childAt type index) (type.fieldAt index)
    simp only [Message.enter, hstart] at h hm' hx
    cases h
    exact ⟨hx, fun y hy => hm'.put hg hsuits hy⟩
  | @element index ref position hat =>
    have hslot := hstocked.slotAt index
    unfold Message.enter at h
    dsimp only at h
    split at h
    · rename_i values hs
      obtain ⟨x, hx, he⟩ := Option.map_eq_some_iff.mp h
      cases he
      refine ⟨?_, fun y hy => hstocked.setSlot (hslot.replace position fun z hz => ?_)⟩
      · rw [hs] at hslot
        exact hslot.inUse x (List.mem_of_getElem? hx)
      · cases hz
        exact hy
    · cases h
  | @entry index key ref found hat =>
    unfold Message.enter at h
    dsimp only at h
    split at h
    · rename_i hl
      cases h
      refine ⟨hstocked.lookup hl, fun y hy => hstocked.insertEntry fun z hz => ?_⟩
      cases hz
      exact hy
    · cases h

end Message

theorem Value.Rel.consistent {table : TypeTable} {child : MessageType} {v w : Value Message}
    (h : v.Rel (fun x y => x = y ∧ x.Consistent table child) w) {x : Message} (hx : v = .message x) :
    x.Consistent table child := by
  cases h with
  | scalar value => cases hx
  | message hxy =>
    cases hx
    exact hxy.2

theorem Slot.Rel.stocked {table : TypeTable} {child : MessageType} {strategy : Strategy} {s t : Slot Message}
    (h : s.Rel (fun x y => x = y ∧ x.Consistent table child) t) (hform : Slot.Form strategy t)
    (haside : ∀ x ∈ s.aside, x.Consistent table child) : s.Stocked table child := by
  refine ⟨fun x hx => ?_, haside⟩
  obtain ⟨y, _, _, hx⟩ := h.exists_inUse hform hx
  exact hx

namespace Message

variable {table : TypeTable} {type : MessageType} {m : Message} {operation operation' : Operation}

/-- An operation leaves the outermost level in form, so only what that stores is left to follow. -/
theorem consistent_of_apply (hg : table.Generated)
    (h : operation.Rel table (fun childType x y => x = y ∧ Consistent table childType x) (Consistent table) type operation')
    (hw : type.WellFormed) (hm : Consistent table type m) (hs : (m.apply table type operation).1.Stocked table type) :
    Consistent table type (m.apply table type operation).1 := by
  have hop : operation.Rel table (Message.Peers table) (Held table) type operation' := by
    refine h.imp ?_ fun childType x hx => hx.held
    rintro childType x _ ⟨rfl, hx⟩
    exact hx.peers
  have hpeers := (apply_peers hg hop hw hm.peers).1
  exact hs.consistent hpeers.left (hpeers.settled.of_same hpeers.right hpeers.same)

theorem apply_stocked (hg : table.Generated)
    (h : operation.Rel table (fun childType x y => x = y ∧ Consistent table childType x) (Consistent table) type operation')
    (hw : type.WellFormed) (hm : Consistent table type m) : (m.apply table type operation).1.Stocked table type := by
  have hstocked := hm.stocked
  induction h generalizing m with
  | read type index => exact hstocked
  | set hat hv hsuits hvw => exact hstocked.set _ fun _ => hvw.consistent
  | extend more hat => exact hstocked.extend ..
  | clearField hat => exact hstocked.clearField ..
  | @add type index strategy valueType v w hat he hsuits hvw =>
    cases hvw with
    | message hxy => exact hstocked.setSlot ((hstocked.slotAt index).push hxy.2)
    | scalar value => exact hstocked.add ..
  | pop hat he => exact hstocked.pop _
  | @truncate type index strategy valueType size hat he =>
    exact hstocked.setSlot ((hstocked.slotAt index).truncate size)
  | @arrange type index strategy valueType order hat he =>
    exact hstocked.setSlot ((hstocked.slotAt index).arrange order)
  | @replace type index strategy valueType position v w hat he hsuits hvw =>
    exact hstocked.setSlot ((hstocked.slotAt index).replace position fun _ => hvw.consistent)
  | @take type index ref hat => exact hstocked.setSlot (hstocked.slotAt index).take
  | insert hat hsuits hvw => exact hstocked.insertEntry fun _ => hvw.consistent
  | remove key hat => exact hstocked.removeEntry ..
  | assign hat hne hform hrel haside =>
    exact hstocked.setSlot (hrel.stocked hform fun x hx => haside x (List.mem_append_left _ hx))
  | @clearChoice type slot hlt => exact hstocked.setChoice (hstocked.choiceAt slot).stash
  | takeChoice hlt => exact hstocked.takeChoice _
  | clear type => exact (hm.clear hw).stocked
  | merge type maxDepth bytes => exact (merge_consistent hg hw hm (Reader.valid_ofBytesWithin bytes maxDepth).1).stocked
  | encode type => exact (consistent_measureStep hm).2.stocked
  | size type => exact (consistent_measureStep hm).2.stocked
  | isComplete type => exact hstocked
  | hash type => exact hstocked
  | copy type => exact (consistent_copy hm).stocked
  | @inside type place operation operation' hplace hop ih =>
    unfold Message.apply
    cases henter : m.enter table type place with
    | none => exact hstocked
    | some entered =>
      obtain ⟨x, back⟩ := entered
      obtain ⟨hx, hback⟩ := hm.enter hg hw hplace henter
      have hwc := hg.childAt type place.index
      exact hback _ (consistent_of_apply hg hop hwc hx (ih hwc hx hx.stocked))

/-- An operation leaves a consistent message if it starts from one and is handed such. -/
theorem apply_consistent (hg : table.Generated)
    (h : operation.Rel table (fun childType x y => x = y ∧ Consistent table childType x) (Consistent table) type operation')
    (hw : type.WellFormed) (hm : Consistent table type m) : Consistent table type (m.apply table type operation).1 :=
  consistent_of_apply hg h hw hm (apply_stocked hg h hw hm)

/-! ## Reached messages -/

theorem Arises.consistent (hg : table.Generated) {idle : Bool} (h : Arises table idle type m) :
    type.WellFormed ∧ Consistent table type m := by
  induction h with
  | new htype => exact ⟨hg.wellFormed htype, consistent_new table (hg.wellFormed htype)⟩
  | @apply type m operation given kept _ _ _ hop ih ihGiven ihKept =>
    obtain ⟨hw, hm⟩ := ih
    refine ⟨hw, apply_consistent hg (hop.imp ?_ fun childType x hx => (ihKept childType x hx).2) hw hm⟩
    rintro childType x y ⟨hxy, hx⟩
    exact ⟨hxy, (ihGiven childType x hx).2⟩
  | @inside idle type m part _ hp ih => exact ⟨hg.childAt type part.1, ih.2.stocked.inUse part hp⟩
  | @aside idle type m part _ hp ih => exact ⟨hg.childAt type part.1, ih.2.stocked.aside part hp⟩
  | dropped _ ih => exact ih

/-- Every message that is reached from new ones by operations, merges that fail among them, is consistent at
    every level: clear presence bits stand for defaults, unknown bytes are whole foreign fields, and containers
    hold what they count. -/
theorem reached_consistent (hg : table.Generated) (type : MessageType) (m : Message) (h : Reached table type m) :
    Consistent table type m :=
  (Arises.consistent hg h).2

set_option maxRecDepth 100000 in
/-- Reading breaks off behind a number of retries, nested settings and a field that is not known. Both fields
    are cleared: the retries are at their default of three again, and the nested settings are kept aside with the
    unknown field that they have of their own. -/
theorem reached_consistent_settings :
    let table := Sample.Legacy.table
    let settings := table.message "demo.legacy.Settings"
    let bytes : Bytes := [0x08, 7, 0x52, 4, 0x08, 9, 0x78, 1, 0x78, 2, 0x12, 5]
    let m := ((new settings).run table settings [.merge 100 bytes, .clearField 0, .clearField 9]).1
    ((new settings).mergeWithin table settings 100 bytes).2.isSome = true ∧ m.body.unknown = [0x78, 2] ∧
      (m.slotAt 0).values = [.int32 3] ∧ (m.slotAt 9).aside.map (fun x => x.body.unknown) = [[0x78, 1]] ∧
      Reached table settings m ∧ Consistent table settings m := by
  intro table settings bytes m
  have hg : table.Generated := generated_tableOf _ _
  obtain ⟨hnamed, hfails, hunknown, hretries, hnested, ⟨_, hfirst⟩, _, htenth⟩ :
      (table.messages.any fun type => type.fullName == "demo.legacy.Settings") = true ∧
      ((new settings).mergeWithin table settings 100 bytes).2.isSome = true ∧ m.body.unknown = [0x78, 2] ∧
      (m.slotAt 0).values = [.int32 3] ∧ (m.slotAt 9).aside.map (fun x => x.body.unknown) = [[0x78, 1]] ∧
      (∃ strategy, settings.strategyAt 0 = some strategy) ∧ ∃ strategy, settings.strategyAt 9 = some strategy := by
    simp only [← Option.isSome_iff_exists]
    decide +kernel
  have hnew : Reached table settings (new settings) := Arises.new (TypeTable.message_mem hnamed)
  have hmerged := hnew.apply (.merge settings 100 bytes)
  have hm : Reached table settings m := (hmerged.apply (.clearField hfirst)).apply (.clearField htenth)
  exact ⟨hfails, hunknown, hretries, hnested, hm, reached_consistent hg settings m hm⟩

end Message

end Protobuf
