/-
  Protobuf.Proofs.Confined — merging is confined to the bytes before the limit.

  A merge that succeeds ends at the limit, with the reader otherwise as it was (`merge_past`). On a reader
  made of just those bytes, with as many levels left, it gives the same message and ends the same way
  (`merge_alone`). So a message behind its length is read as its payload alone would be, with one level less
  (`mergeNested_alone`), and this is how a merge reads its sub-messages (`readOne_nested`).
-/

import Protobuf.Proofs.Fields

namespace Protobuf

open Schema

namespace Reader

theorem alike_alone {r : Reader} (hv : r.Valid) : Alike r (ofBytesWithin r.window r.room) := by
  obtain ⟨hv', hw'⟩ := valid_ofBytesWithin r.window r.room
  exact ⟨hv, hv', hw', rfl⟩

theorem Past.pos_eq_limit {r s : Reader} {depth : Nat} (hv : r.Valid) (h : Past r r.window.length depth s) :
    s.pos = r.limit := by
  have hle := hv.pos_le
  have hpos := h.pos_eq
  rw [length_window hv, left] at hpos
  omega

theorem Inside.alike {r inner : Reader} {counted : Bool} {body : Bytes} (h : Inside r counted body inner) :
    Alike inner (ofBytesWithin body (r.room - levels counted)) := by
  have hal := alike_alone h.valid
  rwa [h.window_eq, h.room_eq] at hal

end Reader

theorem Step.ofNested_into {counted : Bool} {r inner outer : Reader} {m m' child child' : Message} {place place' : Place}
    {type type' : MessageType} (h : ofNested counted r m place type child = .into m' place' type' child' inner outer) :
    place' = place ∧ ∃ s, Reader.openNested counted r = .ok ⟨inner, outer⟩ s := by
  unfold ofNested at h
  split at h
  · cases h
  · rename_i nested s ho
    cases h
    exact ⟨rfl, s, ho⟩

namespace Message

variable {table : TypeTable} {type : MessageType} {m : Message} {r : Reader}

/-- A merge that succeeds takes all bytes before the limit. -/
theorem merge_past (hv : r.Valid) (h : (m.merge table type r).error = none) :
    Reader.Past r r.window.length r.depth (m.merge table type r).reader := by
  obtain ⟨s, hs, hp⟩ := (merge_absorbs hv h).merge_eq hv rfl (Nat.le_refl _)
  rw [hs]
  exact hp

/-- The bytes before the limit and the levels left decide how a merge goes. -/
theorem merge_alone (hv : r.Valid) :
    let out := m.merge table type r
    let alone := m.merge table type (.ofBytesWithin r.window r.room)
    alone.message = out.message ∧ Reader.Matches r.maxDepth r.room out.ending alone.ending :=
  merge_same (Reader.alike_alone hv)

/-! ## Behind a length -/

variable (table type m) in
theorem mergeNested_of_open {nested : Reader.Nested} {s : Reader} (ho : Reader.openNested true r = .ok nested s) :
    m.mergeNested table type r =
      let out := m.merge table type nested.inner
      match out.error with
      | some _ => out
      | none => { out with reader := nested.outer.tagged out.reader.tagStart } := by
  rw [mergeNested, ho]
  rfl

variable (table type m) in
/-- What was opened is merged, and on success the reader is behind it. -/
theorem mergeNested_open {nested : Reader.Nested} {s : Reader} (ho : Reader.openNested true r = .ok nested s) :
    (m.mergeNested table type r).message = (m.merge table type nested.inner).message ∧
      (m.mergeNested table type r).error = (m.merge table type nested.inner).error ∧
      ((m.merge table type nested.inner).error = none → (m.mergeNested table type r).reader =
        nested.outer.tagged (m.merge table type nested.inner).reader.tagStart) := by
  rw [mergeNested_of_open table type m ho]
  cases he : (m.merge table type nested.inner).error with
  | some e =>
    simp only [he]
    exact ⟨trivial, trivial, nofun⟩
  | none =>
    simp only [he]
    exact ⟨trivial, trivial, fun _ => trivial⟩

/-- A message behind its length is read as its payload alone, with one level less. -/
theorem mergeNested_alone (hv : r.Valid) {head body rest : Bytes} (hw : r.window = head ++ (body ++ rest))
    (hs : Varint.Spells head body.length) (hroom : 1 ≤ r.room) :
    let nested := m.mergeNested table type r
    let alone := m.merge table type (.ofBytesWithin body (r.room - 1))
    alone.message = nested.message ∧ Reader.Matches r.maxDepth (r.room - 1) nested.ending alone.ending ∧
      (nested.error = none → Reader.Past r (head ++ body).length r.depth nested.reader) := by
  intro nested alone
  have hlevel : Reader.levels true ≤ r.room := hroom
  obtain ⟨opened, s, ho, hin, hpast⟩ := Reader.openNested_of_spells hv hw hs hlevel
  obtain ⟨hmessage, herror, hreader⟩ := mergeNested_open table type m ho
  obtain ⟨hsame, hending⟩ : alone.message = _ ∧ Reader.Matches _ _ _ alone.ending := merge_same hin.alike
  refine ⟨hsame.trans hmessage.symm, ?_, fun hok => ?_⟩
  · have heq : nested.ending = (m.merge table type opened.inner).ending := by
      show Outcome.ending nested = _
      rw [Outcome.ending, Outcome.ending, herror]
    rw [heq]
    exact hending.within hin.maxDepth_eq rfl
  · rw [hreader (herror.symm.trans hok)]
    exact hpast.tagged _

/-! ## Sub-messages of a merge -/

variable {tag : Tag} {m' child : Message} {place : Place} {childType : MessageType} {inner outer : Reader}

theorem readField_into {field : Field} {index : Nat} {action : Action}
    (h : m.readField table type field index action r = .into m' place childType child inner outer)
    (hplace : ∀ index, place ≠ .entry index) : ∃ s, Reader.openNested true r = .ok ⟨inner, outer⟩ s := by
  refine readField_forms table type (P := fun f => f r = .into m' place childType child inner outer → _) field index
    action m ?_ ?_ ?_ (fun hf => by cases hf) h
  · intro kind n change hf
    replace hf : Step.ofRead (Reader.readScalar kind) r n change = _ := hf
    unfold Step.ofRead at hf
    split at hf <;> cases hf
  · intro kind change hf
    replace hf : Step.ofRun (Reader.readRun kind r) change = _ := hf
    unfold Step.ofRun at hf
    split at hf <;> cases hf
  · intro counted n place' type' child' hcounted hf
    obtain ⟨rfl, hopen⟩ := Step.ofNested_into hf
    rcases hcounted with rfl | rfl
    · exact hopen
    · exact absurd rfl (hplace _)

theorem step_into (h : m.step table type tag r = .into m' place childType child inner outer)
    (hplace : ∀ index, place ≠ .entry index) : ∃ s, Reader.openNested true r = .ok ⟨inner, outer⟩ s := by
  unfold step at h
  split at h
  · exact readField_into h hplace
  · unfold readUnknown Step.ofRead at h
    split at h <;> split at h <;> cases h

/-- A sub-message that is not a map entry is read as a message behind its length, and put back. -/
theorem readOne_nested (h : m.step table type tag r = .into m' place childType child inner outer)
    (hplace : ∀ index, place ≠ .entry index) :
    let nested := child.mergeNested table childType r
    m.readOne table type tag r = ⟨m'.put table type place nested.message, nested.reader, nested.error⟩ := by
  intro nested
  obtain ⟨s, ho⟩ := step_into h hplace
  have hfailed : ∀ x, m'.putFailed table type place x = m'.put table type place x := by
    intro x
    cases place with
    | entry index => exact absurd rfl (hplace index)
    | field | element | member => rfl
  have hnested : nested = _ := mergeNested_of_open table childType child ho
  rw [hnested]
  dsimp only
  cases he : (child.merge table childType inner).error with
  | some e =>
    rw [readOne_into_failed h he, hfailed]
    simp only [he]
  | none => rw [readOne_into h he]

/-- Merging depends on nothing but the bytes before the limit and the levels left. If it succeeds, the reader
    ends at the limit and is otherwise as it was; a reader of its own over just those bytes gives the same
    message and, but for the limit that an error of depth names, the same ending. A message behind its length
    is read in this way, with one level less, and so are the sub-messages of a merge. -/
theorem merge_confined (table : TypeTable) (type : MessageType) (m : Message) (r : Reader) (hv : r.Valid) :
    (let out := m.merge table type r
      let alone := m.merge table type (.ofBytesWithin r.window r.room)
      (out.error = none → out.reader.pos = r.limit ∧ out.reader.limit = r.limit ∧ out.reader.depth = r.depth ∧
        out.reader.maxDepth = r.maxDepth) ∧
      alone.message = out.message ∧ Reader.Matches r.maxDepth r.room out.ending alone.ending) ∧
    (∀ head body rest, r.window = head ++ (body ++ rest) → Varint.Spells head body.length → r.depth < r.maxDepth →
      let nested := m.mergeNested table type r
      let alone := m.merge table type (.ofBytesWithin body (r.room - 1))
      alone.message = nested.message ∧ Reader.Matches r.maxDepth (r.room - 1) nested.ending alone.ending ∧
        (nested.error = none → Reader.Past r (head ++ body).length r.depth nested.reader)) ∧
    (∀ tag m' place childType child inner outer, m.step table type tag r = .into m' place childType child inner outer →
      (∀ index, place ≠ .entry index) →
      let nested := child.mergeNested table childType r
      m.readOne table type tag r = ⟨m'.put table type place nested.message, nested.reader, nested.error⟩) := by
  refine ⟨⟨fun hok => ?_, merge_alone hv⟩, ?_, ?_⟩
  · have hpast := merge_past hv hok
    exact ⟨hpast.pos_eq_limit hv, hpast.limit_eq, hpast.depth_eq, hpast.maxDepth_eq⟩
  · intro head body rest hw hs hlt
    exact mergeNested_alone hv hw hs (Nat.sub_pos_of_lt hlt)
  · intro tag m' place childType child inner outer hinto hplace
    exact readOne_nested hinto hplace

set_option maxRecDepth 100000 in
/-- A shape with an origin, two levels below the limit and between bytes that are no fields; then the origin by
    itself, behind its length. -/
theorem merge_confined_origin :
    let table := Sample.Shapes.table
    let shape := table.message "demo.shapes.Shape"
    let point := table.message "demo.shapes.Point"
    let r : Reader := { buffer := #[0xff, 0x1a, 2, 0x08, 5, 0xff], pos := 1, limit := 5, depth := 3, maxDepth := 5 }
    let behind : Reader := { r with pos := 2, limit := 6 }
    (let out := (new shape).merge table shape r
      let alone := (new shape).merge table shape (.ofBytesWithin [0x1a, 2, 0x08, 5] 2)
      out.error = none ∧ out.reader.pos = 5 ∧ out.reader.limit = 5 ∧ out.reader.depth = 3 ∧ out.reader.maxDepth = 5 ∧
        alone.message = out.message) ∧
      (let nested := (new point).mergeNested table point behind
        let alone := (new point).merge table point (.ofBytesWithin [0x08, 5] 1)
        nested.error = none ∧ alone.message = nested.message ∧ nested.reader.pos = 5 ∧ nested.reader.limit = 6) := by
  intro table shape point r behind
  have hv : r.Valid := ⟨by decide, by decide⟩
  have hvbehind : behind.Valid := ⟨by decide, by decide⟩
  have hok : ((new shape).merge table shape r).error = none := by decide +kernel
  have hokbehind : ((new point).mergeNested table point behind).error = none := by decide +kernel
  obtain ⟨⟨hends, hsame, _⟩, _, _⟩ := merge_confined table shape (new shape) r hv
  obtain ⟨hpos, hlimit, hdepth, hmax⟩ := hends hok
  obtain ⟨_, hnested, _⟩ := merge_confined table point (new point) behind hvbehind
  obtain ⟨halone, _, hpast⟩ := hnested [2] [0x08, 5] [0xff] (by decide) rfl (by decide)
  exact ⟨⟨hok, hpos, hlimit, hdepth, hmax, hsame⟩,
    hokbehind, halone, (hpast hokbehind).pos_eq, (hpast hokbehind).limit_eq⟩

end Message

end Protobuf
