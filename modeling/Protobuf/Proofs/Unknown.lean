/-
  Protobuf.Proofs.Unknown — fields that a type does not have.

  A tag that is not in the dispatch table of a type is foreign to it, also if the number is known with
  another wire type. Of the fields that a merge runs over, the foreign ones are appended as they stand to the
  unknown bytes (`Runs.unknown`), or leave the message as it is where the type keeps none (`Runs.known`).

  A message that was read can be written and read again (`mergeBytes_unknown`), if its sub-messages nest no
  deeper than reading allows. They can be one level deeper: a map entry without a value has a new message
  (`mergeBytes_unknown_deeper`).
-/

import Protobuf.Proofs.Nesting
import Protobuf.Proofs.Reordering
import Protobuf.Proofs.Sound

namespace Protobuf

open Schema

/-! ## Foreign fields -/

/-- Whether the type has no field for the tag. -/
def Schema.MessageType.isForeign (type : MessageType) (tag : Tag) : Bool :=
  type.dispatch.all fun entry => entry.tag != tag

theorem Schema.MessageType.isForeign_iff {type : MessageType} {tag : Tag} :
    type.isForeign tag = true ↔ ∀ entry ∈ type.dispatch, entry.tag ≠ tag := by
  simp only [isForeign, List.all_eq_true, bne_iff_ne]

theorem Schema.MessageType.region_of_known {type : MessageType} {tag : Tag} (h : type.isForeign tag = false) :
    type.region tag ≠ .unknown := by
  obtain ⟨entry, he, htag⟩ := List.all_eq_false.mp h
  have hsome : (type.dispatch.find? fun entry => entry.tag == tag) ≠ none := by
    intro hnone
    exact List.find?_eq_none.mp hnone entry he (by simpa using htag)
  unfold region
  cases hfind : type.dispatch.find? fun entry => entry.tag == tag with
  | none => exact absurd hfind hsome
  | some entry =>
    dsimp only
    split <;> exact nofun

theorem bytesOf_append (a b : List (Tag × Bytes)) : bytesOf (a ++ b) = bytesOf a ++ bytesOf b := List.flatMap_append

theorem Complete.append {depth : Nat} {a b : List (Tag × Bytes)} (ha : Complete depth a) (hb : Complete depth b) :
    Complete depth (a ++ b) := by
  induction a with
  | nil => exact hb
  | cons field a ih =>
    obtain ⟨tag, bytes⟩ := field
    obtain ⟨⟨head, payload, rfl, hs, ht⟩, hrest⟩ := complete_cons_inv ha
    exact complete_cons hs ht (ih hrest)

namespace Message

variable {table : TypeTable} {type : MessageType} {room : Nat} {m m' out : Message} {fields : List (Tag × Bytes)} {tag : Tag}
  {head payload : Bytes}

/-- A foreign field is kept as it stands, or skipped. -/
theorem Reads.foreign (h : Reads table type room tag head payload m m') (htail : Tail room tag payload)
    (hforeign : type.isForeign tag = true) : m' = if type.keepsUnknown then m.addUnknown (head ++ payload) else m := by
  obtain ⟨r, hv, hb, hw, hroom⟩ := exists_behind room head payload
  obtain ⟨s, hs, _⟩ := h r [] hv hb hw (Nat.le_of_eq hroom.symm)
  obtain ⟨s', hnext, _⟩ := nexts_unknown type htail m head r [] hv hb hw (Nat.le_of_eq hroom.symm)
  rw [readOne_next ((congrFun (step_unknown (MessageType.isForeign_iff.mp hforeign)) r).trans hnext)] at hs
  exact (congrArg Outcome.message hs).symm

/-- Another field leaves the unknown bytes as they are. -/
theorem Reads.unknown_eq (h : Reads table type room tag head payload m m') (hknown : type.isForeign tag = false) :
    m'.body.unknown = m.body.unknown := by
  refine h.keeps.cells .unknown fun hcovers => ?_
  have hne := MessageType.region_of_known hknown
  cases hregion : type.region tag with
  | unknown => exact hne hregion
  | field index =>
    rw [hregion] at hcovers
    rcases hcovers with hcovers | ⟨_, _, _, _, hcovers⟩ <;> cases hcovers
  | oneof slot =>
    rw [hregion] at hcovers
    cases hcovers

/-- The foreign fields are appended to the unknown bytes in the order they came. -/
theorem Runs.unknown (h : Runs table type room m fields out) (hkeeps : type.keepsUnknown = true) :
    out.body.unknown = m.body.unknown ++ bytesOf (fields.filter fun field => type.isForeign field.1) := by
  induction h with
  | nil m => exact (List.append_nil _).symm
  | @cons m m' out tag head payload fields spells tail reads rest ih =>
    rw [ih, List.filter_cons]
    cases hforeign : type.isForeign tag with
    | true =>
      rw [reads.foreign tail hforeign, if_pos hkeeps, if_pos rfl, bytesOf_cons, ← List.append_assoc]
      rfl
    | false =>
      rw [reads.unknown_eq hforeign]
      rfl

/-- Where a type keeps no unknown bytes, foreign fields make no difference. -/
theorem Runs.known (h : Runs table type room m fields out) (hkeeps : type.keepsUnknown = false) :
    Runs table type room m (fields.filter fun field => !type.isForeign field.1) out := by
  induction h with
  | nil m => exact .nil m
  | @cons m m' out tag head payload fields spells tail reads rest ih =>
    rw [List.filter_cons]
    cases hforeign : type.isForeign tag with
    | true =>
      rw [reads.foreign tail hforeign, hkeeps] at ih
      exact ih
    | false => exact .cons spells tail reads ih

/-- By itself, a foreign field is consumed. -/
theorem mergeWithin_foreign (hcomplete : Complete room fields) {field : Tag × Bytes} (hmem : field ∈ fields)
    (hforeign : type.isForeign field.1 = true) (hkeeps : type.keepsUnknown = false) (m : Message) :
    mergeWithin table type room m field.2 = (m, none) := by
  induction fields with
  | nil => cases hmem
  | cons first fields ih =>
    obtain ⟨tag, bytes⟩ := first
    obtain ⟨⟨head, payload, rfl, hs, ht⟩, hrest⟩ := complete_cons_inv hcomplete
    rcases List.mem_cons.mp hmem with rfl | hmem
    · have hstep : m.step table type tag = m.readUnknown type tag := step_unknown (MessageType.isForeign_iff.mp hforeign)
      have hread := nexts_unknown type ht m head
      rw [hkeeps, ← hstep] at hread
      obtain ⟨hv, hw⟩ := Reader.valid_ofBytesWithin (head ++ payload) room
      obtain ⟨s, hmerge, _⟩ := (absorbs_next hs hread).merge_eq hv hw (Nat.le_refl _)
      rw [mergeWithin, hmerge]
      rfl
    · exact ih hrest hmem

/-! ## What was read can be read again -/

/-- Texts fit in memory, and unknown bytes are foreign fields with groups no deeper than levels are left. -/
def readRule : Rule where
  value := Scalar.Sized
  unknown := fun room type bytes => ∃ fields, bytes = bytesOf fields ∧ Complete room fields ∧
    ∀ field ∈ fields, ∀ entry ∈ type.dispatch, entry.tag ≠ field.1

theorem readRule_append {room : Nat} {type : MessageType} {old : Bytes} {tag : Tag} {head payload : Bytes}
    (h : readRule.unknown room type old) (hs : Tag.Spells head tag) (ht : Tail room tag payload)
    (htag : ∀ entry ∈ type.dispatch, entry.tag ≠ tag) : readRule.unknown room type (old ++ (head ++ payload)) := by
  obtain ⟨fields, rfl, hcomplete, hforeign⟩ := h
  refine ⟨fields ++ [(tag, head ++ payload)], ?_, hcomplete.append (complete_cons hs ht (.nil room)), ?_⟩
  · rw [bytesOf_append, bytesOf_cons]
    exact (congrArg _ (List.append_nil _)).symm
  · intro field hf
    rcases List.mem_append.mp hf with hf | hf
    · exact hforeign field hf
    · cases List.mem_singleton.mp hf
      exact htag

theorem lawful_read (h : ∀ type ∈ table.messages, type.Defaults Scalar.Sized) : readRule.Lawful table where
  sized := id
  defaults := h
  nil := fun room _ => ⟨[], rfl, .nil room, nofun⟩
  append := readRule_append

theorem Sound.typed (h : Sound table readRule room type m) (hm : Held table type m) : Typed table type m := by
  induction h with
  | mk values _ _ _ ih =>
    cases hm with
    | mk shaped inUse _ => exact .mk ⟨shaped, values⟩ fun part hp => ih part hp (inUse part hp)

/-- The number of levels of sub-messages in use. -/
def height : Message → Nat := fold fun body => (body.inUse.map fun part => part.2 + 1).foldr max 0

theorem height_lt {body : Body Message} {part : Nat × Message} (h : part ∈ body.inUse) : part.2.height < (mk body).height := by
  have hle : ∀ {list : List Nat} {n}, n ∈ list → n ≤ list.foldr max 0 := by
    intro list n hn
    induction list with
    | nil => cases hn
    | cons a list ih =>
      rw [List.foldr_cons]
      rcases List.mem_cons.mp hn with rfl | hn
      · exact Nat.le_max_left ..
      · exact Nat.le_trans (ih hn) (Nat.le_max_right ..)
  obtain ⟨index, x⟩ := part
  have hpart : (index, x.height) ∈ (body.map height).inUse := by
    rw [Body.map_eq_mapTyped default default]
    exact (Body.inUse_mapTyped default default _ body).mpr ⟨x, h, rfl⟩
  rw [height, fold_mk]
  exact hle (List.mem_map_of_mem hpart)

theorem Sound.nests (h : Sound table readRule room type m) (hle : m.height ≤ room) : Nests table room type m := by
  induction h with
  | mk _ _ unknown _ ih =>
    obtain ⟨fields, hbytes, hcomplete, hforeign⟩ := unknown
    refine .mk hbytes hcomplete hforeign (fun part hp => ?_) fun part hp => ih part hp ?_
    · have := height_lt hp
      omega
    · have := height_lt hp
      omega

/-- A message read into a new one. -/
theorem sound_of_mergeBytes (hg : table.Generated) (htype : type ∈ table.messages)
    (hd : ∀ type ∈ table.messages, type.Defaults Scalar.Sized) {bytes : Bytes}
    (h : mergeBytes table type (new type) bytes = (out, none)) :
    Sound table readRule 100 type out ∧ Typed table type out := by
  have hw := hg.wellFormed htype
  have hl := lawful_read hd
  obtain ⟨hv, _⟩ := Reader.valid_ofBytesWithin bytes 100
  have hout : (merge table type (new type) (.ofBytesWithin bytes 100)).message = out := congrArg Prod.fst h
  have hsound : Sound table readRule 100 type out :=
    hout ▸ merge_sound hg hl hw (hd type htype) (held_new table hw) hv (sound_new hl hw (hd type htype) _)
  exact ⟨hsound, hsound.typed (hout ▸ held_merge hg hw (held_new table hw) _)⟩

/-- A message read into a new one is read back from its bytes. -/
theorem mergeBytes_again (hg : table.Generated) (htype : type ∈ table.messages)
    (hd : ∀ type ∈ table.messages, type.Defaults Scalar.Sized) {bytes : Bytes}
    (h : mergeBytes table type (new type) bytes = (out, none)) (hf : Fits table type out)
    (hz : ZeroDefaults table type out) (hheight : out.height ≤ 100) :
    ∃ back, mergeBytes table type (new type) (out.encode table type) = (back, none) ∧ back.Same out := by
  have hw := hg.wellFormed htype
  obtain ⟨hsound, htyped⟩ := sound_of_mergeBytes hg htype hd h
  have hlays := lays_of_typed hg.childAt hw htyped hf (hsound.nests hheight)
  obtain ⟨back, hmerge, hback⟩ := mergeBytes_of_lays hlays htyped hf (held_new table hw)
  exact ⟨back, hmerge, hback.trans (overlay_new hg.childAt hw htyped hsound.settled hz)⟩

/-- Bytes that merge are complete fields in just one way. The foreign ones among them are appended as they
    stand to the unknown bytes, or have no effect if the type keeps none; and a message read into a new one
    is written with them at the end, and read back if it nests no deeper than reading allows. -/
theorem mergeBytes_unknown (table : TypeTable) (type : MessageType) (m out : Message) (bytes : Bytes)
    (hg : table.Generated) (htype : type ∈ table.messages) (hm : Held table type m)
    (h : mergeBytes table type m bytes = (out, none)) :
    ∃ fields, Complete 100 fields ∧ bytesOf fields = bytes ∧
      (∀ depth others, Complete depth others → bytesOf others = bytes → others = fields) ∧
      (type.keepsUnknown = true →
        out.body.unknown = m.body.unknown ++ bytesOf (fields.filter fun field => type.isForeign field.1) ∧
        (m = new type →
          (∃ front, out.encode table type = front ++ bytesOf (fields.filter fun field => type.isForeign field.1)) ∧
          ((∀ type ∈ table.messages, type.Defaults Scalar.Sized) → Fits table type out → ZeroDefaults table type out →
            out.height ≤ 100 →
            ∃ back, mergeBytes table type (new type) (out.encode table type) = (back, none) ∧ back.Same out))) ∧
      (type.keepsUnknown = false →
        (∀ field ∈ fields, type.isForeign field.1 = true → ∀ n, mergeBytes table type n field.2 = (n, none)) ∧
        mergeBytes table type m (bytesOf (fields.filter fun field => !type.isForeign field.1)) = (out, none)) := by
  have hw := hg.wellFormed htype
  obtain ⟨fields, rfl, hruns⟩ := runs_of_mergeWithin hg hw hm h
  refine ⟨fields, hruns.complete, rfl, fun depth others hc he => complete_unique hc hruns.complete he,
    fun hkeeps => ⟨hruns.unknown hkeeps, ?_⟩, fun hkeeps => ⟨?_, (hruns.known hkeeps).mergeWithin_eq⟩⟩
  · rintro rfl
    have hends := encode_ends table type out
    rw [hruns.unknown hkeeps] at hends
    exact ⟨hends, fun hd hf hz hheight => mergeBytes_again hg htype hd h hf hz hheight⟩
  · intro field hmem hforeign n
    exact mergeWithin_foreign hruns.complete hmem hforeign hkeeps n

set_option maxRecDepth 100000 in
/-- A group around a longer spelling of a number, and a known number with another wire type, between a map
    entry without a value and a name; and two such fields in a type that keeps none. -/
theorem mergeBytes_unknown_shape :
    let shapes := Sample.Shapes.table
    let shape := shapes.message "demo.shapes.Shape"
    let anchor : Tag × Bytes := (Tag.make 9 .lengthDelimited, [0x4a] ++ ([2] ++ [8, 3]))
    let group : Tag × Bytes :=
      (Tag.make 99 .startGroup, [0x9b, 0x06] ++ (bytesOf [(Tag.make 1 .varint, [0x08] ++ [0x87, 0x00])] ++ [0x9c, 0x06]))
    let misread : Tag × Bytes := (Tag.make 1 .varint, [0x08] ++ [1])
    let name : Tag × Bytes := (Tag.make 1 .lengthDelimited, [0x0a] ++ ([1] ++ [0x41]))
    let old := Sample.Old.table
    let inner := old.message "old.Inner"
    let number : Tag × Bytes := (Tag.make 1 .varint, [0x08] ++ [5])
    let fixed : Tag × Bytes := (Tag.make 1 .fixed32, [0x0d] ++ [1, 2, 3, 4])
    (∃ out, mergeBytes shapes shape (new shape) (bytesOf [anchor, group, misread, name]) = (out, none) ∧
      out.body.unknown = bytesOf [group, misread] ∧
      (∃ front, out.encode shapes shape = front ++ bytesOf [group, misread]) ∧
      ∃ back, mergeBytes shapes shape (new shape) (out.encode shapes shape) = (back, none) ∧ back.Same out) ∧
    ∃ out, mergeBytes old inner (new inner) (bytesOf [misread, number, fixed]) = (out, none) ∧
      mergeBytes old inner (new inner) fixed.2 = (new inner, none) ∧
      mergeBytes old inner (new inner) (bytesOf [misread, number]) = (out, none) := by
  intro shapes shape anchor group misread name old inner number fixed
  constructor
  · have hg : shapes.Generated := generated_tableOf _ _
    obtain ⟨hnamed, hok, hforeign, hkept, hdefaults, hfits, hheight⟩ :
        (shapes.messages.any fun type => type.fullName == "demo.shapes.Shape") = true ∧
        (mergeBytes shapes shape (new shape) (bytesOf [anchor, group, misread, name])).2 = none ∧
        ([anchor, group, misread, name].filter fun field => shape.isForeign field.1) = [group, misread] ∧
        shape.keepsUnknown = true ∧ (∀ type ∈ shapes.messages, type.Defaults Scalar.Sized) ∧
        holds shapes (fun type body => ∀ n ∈ (body.sizes shapes type).lengths type, n < 0x100000000) 2 shape
          (mergeBytes shapes shape (new shape) (bytesOf [anchor, group, misread, name])).1 = true ∧
        (mergeBytes shapes shape (new shape) (bytesOf [anchor, group, misread, name])).1.height ≤ 100 := by
      decide +kernel
    have hshape := TypeTable.message_mem hnamed
    obtain ⟨fields, _, _, hunique, hkeeps, _⟩ := mergeBytes_unknown shapes shape (new shape) _ _ hg hshape
      (held_new shapes (hg.wellFormed hshape)) (Prod.ext rfl hok)
    have hcomplete : Complete 100 [anchor, group, misread, name] := by
      refine .plain ⟨rfl, by decide, by decide, rfl⟩ (.framed rfl rfl) ?_
      refine .group ⟨rfl, by decide, by decide, rfl⟩ rfl ?_ ⟨rfl, by decide, by decide, rfl⟩ rfl rfl ?_
      · exact .plain ⟨rfl, by decide, by decide, rfl⟩ (.varint rfl rfl) (.nil 99)
      · refine .plain ⟨rfl, by decide, by decide, rfl⟩ (.varint rfl rfl) ?_
        exact .plain ⟨rfl, by decide, by decide, rfl⟩ (.framed rfl rfl) (.nil 100)
    obtain rfl := hunique 100 _ hcomplete rfl
    rw [hforeign] at hkeeps
    obtain ⟨hunknown, hagain⟩ := hkeeps hkept
    have hzero := zeroDefaults_samples shapes (.head _)
    obtain ⟨hends, hback⟩ := hagain rfl
    exact ⟨_, Prod.ext rfl hok, hunknown, hends, hback hdefaults (throughout_of_holds 2 hfits)
      (zeroDefaults_of_messages hzero (hzero shape hshape) _) hheight⟩
  · have hg : old.Generated := generated_tableOf _ _
    obtain ⟨hnamed, hok, hknown, hforeign, hdropped⟩ :
        (old.messages.any fun type => type.fullName == "old.Inner") = true ∧
        (mergeBytes old inner (new inner) (bytesOf [misread, number, fixed])).2 = none ∧
        ([misread, number, fixed].filter fun field => !inner.isForeign field.1) = [misread, number] ∧
        inner.isForeign fixed.1 = true ∧ inner.keepsUnknown = false := by
      decide +kernel
    have hinner := TypeTable.message_mem hnamed
    obtain ⟨fields, _, _, hunique, _, hdrops⟩ := mergeBytes_unknown old inner (new inner) _ _ hg hinner
      (held_new old (hg.wellFormed hinner)) (Prod.ext rfl hok)
    have hcomplete : Complete 100 [misread, number, fixed] := by
      refine .plain ⟨rfl, by decide, by decide, rfl⟩ (.varint rfl rfl) ?_
      refine .plain ⟨rfl, by decide, by decide, rfl⟩ (.varint rfl rfl) ?_
      exact .plain ⟨rfl, by decide, by decide, rfl⟩ (.fixed32 rfl rfl) (.nil 100)
    obtain rfl := hunique 100 _ hcomplete rfl
    rw [hknown] at hdrops
    obtain ⟨hone, hrest⟩ := hdrops hdropped
    exact ⟨_, Prod.ext rfl hok, hone fixed (by decide) hforeign (new inner), hrest⟩

set_option maxRecDepth 100000 in
/-- Shapes inside each other down to the last level, where a map entry has no value: its value is a new
    message one level further down, which is written and cannot be read again. -/
theorem mergeBytes_unknown_deeper :
    let table := Sample.Shapes.table
    let shape := table.message "demo.shapes.Shape"
    let bytes := Nat.repeat (fun bytes => [0xa2, 0x01] ++ Frame.encode bytes) 100 [0x4a, 0]
    shape.keepsUnknown = true ∧ ∃ out, mergeBytes table shape (new shape) bytes = (out, none) ∧ Fits table shape out ∧
      ZeroDefaults table shape out ∧ (mergeBytes table shape (new shape) (out.encode table shape)).2 ≠ none := by
  intro table shape bytes
  have hg : table.Generated := generated_tableOf _ _
  obtain ⟨hnamed, hkept, hd, hfield, hok, hbytes, hholds, hno⟩ :
      (table.messages.any fun type => type.fullName == "demo.shapes.Shape") = true ∧ shape.keepsUnknown = true ∧
      (∀ type ∈ table.messages, type.Defaults Scalar.Sized) ∧
      (shape.fields[19]?.map fun f => (f.type, f.strategy, f.tagBytes)) =
        some (.value (.message ⟨"demo.shapes.Shape", ⟨["demo", "shapes"], "Shape"⟩⟩),
          .messages ⟨"demo.shapes.Shape", ⟨["demo", "shapes"], "Shape"⟩⟩, [0xa2, 0x01]) ∧
      (mergeWithin table shape 0 (new shape) [0x4a, 0]).2 = none ∧
      (mergeWithin table shape 0 (new shape) [0x4a, 0]).1.wire table shape = [0x4a, 4, 8, 0, 0x12, 0] ∧
      holds table (fun type body => ∀ n ∈ (body.sizes table type).lengths type, n < 0x100000000) 2 shape
        (mergeWithin table shape 0 (new shape) [0x4a, 0]).1 = true ∧
      (mergeWithin table shape 0 (new shape) [0x4a, 4, 8, 0, 0x12, 0]).2 ≠ none := by
    decide +kernel
  have htype : shape ∈ table.messages := TypeTable.message_mem hnamed
  have hz := zeroDefaults_samples table (.head _)
  obtain ⟨field, hf, hparts⟩ := Option.map_eq_some_iff.mp hfield
  obtain ⟨hft, hparts⟩ := Prod.mk.inj hparts
  obtain ⟨hstrategy, htag⟩ := Prod.mk.inj hparts
  have hchild : table.childAt shape 19 = shape := by
    rw [TypeTable.childAt, hf, Option.getD_some, TypeTable.child, hft]
  obtain ⟨last, hlast⟩ : ∃ last, last = (mergeWithin table shape 0 (new shape) [0x4a, 0]).1 := ⟨_, rfl⟩
  rw [← hlast] at hbytes hholds
  rw [← hbytes] at hno
  obtain ⟨out, habsorbs, hout, _, hfails⟩ := exists_deeper (hg.wellFormed htype) (hz shape htype) hf hstrategy hchild
    (Prod.ext hlast.symm hok) (throughout_of_holds 2 hholds) hno (fun bytes => by rw [htag]) 100
    (by rw [hbytes]; decide +kernel)
  obtain ⟨hv, hwin⟩ := Reader.valid_ofBytesWithin bytes 100
  obtain ⟨s, hmerge, _⟩ := habsorbs.merge_eq hv hwin (Nat.le_refl 100)
  have hread : mergeBytes table shape (new shape) bytes = (out, none) := by
    show ((merge table shape (new shape) (.ofBytesWithin bytes 100)).message,
      (merge table shape (new shape) (.ofBytesWithin bytes 100)).error) = _
    rw [hmerge]
  refine ⟨hkept, out, hread, hout, zeroDefaults_of_messages hz (hz shape htype) out, ?_⟩
  rw [encode_eq_wire (sound_of_mergeBytes hg htype hd hread).2 hout]
  exact hfails

end Message

end Protobuf
