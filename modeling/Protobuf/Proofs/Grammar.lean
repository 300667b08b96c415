/-
  Protobuf.Proofs.Grammar — the bytes that can be stepped over.

  `Grammar.Payload depth tag` are the payloads of a tag, said by wire types and groups of seven bits and without any
  reader; a group is whole fields and an end tag of its number. They are the payloads that stepping over a field takes
  (`payload_iff_tail`), so it accepts just these, and no more of the bytes than the one payload they begin with.

  `Grammar.Inside` leads into a group and maybe into groups in it. An end tag of another number, or the limit, is an
  error there, however deep it is (`skipGroups_inside`).
-/

import Protobuf.Proofs.Fields
import Protobuf.Proofs.Varints

namespace Protobuf

/-! ## Tags -/

namespace Tag

theorem wireType?_eq_some_iff {tag : Tag} {w : WireType} : tag.wireType? = some w ↔ tag.wireCode = w.code := by
  constructor
  · intro h
    have h : WireType.ofCode? tag.wireCode = some w := h
    unfold WireType.ofCode? at h
    split at h <;> cases h <;> assumption
  · intro h
    rw [wireType?, h, WireType.ofCode?_code]

/-- All of `bytes` is a tag of 32 bits with a field number and a wire type. -/
structure Form (bytes : Bytes) (tag : Tag) : Prop where
  form : Varint.Form bytes tag
  lt : tag < 0x100000000
  number_ne : tag.number ≠ 0
  wireCode_le : tag.wireCode ≤ 5

instance (bytes : Bytes) (tag : Tag) : Decidable (Form bytes tag) :=
  decidable_of_iff (Varint.Form bytes tag ∧ tag < 0x100000000 ∧ tag.number ≠ 0 ∧ tag.wireCode ≤ 5)
    ⟨fun h => ⟨h.1, h.2.1, h.2.2.1, h.2.2.2⟩, fun h => ⟨h.form, h.lt, h.number_ne, h.wireCode_le⟩⟩

theorem isSome_wireType? {tag : Tag} : tag.wireType?.isSome = true ↔ tag.wireCode ≤ 5 := by
  rw [wireType?]
  have hlt : tag.wireCode < 8 := Nat.mod_lt _ (by decide)
  generalize tag.wireCode = code at hlt
  have hall : ∀ code : Fin 8, (WireType.ofCode? code.val).isSome = true ↔ code.val ≤ 5 := by decide
  exact hall ⟨code, hlt⟩

theorem spells_iff {bytes : Bytes} {tag : Tag} : Spells bytes tag ↔ Form bytes tag := by
  constructor
  · rintro ⟨hspells, hlt, hnumber, hwire⟩
    exact ⟨Varint.spells_iff.mp hspells, hlt, hnumber, isSome_wireType?.mp hwire⟩
  · rintro ⟨hform, hlt, hnumber, hwire⟩
    exact ⟨Varint.spells_iff.mpr hform, hlt, hnumber, isSome_wireType?.mpr hwire⟩

end Tag

/-! ## Payloads -/

namespace Grammar

mutual

/-- The payloads of a tag, with groups nested at most so deep. -/
inductive Payload : Nat → Tag → Bytes → Prop
  | varint {depth : Nat} {tag : Tag} {bytes : Bytes} {n : Nat} :
      tag.wireCode = 0 → Varint.Form bytes n → Payload depth tag bytes
  | fixed64 {depth : Nat} {tag : Tag} {bytes : Bytes} : tag.wireCode = 1 → bytes.length = 8 → Payload depth tag bytes
  | framed {depth : Nat} {tag : Tag} {head body : Bytes} :
      tag.wireCode = 2 → Varint.Form head body.length → Payload depth tag (head ++ body)
  | group {depth : Nat} {tag stop : Tag} {fields tail : Bytes} :
      tag.wireCode = 3 → Fields depth fields → Tag.Form tail stop → stop.wireCode = 4 → stop.number = tag.number →
      Payload (depth + 1) tag (fields ++ tail)
  | fixed32 {depth : Nat} {tag : Tag} {bytes : Bytes} : tag.wireCode = 5 → bytes.length = 4 → Payload depth tag bytes

/-- Whole fields, one after the other. -/
inductive Fields : Nat → Bytes → Prop
  | nil (depth : Nat) : Fields depth []
  | cons {depth : Nat} {tag : Tag} {head payload rest : Bytes} :
      Tag.Form head tag → tag.wireCode ≠ 4 → Payload depth tag payload → Fields depth rest →
      Fields depth (head ++ (payload ++ rest))

end

/-- Payloads are those that stepping over a field takes, and whole fields are complete fields. -/
theorem tail_and_complete : (∀ depth tag bytes, Payload depth tag bytes → Tail depth tag bytes) ∧
    ∀ depth bytes, Fields depth bytes → ∃ fields, Complete depth fields ∧ bytes = bytesOf fields := by
  let Goal : ∀ depth tag bytes, Payload depth tag bytes → Prop := fun depth tag bytes _ => Tail depth tag bytes
  let Goals : ∀ depth bytes, Fields depth bytes → Prop := fun depth bytes _ =>
    ∃ fields, Complete depth fields ∧ bytes = bytesOf fields
  refine ⟨@Payload.rec Goal Goals ?varint ?fixed64 ?framed ?group ?fixed32 ?nil ?cons,
    @Fields.rec Goal Goals ?varint ?fixed64 ?framed ?group ?fixed32 ?nil ?cons⟩
  case varint =>
    intro depth tag bytes n hw hform
    exact .plain (.varint (Tag.wireType?_eq_some_iff.mpr hw) (Varint.spells_iff.mpr hform))
  case fixed64 =>
    intro depth tag bytes hw hlen
    exact .plain (.fixed64 (Tag.wireType?_eq_some_iff.mpr hw) hlen)
  case framed =>
    intro depth tag head body hw hform
    exact .plain (.framed (Tag.wireType?_eq_some_iff.mpr hw) (Varint.spells_iff.mpr hform))
  case group =>
    intro depth tag stop bytes tail hw _ hstop hend hnumber ih
    obtain ⟨fields, hcomplete, rfl⟩ := ih
    exact .group (Tag.wireType?_eq_some_iff.mpr hw) hcomplete (Tag.spells_iff.mpr hstop)
      (Tag.wireType?_eq_some_iff.mpr hend) hnumber
  case fixed32 =>
    intro depth tag bytes hw hlen
    exact .plain (.fixed32 (Tag.wireType?_eq_some_iff.mpr hw) hlen)
  case nil =>
    intro depth
    exact ⟨[], .nil depth, rfl⟩
  case cons =>
    intro depth tag head payload rest htag _ _ _ htail ih
    obtain ⟨fields, hcomplete, rfl⟩ := ih
    refine ⟨(tag, head ++ payload) :: fields, complete_cons (Tag.spells_iff.mpr htag) htail hcomplete, ?_⟩
    rw [bytesOf_cons, List.append_assoc]

theorem payload_of_plain {depth : Nat} {tag : Tag} {bytes : Bytes} (h : Protobuf.Payload tag bytes) :
    Payload depth tag bytes := by
  cases h with
  | varint hw hs => exact .varint (Tag.wireType?_eq_some_iff.mp hw) (Varint.spells_iff.mp hs)
  | fixed64 hw hlen => exact .fixed64 (Tag.wireType?_eq_some_iff.mp hw) hlen
  | fixed32 hw hlen => exact .fixed32 (Tag.wireType?_eq_some_iff.mp hw) hlen
  | framed hw hs => exact .framed (Tag.wireType?_eq_some_iff.mp hw) (Varint.spells_iff.mp hs)

theorem payload_group {depth : Nat} {tag stop : Tag} {fields tail : Bytes} (hw : tag.wireType? = some .startGroup)
    (hfields : Fields depth fields) (hstop : Tag.Spells tail stop) (hend : stop.wireType? = some .endGroup)
    (hnumber : stop.number = tag.number) : Payload (depth + 1) tag (fields ++ tail) :=
  .group (Tag.wireType?_eq_some_iff.mp hw) hfields (Tag.spells_iff.mp hstop) (Tag.wireType?_eq_some_iff.mp hend) hnumber

theorem fields_of_complete {depth : Nat} {fields : List (Tag × Bytes)} (h : Complete depth fields) :
    Fields depth (bytesOf fields) := by
  -- a field starts with the tag of its payload, which ends no group
  have hcons : ∀ {depth : Nat} {tag : Tag} {head payload rest : Bytes}, Tag.Spells head tag →
      tag.wireType? ≠ some .endGroup → Payload depth tag payload → Fields depth rest →
      Fields depth ((head ++ payload) ++ rest) := by
    intro depth tag head payload rest hs hne hp hrest
    rw [List.append_assoc]
    exact .cons (Tag.spells_iff.mp hs) (fun hw => hne (Tag.wireType?_eq_some_iff.mpr hw)) hp hrest
  induction h with
  | nil depth => exact .nil depth
  | plain hs hp _ ih =>
    rw [bytesOf_cons]
    exact hcons hs hp.wireType_ne.2 (payload_of_plain hp) ih
  | group hs hw _ hstop hend hnumber _ ihInner ih =>
    rw [bytesOf_cons]
    exact hcons hs (by simp [hw]) (payload_group hw ihInner hstop hend hnumber) ih

theorem payload_iff_tail {depth : Nat} {tag : Tag} {bytes : Bytes} : Payload depth tag bytes ↔ Tail depth tag bytes := by
  refine ⟨tail_and_complete.1 depth tag bytes, fun h => ?_⟩
  cases h with
  | plain hp => exact payload_of_plain hp
  | group hw hinner hstop hend hnumber => exact payload_group hw (fields_of_complete hinner) hstop hend hnumber

/-- From the start of a group of this number, with room for so many groups in it, to a place where `inner` is the
    innermost group. -/
inductive Inside : Nat → Nat → Bytes → Nat → Prop
  | here {room number : Nat} {fields : Bytes} : Fields room fields → Inside room number fields number
  | deeper {room number inner : Nat} {tag : Tag} {fields head rest : Bytes} :
      Fields (room + 1) fields → Tag.Form head tag → tag.wireCode = 3 → Inside room tag.number rest inner →
      Inside (room + 1) number (fields ++ (head ++ rest)) inner

end Grammar

namespace Reader

variable {r : Reader} {tag : Tag}

/-! ## Where groups do not close -/

/-- Stepping over the fields of a group goes on to where the innermost group of the place stands open. -/
theorem skipGroups_inside {room number inner : Nat} {bytes : Bytes} (h : Grammar.Inside room number bytes inner)
    (outer : List Nat) (hv : r.Valid) {rest : Bytes} (hw : r.window = bytes ++ rest) (hroom : room ≤ r.room) :
    ∃ s around, skipGroups (number :: outer) r = skipGroups (inner :: around) s ∧ s.Valid ∧ s.window = rest := by
  induction h generalizing outer r rest with
  | @here room number bytes hfields =>
    obtain ⟨fields, hcomplete, rfl⟩ := Grammar.tail_and_complete.2 _ _ hfields
    obtain ⟨s, hskip, hpast⟩ := skipGroups_complete hcomplete number outer hv hw hroom
    exact ⟨s, outer, hskip, hpast.valid hv hw⟩
  | @deeper room number inner tag bytes head more hfields htag hstart _ ih =>
    obtain ⟨fields, hcomplete, rfl⟩ := Grammar.tail_and_complete.2 _ _ hfields
    rw [List.append_assoc, List.append_assoc] at hw
    obtain ⟨s, hskip, hpast⟩ := skipGroups_complete hcomplete number outer hv hw hroom
    obtain ⟨hvs, hws⟩ := hpast.valid hv hw
    have hlevels : s.room = r.room := hpast.room_eq
    obtain ⟨t, hopen, hpast'⟩ := skipGroups_start number outer hvs (Tag.spells_iff.mpr htag)
      (Tag.wireType?_eq_some_iff.mpr hstart) (by omega) hws
    obtain ⟨hvt, hwt⟩ := hpast'.valid hvs hws
    have hlevels' : room ≤ t.room := by
      rw [hpast'.room_eq]
      unfold Reader.room at *
      omega
    obtain ⟨u, around, hin, hvu, hwu⟩ := ih (number :: outer) hvt hwt hlevels'
    exact ⟨u, around, by rw [hskip, hopen, hin], hvu, hwu⟩

theorem skipGroups_other_end {inner : Nat} (around : List Nat) (hv : r.Valid) {tail rest : Bytes} {stop : Tag}
    (hstop : Tag.Form tail stop) (hend : stop.wireCode = 4) (hne : stop.number ≠ inner) (hw : r.window = tail ++ rest) :
    skipGroups (inner :: around) r = .error (.unexpectedEndGroup stop.number) (r.pastTag tail.length) := by
  have hwire : stop.wireType? = some .endGroup := Tag.wireType?_eq_some_iff.mpr hend
  rw [skipGroups_tag (readTag_of_spells hv (Tag.spells_iff.mpr hstop) hw), hwire]
  exact if_neg hne

theorem skipGroups_no_end {inner : Nat} (around : List Nat) (hv : r.Valid) (hw : r.window = []) :
    skipGroups (inner :: around) r = .error (.unterminatedGroup inner) r := by
  rw [skipGroups]
  split <;> rename_i h <;> rw [readTag_done hv hw] at h <;> cases h
  rfl

/-- Behind a start tag, stepping over goes on to the place inside. -/
theorem skip_inside {room inner : Nat} {bytes rest : Bytes} (hv : r.Valid) (hstart : tag.wireCode = 3)
    (h : Grammar.Inside room tag.number bytes inner) (hroom : room + 1 ≤ r.room) (hw : r.window = bytes ++ rest) :
    ∃ s around, skip tag r = skipGroups (inner :: around) s ∧ s.Valid ∧ s.window = rest := by
  obtain ⟨s, hent, hpast⟩ := enter_of_room (r := r) (by omega)
  obtain ⟨hvs, hws⟩ := hpast.still hv
  have hlevels : room ≤ s.room := by
    rw [hpast.room_eq]
    unfold Reader.room at hroom
    omega
  obtain ⟨t, around, hskip, hvt, hwt⟩ := skipGroups_inside h [] hvs (hws.trans hw) hlevels
  exact ⟨t, around, (skip_of_enter (Tag.wireType?_eq_some_iff.mpr hstart) hent).trans hskip, hvt, hwt⟩

/-! ## All tags -/

theorem skip_eq_ok_iff (hv : r.Valid) : (∃ s, skip tag r = .ok () s) ↔
    ∃ payload rest, r.window = payload ++ rest ∧ Grammar.Payload r.room tag payload := by
  constructor
  · rintro ⟨s, hs⟩
    obtain ⟨payload, rest, hw, htail, _⟩ := skip_tail hv hs
    exact ⟨payload, rest, hw, Grammar.payload_iff_tail.mpr htail⟩
  · rintro ⟨payload, rest, hw, hp⟩
    obtain ⟨s, hs, _⟩ := skip_of_tail (Grammar.payload_iff_tail.mp hp) hv hw (Nat.le_refl _)
    exact ⟨s, hs⟩

/-- What is cut off by the limit is not stepped over. -/
theorem skip_cut {depth : Nat} {payload more : Bytes} (hv : r.Valid) (hp : Grammar.Payload depth tag payload)
    (hcut : payload = r.window ++ more) (hmore : more ≠ []) : ∃ e s, skip tag r = .error e s := by
  cases hs : skip tag r with
  | error e s => exact ⟨e, s, rfl⟩
  | ok u s =>
    obtain ⟨taken, rest, hw, htail, _⟩ := skip_tail hv hs
    -- the payload taken would be the whole one
    have hsame : taken ++ (rest ++ more) = payload ++ [] := by
      rw [hcut, hw, List.append_nil, List.append_assoc]
    have hlen := congrArg List.length (htail.unique (Grammar.payload_iff_tail.mp hp) hsame)
    rw [hcut, hw] at hlen
    simp only [List.length_append] at hlen
    exact absurd (List.length_eq_zero_iff.mp (by omega)) hmore

/-- Stepping over a field accepts just the payloads of its tag. From every place and for every tag it succeeds where
    the bytes before the limit begin with a payload whose groups have room, takes that payload, which is the only one,
    and leaves limit and depth as they were. An end tag, a wire type that there is not, a payload that the limit cuts
    off, and a group, however deep in others, that another end tag or the limit ends are errors. -/
theorem skip_grammar (tag : Tag) (r : Reader) (hv : r.Valid) :
    ((∃ s, skip tag r = .ok () s) ↔
      ∃ payload rest, r.window = payload ++ rest ∧ Grammar.Payload (r.maxDepth - r.depth) tag payload) ∧
    (∀ payload rest, r.window = payload ++ rest → Grammar.Payload (r.maxDepth - r.depth) tag payload →
      (∃ s, skip tag r = .ok () s ∧ s.pos = r.pos + payload.length ∧ s.buffer = r.buffer ∧ s.limit = r.limit ∧
        s.depth = r.depth ∧ s.maxDepth = r.maxDepth) ∧
      ∀ depth other rest', r.window = other ++ rest' → Grammar.Payload depth tag other → other = payload) ∧
    (tag.wireCode = 4 → skip tag r = .error (.unexpectedEndGroup tag.number) r) ∧
    (5 < tag.wireCode → skip tag r = .error (.invalidWireType tag.wireCode) r) ∧
    (∀ depth payload more, Grammar.Payload depth tag payload → payload = r.window ++ more → more ≠ [] →
      ∃ e s, skip tag r = .error e s) ∧
    (∀ room bytes inner, tag.wireCode = 3 → Grammar.Inside room tag.number bytes inner →
      room + 1 ≤ r.maxDepth - r.depth →
      (∀ tail rest stop, r.window = bytes ++ (tail ++ rest) → Tag.Form tail stop → stop.wireCode = 4 →
        stop.number ≠ inner → ∃ s, skip tag r = .error (.unexpectedEndGroup stop.number) s) ∧
      (r.window = bytes → ∃ s, skip tag r = .error (.unterminatedGroup inner) s)) := by
  refine ⟨skip_eq_ok_iff hv, ?_, ?_, ?_, ?_, ?_⟩
  · intro payload rest hw hp
    have htail := Grammar.payload_iff_tail.mp hp
    obtain ⟨s, hs, hpast⟩ := skip_of_tail htail hv hw (Nat.le_refl _)
    refine ⟨⟨s, hs, hpast.pos_eq, hpast.buffer_eq, hpast.limit_eq, hpast.depth_eq, hpast.maxDepth_eq⟩, ?_⟩
    intro depth other rest' hw' hother
    exact (Grammar.payload_iff_tail.mp hother).unique htail (hw'.symm.trans hw)
  · intro hend
    have hwire : tag.wireType? = some .endGroup := Tag.wireType?_eq_some_iff.mpr hend
    rw [skip_eq_skipPlain (by simp [hwire]), skipPlain, Tag.wireType_of_some hwire]
    rfl
  · intro hwire
    have hnone : tag.wireType? = none := by
      rw [← Option.not_isSome_iff_eq_none, Tag.isSome_wireType?]
      omega
    have herror : tag.wireType = .error (.invalidWireType tag.wireCode) := by
      have hnone : WireType.ofCode? tag.wireCode = none := hnone
      rw [Tag.wireType, WireType.ofCode, hnone]
    rw [skip_eq_skipPlain (by simp [hnone]), skipPlain, herror]
    rfl
  · intro depth payload more hp hcut hmore
    exact skip_cut hv hp hcut hmore
  · intro room bytes inner hstart hinside hroom
    constructor
    · intro tail rest stop hw hstop hend hne
      obtain ⟨s, around, hskip, hvs, hws⟩ := skip_inside hv hstart hinside hroom hw
      exact ⟨_, hskip.trans (skipGroups_other_end around hvs hstop hend hne hws)⟩
    · intro hw
      obtain ⟨s, around, hskip, hvs, hws⟩ := skip_inside hv hstart hinside hroom (hw.trans (List.append_nil _).symm)
      exact ⟨_, hskip.trans (skipGroups_no_end around hvs hws)⟩

/-- A group with a number in too many bytes and an empty group in it, its end tag in too many bytes as well, right
    before a limit and with room for just these two levels. Without the inner end, the outer end is the wrong one. -/
theorem skip_grammar_nested :
    let payload : Bytes := [0x10, 0x80, 0x00, 0x1b, 0x1c, 0x8c, 0x00]
    let r : Reader := { ofBytesWithin ([0x0b] ++ payload ++ [0x08]) 100 with pos := 1, limit := 8, depth := 98 }
    let cut : Reader := { ofBytesWithin [0x0b, 0x10, 0x05, 0x1b, 0x0c] 100 with pos := 1, depth := 98 }
    Grammar.Payload 2 0x0b payload ∧ (∃ s, skip 0x0b r = .ok () s ∧ s.pos = 8 ∧ s.limit = 8 ∧ s.depth = 98) ∧
      Grammar.Inside 1 1 [0x10, 0x05, 0x1b] 3 ∧ ∃ s, skip 0x0b cut = .error (.unexpectedEndGroup 1) s := by
  intro payload r cut
  have hvarint : Tag.Form [0x10] 0x10 := by decide
  have hstart : Tag.Form [0x1b] 0x1b := by decide
  have hstop : Tag.Form [0x1c] 0x1c := by decide
  have hlong : Tag.Form [0x8c, 0x00] 0x0c := by decide
  have hzero : Varint.Form [0x80, 0x00] 0 := by decide
  have hfive : Varint.Form [0x05] 5 := by decide
  have hempty : Grammar.Payload 1 0x1b [0x1c] := .group rfl (.nil 0) hstop rfl rfl
  have hpayload : Grammar.Payload 2 0x0b payload :=
    .group rfl (.cons hvarint (by decide) (.varint rfl hzero) (.cons hstart (by decide) hempty (.nil 1))) hlong rfl rfl
  have hinside : Grammar.Inside 1 1 [0x10, 0x05, 0x1b] 3 :=
    .deeper (.cons hvarint (by decide) (.varint rfl hfive) (.nil 1)) hstart rfl (.here (.nil 0))
  obtain ⟨-, htakes, -⟩ := skip_grammar 0x0b r ⟨by decide, by decide⟩
  obtain ⟨⟨s, hs, hpos, -, hlimit, hdepth, -⟩, -⟩ := htakes payload [] rfl hpayload
  obtain ⟨-, -, -, -, -, hends⟩ := skip_grammar 0x0b cut ⟨by decide, by decide⟩
  have hcut := (hends 1 [0x10, 0x05, 0x1b] 3 rfl hinside (by decide)).1 [0x0c] [] 0x0c rfl (by decide) rfl (by decide)
  exact ⟨hpayload, ⟨s, hs, hpos, hlimit, hdepth⟩, hinside, hcut⟩

end Reader

end Protobuf
