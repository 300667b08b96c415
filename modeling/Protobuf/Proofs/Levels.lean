/-
  Protobuf.Proofs.Levels — the recursion limit is exact.

  The nesting of a message (`Message.nesting`) is the greatest number of levels open at once while its bytes are read:
  one for each sub-message and one for each group in unknown bytes, none for a map entry. With that many levels the
  bytes can be merged (`nests_of_nesting`). A merge that succeeds has opened each of them (`nesting_le_of_merged`), so
  with fewer it fails, and for want of levels, since with more it would not.
-/

import Protobuf.Proofs.Consistent
import Protobuf.Proofs.Cursor
import Protobuf.Proofs.Items
import Protobuf.Proofs.Shallow

namespace Protobuf

open Schema

/-! ## Groups -/

/-- Bytes of the payload of a tag that opens or closes no group. -/
def Tag.payloadSize (tag : Tag) (bytes : Bytes) : Nat :=
  match tag.wireType?, Varint.decode bytes with
  | some .varint, .ok (_, n) => n
  | some .lengthDelimited, .ok (len, n) => n + len
  | some .fixed64, _ => 8
  | some .fixed32, _ => 4
  | _, _ => 0

/-- The most groups open at once in a sequence of fields, of which `opened` are open at its start. -/
def groupDepth (opened : Nat) (bytes : Bytes) : Nat :=
  match _h : Varint.decode bytes with
  | .error _ => opened
  | .ok (tag, n) =>
    let rest := bytes.drop n
    match Tag.wireType? tag with
    | some .startGroup => groupDepth (opened + 1) rest
    | some .endGroup => max opened (groupDepth (opened - 1) rest)
    | _ => groupDepth opened (rest.drop (Tag.payloadSize tag rest))
termination_by bytes.length
decreasing_by
  all_goals
    have := Varint.pos_of_decode _h
    simp only [List.length_drop]
    omega

theorem le_groupDepth (opened : Nat) (bytes : Bytes) : opened ≤ groupDepth opened bytes := by
  fun_induction groupDepth opened bytes with
  | case1 => omega
  | case2 opened bytes tag n hd rest hw ih => omega
  | case3 opened bytes tag n hd rest hw ih => omega
  | case4 opened bytes tag n hd rest hw hw' ih => exact ih

theorem groupDepth_nil (opened : Nat) : groupDepth opened [] = opened := by
  rw [groupDepth]
  rfl

section Fields

variable {tag : Tag} {head rest : Bytes} (hs : Tag.Spells head tag) (opened : Nat)

include hs

theorem groupDepth_start (hw : tag.wireType? = some .startGroup) :
    groupDepth opened (head ++ rest) = groupDepth (opened + 1) rest := by
  rw [groupDepth, Reader.decode_of_spells hs.spells]
  simp [hw]

theorem groupDepth_end (hw : tag.wireType? = some .endGroup) :
    groupDepth (opened + 1) (head ++ rest) = max (opened + 1) (groupDepth opened rest) := by
  rw [groupDepth, Reader.decode_of_spells hs.spells]
  simp [hw]

theorem groupDepth_plain {payload : Bytes} (hp : Payload tag payload) :
    groupDepth opened (head ++ (payload ++ rest)) = groupDepth opened rest := by
  have hsize : tag.payloadSize (payload ++ rest) = payload.length := by
    cases hp with
    | varint hw hv => simp [Tag.payloadSize, hw, Reader.decode_of_spells hv]
    | fixed64 hw hlen => simp [Tag.payloadSize, hw, hlen]
    | fixed32 hw hlen => simp [Tag.payloadSize, hw, hlen]
    | framed hw hv => simp [Tag.payloadSize, hw, List.append_assoc, Reader.decode_of_spells hv]
  obtain ⟨hstart, hend⟩ := hp.wireType_ne
  rw [groupDepth, Reader.decode_of_spells hs.spells]
  simp [hsize]

end Fields

/-- Whole fields have groups just as deep as a scan of their bytes finds. -/
theorem Complete.depth_eq {depth : Nat} {fields : List (Tag × Bytes)} (h : Complete depth fields) :
    ∃ deepest ≤ depth, Complete deepest fields ∧ ∀ opened rest,
      groupDepth opened (bytesOf fields ++ rest) = max (opened + deepest) (groupDepth opened rest) := by
  induction h with
  | nil depth =>
    refine ⟨0, Nat.zero_le _, .nil 0, fun opened rest => ?_⟩
    have := le_groupDepth opened rest
    show groupDepth opened rest = _
    omega
  | @plain depth tag head payload fields hs hp hr ih =>
    obtain ⟨deepest, hle, hc, hdepth⟩ := ih
    refine ⟨deepest, hle, .plain hs hp hc, fun opened rest => ?_⟩
    rw [bytesOf_cons, List.append_assoc, List.append_assoc, groupDepth_plain hs opened hp, hdepth]
  | @group depth tag stop head tail inner fields hs hw hi hstop he hn hr ihInner ihRest =>
    obtain ⟨within, hwithin, hci, hinner⟩ := ihInner
    obtain ⟨behind, hbehind, hcr, hrest⟩ := ihRest
    obtain ⟨deepest, hdeepest⟩ : ∃ n, max (within + 1) behind = n + 1 := ⟨max within (behind - 1), by omega⟩
    refine ⟨max (within + 1) behind, by omega, ?_, fun opened rest => ?_⟩
    · rw [hdeepest]
      exact .group hs hw (hci.mono (by omega)) hstop he hn (hcr.mono (by omega))
    · have := le_groupDepth opened rest
      rw [bytesOf_cons]
      simp only [List.append_assoc]
      rw [groupDepth_start hs opened hw, hinner, groupDepth_end hstop opened he, hrest]
      omega

theorem Complete.iff_groupDepth {depth : Nat} {fields : List (Tag × Bytes)} (h : Complete depth fields) (room : Nat) :
    Complete room fields ↔ groupDepth 0 (bytesOf fields) ≤ room := by
  have hscan : ∀ {deepest}, (∀ opened rest, groupDepth opened (bytesOf fields ++ rest) =
      max (opened + deepest) (groupDepth opened rest)) → groupDepth 0 (bytesOf fields) = deepest := by
    intro deepest hd
    have hd := hd 0 []
    rw [List.append_nil, groupDepth_nil] at hd
    omega
  constructor
  · intro hroom
    obtain ⟨deepest, hle, _, hd⟩ := hroom.depth_eq
    rw [hscan hd]
    exact hle
  · intro hroom
    obtain ⟨deepest, _, hc, hd⟩ := h.depth_eq
    rw [hscan hd] at hroom
    exact hc.mono hroom

namespace Message

variable {table : TypeTable} {type : MessageType} {room : Nat} {m start : Message}

/-! ## The levels of a message -/

/-- The number of levels below a message: a sub-message takes one, as does a group in unknown bytes. -/
def nesting : Message → Nat :=
  fold fun body => (body.inUse.map fun part => part.2 + 1).foldr max (groupDepth 0 body.unknown)

theorem nesting_mk (body : Body Message) : (mk body).nesting =
    ((body.map nesting).inUse.map fun part => part.2 + 1).foldr max (groupDepth 0 body.unknown) :=
  fold_mk ..

theorem nesting_le_iff {body : Body Message} :
    (mk body).nesting ≤ room ↔ groupDepth 0 body.unknown ≤ room ∧ ∀ part ∈ body.inUse, part.2.nesting < room := by
  have hfold : ∀ {list : List Nat} {n : Nat}, list.foldr max n ≤ room ↔ n ≤ room ∧ ∀ k ∈ list, k ≤ room := by
    intro list n
    induction list with
    | nil => simp
    | cons k list ih =>
      rw [List.foldr_cons, Nat.max_le, ih, List.forall_mem_cons]
      constructor
      · intro h
        exact ⟨h.2.1, h.1, h.2.2⟩
      · intro h
        exact ⟨h.2.1, h.1, h.2.2⟩
  have hpart : (∀ part ∈ (body.map nesting).inUse, part.2 < room) ↔ ∀ part ∈ body.inUse, part.2.nesting < room := by
    rw [Body.map_eq_mapTyped default default]
    constructor
    · intro h part hp
      exact h (part.1, part.2.nesting) ((Body.inUse_mapTyped default default _ body).mpr ⟨part.2, hp, rfl⟩)
    · intro h part hp
      obtain ⟨x, hx, hnesting⟩ := (Body.inUse_mapTyped default default _ body).mp hp
      exact hnesting ▸ h (part.1, x) hx
  rw [nesting_mk, hfold, List.forall_mem_map]
  exact and_congr_right fun _ => hpart

theorem Throughout.imp {P Q : MessageType → Body Message → Prop} (h : Throughout table P type m)
    (himp : ∀ type body, P type body → Q type body) : Throughout table Q type m := by
  induction h with
  | @mk type body level _ ih => exact .mk (himp type body level) ih

/-- Its unknown bytes, at every level, are whole fields that the type of the level does not have. -/
def ForeignThroughout (table : TypeTable) : MessageType → Message → Prop :=
  Throughout table fun type body => type.Foreign body.unknown

/-- With a level for each that it has, the message nests. -/
theorem nests_of_nesting (hu : ForeignThroughout table type m) (h : m.nesting ≤ room) : Nests table room type m := by
  induction hu generalizing room with
  | @mk type body foreign _ ih =>
    obtain ⟨depth, fields, hunknown, hcomplete, hforeign⟩ := foreign
    obtain ⟨hgroups, hparts⟩ := nesting_le_iff.mp h
    rw [hunknown] at hgroups
    refine .mk hunknown ((hcomplete.iff_groupDepth room).mpr hgroups) hforeign (fun part hp => ?_) fun part hp => ?_
    · have := hparts part hp
      omega
    · have := hparts part hp
      exact ih part hp (by omega)

/-- A merge that succeeds has opened every level. -/
theorem nesting_le_of_merged (hg : table.Generated) (hw : type.WellFormed) (ht : Typed table type m)
    (hf : Fits table type m) (hu : ForeignThroughout table type m) (h : Held table type start)
    (hok : (mergeWithin table type room start (m.wire table type)).2 = none) : m.nesting ≤ room := by
  induction ht generalizing room start with
  | @mk type body level _ ih =>
    cases hf with
    | mk fits fitParts =>
      cases hu with
      | mk foreign foreignParts =>
        obtain ⟨depth, others, hunknown, hothers, _⟩ := foreign
        have w : body.Writable table type := ⟨level.1, level.2, fits⟩
        refine nesting_le_iff.mpr ⟨?_, fun part hp => ?_⟩
        · rw [hunknown]
          exact (hothers.iff_groupDepth room).mp (complete_of_merged hg hw w h hunknown hothers hok)
        · obtain ⟨hroom, child, hchild, hmerge⟩ := admits_of_part hg hw w h hunknown hothers hok hp
          have := ih part hp (hg.childAt ..) (fitParts part hp) (foreignParts part hp) hchild hmerge
          omega

/-- A merge with all its levels succeeds. -/
theorem merged_of_nesting (hg : table.Generated) (hw : type.WellFormed) (ht : Typed table type m)
    (hf : Fits table type m) (hu : ForeignThroughout table type m) (h : Held table type start)
    (hle : m.nesting ≤ room) : (mergeWithin table type room start (m.wire table type)).2 = none := by
  have hlays := lays_of_typed hg.childAt hw ht hf (nests_of_nesting hu hle)
  obtain ⟨out, habsorbs, _⟩ := hlays start start h (same_refl start)
  obtain ⟨hv, hwin⟩ := Reader.valid_ofBytesWithin (m.wire table type) room
  obtain ⟨_, hmerge, _⟩ := habsorbs.merge_eq hv hwin (Nat.le_refl room)
  rw [mergeWithin, hmerge]

/-- The levels of a message are just those that a reader needs to merge its bytes, into whatever message of the type;
    with fewer it fails and names its limit. Whatever the bytes, levels that are not needed change nothing, and a run
    in which every opened level is checked against the limit, and every closed one against zero, is the run. -/
theorem recursion_limit_exact (hg : table.Generated) (htype : type ∈ table.messages) (ht : Typed table type m)
    (hf : Fits table type m) (hu : ForeignThroughout table type m) (limit : Nat) :
    (∀ start, Held table type start →
      ((mergeWithin table type limit start (m.encode table type)).2 = none ↔ m.nesting ≤ limit) ∧
      (limit < m.nesting →
        (mergeWithin table type limit start (m.encode table type)).2 = some (.recursionLimitExceeded limit))) ∧
    (∀ start bytes deeper, limit ≤ deeper → (mergeWithin table type limit start bytes).2 = none →
      mergeWithin table type deeper start bytes = mergeWithin table type limit start bytes) ∧
    ∀ start bytes, let out := merge table type start (.ofBytesWithin bytes limit)
      Checked.merge table type start (.ofBytesWithin bytes limit) = some out ∧ out.reader.depth ≤ limit ∧
        (out.error = none → out.reader.depth = 0) := by
  have hw := hg.wellFormed htype
  refine ⟨fun start h => ?_, fun start bytes deeper hle hok => mergeWithin_deeper hle hok, fun start bytes => ?_⟩
  · rw [encode_eq_wire ht hf]
    have hiff : (mergeWithin table type limit start (m.wire table type)).2 = none ↔ m.nesting ≤ limit :=
      ⟨nesting_le_of_merged hg hw ht hf hu h, merged_of_nesting hg hw ht hf hu h⟩
    refine ⟨hiff, fun hlt => ?_⟩
    -- with all levels the merge succeeds, so only levels can be missing
    have hdeep := merged_of_nesting hg hw ht hf hu h (Nat.le_refl m.nesting)
    rcases mergeWithin_shallow (Nat.le_of_lt hlt) hdeep with hok | hfull
    · have := hiff.mp hok
      omega
    · exact hfull
  · intro out
    have hsure := Checked.merge_sure (Reader.inBounds_ofBytesWithin bytes limit) table type start
    refine ⟨hsure.eq, ?_, fun hok => ?_⟩
    · have hle := hsure.onward.inBounds.depth_le
      rwa [hsure.onward.maxDepth_eq] at hle
    · exact (hsure.level hok).depth_eq

set_option maxRecDepth 100000 in
/-- A group in the unknown bytes of a message that is the value of a map, in a message that is the value of a map:
    three levels, whatever the entries, into a message that has an entry already. -/
theorem recursion_limit_exact_maps :
    let table := Sample.Kit.table
    let maps := table.message "kit.Maps"
    let group := Tag.encode (Tag.make 99 .startGroup) ++ Tag.encode (Tag.make 99 .endGroup)
    let entry := fun (key : String) (value : Message) => (⟨.string key, .message value⟩ : Entry Message)
    let inner := (new maps).addUnknown group
    let middle := (new maps).setSlot 11 (.map [entry "" inner])
    let m := (new maps).setSlot 11 (.map [entry "a" middle, entry "b" (new maps)])
    m.nesting = 3 ∧
      (mergeWithin table maps 3 middle (m.encode table maps)).2 = none ∧
      (mergeWithin table maps 2 middle (m.encode table maps)).2 = some (.recursionLimitExceeded 2) := by
  intro table maps group entry inner middle m
  have hnesting : m.nesting = 3 := by decide +kernel
  have hg : table.Generated := generated_tableOf _ _
  have htype : maps ∈ table.messages := TypeTable.message_mem (by decide +kernel)
  have hlevels : Throughout table (fun type body => body.unknown = [] ∨
      (body.unknown = group ∧ ∀ entry ∈ type.dispatch, entry.tag ≠ Tag.make 99 .startGroup)) maps m :=
    throughout_of_holds 3 (by decide +kernel)
  have hspells := Tag.spells_make (show 99 ≠ 0 by decide) (by decide)
  have hgroup : Complete 1 [(Tag.make 99 .startGroup, group)] :=
    .group (hspells .startGroup) rfl (.nil 0) (hspells .endGroup) rfl rfl (.nil 1)
  have hu : ForeignThroughout table maps m := by
    refine hlevels.imp fun type body hlevel => ?_
    rcases hlevel with hnil | ⟨hbytes, htags⟩
    · exact ⟨0, [], hnil, .nil 0, List.forall_mem_nil _⟩
    · refine ⟨1, [(Tag.make 99 .startGroup, group)], hbytes.trans (List.append_nil group).symm, hgroup, ?_⟩
      intro field hfield
      rw [List.mem_singleton.mp hfield]
      exact htags
  have hheld : Held table maps middle := held_of_isHeld 3 (by decide +kernel)
  have hexact := fun limit => (recursion_limit_exact hg htype (throughout_of_holds 3 (by decide +kernel))
    (throughout_of_holds 3 (by decide +kernel)) hu limit).1 middle hheld
  exact ⟨hnesting, (hexact 3).1.mpr (Nat.le_of_eq hnesting), (hexact 2).2 (by rw [hnesting]; decide)⟩

end Message

end Protobuf
