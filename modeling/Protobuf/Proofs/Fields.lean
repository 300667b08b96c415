/-
  Protobuf.Proofs.Fields — merging as a run over complete fields.

  (1) Bytes split into complete fields in at most one way (`complete_unique`).

  (2) `readOne` reads the field behind a tag, with its sub-message if it has one, and `merge` is the loop
  over tags and `readOne` (`merge_one`). What `readOne` takes is a payload of the tag, and it does the same
  with that payload wherever it stands (`readOne_reads`).

  (3) `Runs m fields m'` reads whole fields one after the other. Every merge runs over complete fields and
  then ends: at the limit, at a tag it cannot read or in a field that fails (`merge_runs`).
-/

import Protobuf.Proofs.Twins

namespace Protobuf

open Schema

/-! ## Splitting into fields -/

theorem Tail.unique {depth depth' : Nat} {tag : Tag} {p p' rest rest' : Bytes} (h : Tail depth tag p)
    (h' : Tail depth' tag p') (he : p ++ rest = p' ++ rest') : p = p' := by
  -- stepping over the field ends behind both payloads
  obtain ⟨hv, hw⟩ := Reader.valid_ofBytesWithin (p ++ rest) (max depth depth')
  obtain ⟨s, hs, hpast⟩ := Reader.skip_of_tail h hv hw (Nat.le_max_left ..)
  obtain ⟨s', hs', hpast'⟩ := Reader.skip_of_tail h' hv (hw.trans he) (Nat.le_max_right ..)
  cases hs.symm.trans hs'
  have hpos := hpast.pos_eq.symm.trans hpast'.pos_eq
  exact (List.append_inj he (Nat.add_left_cancel hpos)).1

theorem Tag.Spells.unique {head head' rest rest' : Bytes} {tag tag' : Tag} (h : Tag.Spells head tag)
    (h' : Tag.Spells head' tag') (he : head ++ rest = head' ++ rest') : head = head' ∧ tag = tag' ∧ rest = rest' := by
  obtain ⟨hv, hw⟩ := Reader.valid_ofBytesWithin (head ++ rest) 0
  have ht := Reader.readTag_of_spells hv h hw
  have ht' := Reader.readTag_of_spells hv h' (hw.trans he)
  obtain ⟨htag, hreader⟩ := EStateM.Result.ok.inj (ht.symm.trans ht')
  have hpos : 0 + head.length = 0 + head'.length := congrArg Reader.pos hreader
  obtain ⟨hhead, hrest⟩ := List.append_inj he (Nat.add_left_cancel hpos)
  exact ⟨hhead, Option.some.inj htag, hrest⟩

/-- Bytes are complete fields in no more than one way. -/
theorem complete_unique {depth depth' : Nat} {fields others : List (Tag × Bytes)} (h : Complete depth fields)
    (h' : Complete depth' others) (he : bytesOf fields = bytesOf others) : fields = others := by
  have hne : ∀ {depth tag bytes rest}, Complete depth ((tag, bytes) :: rest) → bytesOf ((tag, bytes) :: rest) ≠ [] := by
    intro depth tag bytes rest hc hnil
    obtain ⟨⟨head, payload, rfl, hs, _⟩, _⟩ := complete_cons_inv hc
    rw [bytesOf_cons, List.append_assoc] at hnil
    exact hs.ne_nil (List.append_eq_nil_iff.mp hnil).1
  induction fields generalizing others with
  | nil =>
    cases others with
    | nil => rfl
    | cons other others => exact absurd he.symm (hne h')
  | cons field fields ih =>
    obtain ⟨tag, bytes⟩ := field
    cases others with
    | nil => exact absurd he (hne h)
    | cons other others =>
      obtain ⟨tag', bytes'⟩ := other
      obtain ⟨⟨head, payload, rfl, hs, htail⟩, hrest⟩ := complete_cons_inv h
      obtain ⟨⟨head', payload', rfl, hs', htail'⟩, hrest'⟩ := complete_cons_inv h'
      rw [bytesOf_cons, bytesOf_cons, List.append_assoc, List.append_assoc] at he
      obtain ⟨rfl, rfl, he⟩ := hs.unique hs' he
      obtain rfl := htail.unique htail' he
      rw [ih hrest hrest' (List.append_cancel_left he)]

/-! ## Payloads of known fields -/

namespace Schema

theorem Field.kind_of_texts {field : Field} {plain : PlainType} (h : field.strategy = .texts plain) :
    plain.kind.wireType = .lengthDelimited := by
  have hkind : ∀ kind : Kind, kind.isLengthDelimited = true → kind.wireType = .lengthDelimited := by
    intro kind hk
    cases kind with
    | enum => cases hk
    | scalar type =>
      revert hk
      cases type <;> decide
  unfold strategy at h
  split at h
  · cases h
  · split at h
    · cases h
    · cases h
    · cases h
    · cases h
    · split at h
      · rename_i hd
        cases h
        exact hkind _ hd
      · split at h <;> cases h

/-- The wire types of a field's tags: of a run, of one value, or of the field as it is written. -/
theorem Field.wireType_of_dispatch {field : Field} {index : Nat} {entry : Dispatch} (h : entry ∈ field.dispatch index) :
    match field.strategy.runKind? with
    | some kind => entry.tag.wireType? = some (if entry.action = .run then .lengthDelimited else kind.wireType)
    | none => entry.tag.wireType? = some field.strategy.wireType := by
  unfold dispatch at h
  cases hrun : field.strategy.runKind? with
  | some kind =>
    rw [hrun] at h
    rcases List.mem_cons.mp h with rfl | h
    · exact Tag.wireType?_make ..
    · cases List.mem_singleton.mp h
      exact Tag.wireType?_make ..
  | none =>
    rw [hrun] at h
    cases List.mem_singleton.mp h
    exact Tag.wireType?_make ..

end Schema

namespace Reader

/-- What one value was read from is a payload. -/
theorem readScalar_payload {kind : Kind} {tag : Tag} (ht : tag.wireType? = some kind.wireType) {r s : Reader} {v : Scalar}
    (hv : r.Valid) (h : readScalar kind r = .ok v s) :
    ∃ payload rest, r.window = payload ++ rest ∧ Payload tag payload ∧ s = r.forward payload.length := by
  have hvarint : kind.wireType = .varint → ∀ {n t}, readVarint r = .ok n t →
      ∃ payload rest, r.window = payload ++ rest ∧ Payload tag payload ∧ t = r.forward payload.length := by
    intro hk n t hr
    obtain ⟨head, rest, hw, hs, rfl⟩ := readVarint_ok hr
    exact ⟨head, rest, hw, .varint (hk ▸ ht) hs, rfl⟩
  have hfixed : ∀ {width n t}, (∀ bytes : Bytes, bytes.length = width → Payload tag bytes) → readFixed width r = .ok n t →
      ∃ payload rest, r.window = payload ++ rest ∧ Payload tag payload ∧ t = r.forward payload.length := by
    intro width n t hp hr
    rw [readFixed_eq] at hr
    split at hr
    · rename_i hl
      cases hr
      have hlen : (r.window.take width).length = width := by rw [List.length_take]; omega
      exact ⟨r.window.take width, r.window.drop width, (List.take_append_drop ..).symm, hp _ hlen, by rw [hlen]⟩
    · cases hr
  have hbytes : kind.wireType = .lengthDelimited → ∀ {b t}, readBytes r = .ok b t →
      ∃ payload rest, r.window = payload ++ rest ∧ Payload tag payload ∧ t = r.forward payload.length := by
    intro hk b t hr
    obtain ⟨len, s, hl, ha⟩ := bind_ok hr
    obtain ⟨head, body, rest, hw, rfl, hs, rfl⟩ := readLength_ok hv hl
    obtain ⟨hv', hw'⟩ := hv.forward hw
    rw [takes_advance body _ rest hv' hw'] at ha
    cases ha
    refine ⟨head ++ b, rest, by rw [hw, List.append_assoc], .framed (hk ▸ ht) hs, ?_⟩
    rw [forward_forward, List.length_append]
  cases kind with
  | enum =>
    obtain ⟨n, t, hr, h⟩ := bind_ok h
    cases h
    exact hvarint rfl hr
  | scalar type =>
    cases type with
    | string =>
      obtain ⟨text, t, hread, h⟩ := bind_ok h
      cases h
      obtain ⟨b, t, hb, htext⟩ := bind_ok hread
      have hstay : t = s := by
        cases hsome : b.toText? with
        | none =>
          rw [textOf, hsome] at htext
          cases htext
        | some text' =>
          rw [textOf, hsome] at htext
          cases htext
          rfl
      exact hstay ▸ hbytes rfl hb
    | bytes =>
      obtain ⟨b, t, hb, h⟩ := bind_ok h
      cases h
      exact hbytes rfl hb
    | fixed32 | sfixed32 | float =>
      obtain ⟨n, t, hr, h⟩ := bind_ok h
      cases h
      exact hfixed (fun _ => .fixed32 ht) hr
    | fixed64 | sfixed64 | double =>
      obtain ⟨n, t, hr, h⟩ := bind_ok h
      cases h
      exact hfixed (fun _ => .fixed64 ht) hr
    | _ =>
      obtain ⟨n, t, hr, h⟩ := bind_ok h
      cases h
      exact hvarint rfl hr

/-- What a run was read from is a payload. -/
theorem readRun_payload {kind : Kind} {tag : Tag} (ht : tag.wireType? = some .lengthDelimited) {r s : Reader} {u : Unit}
    (hv : r.Valid) (h : (readRun kind r).result = .ok u s) :
    ∃ payload rest, r.window = payload ++ rest ∧ Payload tag payload ∧ s = r.forward payload.length := by
  obtain ⟨head, body, rest, hw, hs, hk⟩ := readRun_ok_inv hv h
  obtain ⟨_, _, hto⟩ := readRun_of_spells hv hw hs hk
  exact ⟨head ++ body, rest, by rw [hw, List.append_assoc], .framed ht hs, hto _ _ h⟩

theorem Past.tagged {r s : Reader} {count depth : Nat} (h : Past r count depth s) (start : Nat) :
    Past r count depth (s.tagged start) :=
  ⟨h.buffer_eq, h.limit_eq, h.maxDepth_eq, h.pos_eq, h.depth_eq⟩

/-- Behind a payload of the tag. -/
def PastPayload (tag : Tag) (r s : Reader) : Prop :=
  ∃ payload rest, r.window = payload ++ rest ∧ Tail r.room tag payload ∧ Past r payload.length r.depth s

end Reader

namespace Step

/-- What the step takes, if it does not fail, is a payload of the tag. -/
def Whole (tag : Tag) (r : Reader) : Step → Prop
  | next _ s => Reader.PastPayload tag r s
  | stop _ _ _ => True
  | into _ _ _ _ _ outer => Reader.PastPayload tag r outer

variable {tag : Tag} {r : Reader}

theorem whole_ofScalar (hv : r.Valid) {kind : Kind} (ht : tag.wireType? = some kind.wireType) (m : Message)
    (change : Scalar → Message) : (ofRead (Reader.readScalar kind) r m change).Whole tag r := by
  unfold ofRead
  split
  · trivial
  · rename_i v s hr
    obtain ⟨payload, rest, hw, hp, rfl⟩ := Reader.readScalar_payload ht hv hr
    exact ⟨payload, rest, hw, .plain hp, Reader.past_forward r _⟩

theorem whole_ofRun (hv : r.Valid) (kind : Kind) (ht : tag.wireType? = some .lengthDelimited)
    (change : List Scalar → Message) : (ofRun (Reader.readRun kind r) change).Whole tag r := by
  unfold ofRun
  split
  · trivial
  · rename_i s hr
    obtain ⟨payload, rest, hw, hp, rfl⟩ := Reader.readRun_payload ht hv hr
    exact ⟨payload, rest, hw, .plain hp, Reader.past_forward r _⟩

theorem whole_ofNested (hv : r.Valid) (counted : Bool) (ht : tag.wireType? = some .lengthDelimited) (m : Message)
    (place : Place) (type : MessageType) (child : Message) : (ofNested counted r m place type child).Whole tag r := by
  unfold ofNested
  split
  · trivial
  · rename_i nested s ho
    obtain ⟨head, body, rest, hw, hs, _, _, hp⟩ := Reader.openNested_ok hv ho
    exact ⟨head ++ body, rest, by rw [hw, List.append_assoc], .plain (.framed ht hs), hp⟩

end Step

namespace Message

variable {table : TypeTable} {type : MessageType} {m : Message} {tag : Tag} {r : Reader}

theorem readField_whole {index : Nat} {field : Field} (hm : m.body.Shaped type) (hf : type.fields[index]? = some field)
    {entry : Dispatch} (he : entry ∈ field.dispatch index) (hv : r.Valid) :
    (m.readField table type field index entry.action r).Whole entry.tag r := by
  have hwire := Field.wireType_of_dispatch he
  obtain ⟨slot, hslot, hform⟩ := hm.slot_of_field hf
  have hslot := slotAt_of_getElem? hslot
  unfold readField
  cases hs : field.strategy with
  | singular plain presence =>
    rw [hs] at hwire
    exact Step.whole_ofScalar hv hwire _ _
  | repeated plain | packed plain =>
    simp only [hs, Strategy.runKind?] at hwire
    dsimp only
    split <;> rename_i hrun
    · rw [if_pos hrun] at hwire
      exact Step.whole_ofRun hv _ hwire _
    · rw [if_neg hrun] at hwire
      exact Step.whole_ofScalar hv hwire _ _
  | texts plain =>
    rw [hs] at hwire
    exact Step.whole_ofScalar hv (hwire.trans (congrArg some (Field.kind_of_texts hs).symm)) _ _
  | message ref =>
    rw [hs] at hwire hform
    cases hform
    simp only [hslot]
    exact Step.whole_ofNested hv _ hwire ..
  | messages ref =>
    rw [hs] at hwire hform
    cases hform
    simp only [hslot]
    exact Step.whole_ofNested hv _ hwire ..
  | map key value =>
    rw [hs] at hwire
    exact Step.whole_ofNested hv _ hwire ..
  | member slot value =>
    rw [hs] at hwire
    cases value with
    | plain plain => exact Step.whole_ofScalar hv hwire _ _
    | message ref => exact Step.whole_ofNested hv _ hwire ..

theorem step_whole (hm : m.body.Shaped type) (hv : r.Valid) (tag : Tag) : (m.step table type tag r).Whole tag r := by
  obtain ⟨entry, f, _, hf, he, rfl, hstep⟩ | ⟨_, hstep⟩ := step_cases table type tag
  · rw [hstep]
    exact readField_whole hm hf he hv
  · rw [hstep]
    cases hskip : Reader.skip tag r with
    | error e s =>
      rw [readUnknown_skip hskip]
      trivial
    | ok u s =>
      obtain ⟨m', hm'⟩ := readUnknown_ok type m hskip
      rw [hm']
      exact Reader.skip_tail hv hskip

/-! ## One field -/

/-- Reads the field behind a tag, with its sub-message if it has one. -/
def readOne (table : TypeTable) (type : MessageType) (m : Message) (tag : Tag) (r : Reader) : Outcome :=
  match m.step table type tag r with
  | .stop m r e => ⟨m, r, some e⟩
  | .next m r => ⟨m, r, none⟩
  | .into m place childType child inner outer =>
    let out := child.merge table childType inner
    match out.error with
    | some e => ⟨m.putFailed table type place out.message, out.reader, some e⟩
    | none => ⟨m.put table type place out.message, outer.tagged out.reader.tagStart, none⟩

theorem readOne_stop {m' : Message} {s : Reader} {e : DecodeError} (h : m.step table type tag r = .stop m' s e) :
    m.readOne table type tag r = ⟨m', s, some e⟩ := by
  rw [readOne, h]

theorem readOne_next {m' : Message} {s : Reader} (h : m.step table type tag r = .next m' s) :
    m.readOne table type tag r = ⟨m', s, none⟩ := by
  rw [readOne, h]

theorem readOne_into {m' child : Message} {place : Place} {childType : MessageType} {inner outer : Reader}
    (h : m.step table type tag r = .into m' place childType child inner outer)
    (he : (child.merge table childType inner).error = none) :
    m.readOne table type tag r = ⟨m'.put table type place (child.merge table childType inner).message,
      outer.tagged (child.merge table childType inner).reader.tagStart, none⟩ := by
  rw [readOne, h]
  dsimp only
  rw [he]

theorem readOne_into_failed {m' child : Message} {place : Place} {childType : MessageType} {inner outer : Reader}
    {e : DecodeError} (h : m.step table type tag r = .into m' place childType child inner outer)
    (he : (child.merge table childType inner).error = some e) :
    m.readOne table type tag r = ⟨m'.putFailed table type place (child.merge table childType inner).message,
      (child.merge table childType inner).reader, some e⟩ := by
  rw [readOne, h]
  dsimp only
  rw [he]

/-- Merging reads one field after the other. -/
theorem merge_one {s : Reader} (ht : Reader.readTag r = .ok (some tag) s) :
    m.merge table type r =
      match (m.readOne table type tag s).error with
      | some _ => m.readOne table type tag s
      | none => (m.readOne table type tag s).message.merge table type (m.readOne table type tag s).reader := by
  cases hs : m.step table type tag s with
  | stop m' s' e => rw [merge_stop ht hs, readOne_stop hs]
  | next m' s' => rw [merge_next ht hs, readOne_next hs]
  | into m' place childType child inner outer =>
    rw [merge_into ht hs]
    cases he : (child.merge table childType inner).error with
    | some e => rw [readOne_into_failed hs he]
    | none => rw [readOne_into hs he]

theorem held_readOne (hg : table.Generated) (hw : type.WellFormed) (h : Held table type m) (tag : Tag) (r : Reader) :
    Held table type (m.readOne table type tag r).message := by
  have hstep := step_twins hg hw h.twins tag r
  cases hs : m.step table type tag r with
  | stop m' s e =>
    rw [hs] at hstep
    rw [readOne_stop hs]
    cases hstep with
    | stop _ _ h => exact h.left
  | next m' s =>
    rw [hs] at hstep
    rw [readOne_next hs]
    cases hstep with
    | next _ h => exact h.left
  | into m' place childType child inner outer =>
    rw [hs] at hstep
    cases hstep with
    | into _ _ h hp hchild =>
      obtain ⟨hout, _⟩ := merge_twins hg (wellFormed_of_suits hg hw hp) hchild inner
      cases he : (child.merge table childType inner).error with
      | some e =>
        rw [readOne_into_failed hs he]
        exact (putFailed_twins hg hw h hp hout).left
      | none =>
        rw [readOne_into hs he]
        exact (put_twins hg hw h hp hout).left

/-- Behind a tag written `head` and in front of `payload`, whatever follows, the field is read and leaves `m'`. -/
def Reads (table : TypeTable) (type : MessageType) (room : Nat) (tag : Tag) (head payload : Bytes) (m m' : Message) :
    Prop :=
  ∀ r rest, r.Valid → Reader.Behind head r → r.window = payload ++ rest → room ≤ r.room →
    ∃ s, m.readOne table type tag r = ⟨m', s, none⟩ ∧ Reader.Past r payload.length r.depth s

/-- A field that is read is a payload of its tag, and the same wherever it stands. -/
theorem readOne_reads (hm : m.body.Shaped type) (hv : r.Valid) {head : Bytes} (hb : Reader.Behind head r)
    (h : (m.readOne table type tag r).error = none) :
    ∃ payload rest, r.window = payload ++ rest ∧ Tail r.room tag payload ∧
      Reader.Past r payload.length r.depth (m.readOne table type tag r).reader ∧
      Reads table type r.room tag head payload m (m.readOne table type tag r).message := by
  have hwhole : (m.step table type tag r).Whole tag r := step_whole hm hv tag
  have hlocal := step_local table type tag m head
  have hsame : ∀ {bytes rest payload rest' : Bytes} {s : Reader}, r.window = bytes ++ rest →
      r.window = payload ++ rest' → Reader.Past r bytes.length r.depth s → Reader.Past r payload.length r.depth s →
      bytes = payload := by
    intro bytes rest payload rest' s hw hw' hp hp'
    exact (List.append_inj (hw.symm.trans hw') (Nat.add_left_cancel (hp.pos_eq.symm.trans hp'.pos_eq))).1
  cases hs : m.step table type tag r with
  | stop m' s e =>
    rw [readOne_stop hs] at h
    cases h
  | next m' s =>
    rw [hs] at hwhole
    obtain ⟨payload, rest, hw, htail, hp⟩ := hwhole
    obtain ⟨bytes, rest', hw', hp', hn⟩ := hlocal.next hv hb hs
    obtain rfl := hsame hw' hw hp' hp
    rw [readOne_next hs]
    refine ⟨bytes, rest, hw, htail, hp, fun s' rest' hv' hb' hw' hroom => ?_⟩
    obtain ⟨t, ht, hpast⟩ := hn s' rest' hv' hb' hw' hroom
    exact ⟨t, readOne_next ht, hpast⟩
  | into m' place childType child inner outer =>
    rw [hs] at hwhole
    obtain ⟨payload, rest, hw, htail, hp⟩ := hwhole
    obtain ⟨bytes, rest', body, counted, hw', hp', hin, _, hn⟩ := hlocal.into hv hb hs
    obtain rfl := hsame hw' hw hp' hp
    have he : (child.merge table childType inner).error = none := by
      cases he : (child.merge table childType inner).error with
      | none => rfl
      | some e =>
        rw [readOne_into_failed hs he] at h
        cases h
    have hchild := merge_absorbs hin.valid he
    rw [hin.room_eq, hin.window_eq] at hchild
    rw [readOne_into hs he]
    refine ⟨bytes, rest, hw, htail, hp.tagged _, fun s' rest' hv' hb' hw' hroom => ?_⟩
    obtain ⟨inner', outer', ht, hin', hpast⟩ := hn s' rest' hv' hb' hw' hroom
    have hle : r.room - Reader.levels counted ≤ inner'.room := by
      rw [hin'.room_eq]
      exact Nat.sub_le_sub_right hroom _
    obtain ⟨t, hm', _⟩ := hchild.merge_eq hin'.valid hin'.window_eq hle
    have he' : (child.merge table childType inner').error = none := by rw [hm']
    refine ⟨outer'.tagged t.tagStart, ?_, hpast.tagged _⟩
    rw [readOne_into ht he', hm']

theorem Reads.absorbs {room : Nat} {head payload : Bytes} {m' : Message} (hs : Tag.Spells head tag)
    (h : Reads table type room tag head payload m m') : Absorbs table type room (head ++ payload) m m' := by
  intro r rest hv hw hr
  rw [List.append_assoc] at hw
  have ht := Reader.past_pastTag r head.length
  obtain ⟨hv', hw'⟩ := ht.valid hv hw
  obtain ⟨s, hone, hp⟩ := h _ rest hv' (Reader.behind_pastTag hv hw) hw' hr
  refine ⟨s, ?_, ?_⟩
  · rw [List.length_append]
    exact ht.trans hp
  · rw [merge_one (Reader.readTag_of_spells hv hs hw), hone]

/-! ## Runs -/

variable (table type) in
/-- Whole fields are read one after the other. -/
inductive Runs (room : Nat) : Message → List (Tag × Bytes) → Message → Prop
  | nil (m : Message) : Runs room m [] m
  | cons {m m' out : Message} {tag : Tag} {head payload : Bytes} {fields : List (Tag × Bytes)}
      (spells : Tag.Spells head tag) (tail : Tail room tag payload) (reads : Reads table type room tag head payload m m')
      (rest : Runs room m' fields out) : Runs room m ((tag, head ++ payload) :: fields) out

variable {room : Nat} {fields : List (Tag × Bytes)} {out : Message}

theorem Runs.complete (h : Runs table type room m fields out) : Complete room fields := by
  induction h with
  | nil m => exact .nil room
  | cons spells tail _ _ ih => exact complete_cons spells tail ih

theorem Runs.absorbs (h : Runs table type room m fields out) : Absorbs table type room (bytesOf fields) m out := by
  induction h with
  | nil m => exact absorbs_nil m
  | cons spells _ reads _ ih =>
    rw [bytesOf_cons]
    exact (reads.absorbs spells).trans ih

theorem Runs.mergeWithin_eq (h : Runs table type room m fields out) :
    mergeWithin table type room m (bytesOf fields) = (out, none) := by
  obtain ⟨hv, hw⟩ := Reader.valid_ofBytesWithin (bytesOf fields) room
  obtain ⟨s, hs, _⟩ := h.absorbs.merge_eq hv hw (Nat.le_refl _)
  rw [mergeWithin, hs]

variable (table type) in
/-- How a merge ends: at the limit, at a tag that cannot be read or in a field that fails. -/
inductive Ends (m : Message) (r : Reader) : Prop
  | done : r.window = [] → Ends m r
  | tag {e : DecodeError} {s : Reader} : r.readTag = .error e s → Ends m r
  | field {tag : Tag} {s : Reader} {e : DecodeError} : r.readTag = .ok (some tag) s →
      (m.readOne table type tag s).error = some e → Ends m r

/-- A merge runs over whole fields until it ends. -/
theorem merge_runs (hg : table.Generated) (hw : type.WellFormed) (h : Held table type m) (hv : r.Valid) :
    ∃ fields rest middle s, Runs table type r.room m fields middle ∧ r.window = bytesOf fields ++ rest ∧
      Reader.Past r (bytesOf fields).length r.depth s ∧ m.merge table type r = middle.merge table type s ∧
      Ends table type middle s := by
  induction hlen : r.window.length using Nat.strongRecOn generalizing m r with
  | _ len ih =>
    have hstop : Ends table type m r → ∃ fields rest middle s, Runs table type r.room m fields middle ∧
        r.window = bytesOf fields ++ rest ∧ Reader.Past r (bytesOf fields).length r.depth s ∧
        m.merge table type r = middle.merge table type s ∧ Ends table type middle s :=
      fun hends => ⟨[], r.window, m, r, .nil m, rfl, Reader.past_refl r, rfl, hends⟩
    cases ht : r.readTag with
    | error e s => exact hstop (.tag ht)
    | ok found s =>
      cases found with
      | none => exact hstop (.done (Reader.readTag_none hv ht).1)
      | some tag =>
        cases he : (m.readOne table type tag s).error with
        | some e => exact hstop (.field ht he)
        | none =>
          obtain ⟨head, rest, hwin, hspells, rfl⟩ := Reader.readTag_some ht
          have hpast := Reader.past_pastTag r head.length
          obtain ⟨hv', hw'⟩ := hpast.valid hv hwin
          obtain ⟨body⟩ := m
          obtain ⟨payload, last, hpay, htail, hp, hreads⟩ :=
            readOne_reads h.shaped hv' (Reader.behind_pastTag hv hwin) he
          obtain ⟨hv'', hw''⟩ := hp.valid hv' hpay
          have hshort : (readOne table type (mk body) tag (r.pastTag head.length)).reader.window.length < len := by
            have hpos := List.length_pos_of_ne_nil hspells.ne_nil
            rw [hw'', ← hlen, hwin, ← hw', hpay, List.length_append, List.length_append]
            omega
          obtain ⟨fields, rest', middle, t, hruns, hsplit, hpast', hmerge, hends⟩ :=
            ih _ hshort (held_readOne hg hw h tag _) hv'' rfl
          rw [hp.room_eq] at hruns
          refine ⟨(tag, head ++ payload) :: fields, rest', middle, t, .cons hspells htail hreads hruns, ?_, ?_, ?_, hends⟩
          · rw [bytesOf_cons, hwin, ← hw', hpay, ← hw'', hsplit]
            simp only [List.append_assoc]
          · have hall := (hpast.trans hp).trans hpast'
            rw [hp.depth_eq] at hall
            rw [bytesOf_cons, List.length_append, List.length_append]
            exact hall
          · rw [merge_one ht, he]
            exact hmerge

/-- A merge that succeeds runs over all its bytes. -/
theorem merge_runs_ok (hg : table.Generated) (hw : type.WellFormed) (h : Held table type m) (hv : r.Valid)
    (hok : (m.merge table type r).error = none) :
    ∃ fields, r.window = bytesOf fields ∧ Runs table type r.room m fields (m.merge table type r).message := by
  obtain ⟨fields, rest, middle, s, hruns, hsplit, hpast, hmerge, hends⟩ := merge_runs hg hw h hv
  obtain ⟨hv', hw'⟩ := hpast.valid hv hsplit
  cases hends with
  | done hwin =>
    rw [hmerge, merge_done hv' hwin]
    rw [hwin] at hw'
    rw [← hw', List.append_nil] at hsplit
    exact ⟨fields, hsplit, hruns⟩
  | tag ht =>
    rw [hmerge, merge_tag_error ht] at hok
    cases hok
  | field ht he =>
    rw [hmerge, merge_one ht, he] at hok
    cases he.symm.trans hok

theorem runs_of_mergeWithin (hg : table.Generated) (hw : type.WellFormed) (h : Held table type m) {bytes : Bytes}
    (hok : mergeWithin table type room m bytes = (out, none)) :
    ∃ fields, bytes = bytesOf fields ∧ Runs table type room m fields out := by
  obtain ⟨hv, hwin⟩ := Reader.valid_ofBytesWithin bytes room
  obtain ⟨hmessage, herror⟩ := Prod.mk.inj hok
  obtain ⟨fields, hbytes, hruns⟩ := merge_runs_ok hg hw h hv herror
  rw [hmessage] at hruns
  exact ⟨fields, hwin.symm.trans hbytes, hruns⟩

end Message

end Protobuf
