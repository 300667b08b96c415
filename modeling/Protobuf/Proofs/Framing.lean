/-
  Protobuf.Proofs.Framing — streams of messages, each behind its length.

  (1) A frame is a length, in whatever form, and as many bytes behind it. `Frame.decode` takes the one at the front
  and fails if there is none (`Frame.decode_eq_ok_iff`). Said once more with each shift, difference and end
  checked, it never faults (`Frame.checked_eq`).

  (2) A message that its bytes give back comes back from the front of anything, and takes the bytes it was framed in
  (`Parcel.Portable.decodeFramed`). So frames behind each other are read at the offsets that the ones before add up to
  (`decodeAll_from`).
-/

import Protobuf.Proofs.Required
import Protobuf.Sample.Legacy

namespace Protobuf

open Schema

/-! ## Frames -/

/-- Like `decodeFrom`, with a fault where a group is shifted by the width of a word or more. -/
def Varint.checkedFrom (count value : Nat) : Bytes → Option (Except DecodeError (Nat × Nat))
  | [] => some (.error .truncated)
  | byte :: rest =>
    if count = 9 ∧ 1 < byte.toNat then some (.error .malformedVarint)
    else if 64 ≤ 7 * count then none
    else
      let value := value + byte.toNat % 128 * Nat.pow 128 count
      if byte.toNat < 128 then some (.ok (value, count + 1)) else checkedFrom (count + 1) value rest

theorem Varint.checkedFrom_eq {count : Nat} (hc : count ≤ 9) (value : Nat) (bytes : Bytes) :
    checkedFrom count value bytes = some (decodeFrom count value bytes) := by
  induction bytes generalizing count value with
  | nil => rfl
  | cons byte rest ih =>
    have hshift : ¬ 64 ≤ 7 * count := by omega
    rw [checkedFrom, decodeFrom]
    by_cases hlast : count = 9 ∧ 1 < byte.toNat
    · rw [if_pos hlast, if_pos hlast]
    · rw [if_neg hlast, if_neg hlast, if_neg hshift]
      by_cases hend : byte.toNat < 128
      · simp only [if_pos hend]
      · simp only [if_neg hend]
        exact ih (by omega) _

namespace Frame

/-- Like `decode`, with a fault where the length would take more bytes than there are or the payload would end
    behind them. -/
def checked (bytes : Bytes) : Option (Except DecodeError (Bytes × Nat)) :=
  (Varint.checkedFrom 0 0 bytes).bind fun found =>
    match found with
    | .error e => some (.error e)
    | .ok (len, start) =>
      if bytes.length < start then none
      else if bytes.length - start < len then some (.error (.lengthOverrun len (bytes.length - start)))
      else if bytes.length < start + len then none
      else some (.ok ((bytes.drop start).take len, start + len))

variable {bytes payload : Bytes} {consumed : Nat}

theorem decode_of_error {e : DecodeError} (h : Varint.decode bytes = .error e) : decode bytes = .error e := by
  simp only [decode, h]
  rfl

theorem decode_of_length {len start : Nat} (h : Varint.decode bytes = .ok (len, start)) :
    decode bytes = if bytes.length - start < len then .error (.lengthOverrun len (bytes.length - start))
      else .ok ((bytes.drop start).take len, start + len) := by
  simp only [decode, h]
  by_cases hover : bytes.length - start < len
  · rw [if_pos hover]
    simp only [bind, Except.bind, if_pos hover]
    rfl
  · rw [if_neg hover]
    simp only [bind, Except.bind, if_neg hover]
    rfl

/-- No difference is negative and no end lies behind the bytes. -/
theorem checked_eq (bytes : Bytes) : checked bytes = some (decode bytes) := by
  rw [checked, Varint.checkedFrom_eq (Nat.zero_le 9), Option.bind_some]
  cases hd : Varint.decodeFrom 0 0 bytes with
  | error e => rw [decode_of_error hd]
  | ok found =>
    obtain ⟨len, start⟩ := found
    have hstart := (Varint.pos_of_decode hd).2
    rw [decode_of_length hd]
    dsimp only
    rw [if_neg (Nat.not_lt.mpr hstart)]
    by_cases hover : bytes.length - start < len
    · rw [if_pos hover, if_pos hover]
    · have hend : ¬ bytes.length < start + len := by omega
      rw [if_neg hover, if_neg hover, if_neg hend]

theorem decode_of_spells {head : Bytes} (h : Varint.Spells head payload.length) (rest : Bytes) :
    decode (head ++ (payload ++ rest)) = .ok (payload, head.length + payload.length) := by
  have hroom : ¬ (head ++ (payload ++ rest)).length - head.length < payload.length := by
    simp only [List.length_append]
    omega
  rw [decode_of_length (Reader.decode_of_spells h (payload ++ rest)), if_neg hroom, List.drop_left, List.take_left]

/-- The payload is what stands behind its length at the front. -/
theorem decode_eq_ok_iff : decode bytes = .ok (payload, consumed) ↔
    ∃ head rest, bytes = head ++ (payload ++ rest) ∧ Varint.Spells head payload.length ∧
      consumed = head.length + payload.length := by
  constructor
  · intro h
    cases hd : Varint.decode bytes with
    | error e =>
      rw [decode_of_error hd] at h
      cases h
    | ok found =>
      obtain ⟨len, start⟩ := found
      obtain ⟨head, behind, rfl, rfl, hs⟩ := Reader.spells_of_decode hd
      rw [decode_of_length hd] at h
      by_cases hover : (head ++ behind).length - head.length < len
      · rw [if_pos hover] at h
        cases h
      · rw [if_neg hover, List.drop_left] at h
        have hlen : (behind.take len).length = len := by
          rw [List.length_append] at hover
          rw [List.length_take]
          omega
        cases h
        refine ⟨head, behind.drop len, ?_, ?_, ?_⟩
        · rw [List.take_append_drop]
        · rw [hlen]
          exact hs
        · rw [hlen]
  · rintro ⟨head, rest, rfl, hs, rfl⟩
    exact decode_of_spells hs rest

/-- There is an error just where no frame is at the front. -/
theorem decode_cases (bytes : Bytes) :
    (∃ head payload rest, bytes = head ++ (payload ++ rest) ∧ Varint.Spells head payload.length ∧
      decode bytes = .ok (payload, head.length + payload.length)) ∨
    ∃ e, decode bytes = .error e ∧
      ∀ head payload rest, Varint.Spells head payload.length → bytes ≠ head ++ (payload ++ rest) := by
  cases hd : decode bytes with
  | ok found =>
    obtain ⟨payload, consumed⟩ := found
    obtain ⟨head, rest, hsplit, hs, rfl⟩ := decode_eq_ok_iff.mp hd
    exact .inl ⟨head, payload, rest, hsplit, hs, rfl⟩
  | error e =>
    refine .inr ⟨e, rfl, ?_⟩
    rintro head payload rest hs rfl
    rw [decode_of_spells hs] at hd
    cases hd

theorem decode_encode_append (h : payload.length < 0x10000000000000000) (rest : Bytes) :
    decode (encode payload ++ rest) = .ok (payload, (encode payload).length) := by
  rw [encode, List.append_assoc, decode_of_spells (Reader.spells_encode h), List.length_append]

end Frame

/-! ## Messages -/

/-- A message and its type. -/
structure Parcel where
  table : TypeTable
  type : MessageType
  message : Message

namespace Parcel

variable {parcel : Parcel}

def kind (parcel : Parcel) : TypeTable × MessageType := (parcel.table, parcel.type)

def framed (parcel : Parcel) : Bytes := parcel.message.encodeFramed parcel.table parcel.type

/-- All that it takes for the message to come back from its frame. -/
structure Portable (parcel : Parcel) : Prop where
  generated : parcel.table.Generated
  mem : parcel.type ∈ parcel.table.messages
  typed : Message.Typed parcel.table parcel.type parcel.message
  settled : Message.Settled parcel.table parcel.type parcel.message
  zeroDefaults : Message.ZeroDefaults parcel.table parcel.type parcel.message
  nests : Message.Nests parcel.table 100 parcel.type parcel.message
  fits : Message.Fits parcel.table parcel.type parcel.message
  complete : parcel.message.isComplete parcel.table parcel.type = true
  short : (parcel.message.encode parcel.table parcel.type).length < 0x100000000

/-- Whether it is portable, with no more than `height` levels and no unknown bytes. -/
def isPortable (height : Nat) (parcel : Parcel) : Bool :=
  Message.holds parcel.table (fun type body => body.Shaped type ∧ ∀ value ∈ body.values, value.Sized) height parcel.type
      parcel.message &&
    Message.holds parcel.table (fun type body => body.Settled type) height parcel.type parcel.message &&
    Message.holds parcel.table (fun type _ => type.ZeroDefaults) height parcel.type parcel.message &&
    Message.holds parcel.table (fun _ body => body.unknown = []) height parcel.type parcel.message &&
    Message.holds parcel.table (fun type body => ∀ n ∈ (body.sizes parcel.table type).lengths type, n < 0x100000000) height
      parcel.type parcel.message &&
    parcel.message.isComplete parcel.table parcel.type &&
    decide ((parcel.message.encode parcel.table parcel.type).length < 0x100000000)

theorem portable_of_isPortable {table : TypeTable} {type : MessageType} {m : Message} {height : Nat} (hle : height ≤ 101)
    (hg : table.Generated) (hmem : type ∈ table.messages) (h : isPortable height ⟨table, type, m⟩ = true) :
    Portable ⟨table, type, m⟩ := by
  simp only [isPortable, Bool.and_eq_true, decide_eq_true_eq] at h
  obtain ⟨⟨⟨⟨⟨⟨htyped, hsettled⟩, hzero⟩, hunknown⟩, hfits⟩, hcomplete⟩, hshort⟩ := h
  exact {
    generated := hg
    mem := hmem
    typed := Message.throughout_of_holds height htyped
    settled := Message.throughout_of_holds height hsettled
    zeroDefaults := Message.throughout_of_holds height hzero
    nests := Message.nests_of_holds height hunknown hle
    fits := Message.throughout_of_holds height hfits
    complete := hcomplete
    short := hshort }

theorem Portable.decode (h : parcel.Portable) :
    ∃ back, Message.decode parcel.table parcel.type (parcel.message.encode parcel.table parcel.type) = .ok back ∧
      back.Same parcel.message := by
  obtain ⟨back, hmerge, hsame, hcomplete⟩ := Message.exists_back h.generated h.mem h.typed h.nests h.fits
  have hw := h.generated.wellFormed h.mem
  refine ⟨back, ?_, hsame.trans (Message.overlay_new h.generated.childAt hw h.typed h.settled h.zeroDefaults)⟩
  simp only [Message.decode, hmerge, hcomplete, h.complete, if_true]

/-- The length in front is that of the bytes behind it. -/
theorem Portable.framed_eq (h : parcel.Portable) :
    parcel.framed = Frame.encode (parcel.message.encode parcel.table parcel.type) := by
  have hsize : (parcel.message.measure parcel.table parcel.type).cachedSize =
      (parcel.message.encode parcel.table parcel.type).length := by
    rw [(Message.measure_measured h.typed).cachedSize_eq, Message.wire_measure, Message.encode_eq_wire h.typed h.fits]
  rw [framed, Message.encodeFramed, Frame.encode, hsize, lengthBytes_of_lt h.short]
  rfl

/-- From the front of anything the message comes back, and takes its frame. -/
theorem Portable.decodeFramed (h : parcel.Portable) (rest : Bytes) :
    ∃ back, Message.decodeFramed parcel.table parcel.type (parcel.framed ++ rest) = .ok (back, parcel.framed.length) ∧
      back.Same parcel.message := by
  obtain ⟨back, hdecode, hsame⟩ := h.decode
  have hlen : (parcel.message.encode parcel.table parcel.type).length < 0x10000000000000000 :=
    Nat.lt_trans h.short (by decide)
  refine ⟨back, ?_, hsame⟩
  rw [h.framed_eq, Message.decodeFramed, Frame.decode_encode_append hlen]
  simp only [bind, Except.bind, hdecode]
  rfl

end Parcel

namespace Message

/-- Reads framed messages of these types one after the other from an offset on, each with the number of bytes that
    it takes. -/
def decodeAll (bytes : Bytes) : List (TypeTable × MessageType) → Nat → Except DecodeError (List (Message × Nat))
  | [], _ => .ok []
  | kind :: kinds, offset => do
    let found ← decodeFramed kind.1 kind.2 (bytes.drop offset)
    let others ← decodeAll bytes kinds (offset + found.2)
    return found :: others

theorem decodeAll_from {parcels : List Parcel} (h : ∀ parcel ∈ parcels, parcel.Portable) (front trailing : Bytes) :
    ∃ found, decodeAll (front ++ (parcels.flatMap Parcel.framed ++ trailing)) (parcels.map Parcel.kind) front.length =
        .ok found ∧
      List.Forall₂ (fun pair parcel => pair.1.Same parcel.message ∧ pair.2 = parcel.framed.length) found parcels := by
  induction parcels generalizing front with
  | nil => exact ⟨[], rfl, .nil⟩
  | cons parcel parcels ih =>
    obtain ⟨back, hdecode, hsame⟩ :=
      (h parcel (List.mem_cons_self ..)).decodeFramed (parcels.flatMap Parcel.framed ++ trailing)
    obtain ⟨found, hrest, hfound⟩ := ih (fun parcel hi => h parcel (List.mem_cons_of_mem _ hi)) (front ++ parcel.framed)
    refine ⟨(back, parcel.framed.length) :: found, ?_, .cons ⟨hsame, rfl⟩ hfound⟩
    rw [List.length_append, List.append_assoc] at hrest
    rw [List.flatMap_cons, List.append_assoc, List.map_cons, decodeAll, List.drop_left]
    simp only [Parcel.kind, hdecode, bind, Except.bind]
    rw [hrest]
    rfl

/-- Messages framed one behind the other, of whatever types and in front of anything, come back in order, and the
    bytes that they take add up to the offset of what is behind them. Of any bytes, reading a frame takes a length
    and as many bytes behind it as that says; if these are not there it fails, and it never faults. -/
theorem framed_streams (parcels : List Parcel) (trailing : Bytes) (h : ∀ parcel ∈ parcels, parcel.Portable) :
    (∃ found, decodeAll (parcels.flatMap Parcel.framed ++ trailing) (parcels.map Parcel.kind) 0 = .ok found ∧
      List.Forall₂ (fun pair parcel => pair.1.Same parcel.message ∧ pair.2 = parcel.framed.length) found parcels ∧
      total Prod.snd found = (parcels.flatMap Parcel.framed).length) ∧
    ∀ bytes, Frame.checked bytes = some (Frame.decode bytes) ∧
      ((∃ head payload rest, bytes = head ++ (payload ++ rest) ∧ Varint.Spells head payload.length ∧
        Frame.decode bytes = .ok (payload, head.length + payload.length)) ∨
      ∃ e, Frame.decode bytes = .error e ∧
        ∀ head payload rest, Varint.Spells head payload.length → bytes ≠ head ++ (payload ++ rest)) := by
  refine ⟨?_, fun bytes => ⟨Frame.checked_eq bytes, Frame.decode_cases bytes⟩⟩
  obtain ⟨found, hdecode, hfound⟩ := decodeAll_from h [] trailing
  refine ⟨found, hdecode, hfound, ?_⟩
  rw [length_flatMap_eq_total]
  clear hdecode h
  induction hfound with
  | nil => rfl
  | cons hpair _ ih => rw [total_cons, total_cons, hpair.2, ih]

set_option maxRecDepth 100000 in
/-- A point, settings and a point again, in front of a byte that is no frame. -/
theorem framed_streams_mixed :
    let set := fun (type : MessageType) (index : Nat) (value : Scalar) =>
      (new type).setScalar (type.fields[index]?.getD default) index value
    let shapes := Sample.Shapes.table
    let legacy := Sample.Legacy.table
    let pointType := shapes.message "demo.shapes.Point"
    let settingsType := legacy.message "demo.legacy.Settings"
    let point : Parcel := ⟨shapes, pointType, set pointType 0 (.int32 5)⟩
    let settings : Parcel := ⟨legacy, settingsType, set settingsType 5 (.uint64 7)⟩
    ∃ found, decodeAll [2, 8, 5, 2, 48, 7, 2, 8, 5, 0xff] [point.kind, settings.kind, point.kind] 0 = .ok found ∧
      List.Forall₂ (fun pair parcel => pair.1.Same parcel.message ∧ pair.2 = parcel.framed.length) found
        [point, settings, point] ∧
      total Prod.snd found = 9 ∧ Frame.checked [0xff] = some (Frame.decode [0xff]) := by
  intro set shapes legacy pointType settingsType point settings
  obtain ⟨hnamedPoint, hnamedSettings, hpassPoint, hpassSettings, hbytes⟩ :
      (shapes.messages.any fun type => type.fullName == "demo.shapes.Point") = true ∧
      (legacy.messages.any fun type => type.fullName == "demo.legacy.Settings") = true ∧
      point.isPortable 1 = true ∧ settings.isPortable 1 = true ∧
      [point, settings, point].flatMap Parcel.framed = [2, 8, 5, 2, 48, 7, 2, 8, 5] := by
    decide +kernel
  have hpoint : point.Portable :=
    Parcel.portable_of_isPortable (by decide) (generated_tableOf _ _) (TypeTable.message_mem hnamedPoint) hpassPoint
  have hsettings : settings.Portable :=
    Parcel.portable_of_isPortable (by decide) (generated_tableOf _ _) (TypeTable.message_mem hnamedSettings) hpassSettings
  have hparcels : ∀ parcel ∈ [point, settings, point], parcel.Portable :=
    List.forall_mem_cons.mpr ⟨hpoint, List.forall_mem_cons.mpr ⟨hsettings, List.forall_mem_singleton.mpr hpoint⟩⟩
  obtain ⟨⟨found, hdecode, hfound, hsum⟩, hframe⟩ := framed_streams [point, settings, point] [0xff] hparcels
  rw [hbytes] at hdecode hsum
  exact ⟨found, hdecode, hfound, hsum, (hframe [0xff]).1⟩

end Message

end Protobuf
