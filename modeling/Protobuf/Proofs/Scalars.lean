/-
  Protobuf.Proofs.Scalars — single values and tags, written behind anything and read back in front of anything.

  (1) The interleaving of signed numbers, said by shifts and masks on words (`encode32_eq`, `decode32_eq` and the same
  for 64 bits): doubled and turned over by the sign one way, halved and turned over by the lowest bit the other.

  (2) A reader that stands in front of what was written reads it back and stands behind it (`Before.readScalar_iff`,
  `Before.readTag_iff`). The sizes that were counted are the bytes that were added.
-/

import Protobuf.Proofs.Grammar

namespace Protobuf

namespace ZigZag

/-! ## Signed numbers by shifts -/

variable {w : Nat}

theorem ushiftRight_top {x : BitVec w} (hw : 0 < w) (h : x.msb = false) : x >>> (w - 1) = 0#w := by
  have hlt : 2 * x.toNat < 2 ^ w := BitVec.msb_eq_false_iff_two_mul_lt.mp h
  have hpow : 2 ^ w = 2 * 2 ^ (w - 1) := by
    rw [← Nat.pow_succ']
    congr 1
    omega
  apply BitVec.eq_of_toNat_eq
  rw [BitVec.toNat_ushiftRight, Nat.shiftRight_eq_div_pow, BitVec.toNat_zero]
  exact Nat.div_eq_of_lt (by omega)

/-- The sign of a word, spread over all its bits. -/
theorem sshiftRight_top {x : BitVec w} (hw : 0 < w) :
    x.sshiftRight (w - 1) = if x.msb then BitVec.allOnes w else 0#w := by
  cases h : x.msb with
  | false =>
    rw [BitVec.sshiftRight_eq_of_msb_false h, ushiftRight_top hw h]
    rfl
  | true =>
    have hnot : (~~~x).msb = false := by simp [BitVec.msb_not, h]
    rw [BitVec.sshiftRight_eq_of_msb_true h, ushiftRight_top hw hnot, BitVec.not_zero]
    rfl

/-- Doubled, and turned over if the sign is set: the place of the number. -/
theorem toNat_double_xor_sign (hw : 0 < w) (x : BitVec w) :
    ((x <<< 1) ^^^ x.sshiftRight (w - 1)).toNat = code x.toInt := by
  have hx := x.isLt
  rw [sshiftRight_top hw, code, BitVec.toInt_eq_msb_cond]
  cases h : x.msb with
  | false =>
    have hlt : 2 * x.toNat < 2 ^ w := BitVec.msb_eq_false_iff_two_mul_lt.mp h
    simp only [Bool.false_eq_true, if_false, BitVec.xor_zero, BitVec.toNat_shiftLeft, Nat.shiftLeft_eq, Nat.pow_one]
    rw [Nat.mod_eq_of_lt (by omega)]
    split <;> omega
  | true =>
    have hge : 2 ^ w ≤ 2 * x.toNat := BitVec.msb_eq_true_iff_two_mul_ge.mp h
    simp only [if_true, BitVec.xor_allOnes, BitVec.toNat_not, BitVec.toNat_shiftLeft, Nat.shiftLeft_eq, Nat.pow_one]
    have hmod : x.toNat * 2 % 2 ^ w = x.toNat * 2 - 2 ^ w := by
      rw [Nat.mod_eq_sub_mod (by omega), Nat.mod_eq_of_lt (by omega)]
    rw [hmod]
    split <;> omega

theorem toInt_half_xor_parity (hw : 0 < w) (x : BitVec w) :
    ((x >>> 1) ^^^ -(x &&& 1#w)).toInt = number x.toNat := by
  have hx := x.isLt
  have hone : (x &&& 1#w).toNat = x.toNat % 2 := by
    rw [BitVec.toNat_and, BitVec.toNat_ofNat, Nat.mod_eq_of_lt (Nat.one_lt_two_pow (by omega))]
    exact Nat.and_one_is_mod _
  have hhalf : (x >>> 1).toNat = x.toNat / 2 := by
    rw [BitVec.toNat_ushiftRight, Nat.shiftRight_eq_div_pow]
  rw [number]
  by_cases heven : x.toNat % 2 = 0
  · have hzero : x &&& 1#w = 0#w := BitVec.eq_of_toNat_eq (by rw [hone, heven]; rfl)
    rw [if_pos heven, hzero, BitVec.neg_zero, BitVec.xor_zero, BitVec.toInt_eq_toNat_of_lt (by omega), hhalf]
  · have hodd : x &&& 1#w = 1#w := BitVec.eq_of_toNat_eq (by
      rw [hone, BitVec.toNat_ofNat, Nat.mod_eq_of_lt (Nat.one_lt_two_pow (by omega))]
      omega)
    have hall : -(1#w) = BitVec.allOnes w := BitVec.neg_one_eq_allOnes
    rw [if_neg heven, hodd, hall, BitVec.xor_allOnes, BitVec.toInt_eq_toNat_cond, BitVec.toNat_not, hhalf, if_neg (by omega)]
    omega

theorem encode32_eq (v : Int32) : encode32 v = ((v <<< 1) ^^^ (v >>> 31)).toUInt32 := by
  have h : ((v <<< 1) ^^^ (v >>> 31)).toUInt32.toNat = code v.toInt := toNat_double_xor_sign (by decide) v.toBitVec
  rw [encode32, ← h, UInt32.ofNat_toNat]

theorem encode64_eq (v : Int64) : encode64 v = ((v <<< 1) ^^^ (v >>> 63)).toUInt64 := by
  have h : ((v <<< 1) ^^^ (v >>> 63)).toUInt64.toNat = code v.toInt := toNat_double_xor_sign (by decide) v.toBitVec
  rw [encode64, ← h, UInt64.ofNat_toNat]

theorem decode32_eq (c : UInt32) : decode32 c = (c >>> 1).toInt32 ^^^ -(c &&& 1).toInt32 := by
  have h : ((c >>> 1).toInt32 ^^^ -(c &&& 1).toInt32).toInt = number c.toNat :=
    toInt_half_xor_parity (by decide) c.toBitVec
  rw [decode32, ← h, Int32.ofInt_toInt]

theorem decode64_eq (c : UInt64) : decode64 c = (c >>> 1).toInt64 ^^^ -(c &&& 1).toInt64 := by
  have h : ((c >>> 1).toInt64 ^^^ -(c &&& 1).toInt64).toInt = number c.toNat :=
    toInt_half_xor_parity (by decide) c.toBitVec
  rw [decode64, ← h, Int64.ofInt_toInt]

end ZigZag

/-! ## Counting -/

/-- A run of values of one width takes that for each. -/
theorem Scalar.sizeAll_of_width {values : List Scalar} {width : Nat} (h : ∀ v ∈ values, v.size = width) :
    sizeAll values = values.length * width := by
  induction values with
  | nil => simp [sizeAll, total]
  | cons v values ih =>
    obtain ⟨hv, hrest⟩ := List.forall_mem_cons.mp h
    have ih : total size values = values.length * width := ih hrest
    rw [sizeAll, total_cons, hv, ih, List.length_cons, Nat.succ_mul, Nat.add_comm]

/-- A tag takes as much as its field number alone, whatever stands in its lowest bits. -/
theorem Tag.length_encode {tag : Nat} (h : tag < 0x100000000) : (encode tag).length = size (number tag) := by
  have hsplit : tag = tag / 8 * 8 + tag % 8 := by omega
  have hmake : make (tag / 8) .varint = tag / 8 * 8 := by
    rw [make_eq]
    show tag / 8 % 0x20000000 * 8 + 0 = tag / 8 * 8
    omega
  calc (encode tag).length = Varint.size tag := Varint.length_encode tag
    _ = Varint.size (tag / 8 * 8 + tag % 8) := congrArg Varint.size hsplit
    _ = Varint.size (tag / 8 * 8) := size_low_bits _ (Nat.mod_lt _ (by decide))
    _ = size (tag / 8) := congrArg Varint.size hmake.symm

/-! ## Reading back -/

namespace Reader

/-- The reader stands behind `sink` and in front of `bytes`, and may read all of these. -/
structure Before (r : Reader) (sink bytes rest : Bytes) : Prop where
  buffer_eq : r.buffer.toList = sink ++ (bytes ++ rest)
  pos_eq : r.pos = sink.length
  le_limit : r.pos + bytes.length ≤ r.limit
  limit_le : r.limit ≤ r.buffer.size

variable {r : Reader} {sink bytes rest : Bytes}

theorem Before.valid (h : r.Before sink bytes rest) : r.Valid :=
  ⟨Nat.le_trans (Nat.le_add_right ..) h.le_limit, h.limit_le⟩

theorem Before.window (h : r.Before sink bytes rest) : ∃ more, r.window = bytes ++ more := by
  have hle := h.le_limit
  refine ⟨rest.take (r.limit - r.pos - bytes.length), ?_⟩
  rw [Reader.window, slice_eq, h.buffer_eq, h.pos_eq, List.drop_left, ← h.pos_eq, List.take_append,
    List.take_of_length_le (by omega)]

/-- A value is read back just if its length could be written. -/
theorem Before.readScalar_iff {v : Scalar} (h : r.Before sink v.encode rest) :
    readScalar v.kind r = .ok v (r.forward v.size) ↔ v.Sized := by
  constructor
  · intro hread
    exact (readScalar_ok hread).2
  · intro hsized
    obtain ⟨more, hw⟩ := h.window
    rw [takes_readScalar hsized r more h.valid hw, Scalar.length_encode]

/-- A tag is read back just if it has a field number and a wire type. -/
theorem Before.readTag_iff {tag : Tag} (h : r.Before sink (Tag.encode tag) rest) (hlt : tag < 0x100000000) :
    readTag r = .ok (some tag) (r.pastTag (Tag.size tag.number)) ↔ tag.number ≠ 0 ∧ tag.wireCode ≤ 5 := by
  constructor
  · intro hread
    obtain ⟨_, _, _, hspells, _⟩ := readTag_some hread
    exact ⟨hspells.number_ne, Tag.isSome_wireType?.mp hspells.wireType⟩
  · rintro ⟨hnumber, hwire⟩
    obtain ⟨more, hw⟩ := h.window
    have hspells : Tag.Spells (Tag.encode tag) tag :=
      ⟨spells_encode (Nat.lt_trans hlt (by decide)), hlt, hnumber, Tag.isSome_wireType?.mpr hwire⟩
    rw [readTag_of_spells h.valid hspells hw, Tag.length_encode hlt]

/-- What is written behind `sink` is read back with anything behind it. A value of each kind adds the bytes that its
    size says and is read back from them, a text or a byte string just if its length fits 64 bits; a run of values adds
    the bytes that its size says, which for values of one width is their number times the width; a tag adds the bytes of
    its field number and is read back just if it has one and a wire type. Signed numbers are interleaved as if by shifts. -/
theorem written_read_back (sink rest : Bytes) :
    (∀ v : Scalar, (sink ++ v.encode).length = sink.length + v.size ∧
      ∀ r : Reader, r.Before sink v.encode rest → (readScalar v.kind r = .ok v (r.forward v.size) ↔ v.Sized)) ∧
    (∀ values : List Scalar, (sink ++ Scalar.encodeAll values).length = sink.length + Scalar.sizeAll values ∧
      ∀ kind, (∀ v ∈ values, v.kind = kind) → (∀ width, kind.width? = some width →
        Scalar.sizeAll values = values.length * width) ∧
        (kind = .scalar .bool → Scalar.sizeAll values = values.length)) ∧
    (∀ tag : Tag, tag < 0x100000000 → (sink ++ Tag.encode tag).length = sink.length + Tag.size (tag / 8) ∧
      ∀ r : Reader, r.Before sink (Tag.encode tag) rest →
        (readTag r = .ok (some tag) (r.pastTag (Tag.size (tag / 8))) ↔ tag.number ≠ 0 ∧ tag.wireCode ≤ 5)) ∧
    (∀ v : Int32, ZigZag.encode32 v = ((v <<< 1) ^^^ (v >>> 31)).toUInt32) ∧
    (∀ v : Int64, ZigZag.encode64 v = ((v <<< 1) ^^^ (v >>> 63)).toUInt64) ∧
    (∀ c : UInt32, ZigZag.decode32 c = (c >>> 1).toInt32 ^^^ -(c &&& 1).toInt32) ∧
    ∀ c : UInt64, ZigZag.decode64 c = (c >>> 1).toInt64 ^^^ -(c &&& 1).toInt64 := by
  refine ⟨fun v => ⟨?_, fun r h => h.readScalar_iff⟩, fun values => ⟨?_, fun kind hkind => ⟨?_, ?_⟩⟩,
    fun tag hlt => ⟨?_, fun r h => h.readTag_iff hlt⟩, ZigZag.encode32_eq, ZigZag.encode64_eq, ZigZag.decode32_eq,
    ZigZag.decode64_eq⟩
  · rw [List.length_append, Scalar.length_encode]
  · rw [List.length_append, Scalar.length_encodeAll]
  · intro width hwidth
    refine Scalar.sizeAll_of_width fun v hv => Scalar.size_of_width? ?_
    rw [hkind v hv, hwidth]
  · rintro rfl
    have hone : ∀ v ∈ values, v.size = 1 := by
      intro v hv
      have hbool := hkind v hv
      cases v <;> cases hbool
      rfl
    rw [Scalar.sizeAll_of_width hone, Nat.mul_one]
  · rw [List.length_append, Tag.length_encode hlt]
    rfl

/-- The least number of 32 bits, which takes ten bytes, and the greatest tag there is, each between other bytes. -/
theorem written_read_back_bounds :
    let least : Scalar := .int32 (-0x80000000)
    let r : Reader := { ofBytes ([7, 7] ++ (least.encode ++ [8])) with pos := 2, limit := 12 }
    let s : Reader := { ofBytes ([7, 7] ++ (Tag.encode 0xfffffffd ++ [8])) with pos := 2, limit := 7 }
    readScalar (.scalar .int32) r = .ok least (r.forward 10) ∧ readTag s = .ok (some 0xfffffffd) (s.pastTag 5) := by
  obtain ⟨hscalar, -, htag, -⟩ := written_read_back [7, 7] [8]
  constructor
  · exact ((hscalar (.int32 (-0x80000000))).2 _ ⟨rfl, rfl, by decide +kernel, by decide +kernel⟩).mpr trivial
  · exact ((htag 0xfffffffd (by decide)).2 _ ⟨rfl, rfl, by decide +kernel, by decide +kernel⟩).mpr (by decide)

end Reader

end Protobuf
