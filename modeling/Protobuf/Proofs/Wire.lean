/-
  Protobuf.Proofs.Wire — what is written to the wire, and what reading it gives.

  Numbers and tags are measured without being written (`length_encode` for each of them), and numbers
  read back from the front of any bytes (`decode_encode_append`). A number read depends on the bytes
  it takes and on nothing behind them (`decode_append_of_decode`), so there is never a need to look
  at more than ten (`decode_take`).
-/

import Mathlib.Algebra.BigOperators.Group.Multiset.Basic
import Mathlib.Algebra.Order.BigOperators.Group.List
import Mathlib.Algebra.Order.Group.Nat
import Protobuf.Scalar

namespace Protobuf

/-! ## Lists of sizes -/

section Totals

variable {α β : Type} {f g : α → Nat} {xs ys : List α}

theorem total_cons (f : α → Nat) (x : α) (xs : List α) : total f (x :: xs) = f x + total f xs := rfl

theorem total_congr (h : ∀ x ∈ xs, f x = g x) : total f xs = total g xs := congrArg _ (List.map_congr_left h)

theorem total_map (size : β → Nat) (f : α → β) (xs : List α) :
    total size (xs.map f) = total (fun x => size (f x)) xs :=
  congrArg _ List.map_map

theorem total_append (f : α → Nat) (xs ys : List α) : total f (xs ++ ys) = total f xs + total f ys := by
  rw [total, List.map_append]
  exact List.sum_append_nat

theorem total_perm (f : α → Nat) (h : xs.Perm ys) : total f xs = total f ys := (h.map f).sum_nat

theorem total_add (f g : α → Nat) (xs : List α) : total (fun x => f x + g x) xs = total f xs + total g xs :=
  List.sum_map_add

theorem total_eq_zero_iff : total f xs = 0 ↔ ∀ x ∈ xs, f x = 0 := List.sum_eq_zero_iff.trans List.forall_mem_map

theorem total_comm (f : α → β → Nat) (xs : List α) (ys : List β) :
    total (fun x => total (f x) ys) xs = total (fun y => total (fun x => f x y) xs) ys :=
  Multiset.sum_map_sum_map (xs : Multiset α) (ys : Multiset β)

/-- What is written piece by piece takes as much as the pieces. -/
theorem length_flatMap_eq_total (f : α → List β) (xs : List α) :
    (xs.flatMap f).length = total (fun x => (f x).length) xs :=
  List.length_flatMap

end Totals

/-! ## Varints -/

namespace Varint

variable {n v count value : Nat} {bytes : Bytes}

theorem size_of_lt (h : n < 128) : size n = 1 := by
  have : n.log2 < 7 := by
    by_cases e : n = 0
    · subst e; decide
    · exact (Nat.log2_lt e).mpr h
  unfold size
  omega

theorem size_of_le (h : 128 ≤ n) : size n = size (n / 128) + 1 := by
  have step : n.log2 = (n / 128).log2 + 7 := by
    have e : ∀ k, 2 ≤ k → k.log2 = (k / 2).log2 + 1 := fun k hk => by rw [Nat.log2_def, if_pos hk]
    rw [e n (by omega), e (n / 2) (by omega), e (n / 2 / 2) (by omega), e (n / 2 / 2 / 2) (by omega),
      e (n / 2 / 2 / 2 / 2) (by omega), e (n / 2 / 2 / 2 / 2 / 2) (by omega),
      e (n / 2 / 2 / 2 / 2 / 2 / 2) (by omega)]
    simp only [Nat.div_div_eq_div_mul, Nat.reduceMul]
  unfold size
  omega

theorem length_encode (n : Nat) : (encode n).length = size n := by
  induction n using Nat.strongRecOn with
  | ind n ih =>
    rw [encode]
    split
    · rw [size_of_lt (by omega)]; rfl
    · rw [List.length_cons, ih (n / 128) (by omega), ← size_of_le (by omega)]

/-- What is read on from the bytes of `n`, when what came before leaves room for it. -/
theorem decodeFrom_encode_append (n count value : Nat) (rest : Bytes) (hc : count ≤ 9)
    (h : n * Nat.pow 128 count < 0x10000000000000000) :
    decodeFrom count value (encode n ++ rest) =
      .ok (value + n * Nat.pow 128 count, count + (encode n).length) := by
  induction n using Nat.strongRecOn generalizing count value with
  | ind n ih =>
    -- with nine bytes behind it, a number has one bit left
    have last : count = 9 → n ≤ 1 := by
      intro e
      subst e
      rw [show Nat.pow 128 9 = 0x8000000000000000 by decide] at h
      omega
    rw [encode]
    split
    · have e : n.toUInt8.toNat = n := by simp only [Nat.toUInt8, UInt8.toNat_ofNat']; omega
      simp only [List.cons_append, List.nil_append, decodeFrom, e]
      rw [if_neg (by omega), if_pos (by omega), Nat.mod_eq_of_lt (by omega)]
      rfl
    · have e : (n % 128 + 128).toUInt8.toNat = n % 128 + 128 := by
        simp only [Nat.toUInt8, UInt8.toNat_ofNat']; omega
      have hp : Nat.pow 128 (count + 1) = 128 * Nat.pow 128 count := Nat.mul_comm ..
      have hn : n % 128 * Nat.pow 128 count + n / 128 * Nat.pow 128 (count + 1) =
          n * Nat.pow 128 count := by
        rw [hp, ← Nat.mul_assoc, ← Nat.add_mul]
        congr 1
        omega
      simp only [List.cons_append, decodeFrom, e]
      rw [if_neg (by omega), if_neg (by omega), ih (n / 128) (by omega) (count + 1) _ (by omega) (by omega)]
      have em : (n % 128 + 128) % 128 = n % 128 := by omega
      rw [em, Nat.add_assoc, hn, List.length_cons]
      congr 2
      omega

theorem decode_encode_append (h : n < 0x10000000000000000) (rest : Bytes) :
    decode (encode n ++ rest) = .ok (n, (encode n).length) := by
  have := decodeFrom_encode_append n 0 0 rest (by decide) (by rw [Nat.pow_eq, Nat.pow_zero]; omega)
  simpa [decode] using this

/-- A number takes at most ten bytes, and is the same whatever stands behind them. -/
theorem decodeFrom_append_of_decodeFrom (rest : Bytes) (hc : count ≤ 9)
    (h : decodeFrom count value bytes = .ok (v, n)) :
    n ≤ 10 ∧ decodeFrom count value (bytes.take (n - count) ++ rest) = .ok (v, n) := by
  induction bytes generalizing count value with
  | nil => simp [decodeFrom] at h
  | cons byte tail ih =>
    simp only [decodeFrom] at h
    split at h
    · cases h
    · rename_i hm
      split at h
      · rename_i hb
        simp only [Except.ok.injEq, Prod.mk.injEq] at h
        obtain ⟨rfl, rfl⟩ := h
        refine ⟨by omega, ?_⟩
        rw [show count + 1 - count = 1 by omega]
        simp only [List.take_succ_cons, List.take_zero, List.cons_append, decodeFrom]
        rw [if_neg hm, if_pos hb]
      · rename_i hb
        have hlt := (lt_of_decodeFrom h).1
        have h9 : count ≠ 9 := by
          intro e
          subst e
          exact hm ⟨rfl, by omega⟩
        obtain ⟨hn, ih⟩ := ih (by omega) h
        refine ⟨hn, ?_⟩
        rw [show n - count = (n - (count + 1)) + 1 by omega]
        simp only [List.take_succ_cons, List.cons_append, decodeFrom]
        rw [if_neg hm, if_neg hb]
        exact ih

theorem decode_append_of_decode (rest : Bytes) (h : decode bytes = .ok (v, n)) :
    n ≤ 10 ∧ decode (bytes.take n ++ rest) = .ok (v, n) := by
  simpa [decode] using decodeFrom_append_of_decodeFrom rest (by decide) h

theorem decodeFrom_take (hc : count ≤ 9) :
    decodeFrom count value (bytes.take (10 - count)) = decodeFrom count value bytes := by
  induction bytes generalizing count value with
  | nil => rw [List.take_nil]
  | cons byte tail ih =>
    rw [show 10 - count = (9 - count) + 1 by omega]
    simp only [List.take_succ_cons, decodeFrom]
    by_cases hm : count = 9 ∧ 1 < byte.toNat
    · rw [if_pos hm, if_pos hm]
    · rw [if_neg hm, if_neg hm]
      by_cases hb : byte.toNat < 128
      · rw [if_pos hb, if_pos hb]
      · rw [if_neg hb, if_neg hb, show 9 - count = 10 - (count + 1) by omega]
        exact ih (by omega)

/-- Groups read so far fit into their places, and the tenth has one bit. -/
theorem lt_of_decodeFrom_ok (hc : count ≤ 9) (hv : value < Nat.pow 128 count)
    (h : decodeFrom count value bytes = .ok (v, n)) : v < 0x10000000000000000 := by
  induction bytes generalizing count value with
  | nil => simp [decodeFrom] at h
  | cons byte tail ih =>
    have hpow : Nat.pow 128 (count + 1) = 128 * Nat.pow 128 count := Nat.mul_comm ..
    have hmul : byte.toNat % 128 * Nat.pow 128 count ≤ 127 * Nat.pow 128 count :=
      Nat.mul_le_mul_right _ (by omega)
    simp only [decodeFrom] at h
    split at h
    · cases h
    · rename_i hm
      by_cases h9 : count = 9
      · subst h9
        have hlast : Nat.pow 128 9 = 0x8000000000000000 := by decide
        rw [hlast] at hv hmul h
        split at h
        · cases h
          omega
        · omega
      · split at h
        · cases h
          have hle : Nat.pow 128 (count + 1) ≤ Nat.pow 128 9 := Nat.pow_le_pow_right (by decide) (by omega)
          have hlast : Nat.pow 128 9 = 0x8000000000000000 := by decide
          omega
        · exact ih (by omega) (by omega) h

theorem lt_of_decode (h : decode bytes = .ok (v, n)) : v < 0x10000000000000000 :=
  lt_of_decodeFrom_ok (by decide) (by decide) h

/-- Reading never looks at more than ten bytes. -/
theorem decode_take (bytes : Bytes) : decode (bytes.take 10) = decode bytes :=
  decodeFrom_take (by decide)

end Varint

/-! ## Tags -/

namespace Tag

theorem make_eq (n : Nat) (w : WireType) : make n w = n % 0x20000000 * 8 + w.code := by
  have := w.code_lt
  show (n * 8 + w.code) % 0x100000000 = n % 0x20000000 * 8 + w.code
  omega

theorem make_lt (n : Nat) (w : WireType) : make n w < 0x100000000 := Nat.mod_lt _ (by decide)

theorem number_make {n : Nat} (h : n ≤ FieldNumber.max) (w : WireType) : (make n w).number = n := by
  have := w.code_lt
  rw [make_eq]
  show (n % 0x20000000 * 8 + w.code) / 8 = n
  have h : n ≤ 0x1fffffff := h
  omega

theorem wireType?_make (n : Nat) (w : WireType) : (make n w).wireType? = some w := by
  have e : wireCode (make n w) = w.code := by
    have := w.code_lt
    rw [make_eq]
    show (n % 0x20000000 * 8 + w.code) % 8 = w.code
    omega
  rw [wireType?, e, WireType.ofCode?_code]

/-- Two fields share a tag only if they share their number and their wire type. -/
theorem make_inj {n k : Nat} {w v : WireType} (hn : n ≤ FieldNumber.max) (hk : k ≤ FieldNumber.max)
    (h : make n w = make k v) : n = k ∧ w = v := by
  refine ⟨?_, ?_⟩
  · rw [← number_make hn w, h, number_make hk]
  · have := wireType?_make n w
    rw [h, wireType?_make] at this
    exact (Option.some.inj this).symm

/-- The three lowest bits never cost a byte. -/
theorem size_low_bits (n : Nat) {code : Nat} (h : code < 8) : Varint.size (n * 8 + code) = Varint.size (n * 8) := by
  by_cases hlt : n * 8 + code < 128
  · rw [Varint.size_of_lt hlt, Varint.size_of_lt (by omega)]
  · rw [Varint.size_of_le (by omega), Varint.size_of_le (n := n * 8) (by omega)]
    congr 2
    omega

theorem length_encode_make (n : Nat) (w : WireType) : (encode (make n w)).length = size n := by
  rw [encode, Varint.length_encode, size, make_eq, make_eq, size_low_bits _ w.code_lt,
    size_low_bits _ WireType.varint.code_lt]

end Tag

/-! ## Words and texts -/

namespace ZigZag

theorem decode32_encode32 (v : Int32) : decode32 (encode32 v) = v := by
  have lo := v.le_toInt
  have hi := v.toInt_lt
  have : code v.toInt < 4294967296 := by unfold code; split <;> omega
  rw [decode32, encode32, UInt32.toNat_ofNat', Nat.mod_eq_of_lt this, number_code, Int32.ofInt_toInt]

theorem decode64_encode64 (v : Int64) : decode64 (encode64 v) = v := by
  have lo := v.le_toInt
  have hi := v.toInt_lt
  have : code v.toInt < 18446744073709551616 := by unfold code; split <;> omega
  rw [decode64, encode64, UInt64.toNat_ofNat', Nat.mod_eq_of_lt this, number_code, Int64.ofInt_toInt]

end ZigZag

namespace Bytes

theorem length_ofText (text : String) : (ofText text).length = text.utf8ByteSize := by
  rw [ofText, Array.length_toList, ByteArray.size_data, String.size_toByteArray]

theorem toText?_ofText (text : String) : toText? (ofText text) = some text := by
  have e : (⟨(ofText text).toArray⟩ : ByteArray) = text.toByteArray := by rw [ofText, Array.toArray_toList]
  rw [toText?, e, String.fromUTF8?, dif_pos text.isValidUTF8]
  rfl

theorem length_of_toText? {bytes : Bytes} {text : String} (h : toText? bytes = some text) :
    text.utf8ByteSize = bytes.length := by
  rw [toText?, String.fromUTF8?] at h
  split at h
  · cases h
    rfl
  · cases h

end Bytes

/-! ## Scalars -/

namespace Scalar

theorem ofNat_extended (v : Int32) : Int32.ofNat (extended v) = v := by
  apply Int32.toBitVec_inj.mp
  show BitVec.ofNat 32 (v.toBitVec.signExtend 64).toNat = v.toBitVec
  rw [BitVec.ofNat_toNat]
  apply BitVec.eq_of_getLsbD_eq
  intro i hi
  simp only [BitVec.getLsbD_setWidth, BitVec.getLsbD_signExtend, hi, if_true, decide_true, Bool.true_and]
  rw [decide_eq_true (by omega), Bool.true_and]

theorem ofNat_toUInt32 (v : Int32) : Int32.ofNat v.toUInt32.toNat = v := by
  apply Int32.toBitVec_inj.mp
  show BitVec.ofNat 32 v.toBitVec.toNat = v.toBitVec
  rw [BitVec.ofNat_toNat, BitVec.setWidth_eq]

theorem ofNat_toUInt64 (v : Int64) : Int64.ofNat v.toUInt64.toNat = v := by
  apply Int64.toBitVec_inj.mp
  show BitVec.ofNat 64 v.toBitVec.toNat = v.toBitVec
  rw [BitVec.ofNat_toNat, BitVec.setWidth_eq]

/-- A value takes as many bytes as its size says. -/
theorem length_encode (v : Scalar) : v.encode.length = v.size := by
  cases v with
  | string v => rw [encode, size, Frame.encode, List.length_append, Varint.length_encode, Bytes.length_ofText]; rfl
  | bytes v => rw [encode, size, Frame.encode, List.length_append, Varint.length_encode]; rfl
  | bool v => rfl
  | fixed32 v | sfixed32 v | float v | fixed64 v | sfixed64 v | double v => exact Fixed.length_encode ..
  | _ => exact Varint.length_encode _

theorem length_encodeAll (values : List Scalar) : (encodeAll values).length = sizeAll values := by
  rw [encodeAll, length_flatMap_eq_total, sizeAll]
  exact total_congr fun v _ => length_encode v

end Scalar

end Protobuf
