/-
  Protobuf.Proofs.Presence — presence bits as a set of numbers.

  A bit is looked up in its word (`isSet_eq`), so words of equal number are determined by which bits
  are set (`ext_isSet`). Merging adds to the set: `isSet_set` for one bit and `isSet_union` for all;
  clearing a field takes its bit out (`isSet_unset`).
-/

import Protobuf.Message.Basic

namespace Protobuf.PresenceBits

/-- The bits set in either. -/
def union (a b : PresenceBits) : PresenceBits := List.zipWith (· ||| ·) a b

theorem toBitVec_mask (bit : Nat) : (mask bit).toBitVec = BitVec.twoPow 32 (bit % 32) := by
  rw [mask, UInt32.toBitVec_shiftLeft]
  simp [BitVec.twoPow]

theorem isSet_eq (bits : PresenceBits) (bit : Nat) :
    bits.isSet bit = (bits[bit / 32]?.getD 0).toBitVec.getLsbD (bit % 32) := by
  rw [isSet]
  generalize bits[bit / 32]?.getD 0 = word
  have hlt : bit % 32 < 32 := Nat.mod_lt _ (by decide)
  have hand : (word &&& mask bit).toBitVec = word.toBitVec &&& BitVec.twoPow 32 (bit % 32) := by
    rw [UInt32.toBitVec_and, toBitVec_mask]
  rw [BitVec.and_twoPow] at hand
  cases hbit : word.toBitVec.getLsbD (bit % 32) with
  | false =>
    rw [hbit, if_neg Bool.false_ne_true] at hand
    have hzero : word &&& mask bit = 0 := UInt32.toBitVec_inj.mp hand
    rw [hzero]
    rfl
  | true =>
    rw [hbit, if_pos rfl] at hand
    have hne : word &&& mask bit ≠ 0 := by
      intro hzero
      have := congrArg (BitVec.getLsbD · (bit % 32)) (hand.symm.trans (congrArg UInt32.toBitVec hzero))
      simp [hlt] at this
    exact bne_iff_ne.mpr hne

@[simp] theorem isSet_none (words bit : Nat) : (none words).isSet bit = false := by
  rw [isSet_eq, none, List.getElem?_replicate]
  split <;> simp

theorem isSet_of_length_le {bits : PresenceBits} {bit : Nat} (h : bits.length ≤ bit / 32) : bits.isSet bit = false := by
  rw [isSet_eq, List.getElem?_eq_none_iff.mpr h]
  simp

@[simp] theorem length_set (bits : PresenceBits) (bit : Nat) : (bits.set bit).length = bits.length :=
  List.length_modify ..

/-- Of the bits in its word, the mask of a bit has just this one. -/
theorem getLsbD_mask {bit other : Nat} (h : bit / 32 = other / 32) :
    (mask bit).toBitVec.getLsbD (other % 32) = (other == bit) := by
  rw [toBitVec_mask, BitVec.getLsbD_twoPow]
  by_cases he : other = bit
  · subst he
    simp [Nat.mod_lt]
  · have hmod : bit % 32 ≠ other % 32 := by omega
    simp [hmod, he]

theorem isSet_set {bits : PresenceBits} {bit : Nat} (h : bit / 32 < bits.length) (other : Nat) :
    (bits.set bit).isSet other = (bits.isSet other || other == bit) := by
  rw [isSet_eq, isSet_eq, set, List.getElem?_modify]
  by_cases hword : bit / 32 = other / 32
  · have hlt : other / 32 < bits.length := hword ▸ h
    rw [List.getElem?_eq_getElem hlt]
    simp only [hword, if_true, Option.map_eq_map, Option.map_some, Option.getD_some, UInt32.toBitVec_or,
      BitVec.getLsbD_or, getLsbD_mask hword]
  · have hne : other ≠ bit := by rintro rfl; exact hword rfl
    simp [hword, hne]

theorem isSet_set_eq (bits : PresenceBits) (bit other : Nat) :
    (bits.set bit).isSet other = (bits.isSet other || (other == bit && decide (bit / 32 < bits.length))) := by
  by_cases h : bit / 32 < bits.length
  · rw [isSet_set h, decide_eq_true h, Bool.and_true]
  · have hsame : bits.set bit = bits := List.modify_eq_self (Nat.le_of_not_lt h)
    rw [hsame, decide_eq_false h, Bool.and_false, Bool.or_false]

@[simp] theorem length_unset (bits : PresenceBits) (bit : Nat) : (bits.unset bit).length = bits.length :=
  List.length_modify ..

theorem isSet_unset (bits : PresenceBits) (bit other : Nat) :
    (bits.unset bit).isSet other = (bits.isSet other && other != bit) := by
  rw [isSet_eq, isSet_eq, unset, List.getElem?_modify]
  by_cases hword : bit / 32 = other / 32
  · have hlt : other % 32 < 32 := Nat.mod_lt _ (by decide)
    cases hbits : bits[other / 32]? with
    | none => simp
    | some word =>
      simp only [hword, if_true, Option.map_eq_map, Option.map_some, Option.getD_some, UInt32.toBitVec_and,
        UInt32.toBitVec_not, BitVec.getLsbD_and, BitVec.getLsbD_not, hlt, decide_true, Bool.true_and, getLsbD_mask hword]
      rfl
  · have hne : other ≠ bit := by rintro rfl; exact hword rfl
    simp [hword, hne]

theorem isSet_union {a b : PresenceBits} (h : a.length = b.length) (bit : Nat) :
    (union a b).isSet bit = (a.isSet bit || b.isSet bit) := by
  rw [isSet_eq, isSet_eq, isSet_eq, union, List.getElem?_zipWith]
  cases ha : a[bit / 32]? with
  | none =>
    have hb : b[bit / 32]? = Option.none := by
      rw [List.getElem?_eq_none_iff] at ha ⊢
      omega
    simp [hb]
  | some x =>
    obtain ⟨y, hb⟩ : ∃ y, b[bit / 32]? = some y := by
      have hlt := (List.getElem?_eq_some_iff.mp ha).1
      exact ⟨_, List.getElem?_eq_getElem (h ▸ hlt)⟩
    simp [hb]

/-- Presence bits of equal number of words are the same if the same bits are set. -/
theorem ext_isSet {a b : PresenceBits} (hlen : a.length = b.length) (h : ∀ bit, a.isSet bit = b.isSet bit) : a = b := by
  refine List.ext_getElem hlen fun word ha hb => ?_
  apply UInt32.toBitVec_inj.mp
  refine BitVec.eq_of_getLsbD_eq fun i hi => ?_
  have hdiv : (32 * word + i) / 32 = word := by omega
  have hmod : (32 * word + i) % 32 = i := by omega
  have hbit := h (32 * word + i)
  rw [isSet_eq, isSet_eq, hdiv, hmod, List.getElem?_eq_getElem ha, List.getElem?_eq_getElem hb] at hbit
  exact hbit

end Protobuf.PresenceBits
