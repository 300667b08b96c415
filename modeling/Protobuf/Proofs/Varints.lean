/-
  Protobuf.Proofs.Varints — which bytes are a number, and which of them are written.

  (1) `Form bytes n` says without the reader that these bytes are a number of 64 bits in groups of seven: every byte
  but the last continues, there are at most ten and their groups add up to `n`. The reader takes such bytes from the
  front (`decode_eq_ok_iff`), wants more where all bytes continue (`decode_eq_truncated_iff`) and refuses all else.

  (2) A number has one shortest form, and that is the one written (`shortest_encode`).

  (3) Read, written and counted in words of 64 bits, by shifts and masks, numbers are the same: no shift loses a bit
  (`decodeWord_eq`, `encodeWord_eq`, `size_eq_clz`).
-/

import Protobuf.Proofs.Window

namespace Protobuf.Varint

/-! ## Forms -/

/-- The number with these groups of seven bits, lowest first. -/
def value : Bytes → Nat
  | [] => 0
  | byte :: rest => byte.toNat % 128 + 128 * value rest

/-- All of `bytes` is the number `n` in groups of seven bits, with groups of zeros at the end or without. -/
structure Form (bytes : Bytes) (n : Nat) : Prop where
  length_pos : 1 ≤ bytes.length
  length_le : bytes.length ≤ 10
  continued : ∀ byte ∈ bytes.dropLast, 0x80 ≤ byte
  ended : ∀ byte ∈ bytes.getLast?, byte < 0x80
  value_eq : value bytes = n
  lt : n < 0x10000000000000000

theorem form_iff_all {bytes : Bytes} {n : Nat} :
    (1 ≤ bytes.length ∧ bytes.length ≤ 10 ∧ bytes.dropLast.all (fun byte => decide (128 ≤ byte.toNat)) = true ∧
      bytes.getLast?.all (fun byte => decide (byte.toNat < 128)) = true ∧ value bytes = n ∧ n < 0x10000000000000000) ↔
    Form bytes n := by
  simp only [List.all_eq_true, Option.all_eq_true, decide_eq_true_eq]
  constructor
  · rintro ⟨hpos, hle, hcontinued, hended, hvalue, hlt⟩
    exact ⟨hpos, hle, hcontinued, hended, hvalue, hlt⟩
  · intro h
    exact ⟨h.length_pos, h.length_le, h.continued, h.ended, h.value_eq, h.lt⟩

instance (bytes : Bytes) (n : Nat) : Decidable (Form bytes n) := decidable_of_iff _ form_iff_all

theorem value_append (front : Bytes) (rest : Bytes) :
    value (front ++ rest) = value front + Nat.pow 128 front.length * value rest := by
  induction front with
  | nil => simp [value]
  | cons byte front ih =>
    have hpow : Nat.pow 128 (front.length + 1) = 128 * Nat.pow 128 front.length := Nat.mul_comm ..
    rw [List.cons_append, value, value, ih, List.length_cons, hpow, Nat.mul_add, Nat.mul_assoc, Nat.add_assoc]

theorem value_lt (bytes : Bytes) : value bytes < Nat.pow 128 bytes.length := by
  induction bytes with
  | nil => decide
  | cons byte rest ih =>
    have hpow : Nat.pow 128 (rest.length + 1) = 128 * Nat.pow 128 rest.length := Nat.mul_comm ..
    rw [value, List.length_cons, hpow]
    omega

/-- Bytes that continue and one that does not are read on to the end, if there is room for so many. -/
theorem decodeFrom_groups {front : Bytes} {last : UInt8} (hfront : ∀ byte ∈ front, 128 ≤ byte.toNat)
    (hlast : last.toNat < 128) (rest : Bytes) {count : Nat} (start : Nat) (hroom : count + front.length ≤ 9)
    (hten : count + front.length = 9 → last.toNat ≤ 1) :
    decodeFrom count start (front ++ last :: rest) =
      .ok (start + Nat.pow 128 count * value (front ++ [last]), count + front.length + 1) := by
  induction front generalizing count start with
  | nil =>
    rw [List.length_nil, Nat.add_zero] at hten
    rw [List.nil_append, decodeFrom, if_neg (by omega), if_pos hlast]
    simp only [List.nil_append, value, List.length_nil, Nat.mul_zero, Nat.add_zero]
    rw [Nat.mul_comm]
  | cons byte front ih =>
    have hbyte := hfront byte (List.mem_cons_self ..)
    have hpow : Nat.pow 128 (count + 1) = Nat.pow 128 count * 128 := rfl
    rw [List.length_cons] at hroom hten
    have ih := @ih (fun b hb => hfront b (List.mem_cons_of_mem _ hb)) (count + 1)
    rw [List.cons_append, decodeFrom, if_neg (by omega), if_neg (by omega), ih _ (by omega) fun h => hten (by omega)]
    rw [List.cons_append, value, hpow, Nat.mul_add, Nat.mul_assoc, Nat.add_assoc, Nat.mul_comm (byte.toNat % 128),
      List.length_cons]
    congr 2
    omega

/-- Whatever is read on is of this kind. -/
theorem groups_of_decodeFrom {bytes : Bytes} {count start v n : Nat} (hc : count ≤ 9)
    (h : decodeFrom count start bytes = .ok (v, n)) :
    ∃ front last rest, bytes = front ++ last :: rest ∧ (∀ byte ∈ front, 128 ≤ byte.toNat) ∧ last.toNat < 128 ∧
      count + front.length ≤ 9 ∧ (count + front.length = 9 → last.toNat ≤ 1) := by
  induction bytes generalizing count start with
  | nil => cases h
  | cons byte tail ih =>
    rw [decodeFrom] at h
    split at h
    · cases h
    · rename_i hover
      dsimp only at h
      split at h
      · rename_i hlast
        refine ⟨[], byte, tail, rfl, List.forall_mem_nil _, hlast, hc, fun h9 => ?_⟩
        rw [List.length_nil] at h9
        omega
      · rename_i hlast
        obtain ⟨front, last, rest, rfl, hfront, hend, hroom, hten⟩ := ih (by omega) h
        refine ⟨byte :: front, last, rest, rfl, ?_, hend, ?_, fun h9 => hten ?_⟩
        · exact List.forall_mem_cons.mpr ⟨by omega, hfront⟩
        · rw [List.length_cons]
          omega
        · rw [List.length_cons] at h9
          omega

/-- Ten groups are a number of 64 bits if the last is a single bit; fewer always are. -/
theorem value_lt_iff {front : Bytes} {last : UInt8} (hlen : front.length ≤ 9) (hlast : last.toNat < 128) :
    value (front ++ [last]) < 0x10000000000000000 ↔ (front.length = 9 → last.toNat ≤ 1) := by
  have hnine : Nat.pow 128 9 = 0x8000000000000000 := by decide
  have hfront := value_lt front
  rw [value_append, value, value, Nat.mul_zero, Nat.add_zero, Nat.mod_eq_of_lt hlast]
  by_cases h9 : front.length = 9
  · rw [h9, hnine] at hfront ⊢
    omega
  · have hle : Nat.pow 128 (front.length + 1) ≤ Nat.pow 128 9 := Nat.pow_le_pow_right (by decide) (by omega)
    have hpow : Nat.pow 128 (front.length + 1) = Nat.pow 128 front.length * 128 := rfl
    have hmul : Nat.pow 128 front.length * last.toNat ≤ Nat.pow 128 front.length * 127 :=
      Nat.mul_le_mul_left _ (by omega)
    omega

theorem form_iff {bytes : Bytes} {v : Nat} :
    Form bytes v ↔ ∃ front last, bytes = front ++ [last] ∧ (∀ byte ∈ front, 128 ≤ byte.toNat) ∧ last.toNat < 128 ∧
      front.length ≤ 9 ∧ (front.length = 9 → last.toNat ≤ 1) ∧ v = value (front ++ [last]) := by
  constructor
  · intro h
    obtain ⟨front, last, rfl⟩ : ∃ front last, bytes = front ++ [last] := by
      have hne : bytes ≠ [] := List.length_pos_iff.mp h.length_pos
      exact ⟨bytes.dropLast, bytes.getLast hne, (List.dropLast_concat_getLast hne).symm⟩
    obtain ⟨-, hlen, hfront, hlast, hvalue, hlt⟩ := h
    rw [List.dropLast_concat] at hfront
    have hlast := hlast last (by simp)
    rw [List.length_append, List.length_singleton] at hlen
    rw [← hvalue] at hlt
    exact ⟨front, last, rfl, hfront, hlast, by omega, (value_lt_iff (by omega) hlast).mp hlt, hvalue.symm⟩
  · rintro ⟨front, last, rfl, hfront, hlast, hlen, hten, rfl⟩
    refine ⟨by simp, by simp; omega, ?_, ?_, rfl, (value_lt_iff hlen hlast).mpr hten⟩
    · rw [List.dropLast_concat]
      exact hfront
    · intro byte hb
      rw [List.getLast?_concat, Option.mem_some_iff] at hb
      subst hb
      exact hlast

/-- The reader takes the form at the front. -/
theorem decode_eq_ok_iff {bytes : Bytes} {v n : Nat} :
    decode bytes = .ok (v, n) ↔ n ≤ bytes.length ∧ Form (bytes.take n) v := by
  constructor
  · intro h
    obtain ⟨front, last, rest, rfl, hfront, hlast, hroom, hten⟩ := groups_of_decodeFrom (Nat.zero_le 9) h
    rw [decode, decodeFrom_groups hfront hlast rest 0 hroom hten] at h
    cases h
    have htake : (front ++ last :: rest).take (0 + front.length + 1) = front ++ [last] := by
      rw [Nat.zero_add, List.take_append, List.take_of_length_le (Nat.le_succ _)]
      simp
    rw [Nat.zero_add] at hroom hten
    refine ⟨by simp, form_iff.mpr ⟨front, last, htake, hfront, hlast, hroom, hten, ?_⟩⟩
    rw [Nat.zero_add]
    exact Nat.one_mul _
  · rintro ⟨hn, hform⟩
    obtain ⟨front, last, htake, hfront, hlast, hlen, hten, rfl⟩ := form_iff.mp hform
    have hlength : n = front.length + 1 := by
      have := congrArg List.length htake
      rw [List.length_take, List.length_append, List.length_singleton] at this
      omega
    have hsplit : bytes = front ++ last :: bytes.drop n := by
      rw [List.append_cons, ← htake, List.take_append_drop]
    have h := @decodeFrom_groups front last hfront hlast (bytes.drop n) 0 0 (by omega) fun h => hten (by omega)
    rw [← hsplit] at h
    rw [decode, h, hlength]
    simp only [Nat.pow_eq, Nat.pow_zero, Nat.one_mul, Nat.zero_add]

theorem spells_iff {bytes : Bytes} {v : Nat} : Spells bytes v ↔ Form bytes v := by
  rw [Spells, decode_eq_ok_iff, List.take_length]
  exact ⟨fun h => h.2, fun h => ⟨Nat.le_refl _, h⟩⟩

theorem decodeFrom_eq_truncated_iff {bytes : Bytes} {count start : Nat} (hc : count ≤ 9) :
    decodeFrom count start bytes = .error .truncated ↔ count + bytes.length < 10 ∧ ∀ byte ∈ bytes, 0x80 ≤ byte := by
  induction bytes generalizing count start with
  | nil => simp [decodeFrom]; omega
  | cons byte tail ih =>
    have hbyte : (0x80 : UInt8) ≤ byte ↔ 128 ≤ byte.toNat := UInt8.le_iff_toNat_le
    rw [decodeFrom, List.forall_mem_cons, hbyte, List.length_cons]
    by_cases hlast : byte.toNat < 128
    · by_cases hover : count = 9 ∧ 1 < byte.toNat
      · rw [if_pos hover]
        exact ⟨fun h => (by cases h), fun h => (by omega)⟩
      · rw [if_neg hover, if_pos hlast]
        exact ⟨fun h => (by cases h), fun h => (by omega)⟩
    · by_cases h9 : count = 9
      · rw [if_pos ⟨h9, by omega⟩]
        exact ⟨fun h => (by cases h), fun h => (by omega)⟩
      · rw [if_neg (by omega), if_neg hlast, ih (by omega)]
        constructor
        · intro h
          exact ⟨by omega, by omega, h.2⟩
        · intro h
          exact ⟨by omega, h.2.2⟩

/-- More is wanted just where all bytes continue and ten are not reached. -/
theorem decode_eq_truncated_iff {bytes : Bytes} :
    decode bytes = .error .truncated ↔ bytes.length < 10 ∧ ∀ byte ∈ bytes, 0x80 ≤ byte := by
  rw [decode, decodeFrom_eq_truncated_iff (Nat.zero_le 9), Nat.zero_add]

theorem decodeFrom_error {bytes : Bytes} {count start : Nat} {e : DecodeError}
    (h : decodeFrom count start bytes = .error e) : e = .truncated ∨ e = .malformedVarint := by
  induction bytes generalizing count start with
  | nil =>
    cases h
    exact .inl rfl
  | cons byte tail ih =>
    rw [decodeFrom] at h
    split at h
    · cases h
      exact .inr rfl
    · dsimp only at h
      split at h
      · cases h
      · exact ih h

/-! ## The shortest form -/

theorem value_encode (n : Nat) : value (encode n) = n := by
  induction n using Nat.strongRecOn with
  | ind n ih =>
    rw [encode]
    split
    · show n % 256 % 128 + 0 = n
      omega
    · rw [value, ih (n / 128) (by omega)]
      show (n % 128 + 128) % 256 % 128 + 128 * (n / 128) = n
      omega

theorem size_le_iff {n : Nat} (count : Nat) : size n ≤ count + 1 ↔ n < Nat.pow 128 (count + 1) := by
  have hpos : ∀ k, 1 ≤ size k := fun k => Nat.le_add_left ..
  induction count generalizing n with
  | zero =>
    show size n ≤ 1 ↔ n < 128
    by_cases h : n < 128
    · exact iff_of_true (Nat.le_of_eq (size_of_lt h)) h
    · refine iff_of_false ?_ h
      have hrest := hpos (n / 128)
      rw [size_of_le (by omega)]
      omega
  | succ count ih =>
    have hpow : Nat.pow 128 (count + 1 + 1) = Nat.pow 128 (count + 1) * 128 := rfl
    have hone : 1 ≤ Nat.pow 128 (count + 1) := Nat.pow_pos (by decide)
    by_cases h : n < 128
    · rw [size_of_lt h, hpow]
      omega
    · have hrest : size (n / 128) ≤ count + 1 ↔ n / 128 < Nat.pow 128 (count + 1) := ih
      rw [size_of_le (by omega), Nat.add_le_add_iff_right, hrest, hpow, Nat.div_lt_iff_lt_mul (by decide)]

theorem size_mono {k n : Nat} (h : k ≤ n) : size k ≤ size n := by
  have hn : n < Nat.pow 128 (n.log2 / 7 + 1) := (size_le_iff _).mp (Nat.le_refl _)
  exact (size_le_iff _).mpr (Nat.lt_of_le_of_lt h hn)

/-- A form that is not the one written has more bytes: its last groups are zeros. -/
theorem shortest_encode {front : Bytes} {last : UInt8} (hfront : ∀ byte ∈ front, 128 ≤ byte.toNat)
    (hlast : last.toNat < 128) :
    encode (value (front ++ [last])) = front ++ [last] ∨
      (encode (value (front ++ [last]))).length < (front ++ [last]).length := by
  induction front with
  | nil =>
    left
    have hvalue : value ([] ++ [last]) = last.toNat := by
      simp only [List.nil_append, value]
      omega
    rw [hvalue, encode, if_pos hlast, Nat.toUInt8, UInt8.ofNat_toNat]
    rfl
  | cons byte front ih =>
    have hbyte := hfront byte (List.mem_cons_self ..)
    have hlt := byte.toNat_lt
    have ih := ih fun b hb => hfront b (List.mem_cons_of_mem _ hb)
    rw [List.cons_append, value]
    generalize value (front ++ [last]) = high at ih
    by_cases hz : high = 0
    · -- what follows adds nothing, so one byte would do
      right
      subst hz
      rw [encode, if_pos (by omega)]
      simp
    · have hdiv : (byte.toNat % 128 + 128 * high) / 128 = high := by omega
      have hmod : (byte.toNat % 128 + 128 * high) % 128 + 128 = byte.toNat := by omega
      rw [encode, if_neg (by omega), hdiv, hmod, Nat.toUInt8, UInt8.ofNat_toNat]
      rcases ih with heq | hless
      · exact .inl (by rw [heq])
      · exact .inr (by rw [List.length_cons, List.length_cons]; omega)

theorem Form.shortest {bytes : Bytes} {v : Nat} (h : Form bytes v) :
    encode v = bytes ∨ (encode v).length < bytes.length := by
  obtain ⟨front, last, rfl, hfront, hlast, -, -, rfl⟩ := form_iff.mp h
  exact shortest_encode hfront hlast

/-! ## Words of 64 bits -/

/-- Reads on with the groups so far in a word, each put in its place by a shift. -/
def decodeWordFrom (count : Nat) (word : UInt64) : Bytes → Except DecodeError (UInt64 × Nat)
  | [] => .error .truncated
  | byte :: rest =>
    if count = 9 ∧ 1 < byte then .error .malformedVarint
    else
      let word := word ||| ((byte &&& 0x7f).toUInt64 <<< UInt64.ofNat (7 * count))
      if byte < 0x80 then .ok (word, count + 1) else decodeWordFrom (count + 1) word rest

def decodeWord (bytes : Bytes) : Except DecodeError (UInt64 × Nat) := decodeWordFrom 0 0 bytes

/-- Writes a word, seven bits at a time. -/
def encodeWord (word : UInt64) : Bytes :=
  if word < 0x80 then [word.toUInt8] else (word.toUInt8 ||| 0x80) :: encodeWord (word >>> 7)
termination_by word.toNat
decreasing_by
  rename_i h
  have hle : 0x80 ≤ word.toNat := Nat.not_lt.mp fun hlt => h (UInt64.lt_iff_toNat_lt.mpr hlt)
  rw [UInt64.toNat_shiftRight, show (7 : UInt64).toNat % 64 = 7 from rfl, Nat.shiftRight_eq_div_pow]
  omega

/-- A group put above those of lower places adds to them, and none of its bits is lost. -/
theorem toNat_or_group {count : Nat} {word : UInt64} {byte : UInt8} (hc : count ≤ 9)
    (hword : word.toNat < Nat.pow 128 count) (hten : count = 9 → byte.toNat ≤ 1) :
    (word ||| ((byte &&& 0x7f).toUInt64 <<< UInt64.ofNat (7 * count))).toNat =
      word.toNat + byte.toNat % 128 * Nat.pow 128 count := by
  have hpow : Nat.pow 128 count = 2 ^ (7 * count) := (Nat.pow_mul 2 7 count).symm
  have hgroup : (byte &&& 0x7f).toUInt64.toNat = byte.toNat % 128 := by
    rw [UInt8.toNat_toUInt64, UInt8.toNat_and]
    exact Nat.and_two_pow_sub_one_eq_mod byte.toNat 7
  have hshift : (UInt64.ofNat (7 * count)).toNat % 64 = 7 * count := by
    rw [UInt64.toNat_ofNat']
    omega
  have hfits : byte.toNat % 128 * 2 ^ (7 * count) < 2 ^ 64 := by
    rw [← hpow]
    by_cases h9 : count = 9
    · have := hten h9
      rw [h9, show Nat.pow 128 9 = 0x8000000000000000 by decide]
      omega
    · have hle : Nat.pow 128 (count + 1) ≤ Nat.pow 128 9 := Nat.pow_le_pow_right (by decide) (by omega)
      have hnext : Nat.pow 128 (count + 1) = Nat.pow 128 count * 128 := rfl
      have hnine : Nat.pow 128 9 = 0x8000000000000000 := by decide
      have hmul : byte.toNat % 128 * Nat.pow 128 count ≤ 127 * Nat.pow 128 count :=
        Nat.mul_le_mul_right _ (by omega)
      omega
  rw [hpow] at hword ⊢
  rw [UInt64.toNat_or, UInt64.toNat_shiftLeft, hgroup, hshift, Nat.shiftLeft_eq, Nat.mod_eq_of_lt hfits, Nat.or_comm,
    Nat.mul_comm, ← Nat.two_pow_add_eq_or_of_lt hword, Nat.add_comm]

theorem decodeWordFrom_eq {count : Nat} {word : UInt64} (hc : count ≤ 9) (hword : word.toNat < Nat.pow 128 count)
    (bytes : Bytes) :
    decodeWordFrom count word bytes =
      (decodeFrom count word.toNat bytes).map fun found => (UInt64.ofNat found.1, found.2) := by
  induction bytes generalizing count word with
  | nil => rfl
  | cons byte rest ih =>
    have hone : count = 9 ∧ 1 < byte ↔ count = 9 ∧ 1 < byte.toNat := and_congr_right fun _ => UInt8.lt_iff_toNat_lt
    have hend : byte < 0x80 ↔ byte.toNat < 128 := UInt8.lt_iff_toNat_lt
    rw [decodeWordFrom, decodeFrom]
    by_cases hover : count = 9 ∧ 1 < byte.toNat
    · rw [if_pos (hone.mpr hover), if_pos hover]
      rfl
    · have hten : count = 9 → byte.toNat ≤ 1 := by omega
      have hgroup := toNat_or_group hc hword hten
      rw [if_neg fun h => hover (hone.mp h), if_neg hover]
      dsimp only
      by_cases hlast : byte.toNat < 128
      · rw [if_pos (hend.mpr hlast), if_pos hlast, ← hgroup]
        simp only [Except.map, UInt64.ofNat_toNat]
      · have hnext : Nat.pow 128 (count + 1) = 128 * Nat.pow 128 count := Nat.mul_comm ..
        have hmul : byte.toNat % 128 * Nat.pow 128 count ≤ 127 * Nat.pow 128 count :=
          Nat.mul_le_mul_right _ (by omega)
        rw [if_neg fun h => hlast (hend.mp h), if_neg hlast, ← hgroup]
        refine ih (by omega) ?_
        rw [hgroup]
        omega

theorem decodeWord_eq (bytes : Bytes) :
    decodeWord bytes = (decode bytes).map fun found => (UInt64.ofNat found.1, found.2) := by
  have hzero : (0 : UInt64).toNat < Nat.pow 128 0 := by decide
  exact decodeWordFrom_eq (Nat.zero_le 9) hzero bytes

/-- The highest bit of a byte is set by adding it to the others. -/
theorem or_high (n : Nat) : n % 256 ||| 128 = n % 128 + 128 := by
  have hall : ∀ byte : Fin 256, byte.val ||| 128 = byte.val % 128 + 128 := by decide +kernel
  rw [hall ⟨n % 256, Nat.mod_lt _ (by decide)⟩]
  show n % 256 % 128 + 128 = n % 128 + 128
  omega

theorem encodeWord_eq (word : UInt64) : encodeWord word = encode word.toNat := by
  induction hn : word.toNat using Nat.strongRecOn generalizing word with
  | ind n ih =>
    subst hn
    have hend : word < 0x80 ↔ word.toNat < 128 := UInt64.lt_iff_toNat_lt
    rw [encodeWord, encode]
    by_cases hlast : word.toNat < 128
    · rw [if_pos (hend.mpr hlast), if_pos hlast]
      rfl
    · have hshift : (word >>> 7).toNat = word.toNat / 128 := by
        rw [UInt64.toNat_shiftRight, show (7 : UInt64).toNat % 64 = 7 from rfl, Nat.shiftRight_eq_div_pow]
      have hbyte : word.toUInt8 ||| 0x80 = (word.toNat % 128 + 128).toUInt8 := by
        apply UInt8.toNat_inj.mp
        rw [UInt8.toNat_or, UInt64.toNat_toUInt8, Nat.toUInt8, UInt8.toNat_ofNat']
        exact (or_high _).trans (by omega)
      rw [if_neg fun h => hlast (hend.mp h), if_neg hlast, hbyte, ih (word >>> 7).toNat (by omega) (word >>> 7) rfl, hshift]

/-- The lowest bit does not change how many bits a number takes. -/
theorem log2_or_one (n : Nat) : (n ||| 1).log2 = n.log2 := by
  have hhalf : (n ||| 1) >>> 1 = n >>> 1 := by
    rw [Nat.shiftRight_or_distrib]
    exact Nat.or_zero _
  have hhalf : (n ||| 1) / 2 = n / 2 := hhalf
  have hpos : 1 ≤ n ||| 1 := Nat.right_le_or
  rw [Nat.log2_def, Nat.log2_def n, hhalf]
  by_cases h : 2 ≤ n
  · rw [if_pos h, if_pos (by omega)]
  · rw [if_neg h, if_neg (by omega)]

/-- Seven bits for each byte, counted from the highest bit that is set. -/
theorem size_eq_clz (word : UInt64) : size word.toNat = (64 - (word ||| 1).toBitVec.clz.toNat + 6) / 7 := by
  have hne : (word ||| 1).toBitVec ≠ 0#64 := by
    intro h
    have hbit := congrArg (BitVec.getLsbD · 0) h
    simp at hbit
  have hlow := BitVec.two_pow_sub_clz_le_toNat_of_ne_zero (by decide) hne
  have hhigh := @BitVec.toNat_lt_two_pow_sub_clz _ (word ||| 1).toBitVec
  have hclz : (word ||| 1).toBitVec.clz.toNat < 64 := BitVec.clz_lt_iff_ne_zero.mpr hne
  generalize (word ||| 1).toBitVec.clz.toNat = zeros at hlow hhigh hclz ⊢
  have hodd : (word ||| 1).toNat.log2 = word.toNat.log2 := by
    rw [UInt64.toNat_or]
    exact log2_or_one _
  have hpos : (word ||| 1).toNat ≠ 0 := by
    intro h
    exact hne (BitVec.eq_of_toNat_eq h)
  have hle : 64 - 1 - zeros ≤ (word ||| 1).toNat.log2 := (Nat.le_log2 hpos).mpr hlow
  have hlt : (word ||| 1).toNat.log2 < 64 - zeros := (Nat.log2_lt hpos).mpr hhigh
  rw [size, ← hodd]
  omega

/-! ## All byte strings -/

/-- Which bytes are read as a number, and which are written. At the front of any bytes the reader takes a number in
    groups of seven bits that fits a word, fails for want of bytes where all of fewer than ten continue, and finds a
    malformed number in every other case. What is written for a word is read back from the front of anything, has the
    size that was counted, and every other form of it is longer. All this is as if done in words of 64 bits. -/
theorem exact_forms (bytes : Bytes) (word : UInt64) :
    (∀ v n, decode bytes = .ok (v, n) ↔ n ≤ bytes.length ∧ Form (bytes.take n) v) ∧
    (decode bytes = .error .truncated ↔ bytes.length < 10 ∧ ∀ byte ∈ bytes, 0x80 ≤ byte) ∧
    (decode bytes = .error .malformedVarint ↔
      (∀ v n, n ≤ bytes.length → ¬ Form (bytes.take n) v) ∧ ¬ (bytes.length < 10 ∧ ∀ byte ∈ bytes, 0x80 ≤ byte)) ∧
    (∀ rest, decode (encode word.toNat ++ rest) = .ok (word.toNat, size word.toNat)) ∧
    (encode word.toNat).length = size word.toNat ∧
    (∀ other, decode other = .ok (word.toNat, other.length) → other ≠ encode word.toNat →
      (encode word.toNat).length < other.length) ∧
    decodeWord bytes = (decode bytes).map (fun found => (UInt64.ofNat found.1, found.2)) ∧
    encodeWord word = encode word.toNat ∧
    size word.toNat = (64 - (word ||| 1).toBitVec.clz.toNat + 6) / 7 := by
  refine ⟨fun v n => decode_eq_ok_iff, decode_eq_truncated_iff, ?_, ?_, length_encode _, ?_, decodeWord_eq bytes,
    encodeWord_eq word, size_eq_clz word⟩
  · rw [← decode_eq_truncated_iff]
    constructor
    · intro h
      refine ⟨fun v n hn hform => ?_, fun htruncated => ?_⟩
      · rw [decode_eq_ok_iff.mpr ⟨hn, hform⟩] at h
        cases h
      · rw [htruncated] at h
        cases h
    · rintro ⟨hform, htruncated⟩
      cases h : decode bytes with
      | ok found =>
        obtain ⟨hn, hfound⟩ := decode_eq_ok_iff.mp h
        exact absurd hfound (hform _ _ hn)
      | error e =>
        rcases decodeFrom_error h with rfl | rfl
        · exact absurd h htruncated
        · rfl
  · intro rest
    rw [decode_encode_append word.toNat_lt rest, length_encode]
  · intro other hother hne
    rcases (spells_iff.mp hother).shortest with heq | hless
    · exact absurd heq.symm hne
    · exact hless

end Protobuf.Varint
