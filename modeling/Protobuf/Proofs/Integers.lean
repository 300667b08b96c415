/-
  Protobuf.Proofs.Integers — whole numbers as a schema spells them.

  `Radix.Numeral` says which texts stand for an integer: digits of the base behind its mark, in either case, with a
  minus sign just for a negative number. Reading digits keeps their value until it meets the bound
  (`readDigits_spelt`), so each reader accepts a numeral just if the number is one of its type
  (`readUnsigned_numeral`, `readSigned_numeral`), and as a default it is then that number (`read_numeral`).
-/

import Protobuf.Proofs.Resolved

namespace Protobuf

/-! ## Numerals -/

/-- How whole numbers are written. -/
inductive Radix where
  | decimal
  | hexadecimal
  | octal
  deriving DecidableEq, Repr

namespace Radix

def base : Radix → Nat
  | decimal => 10
  | hexadecimal => 16
  | octal => 8

/-- What can stand in front of the digits. -/
def marks : Radix → List (List Char)
  | decimal => [[]]
  | hexadecimal => [['0', 'x'], ['0', 'X']]
  | octal => [['0']]

/-- The character is a digit of this value, small or capital. -/
def Digit (base : Nat) (c : Char) (d : Nat) : Prop := d < base ∧ (c = Nat.digitChar d ∨ c = (Nat.digitChar d).toUpper)

/-- The digits have this value, the last counting least. -/
inductive Spelt (base : Nat) : List Char → Nat → Prop
  | single {c : Char} {d : Nat} (digit : Digit base c d) : Spelt base [c] d
  | snoc {digits : List Char} {n : Nat} {c : Char} {d : Nat} (front : Spelt base digits n) (digit : Digit base c d) :
      Spelt base (digits ++ [c]) (n * base + d)

/-- The sign of a number, if it has one. -/
def sign (z : Int) : List Char := if z < 0 then ['-'] else []

/-- The text stands for the integer. Decimal digits have no zero in front of others, which would make them octal. -/
def Numeral (radix : Radix) (text : String) (z : Int) : Prop :=
  ∃ mark ∈ radix.marks, ∃ digits, text = String.ofList (sign z ++ (mark ++ digits)) ∧ Spelt radix.base digits z.natAbs ∧
    (radix = .decimal → digits.head? = some '0' → digits = ['0'])

/-- The plain numeral of an integer. -/
def write (radix : Radix) (z : Int) : String :=
  String.ofList (sign z ++ (radix.marks.headD [] ++ Nat.toDigits radix.base z.natAbs))

theorem spelt_toDigits {base : Nat} (hbase : 1 < base) (n : Nat) : Spelt base (Nat.toDigits base n) n := by
  induction n using Nat.strongRecOn with
  | _ n ih =>
    by_cases hlt : n < base
    · rw [Nat.toDigits_of_lt_base hlt]
      exact .single ⟨hlt, .inl rfl⟩
    · have hpos : 0 < n / base := Nat.div_pos (Nat.le_of_not_lt hlt) (by omega)
      have hmod : n % base < base := Nat.mod_lt _ (by omega)
      have hsplit : Nat.toDigits base (n / base) ++ [Nat.digitChar (n % base)] = Nat.toDigits base n := by
        rw [← Nat.toDigits_of_lt_base hmod, Nat.toDigits_append_toDigits hbase hpos hmod, Nat.div_add_mod]
      have hfront := ih (n / base) (Nat.div_lt_self (by omega) hbase)
      have hvalue : n / base * base + n % base = n := Nat.div_add_mod' n base
      have hall := hfront.snoc ⟨hmod, .inl rfl⟩
      rwa [hsplit, hvalue] at hall

/-- Only zero is written with a zero in front. -/
theorem eq_zero_of_toDigits_head {n : Nat} (h : (Nat.toDigits 10 n).head? = some '0') : n = 0 := by
  induction n using Nat.strongRecOn with
  | _ n ih =>
    by_cases hlt : n < 10
    · rw [Nat.toDigits_of_lt_base hlt, List.head?_cons, Option.some_inj] at h
      have hdigits : ∀ d < 10, Nat.digitChar d = '0' → d = 0 := by decide
      exact hdigits n hlt h
    · have hpos : 0 < n / 10 := by omega
      have hmod : n % 10 < 10 := Nat.mod_lt _ (by decide)
      have hsplit : Nat.toDigits 10 (n / 10) ++ Nat.toDigits 10 (n % 10) = Nat.toDigits 10 n := by
        rw [Nat.toDigits_append_toDigits (by decide) hpos hmod, Nat.div_add_mod]
      rw [← hsplit, List.head?_append_of_ne_nil _ Nat.toDigits_ne_nil] at h
      have := ih (n / 10) (by omega) h
      omega

theorem numeral_write (radix : Radix) (z : Int) : radix.Numeral (radix.write z) z := by
  have hmark : radix.marks.headD [] ∈ radix.marks := by cases radix <;> decide
  have hbase : 1 < radix.base := by cases radix <;> decide
  refine ⟨_, hmark, _, rfl, spelt_toDigits hbase _, fun hdecimal hhead => ?_⟩
  subst hdecimal
  rw [eq_zero_of_toDigits_head hhead]
  rfl

/-! ## Reading digits -/

variable {base bound n : Nat} {digits : List Char} {c : Char} {d : Nat}

theorem digit?_of_digit (hbase : base ≤ 16) (h : Digit base c d) : Text.Integer.digit? base c = some d := by
  have hvalue : ∀ d < 16, ∀ c, c = Nat.digitChar d ∨ c = (Nat.digitChar d).toUpper →
      Text.Integer.digit? 16 c = some d := by
    rintro d hd c (rfl | rfl) <;> revert d <;> decide
  have hsixteen := hvalue d (Nat.lt_of_lt_of_le h.1 hbase) c h.2
  unfold Text.Integer.digit? at hsixteen ⊢
  rw [Option.filter_eq_some_iff] at hsixteen ⊢
  exact ⟨hsixteen.1, decide_eq_true h.1⟩

theorem readDigits_append (m : Nat) (front back : List Char) :
    Text.Integer.readDigits base bound m (front ++ back) =
      Text.Integer.readDigits base bound m front >>= fun n => Text.Integer.readDigits base bound n back := by
  induction front generalizing m with
  | nil => rfl
  | cons c front ih =>
    rw [List.cons_append, Text.Integer.readDigits, Text.Integer.readDigits]
    split
    · rfl
    · split
      · exact ih _
      · rfl

/-- Digits keep their value while it stays below the bound, and the first that takes it there is refused. -/
theorem readDigits_spelt (hbase : 1 < base ∧ base ≤ 16) (h : Spelt base digits n) :
    Text.Integer.readDigits base bound 0 digits = if n < bound then .ok n else .error .tooLarge := by
  induction h with
  | single digit =>
    simp [Text.Integer.readDigits, digit?_of_digit hbase.2 digit]
  | @snoc digits n c d front digit ih =>
    rw [readDigits_append, ih]
    by_cases hlt : n < bound
    · rw [if_pos hlt]
      show Text.Integer.readDigits base bound n [c] = _
      rw [Text.Integer.readDigits, digit?_of_digit hbase.2 digit]
      rfl
    · have hle : n ≤ n * base := Nat.le_mul_of_pos_right n (by omega)
      rw [if_neg hlt, if_neg (by omega)]
      rfl

/-- The first of some digits is a digit. -/
theorem Spelt.head (h : Spelt base digits n) : ∃ c rest d, digits = c :: rest ∧ Digit base c d := by
  induction h with
  | single digit => exact ⟨_, [], _, rfl, digit⟩
  | snoc front digit ih =>
    obtain ⟨c, rest, d, rfl, hc⟩ := ih
    exact ⟨c, rest ++ [_], d, rfl, hc⟩

/-- A digit is neither a sign nor a mark. -/
theorem Digit.ne (hbase : base ≤ 16) (h : Digit base c d) : c ≠ '+' ∧ c ≠ '-' ∧ c ≠ 'x' ∧ c ≠ 'X' := by
  have hall : ∀ d < 16, [Nat.digitChar d, (Nat.digitChar d).toUpper].all
      (fun c => decide (c ≠ '+' ∧ c ≠ '-' ∧ c ≠ 'x' ∧ c ≠ 'X')) = true := by
    decide
  have hd := List.all_eq_true.mp (hall d (Nat.lt_of_lt_of_le h.1 hbase))
  exact of_decide_eq_true (hd c (by simpa using h.2))

theorem read_spelt (hbase : 1 < base ∧ base ≤ 16) (h : Spelt base digits n) :
    Text.Integer.read base bound digits = if n < bound then .ok n else .error .tooLarge := by
  obtain ⟨c, rest, d, rfl, hc⟩ := h.head
  have hplus := (hc.ne hbase.2).1
  rw [Text.Integer.read, readDigits_spelt hbase h]
  all_goals simp [hplus]

theorem base_bounds (radix : Radix) : 1 < radix.base ∧ radix.base ≤ 16 := by cases radix <;> decide

/-- A number without its sign is read in the base that its mark tells. -/
theorem readPrefixed_spelt {radix : Radix} {mark : List Char} (hmark : mark ∈ radix.marks)
    (h : Spelt radix.base digits n) (hlead : radix = .decimal → digits.head? = some '0' → digits = ['0']) :
    Text.Integer.readPrefixed bound (mark ++ digits) = if n < bound then .ok n else .error .tooLarge := by
  have hread : Text.Integer.read radix.base bound digits = if n < bound then .ok n else .error .tooLarge :=
    read_spelt radix.base_bounds h
  obtain ⟨c, rest, d, rfl, hc⟩ := h.head
  obtain ⟨_, _, hsmall, hcapital⟩ := hc.ne radix.base_bounds.2
  cases radix with
  | decimal =>
    cases List.mem_singleton.mp hmark
    rw [List.nil_append]
    by_cases hzero : c = '0'
    · subst hzero
      cases hlead rfl rfl
      exact hread
    · rw [Text.Integer.readPrefixed]
      · exact hread
      all_goals simp [hzero]
  | hexadecimal =>
    rw [marks, List.mem_pair] at hmark
    rcases hmark with rfl | rfl
    · exact hread
    · exact hread
  | octal =>
    cases List.mem_singleton.mp hmark
    rw [List.cons_append, List.nil_append, Text.Integer.readPrefixed]
    · exact hread
    · exact hsmall
    · exact hcapital

end Radix

/-! ## Defaults -/

/-- The least and the greatest number of an integer type. -/
def ScalarType.bounds? : ScalarType → Option (Int × Int)
  | int32 | sint32 | sfixed32 => some (-0x80000000, 0x7fffffff)
  | int64 | sint64 | sfixed64 => some (-0x8000000000000000, 0x7fffffffffffffff)
  | uint32 | fixed32 => some (0, 0xffffffff)
  | uint64 | fixed64 => some (0, 0xffffffffffffffff)
  | float | double | bool | string | bytes => none

/-- The number that a value of an integer type is. -/
def Scalar.integer? : Scalar → Option Int
  | int32 v | sint32 v | sfixed32 v => some v.toInt
  | int64 v | sint64 v | sfixed64 v => some v.toInt
  | uint32 v | fixed32 v => some v.toNat
  | uint64 v | fixed64 v => some v.toNat
  | float _ | double _ | bool _ | string _ | bytes _ | enum _ => none

namespace Schema.Default

open Radix (Numeral Spelt sign)

variable {radix : Radix} {text : String} {z : Int}

theorem readUnsigned_spelt {mark digits : List Char} {n : Nat} (hmark : mark ∈ radix.marks)
    (h : Spelt radix.base digits n) (hlead : radix = .decimal → digits.head? = some '0' → digits = ['0']) :
    readUnsigned (String.ofList (mark ++ digits)) =
      if n < 0x10000000000000000 then .ok n else .error (.integer .tooLarge) := by
  rw [readUnsigned, String.toList_ofList, Radix.readPrefixed_spelt hmark h hlead]
  split <;> rfl

/-- No sign is read where none can be. -/
theorem readUnsigned_minus (rest : List Char) :
    readUnsigned (String.ofList ('-' :: rest)) = .error (.integer .invalidDigit) := by
  rw [readUnsigned, String.toList_ofList]
  rfl

theorem readUnsigned_numeral (h : radix.Numeral text z) (n : Nat) :
    readUnsigned text = .ok n ↔ (n : Int) = z ∧ z ≤ 0xffffffffffffffff := by
  obtain ⟨mark, hmark, digits, rfl, hspelt, hlead⟩ := h
  by_cases hz : z < 0
  · rw [sign, if_pos hz, List.cons_append, List.nil_append, readUnsigned_minus]
    simp
    omega
  · rw [sign, if_neg hz, List.nil_append, readUnsigned_spelt hmark hspelt hlead]
    split
    · simp
      omega
    · simp
      omega

theorem readSigned_minus (rest : List Char) :
    readSigned (String.ofList ('-' :: rest)) = readUnsigned (String.ofList rest) >>= fun n =>
      if 0x8000000000000000 < n then .error (.outOfRange 64) else .ok (-(n : Int)) := by
  rw [readSigned, String.toList_ofList]
  show readUnsigned (String.ofList rest) >>= _ = _
  refine bind_congr fun n => ?_
  split <;> rfl

theorem readSigned_plain {text : String} (h : text.toList.head? ≠ some '-') :
    readSigned text = readUnsigned text >>= fun n =>
      if 0x8000000000000000 ≤ n then .error (.outOfRange 64) else .ok (n : Int) := by
  rw [readSigned]
  split
  · rename_i rest hrest
    rw [hrest] at h
    exact absurd rfl h
  · refine bind_congr fun n => ?_
    split <;> rfl

/-- What is in front of a number without a sign is none. -/
theorem head_ne_minus {mark digits : List Char} {n : Nat} (hmark : mark ∈ radix.marks) (h : Spelt radix.base digits n) :
    (mark ++ digits).head? ≠ some '-' := by
  have hmarks : ∀ radix : Radix, ∀ mark ∈ radix.marks, mark.head? ≠ some '-' := by
    intro radix
    cases radix <;> decide
  obtain ⟨c, rest, d, rfl, hc⟩ := h.head
  have hdigit := (hc.ne radix.base_bounds.2).2.1
  cases mark with
  | nil => simpa using hdigit
  | cons first mark => exact hmarks radix (first :: mark) hmark

theorem readSigned_numeral (h : radix.Numeral text z) (w : Int) :
    readSigned text = .ok w ↔ w = z ∧ -0x8000000000000000 ≤ z ∧ z ≤ 0x7fffffffffffffff := by
  obtain ⟨mark, hmark, digits, rfl, hspelt, hlead⟩ := h
  have hread := readUnsigned_spelt hmark hspelt hlead
  by_cases hz : z < 0
  · rw [sign, if_pos hz, List.cons_append, List.nil_append, readSigned_minus, hread, checked_eq_ok_iff]
    omega
  · have hplain : (String.ofList (mark ++ digits)).toList.head? ≠ some '-' := by
      rw [String.toList_ofList]
      exact head_ne_minus hmark hspelt
    rw [sign, if_neg hz, List.nil_append, readSigned_plain hplain, hread, checked_eq_ok_iff]
    omega

/-! ## Narrowing -/

theorem readSigned32_numeral (h : radix.Numeral text z) (v : Int32) : readSigned32 text = .ok v ↔ v.toInt = z := by
  have hsteps : readSigned32 text = readSigned text >>= fun n =>
      if n < -0x80000000 ∨ 0x80000000 ≤ n then .error (.outOfRange 32) else .ok (Int32.ofInt n) := by
    refine bind_congr fun n => ?_
    split <;> rfl
  rw [hsteps, bind_eq_ok_iff]
  constructor
  · intro hread
    obtain ⟨n, hn, hv⟩ := hread
    obtain ⟨rfl, _⟩ := (readSigned_numeral h n).mp hn
    split at hv
    · cases hv
    · cases hv
      exact Int32.toInt_ofInt_of_le (by omega) (by omega)
  · rintro rfl
    have hlow := v.le_toInt
    have hhigh := v.toInt_lt
    refine ⟨v.toInt, (readSigned_numeral h _).mpr ⟨rfl, by omega, by omega⟩, ?_⟩
    rw [if_neg (by omega), Int32.ofInt_toInt]

theorem readSigned64_numeral (h : radix.Numeral text z) (v : Int64) : readSigned64 text = .ok v ↔ v.toInt = z := by
  rw [readSigned64, bind_eq_ok_iff]
  constructor
  · intro hread
    obtain ⟨n, hn, hv⟩ := hread
    obtain ⟨rfl, _⟩ := (readSigned_numeral h n).mp hn
    cases hv
    exact Int64.toInt_ofInt_of_le (by omega) (by omega)
  · rintro rfl
    have hlow := v.le_toInt
    have hhigh := v.toInt_lt
    refine ⟨v.toInt, (readSigned_numeral h _).mpr ⟨rfl, by omega, by omega⟩, ?_⟩
    rw [Int64.ofInt_toInt]
    rfl

theorem readUnsigned32_numeral (h : radix.Numeral text z) (v : UInt32) :
    readUnsigned32 text = .ok v ↔ (v.toNat : Int) = z := by
  have hsteps : readUnsigned32 text = readUnsigned text >>= fun n =>
      if 0x100000000 ≤ n then .error (.outOfRange 32) else .ok n.toUInt32 := by
    refine bind_congr fun n => ?_
    split <;> rfl
  rw [hsteps, bind_eq_ok_iff]
  constructor
  · intro hread
    obtain ⟨n, hn, hv⟩ := hread
    obtain ⟨rfl, _⟩ := (readUnsigned_numeral h n).mp hn
    split at hv
    · cases hv
    · rename_i hlt
      cases hv
      rw [Nat.toUInt32_eq, UInt32.toNat_ofNat_of_lt' (Nat.lt_of_not_le hlt)]
  · rintro rfl
    have hhigh := v.toNat_lt
    refine ⟨v.toNat, (readUnsigned_numeral h _).mpr ⟨rfl, by omega⟩, ?_⟩
    rw [if_neg (by omega), Nat.toUInt32_eq, UInt32.ofNat_toNat]

theorem readUnsigned64_numeral (h : radix.Numeral text z) (v : UInt64) :
    readUnsigned64 text = .ok v ↔ (v.toNat : Int) = z := by
  rw [readUnsigned64, bind_eq_ok_iff]
  constructor
  · intro hread
    obtain ⟨n, hn, hv⟩ := hread
    obtain ⟨rfl, hle⟩ := (readUnsigned_numeral h n).mp hn
    have hlt : n < UInt64.size := by
      have hsize : UInt64.size = 0x10000000000000000 := rfl
      omega
    cases hv
    rw [Nat.toUInt64_eq, UInt64.toNat_ofNat_of_lt' hlt]
  · rintro rfl
    have hhigh := v.toNat_lt
    refine ⟨v.toNat, (readUnsigned_numeral h _).mpr ⟨rfl, by omega⟩, ?_⟩
    rw [Nat.toUInt64_eq, UInt64.ofNat_toNat]
    rfl

/-- A default is read just as the value of its type that the numeral stands for. -/
theorem read_eq_ok_iff {type : ScalarType} (htype : type.bounds?.isSome) (h : radix.Numeral text z) (value : Scalar) :
    read type text = .ok value ↔ value.kind = .scalar type ∧ value.integer? = some z := by
  cases type with
  | int32 | sint32 | sfixed32 =>
    simp only [read, map_eq_ok_iff, readSigned32_numeral h]
    cases value <;> simp [Scalar.kind, Scalar.integer?]
  | int64 | sint64 | sfixed64 =>
    simp only [read, map_eq_ok_iff, readSigned64_numeral h]
    cases value <;> simp [Scalar.kind, Scalar.integer?]
  | uint32 | fixed32 =>
    simp only [read, map_eq_ok_iff, readUnsigned32_numeral h]
    cases value <;> simp [Scalar.kind, Scalar.integer?]
  | uint64 | fixed64 =>
    simp only [read, map_eq_ok_iff, readUnsigned64_numeral h]
    cases value <;> simp [Scalar.kind, Scalar.integer?]
  | float | double | bool | string | bytes => cases htype

/-! ## Ranges -/

theorem exists_int32_iff : (∃ v : Int32, v.toInt = z) ↔ -0x80000000 ≤ z ∧ z ≤ 0x7fffffff := by
  constructor
  · rintro ⟨v, rfl⟩
    have hlow := v.le_toInt
    have hhigh := v.toInt_lt
    omega
  · intro h
    exact ⟨Int32.ofInt z, Int32.toInt_ofInt_of_le (by omega) (by omega)⟩

theorem exists_int64_iff : (∃ v : Int64, v.toInt = z) ↔ -0x8000000000000000 ≤ z ∧ z ≤ 0x7fffffffffffffff := by
  constructor
  · rintro ⟨v, rfl⟩
    have hlow := v.le_toInt
    have hhigh := v.toInt_lt
    omega
  · intro h
    exact ⟨Int64.ofInt z, Int64.toInt_ofInt_of_le (by omega) (by omega)⟩

theorem exists_uint32_iff : (∃ v : UInt32, (v.toNat : Int) = z) ↔ 0 ≤ z ∧ z ≤ 0xffffffff := by
  have hsize : UInt32.size = 0x100000000 := rfl
  constructor
  · rintro ⟨v, rfl⟩
    have hhigh := v.toNat_lt
    omega
  · intro h
    refine ⟨UInt32.ofNat z.toNat, ?_⟩
    rw [UInt32.toNat_ofNat_of_lt' (by omega)]
    omega

theorem exists_uint64_iff : (∃ v : UInt64, (v.toNat : Int) = z) ↔ 0 ≤ z ∧ z ≤ 0xffffffffffffffff := by
  have hsize : UInt64.size = 0x10000000000000000 := rfl
  constructor
  · rintro ⟨v, rfl⟩
    have hhigh := v.toNat_lt
    omega
  · intro h
    refine ⟨UInt64.ofNat z.toNat, ?_⟩
    rw [UInt64.toNat_ofNat_of_lt' (by omega)]
    omega

/-- A numeral is accepted for a type just if the number lies between the bounds of the type. -/
theorem exists_read_iff {type : ScalarType} {least greatest : Int} (htype : type.bounds? = some (least, greatest))
    (h : radix.Numeral text z) : (∃ value, read type text = .ok value) ↔ least ≤ z ∧ z ≤ greatest := by
  cases type with
  | int32 | sint32 | sfixed32 =>
    cases htype
    simp [read, map_eq_ok_iff, readSigned32_numeral h, ← exists_int32_iff]
  | int64 | sint64 | sfixed64 =>
    cases htype
    simp [read, map_eq_ok_iff, readSigned64_numeral h, ← exists_int64_iff]
  | uint32 | fixed32 =>
    cases htype
    simp [read, map_eq_ok_iff, readUnsigned32_numeral h, ← exists_uint32_iff]
  | uint64 | fixed64 =>
    cases htype
    simp [read, map_eq_ok_iff, readUnsigned64_numeral h, ← exists_uint64_iff]
  | float | double | bool | string | bytes => cases htype

/-- Every integer has a numeral in each radix, and whichever is given as the default of an integer type is read just
    as the value of the type that is this integer; there is one just if it lies between the bounds of the type. -/
theorem read_numeral {type : ScalarType} {least greatest : Int} (htype : type.bounds? = some (least, greatest))
    (radix : Radix) (z : Int) :
    radix.Numeral (radix.write z) z ∧
    ∀ text, radix.Numeral text z →
      (∀ value, read type text = .ok value ↔ value.kind = .scalar type ∧ value.integer? = some z) ∧
      ((∃ value, read type text = .ok value) ↔ least ≤ z ∧ z ≤ greatest) := by
  refine ⟨radix.numeral_write z, fun text h => ⟨fun value => ?_, exists_read_iff htype h⟩⟩
  exact read_eq_ok_iff (by rw [htype]; rfl) h value

/-- The least number of 64 bits, whose magnitude is no number of the type, and the one below it. -/
theorem read_numeral_least :
    ScalarType.sint64.bounds? = some (-0x8000000000000000, 0x7fffffffffffffff) ∧
    Radix.hexadecimal.write (-0x8000000000000000) = "-0x8000000000000000" ∧
    read .sint64 "-0x8000000000000000" = .ok (.sint64 Int64.minValue) ∧
    Radix.octal.write (-0x8000000000000001) = "-01000000000000000000001" ∧
    ¬ ∃ value, read .sint64 "-01000000000000000000001" = .ok value := by
  have htype : ScalarType.sint64.bounds? = some (-0x8000000000000000, 0x7fffffffffffffff) := rfl
  have hleast : Radix.hexadecimal.write (-0x8000000000000000) = "-0x8000000000000000" := by decide
  have hbelow : Radix.octal.write (-0x8000000000000001) = "-01000000000000000000001" := by decide
  obtain ⟨hnumeral, hread⟩ := read_numeral htype .hexadecimal (-0x8000000000000000)
  obtain ⟨hnumeral', hread'⟩ := read_numeral htype .octal (-0x8000000000000001)
  rw [hleast] at hnumeral
  rw [hbelow] at hnumeral'
  refine ⟨htype, hleast, ((hread _ hnumeral).1 _).mpr ⟨rfl, rfl⟩, hbelow, fun hvalue => ?_⟩
  have hrange := (hread' _ hnumeral').2.mp hvalue
  omega

end Schema.Default

end Protobuf
