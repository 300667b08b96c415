/-
  Protobuf.Proofs.Escapes — escaped byte strings are read back.

  `Spells text byte` says without the reader which texts stand for a byte: a character of its own, a backslash and a
  letter, or a backslash and all the digits a numbered escape can have. Having all its digits, such a text ends where it
  ends whatever follows, be it a digit (`decode_spells`); so bytes in any of these forms one behind the other are read as
  just those bytes, and with them what `encode` writes (`decode_written`).
-/

import Protobuf.Proofs.Integers

namespace Protobuf

theorem Bytes.ofText_ofList {cs : List Char} (h : ∀ c ∈ cs, c.val ≤ 127) :
    Bytes.ofText (String.ofList cs) = cs.map Char.toUInt8 := by
  have hwhole : Bytes.ofText (String.ofList cs) = cs.flatMap String.utf8EncodeChar := by
    rw [ofText, String.toByteArray_ofList, List.utf8Encode, List.data_toByteArray]
  rw [hwhole, List.map_eq_flatMap]
  refine List.flatMap_congr fun c hc => ?_
  exact String.utf8EncodeChar_eq_singleton (Char.utf8Size_eq_one_iff.mpr (h c hc))

namespace Text.Escaped

open Radix (Digit Spelt)

/-! ## Written forms -/

/-- What can follow a backslash, and the byte the two stand for. -/
def letters : List (Char × UInt8) := [
  ('n', 0x0A), ('r', 0x0D), ('t', 0x09), ('a', 0x07), ('b', 0x08), ('f', 0x0C), ('v', 0x0B),
  ('\\', 0x5C), ('\x27', 0x27), ('"', 0x22), ('?', 0x3F)]

/-- How a byte is written by number: what stands between the backslash and the digits, their base and their count. -/
def numberings : List (List Char × Nat × Nat) := [([], 8, 3), (['x'], 16, 2), (['X'], 16, 2)]

/-- The text is one of the ways to write the byte. -/
inductive Spells : List Char → UInt8 → Prop
  | plain {byte : UInt8} (ascii : byte < 0x80) (ne : byte ≠ 0x5C) : Spells [Char.ofNat byte.toNat] byte
  | letter {c : Char} {byte : UInt8} (mem : (c, byte) ∈ letters) : Spells ['\\', c] byte
  | number {mark digits : List Char} {base count : Nat} {byte : UInt8} (mem : (mark, base, count) ∈ numberings)
      (spelt : Spelt base digits byte.toNat) (length : digits.length = count) : Spells ('\\' :: (mark ++ digits)) byte

/-- The bytes that are written as a backslash and a letter. -/
def short : List (UInt8 × Char) := [(0x0A, 'n'), (0x0D, 'r'), (0x09, 't'), (0x22, '"'), (0x27, '\x27'), (0x5C, '\\')]

def octalDigits (n : Nat) : List Char := [Nat.digitChar (n / 64), Nat.digitChar (n / 8 % 8), Nat.digitChar (n % 8)]

/-- A byte as a schema compiler writes it: what cannot be printed by letter or by number, the rest as it is. -/
def encodeByte (byte : UInt8) : List Char :=
  let long := if byte < 0x20 ∨ 0x7F ≤ byte then '\\' :: octalDigits byte.toNat else [Char.ofNat byte.toNat]
  ((short.lookup byte).map fun c => ['\\', c]).getD long

def encode (bytes : Bytes) : String := String.ofList (bytes.flatMap encodeByte)

/-! ## Digits -/

variable {byte : UInt8} {c : Char} {base n : Nat} {cs : List Char}

theorem digit_ascii {d : Nat} (hbase : base ≤ 16) (h : Digit base c d) : c.val ≤ 127 := by
  have hall : ∀ d < 16, [Nat.digitChar d, (Nat.digitChar d).toUpper].all (fun c => decide (c.val ≤ 127)) = true := by
    decide
  have := List.all_eq_true.mp (hall d (Nat.lt_of_lt_of_le h.1 hbase)) c (by simpa using h.2)
  simpa using this

theorem exists_values {digits : List Char} (h : Spelt base digits n) :
    ∃ ds, List.Forall₂ (Digit base) digits ds ∧ number base ds = n := by
  induction h with
  | single digit => exact ⟨[_], .cons digit .nil, by simp [number]⟩
  | snoc front digit ih =>
    obtain ⟨ds, hds, rfl⟩ := ih
    exact ⟨ds ++ [_], List.rel_append hds (.cons digit .nil), by simp [number, List.foldl_append]⟩

/-- As many digits as are asked for are read, whatever follows. -/
theorem digits_spelt {digit? : UInt8 → Option Nat} (hdigit : ∀ c d, Digit base c d → digit? c.toUInt8 = some d)
    (h : Spelt base cs n) (rest : Bytes) :
    ∃ ds, digits digit? cs.length (cs.map Char.toUInt8 ++ rest) = ds ∧ ds.length = cs.length ∧ number base ds = n := by
  obtain ⟨ds, hds, hnumber⟩ := exists_values h
  refine ⟨ds, ?_, hds.length_eq.symm, hnumber⟩
  clear h hnumber
  induction hds with
  | nil => rfl
  | cons digit _ ih => rw [List.length_cons, List.map_cons, List.cons_append, digits, hdigit _ _ digit, ih]

theorem octal?_of_digit {d : Nat} (h : Digit 8 c d) :
    octal? c.toUInt8 = some d ∧ named? (Char.ofNat c.toUInt8.toNat) = none := by
  obtain ⟨hd, rfl | rfl⟩ := h <;> revert d <;> decide

theorem hex?_of_digit {d : Nat} (h : Digit 16 c d) : hex? c.toUInt8 = some d := by
  obtain ⟨hd, rfl | rfl⟩ := h <;> revert d <;> decide

theorem spelt_octalDigits (h : n < 256) : Spelt 8 (octalDigits n) n := by
  have hdigit : ∀ d < 8, Digit 8 (Nat.digitChar d) d := fun d hd => ⟨hd, .inl rfl⟩
  have hspelt := ((Spelt.single (hdigit (n / 64) (by omega))).snoc (hdigit (n / 8 % 8) (by omega))).snoc
    (hdigit (n % 8) (by omega))
  have hvalue : (n / 64 * 8 + n / 8 % 8) * 8 + n % 8 = n := by omega
  rwa [hvalue] at hspelt

/-! ## Escapes -/

theorem escape_letter (h : (c, byte) ∈ letters) (rest : Bytes) : escape (c.toUInt8 :: rest) = .ok (byte, 1) := by
  have hall : letters.all (fun pair => named? (Char.ofNat pair.1.toUInt8.toNat) == some pair.2) = true := by decide
  have hnamed : named? (Char.ofNat c.toUInt8.toNat) = some byte := by simpa using List.all_eq_true.mp hall _ h
  rw [escape, hnamed]

theorem escape_octal (h : Spelt 8 cs byte.toNat) (hlength : cs.length = 3) (rest : Bytes) :
    escape (cs.map Char.toUInt8 ++ rest) = .ok (byte, 3) := by
  obtain ⟨c, cs, d, rfl, hdigit⟩ := h.head
  obtain ⟨hoctal, hnamed⟩ := octal?_of_digit hdigit
  obtain ⟨ds, hread, hcount, hnumber⟩ := digits_spelt (fun _ _ hdigit => (octal?_of_digit hdigit).1) h rest
  rw [hlength] at hread hcount
  rw [List.map_cons, List.cons_append] at hread ⊢
  simp [escape, hnamed, hoctal, hread, hnumber, hcount, byte.toNat_lt]

theorem escape_hexadecimal {mark : Char} (hmark : mark = 'x' ∨ mark = 'X') (h : Spelt 16 cs byte.toNat)
    (hlength : cs.length = 2) (rest : Bytes) :
    escape (mark.toUInt8 :: (cs.map Char.toUInt8 ++ rest)) = .ok (byte, 3) := by
  have hbyte : named? (Char.ofNat mark.toUInt8.toNat) = none ∧ octal? mark.toUInt8 = none ∧
      (mark.toUInt8 = 0x78 ∨ mark.toUInt8 = 0x58) := by
    rcases hmark with rfl | rfl <;> decide
  obtain ⟨ds, hread, hcount, hnumber⟩ := digits_spelt (fun _ _ => hex?_of_digit) h rest
  rw [hlength] at hread hcount
  have hne : ds ≠ [] := by
    rintro rfl
    cases hcount
  simp [escape, hbyte, hread, hnumber, hne, hcount]

/-! ## Whole texts -/

theorem toUInt8_ofNat (h : byte < 0x80) :
    (Char.ofNat byte.toNat).val ≤ 127 ∧ (Char.ofNat byte.toNat).toUInt8 = byte := by
  have hall : ∀ n < 128, (Char.ofNat n).val ≤ 127 ∧ (Char.ofNat n).toUInt8.toNat = n := by decide
  have := hall byte.toNat (UInt8.lt_iff_toNat_lt.mp h)
  exact ⟨this.1, UInt8.toNat_inj.mp this.2⟩

theorem Spells.ascii {text : List Char} (h : Spells text byte) : ∀ c ∈ text, c.val ≤ 127 := by
  cases h with
  | plain hbyte _ => exact List.forall_mem_singleton.mpr (toUInt8_ofNat hbyte).1
  | letter mem =>
    have hall : letters.all (fun pair => decide (pair.1.val ≤ 127)) = true := by decide
    have hletter := List.all_eq_true.mp hall _ mem
    exact List.forall_mem_cons.mpr ⟨by decide, List.forall_mem_singleton.mpr (by simpa using hletter)⟩
  | number mem spelt _ =>
    have hall : numberings.all (fun form => form.1.all (fun c => decide (c.val ≤ 127)) && decide (form.2.1 ≤ 16)) = true := by
      decide
    have hform := List.all_eq_true.mp hall _ mem
    simp only [Bool.and_eq_true, List.all_eq_true, decide_eq_true_eq] at hform
    obtain ⟨ds, hds, _⟩ := exists_values spelt
    refine List.forall_mem_cons.mpr ⟨by decide, List.forall_mem_append.mpr ⟨hform.1, fun c hc => ?_⟩⟩
    obtain ⟨_, _, hdigit⟩ := exists_of_forall₂ hds hc
    exact digit_ascii hform.2 hdigit

theorem decode_escape {text rest : Bytes} (h : escape (text ++ rest) = .ok (byte, text.length)) :
    decode (0x5C :: (text ++ rest)) = (byte :: ·) <$> decode rest := by
  rw [decode, if_pos rfl, h]
  show (decode ((text ++ rest).drop text.length) >>= fun bytes => pure (byte :: bytes)) = _
  rw [List.drop_left]
  cases decode rest <;> rfl

/-- A written byte is read, and reading goes on right behind it. -/
theorem decode_spells {text : List Char} (h : Spells text byte) (rest : Bytes) :
    decode (text.map Char.toUInt8 ++ rest) = (byte :: ·) <$> decode rest := by
  cases h with
  | plain hbyte hne =>
    rw [List.map_singleton, (toUInt8_ofNat hbyte).2, List.singleton_append, decode, if_neg hne]
    cases decode rest <;> rfl
  | @letter c _ mem =>
    exact decode_escape (escape_letter mem rest : escape ([c.toUInt8] ++ rest) = _)
  | @number mark digits base count _ mem spelt length =>
    have hescape : escape ((mark ++ digits).map Char.toUInt8 ++ rest) =
        .ok (byte, ((mark ++ digits).map Char.toUInt8).length) := by
      simp only [numberings, List.mem_cons, Prod.mk.injEq, List.not_mem_nil, or_false] at mem
      obtain ⟨rfl, rfl, rfl⟩ | ⟨rfl, rfl, rfl⟩ | ⟨rfl, rfl, rfl⟩ := mem
      · simpa [length] using escape_octal spelt length rest
      · simpa [length] using escape_hexadecimal (.inl rfl) spelt length rest
      · simpa [length] using escape_hexadecimal (.inr rfl) spelt length rest
    exact decode_escape hescape

/-- What is written is one of the forms. -/
theorem spells_encodeByte (byte : UInt8) : Spells (encodeByte byte) byte := by
  rw [encodeByte]
  cases hshort : short.lookup byte with
  | some c =>
    obtain ⟨_, _, hsplit, _⟩ := List.lookup_eq_some_iff.mp hshort
    have hmem : (byte, c) ∈ short := by simp [hsplit]
    have hall : short.all (fun pair => letters.contains (pair.2, pair.1)) = true := by decide
    exact .letter (by simpa using List.all_eq_true.mp hall _ hmem)
  | none =>
    show Spells (if byte < 0x20 ∨ 0x7F ≤ byte then _ else _) byte
    split
    · exact .number (List.mem_cons_self ..) (spelt_octalDigits byte.toNat_lt) rfl
    · rename_i hprinted
      rw [not_or, UInt8.not_le] at hprinted
      refine .plain (UInt8.lt_trans hprinted.2 (by decide)) ?_
      rintro rfl
      exact absurd hshort (by decide)

theorem decode_forms {texts : List (List Char)} {bytes : Bytes} (h : List.Forall₂ Spells texts bytes) :
    decode (Bytes.ofText (String.ofList texts.flatten)) = .ok bytes := by
  have hascii : ∀ c ∈ texts.flatten, c.val ≤ 127 := by
    intro c hc
    obtain ⟨text, htext, hc⟩ := List.mem_flatten.mp hc
    obtain ⟨_, _, hspells⟩ := exists_of_forall₂ h htext
    exact hspells.ascii c hc
  rw [Bytes.ofText_ofList hascii]
  clear hascii
  -- what follows a form is the text of all others, which is no concern of it
  induction h with
  | nil => rw [List.flatten_nil, List.map_nil, decode]
  | cons hspells _ ih =>
    rw [List.flatten_cons, List.map_append, decode_spells hspells, ih]
    rfl

/-- Bytes in whatever forms are read back, and so is what is written for any bytes, also as a default. -/
theorem decode_written (bytes : Bytes) :
    decode (Bytes.ofText (encode bytes)) = .ok bytes ∧
    Schema.Default.read .bytes (encode bytes) = .ok (.bytes bytes) ∧
    ∀ texts, List.Forall₂ Spells texts bytes → decode (Bytes.ofText (String.ofList texts.flatten)) = .ok bytes := by
  have hforms : List.Forall₂ Spells (bytes.map encodeByte) bytes := by
    rw [List.forall₂_map_left_iff]
    exact List.forall₂_same.mpr fun byte _ => spells_encodeByte byte
  have hencode : decode (Bytes.ofText (encode bytes)) = .ok bytes := by
    rw [encode, List.flatMap_def]
    exact decode_forms hforms
  refine ⟨hencode, ?_, fun texts => decode_forms⟩
  rw [Schema.Default.read, hencode]
  rfl

/-- Digits right behind numbers that have all of theirs, and a number at the end. -/
theorem decode_written_adjacent :
    let texts := [['\\', '0', '0', '1'], ['7'], ['\\', 'x', 'a', 'B'], ['c'], ['\\', 'n'], ['\\', '3', '7', '7']]
    let bytes : Bytes := [0x01, 0x37, 0xAB, 0x63, 0x0A, 0xFF]
    List.Forall₂ Spells texts bytes ∧ decode (Bytes.ofText (String.ofList texts.flatten)) = .ok bytes := by
  intro texts bytes
  have hmem : (['x'], 16, 2) ∈ numberings := by decide
  have hfirst : Spelt 16 ['a'] 10 := .single ⟨by decide, .inl rfl⟩
  have hspelt : Spelt 16 (['a'] ++ ['B']) (10 * 16 + 11) := hfirst.snoc ⟨by decide, .inr rfl⟩
  have hforms : List.Forall₂ Spells texts bytes :=
    .cons (spells_encodeByte 0x01) (.cons (spells_encodeByte 0x37) (.cons (.number hmem hspelt rfl)
      (.cons (spells_encodeByte 0x63) (.cons (spells_encodeByte 0x0A) (.cons (spells_encodeByte 0xFF) .nil)))))
  exact ⟨hforms, (decode_written bytes).2.2 texts hforms⟩

end Text.Escaped

end Protobuf
