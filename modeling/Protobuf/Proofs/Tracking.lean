/-
  Protobuf.Proofs.Tracking — presence bits of a message, and the code that tests and changes them.

  Resolving gives the next bit to each field that needs one (`addField_tracking`), so the bits of a message are
  0, 1, 2 and so on in the order of declaration. Generated code names a bit by a word and a mask. `testOf` and `after`
  run the forms it uses on the words of a message; what they do is to test, set and clear the bit of the field
  (`Bit.Selects`), and hence no bit of another field (`message_tracking`).
-/

import Protobuf.Generate.Plan
import Protobuf.Proofs.Declared

namespace Protobuf

/-! ## Code on presence words -/

namespace Generate

open Code

/-- The number that digits in a program stand for. -/
def numberOf (digits : String) : Nat := Nat.ofDigitChars 10 digits.toList 0

/-- The word of presence bits that a program names. -/
def wordIndex? : Expr → Option Nat
  | .index (.field (.path base) name) (.literal (.number digits)) =>
    if base = .ofNames ["self"] ∧ name = "_has_bits" then some (numberOf digits) else none
  | _ => none

/-- The word that an expression gives, where these are the presence bits; none if it reads beyond them. -/
def wordOf (words : PresenceBits) : Expr → Option UInt32
  | .literal (.number digits) => some (UInt32.ofNat (numberOf digits))
  | .paren inner => wordOf words inner
  | .unary .not operand => (wordOf words operand).map (~~~ ·)
  | .binary .bitAnd left right => do return (← wordOf words left) &&& (← wordOf words right)
  | place => (wordIndex? place).bind fun index => words[index]?

/-- What a comparison of words gives. -/
def testOf (words : PresenceBits) : Expr → Option Bool
  | .binary .ne left right => do return (← wordOf words left) != (← wordOf words right)
  | .binary .eq left right => do return (← wordOf words left) == (← wordOf words right)
  | _ => none

/-- The words after a statement that changes one of them. -/
def after (words : PresenceBits) : Stmt → Option PresenceBits
  | .run (.binary .orAssign place value) => do
    let index ← wordIndex? place
    let mask ← wordOf words value
    if index < words.length then some (words.modify index (· ||| mask)) else none
  | .run (.binary .andAssign place value) => do
    let index ← wordIndex? place
    let mask ← wordOf words value
    if index < words.length then some (words.modify index (· &&& mask)) else none
  | _ => none

theorem numberOf_repr (n : Nat) : numberOf (Nat.repr n) = n := by
  rw [numberOf, Nat.toList_repr, Nat.ofDigitChars_ten_toDigits]

namespace Plan.Bit

/-- Run on these words, the code for the bit tests, sets and clears the bit of this number. -/
structure Selects (bit : Bit) (n : Nat) (words : PresenceBits) : Prop where
  isSet : testOf words bit.isSet = some (words.isSet n)
  isUnset : testOf words bit.isUnset = some (!words.isSet n)
  set : after words bit.set = some (words.set n)
  unset : after words bit.unset = some (words.unset n)

theorem wordIndex?_place (bit : Bit) : wordIndex? bit.place = some bit.word := by
  rw [place, num, own, self, var, wordIndex?, numberOf_repr, if_pos ⟨rfl, rfl⟩]

theorem wordOf_num (words : PresenceBits) (n : Nat) : wordOf words (num n) = some (UInt32.ofNat n) := by
  rw [num, wordOf, numberOf_repr]

theorem mask_eq (n : Nat) : UInt32.ofNat (Nat.pow 2 (n % 32)) = PresenceBits.mask n := by
  have hall : ∀ i < 32, UInt32.ofNat (Nat.pow 2 i) = 1 <<< UInt32.ofNat i := by decide
  exact hall (n % 32) (Nat.mod_lt _ (by decide))

variable {words : PresenceBits} {n : Nat}

theorem wordOf_masked (h : n / 32 < words.length) :
    wordOf words (masked ⟨n / 32, Nat.pow 2 (n % 32)⟩) = some (words[n / 32]?.getD 0 &&& PresenceBits.mask n) := by
  have hplace : wordOf words (place ⟨n / 32, Nat.pow 2 (n % 32)⟩) = some (words[n / 32]?.getD 0) := by
    have hindex := wordIndex?_place ⟨n / 32, Nat.pow 2 (n % 32)⟩
    rw [place] at hindex ⊢
    rw [wordOf, hindex, Option.bind_some, List.getElem?_eq_getElem h]
    · rfl
    all_goals simp
  rw [masked, wordOf, wordOf, hplace, wordOf_num, mask_eq]
  rfl

theorem selects (h : n / 32 < words.length) : Selects ⟨n / 32, Nat.pow 2 (n % 32)⟩ n words where
  isSet := by
    rw [isSet, testOf, wordOf_masked h, wordOf_num]
    rfl
  isUnset := by
    rw [isUnset, testOf, wordOf_masked h, wordOf_num]
    exact congrArg some (Bool.not_not _).symm
  set := by
    rw [set, after, wordIndex?_place, wordOf_num, mask_eq]
    exact if_pos h
  unset := by
    rw [unset, after, wordIndex?_place, wordOf, wordOf_num, mask_eq]
    exact if_pos h

end Plan.Bit

/-- Numbers are told apart by word and mask. -/
theorem Plan.bit_injective {n n' : Nat}
    (h : Plan.Bit.mk (n / 32) (Nat.pow 2 (n % 32)) = .mk (n' / 32) (Nat.pow 2 (n' % 32))) : n = n' := by
  obtain ⟨hword, hmask⟩ := Plan.Bit.mk.inj h
  have hmod : n % 32 = n' % 32 := Nat.pow_right_inj (by decide) |>.mp hmask
  omega

end Generate

/-! ## Bits given out -/

namespace Schema.Context

variable {context : Context} {fullName : String} {place : Place}

/-- A field by itself with one value that is no message, where the dialect or the declaration tells a value that is
    set from one that is not. -/
structure Tracks (context : Context) (message : Descriptor.Message) (decl : Descriptor.Field) (field : Field) : Prop where
  single : decl.labelValue ≠ .repeated
  plain : ∃ type, field.type = .value (.plain type)
  apart : ∀ choice ∈ message.realOneofs, decl.oneofIndex ≠ some (Int32.ofNat choice.1)
  told : context.dialect = .proto2 ∨ decl.isTracked = true

theorem needsBit_iff {field : Field} : needsBit field = true ↔
    field.cardinality = .singular ∧ field.presence = .explicit ∧ field.oneof = none ∧
      ∃ type, field.type = .value (.plain type) := by
  unfold needsBit
  cases htype : field.type with
  | map key value start => simp
  | value type => cases type <;> simp [ValueType.isMessage, and_assoc]

variable {decl : Descriptor.Field} {progress next : Progress} {index : Nat} {message : Descriptor.Message}

theorem oneofOf_eq_none_iff {real : List (Nat × Descriptor.Oneof)} :
    oneofOf real decl = none ↔ ∀ choice ∈ real, decl.oneofIndex ≠ some (Int32.ofNat choice.1) := by
  unfold oneofOf
  cases decl.oneofIndex with
  | none => simp
  | some index =>
    simp only [List.findIdx?_eq_none_iff, beq_eq_false_iff_ne, ne_eq, Option.some.injEq]
    exact forall₂_congr fun choice _ => not_congr eq_comm

/-- A field has one value unless it is declared repeated. -/
theorem fieldType_singular {fieldName : String} {type : ValueType} {declaration : Option Declaration}
    {whole : FieldType} {cardinality : Cardinality}
    (h : context.fieldType decl fieldName type declaration = .ok (whole, cardinality)) :
    (cardinality = .singular ↔ decl.labelValue ≠ .repeated) ∧ (cardinality = .singular → whole = .value type) := by
  unfold fieldType at h
  cases hlabel : decl.labelValue with
  | optional | required =>
    rw [hlabel] at h
    cases h
    simp
  | repeated =>
    rw [hlabel] at h
    split at h
    · obtain ⟨_, _, h⟩ := bind_ok h
      cases h
      simp
    · cases h
      split <;> simp
    · rename_i hother _
      exact absurd rfl hother

/-- What the presence of a field by itself depends on. -/
theorem field_tracking {fieldName scope : String} {number : Nat} {field : Field}
    (h : context.field decl fieldName number scope = .ok field) :
    (field.cardinality = .singular ↔ decl.labelValue ≠ .repeated) ∧
      (field.cardinality = .singular → (∃ type, field.type = .value (.plain type)) →
        (field.presence = .explicit ↔ context.dialect = .proto2 ∨ decl.isTracked = true)) := by
  obtain ⟨type, declaration, _, hwhole, _, _, _, hpresence⟩ := field_steps h
  obtain ⟨hsingle, hvalue⟩ := fieldType_singular hwhole
  refine ⟨hsingle, fun hcard hplain => ?_⟩
  obtain ⟨plain, hplain⟩ := hplain
  cases (hvalue hcard).symm.trans hplain
  simp [hpresence, presence, hcard, ValueType.isMessage, or_iff_not_imp_left]

/-- A field gets the next bit if it needs one. -/
theorem addField_tracking (h : context.addField fullName place message.realOneofs progress index decl = .ok next) :
    ∃ field : Field, next.fields = progress.fields ++ [field] ∧
      (field.presenceBit.isSome = true ↔ context.Tracks message decl field) ∧
      field.presenceBit = (if needsBit field then some progress.bits else none) ∧
      next.bits = if needsBit field then progress.bits + 1 else progress.bits := by
  obtain ⟨alone, field, hadds⟩ := addField_adds h
  obtain ⟨hsingle, hpresence⟩ := field_tracking hadds.resolved
  rw [← hadds.cardinality, ← hadds.type] at hpresence
  rw [← hadds.cardinality] at hsingle
  have hexplicit : field.oneof = none → field.presence = alone.presence := by
    intro ho
    rw [hadds.presence, ho]
    rfl
  refine ⟨field, hadds.fields, ?_, hadds.bit, hadds.bits⟩
  have hneeds : field.presenceBit.isSome = true ↔ needsBit field = true := by
    rw [hadds.bit]
    split <;> simp [*]
  rw [hneeds, needsBit_iff]
  constructor
  · rintro ⟨hc, hp, ho, ht⟩
    refine ⟨hsingle.mp hc, ht, oneofOf_eq_none_iff.mp (hadds.oneof ▸ ho), ?_⟩
    exact (hpresence hc ht).mp (hexplicit ho ▸ hp)
  · intro ht
    have hc := hsingle.mpr ht.single
    have ho := hadds.oneof.trans (oneofOf_eq_none_iff.mpr ht.apart)
    exact ⟨hc, (hexplicit ho).trans ((hpresence hc ht.plain).mpr ht.told), ho, ht.plain⟩

/-- The bits given out so far are the first ones, in the order of the fields. -/
def Progress.Counted (progress : Progress) : Prop :=
  progress.fields.filterMap Field.presenceBit = List.range progress.bits

theorem addField_counted (hc : progress.Counted)
    (h : context.addField fullName place message.realOneofs progress index decl = .ok next) : next.Counted := by
  obtain ⟨field, hfields, _, hbit, hbits⟩ := addField_tracking h
  rw [Progress.Counted, hfields, List.filterMap_append, hc, hbits]
  split at hbit
  · rename_i hneeds
    rw [if_pos hneeds, List.range_succ]
    simp [hbit]
  · rename_i hneeds
    rw [if_neg hneeds]
    simp [hbit]

/-- What resolving a message makes of presence: the fields that need a bit have one, the first bits in order, and
    there are as many words as they take. -/
theorem message_counted {decl : Descriptor.Message} {tree : MessageTree}
    (h : context.message fullName place decl = .ok tree) : ∃ count,
      List.Forall₂ (fun decl' field => field.presenceBit.isSome = true ↔ context.Tracks decl decl' field)
        decl.fields tree.type.fields ∧
      tree.type.fields.filterMap Field.presenceBit = List.range count ∧ tree.type.presenceWords = (count + 31) / 32 := by
  obtain ⟨entry, progress, _, hprogress, _, _, _, _, _, hfields, _, hwords⟩ := message_ok h
  obtain ⟨resolved, hresolved, htracks⟩ := addFields_each
    (fun h => (addField_tracking h).imp fun _ hfield => ⟨hfield.1, hfield.2.1⟩) hprogress
  obtain ⟨_, hnone, hbits⟩ := addOneofs_eq context entry fullName place decl.realOneofs
    { members := ⟨Naming.reservedMembers⟩, oneofs := [] }
  rw [hnone, List.nil_append] at hresolved
  rw [hfields]
  refine ⟨progress.bits, hresolved ▸ htracks, ?_, hwords⟩
  refine addFields_induction (P := fun _ progress => progress.Counted) hprogress ?_ addField_counted
  rw [Progress.Counted, hnone, hbits]
  rfl

end Schema.Context

namespace Generate.Plan

open Schema

/-- Exactly the fields that need a presence bit have one. The bits are the first numbers, in the order of declaration;
    there are just enough words for them; word and mask tell them apart and lie within the words. So the code that
    sets or clears the bit of a field does what its number says, and leaves what is told of all other fields. -/
theorem message_tracking {context : Context} {fullName : String} {place : Schema.Place}
    {decl : Descriptor.Message} {tree : MessageTree} (h : context.message fullName place decl = .ok tree) :
    List.Forall₂ (fun decl' field => field.presenceBit.isSome = true ↔ context.Tracks decl decl' field)
      decl.fields tree.type.fields ∧
    (∃ count, tree.type.fields.filterMap Field.presenceBit = List.range count ∧
      count ≤ tree.type.presenceWords * 32 ∧ (count = 0 → tree.type.presenceWords = 0) ∧
      (0 < count → (tree.type.presenceWords - 1) * 32 < count)) ∧
    (tree.type.fields.filterMap bit?).Nodup ∧
    (∀ bit ∈ tree.type.fields.filterMap bit?, bit.word < tree.type.presenceWords) ∧
    ∀ words : PresenceBits, words.length = tree.type.presenceWords →
      (∀ field ∈ tree.type.fields, ∀ n, field.presenceBit = some n → ∃ bit, bit? field = some bit ∧ bit.Selects n words) ∧
      ∀ bit ∈ tree.type.fields.filterMap bit?, ∃ marked unmarked,
        after words bit.set = some marked ∧ after words bit.unset = some unmarked ∧
        testOf marked bit.isSet = some true ∧ testOf unmarked bit.isSet = some false ∧
        ∀ other ∈ tree.type.fields.filterMap bit?, other ≠ bit → ∃ was, testOf words other.isSet = some was ∧
          testOf marked other.isSet = some was ∧ testOf unmarked other.isSet = some was := by
  obtain ⟨count, htracks, hbits, hwords⟩ := Context.message_counted h
  have hpairs : tree.type.fields.filterMap bit? = (List.range count).map fun n => ⟨n / 32, Nat.pow 2 (n % 32)⟩ := by
    rw [← hbits, List.map_filterMap]
    rfl
  have hword : ∀ n < count, n / 32 < tree.type.presenceWords := by
    intro n hn
    rw [hwords]
    omega
  have hcount : ∀ field ∈ tree.type.fields, ∀ n, field.presenceBit = some n → n < count := by
    intro field hf n hn
    exact List.mem_range.mp (hbits ▸ List.mem_filterMap.mpr ⟨field, hf, hn⟩)
  refine ⟨htracks, ⟨count, hbits, by omega, by omega, by omega⟩, ?_, ?_, fun words hlen => ⟨fun field hf n hn => ?_, ?_⟩⟩
  · rw [hpairs]
    exact List.nodup_range.map fun _ _ => bit_injective
  · rw [hpairs]
    intro bit hbit
    obtain ⟨n, hn, rfl⟩ := List.mem_map.mp hbit
    exact hword n (List.mem_range.mp hn)
  · refine ⟨_, by rw [bit?, hn]; rfl, Bit.selects ?_⟩
    rw [hlen]
    exact hword n (hcount field hf n hn)
  · rw [hpairs]
    intro bit hbit
    obtain ⟨n, hn, rfl⟩ := List.mem_map.mp hbit
    have hin := hword n (List.mem_range.mp hn)
    rw [← hlen] at hin
    refine ⟨words.set n, words.unset n, (Bit.selects hin).set, (Bit.selects hin).unset, ?_, ?_, ?_⟩
    · rw [(Bit.selects (by rwa [PresenceBits.length_set])).isSet, PresenceBits.isSet_set hin]
      simp
    · rw [(Bit.selects (by rwa [PresenceBits.length_unset])).isSet, PresenceBits.isSet_unset]
      simp
    · intro other hother hne
      obtain ⟨n', hn', rfl⟩ := List.mem_map.mp hother
      have hin' := hword n' (List.mem_range.mp hn')
      rw [← hlen] at hin'
      have hdiffer : n' ≠ n := by
        rintro rfl
        exact hne rfl
      refine ⟨words.isSet n', (Bit.selects hin').isSet, ?_, ?_⟩
      · rw [(Bit.selects (by rwa [PresenceBits.length_set])).isSet, PresenceBits.isSet_set hin]
        simp [hdiffer]
      · rw [(Bit.selects (by rwa [PresenceBits.length_unset])).isSet, PresenceBits.isSet_unset]
        simp [hdiffer]

/-- A message, a repeated field and a member of a choice, and then one field more than a word has bits. -/
def crowded : Descriptor.Message :=
  let others := [
    Descriptor.Field.message "inner" 100 ".Crowded", .repeated (.scalar "list" 101 .int32),
    .inOneof (.scalar "picked" 102 .int32) 0]
  let flags := (List.range 33).map fun i => Descriptor.Field.scalar ("flag" ++ Nat.repr i) (Int32.ofNat (i + 1)) .bool
  .withOneofs (.of "Crowded" (others ++ flags)) ["choice"]

theorem message_tracking_crowded :
    let registry : Registry := { types := [("Crowded", ⟨⟨[], "Crowded"⟩, "crowded", .message crowded⟩)] }
    let context : Context := { registry, dialect := .proto2, comments := .ofLocations [], keepsUnknown := true }
    ∃ tree, context.message "Crowded" [] crowded = .ok tree ∧ tree.type.presenceWords = 2 ∧
      (tree.type.fields.filterMap bit?).length = 33 ∧ (tree.type.fields.filterMap bit?).Nodup ∧
      ∀ bit ∈ tree.type.fields.filterMap bit?, bit.word < 2 := by
  intro registry context
  have hcounts : ((context.message "Crowded" [] crowded).toOption.any fun tree =>
      tree.type.presenceWords == 2 && (tree.type.fields.filterMap bit?).length == 33) = true := by
    decide +kernel
  cases htree : context.message "Crowded" [] crowded with
  | error e =>
    rw [htree] at hcounts
    cases hcounts
  | ok tree =>
    rw [htree] at hcounts
    obtain ⟨hwords, hlength⟩ := Bool.and_eq_true_iff.mp hcounts
    obtain ⟨_, _, hnodup, hword, _⟩ := message_tracking htree
    rw [eq_of_beq hwords] at hword
    exact ⟨tree, rfl, eq_of_beq hwords, eq_of_beq hlength, hnodup, hword⟩

end Generate.Plan

end Protobuf
