/-
  Protobuf.Proofs.Equality — which messages are equal.

  Messages are equal if no float that is compared is a NaN and they have the same content once negative zeros
  are made positive (`equal_iff`). The content of a message is what is in use, with maps as finite maps; so
  neither the order of entries nor anything kept aside has a part in it.
-/

import Protobuf.Proofs.Peers

namespace Protobuf

open Schema

/-! ## Values -/

namespace Binary.Format

variable {format : Format} {a b : Nat}

theorem isNaN_of_isZero (h : format.isZero a = true) : format.isNaN a = false := by
  have h : format.magnitude a = 0 := eq_of_beq h
  simp [isNaN, h]

theorem isZero_zero (format : Format) : format.isZero 0 = true := by simp [isZero, magnitude]

/-- Words are equal as numbers if they are the same once both zeros are the positive one. -/
theorem equal_iff : format.equal a b = true ↔ format.isNaN a = false ∧
    (if format.isZero a = true then 0 else a) = (if format.isZero b = true then 0 else b) := by
  have hzero := format.isZero_zero
  by_cases ha : format.isZero a = true <;> by_cases hb : format.isZero b = true
  · simp [equal, ha, hb, isNaN_of_isZero ha, isNaN_of_isZero hb]
  · have hab : a ≠ b := fun h => hb (h ▸ ha)
    have hb0 : 0 ≠ b := fun h => hb (h ▸ hzero)
    simp [equal, ha, hb, hab, hb0]
  · have hab : a ≠ b := fun h => ha (h ▸ hb)
    have ha0 : a ≠ 0 := fun h => ha (h ▸ hzero)
    simp [equal, ha, hb, hab, ha0]
  · simp only [equal, ha, hb]
    constructor
    · intro h
      simp_all
    · rintro ⟨hnan, rfl⟩
      simp_all

end Binary.Format

namespace Scalar

/-- Whether the value is anything but a NaN. -/
def isNumber : Scalar → Bool
  | float bits => !Binary.Format.single.isNaN bits.toNat
  | double bits => !Binary.Format.double.isNaN bits.toNat
  | _ => true

/-- The value, with a negative zero made positive. -/
def unsigned : Scalar → Scalar
  | float bits => float (if Binary.Format.single.isZero bits.toNat then 0 else bits)
  | double bits => double (if Binary.Format.double.isZero bits.toNat then 0 else bits)
  | value => value

theorem equal_iff {a b : Scalar} : a.equal b = true ↔ a.isNumber = true ∧ a.unsigned = b.unsigned := by
  cases a with
  | float x =>
    cases b with
    | float y =>
      simp only [equal, isNumber, unsigned, Binary.Format.equal_iff, Bool.not_eq_true', float.injEq]
      refine and_congr_right fun _ => ?_
      rw [← UInt32.toNat_inj]
      split <;> split <;> simp
    | _ => simp [equal, unsigned]
  | double x =>
    cases b with
    | double y =>
      simp only [equal, isNumber, unsigned, Binary.Format.equal_iff, Bool.not_eq_true', double.injEq]
      refine and_congr_right fun _ => ?_
      rw [← UInt64.toNat_inj]
      split <;> split <;> simp
    | _ => simp [equal, unsigned]
  | _ => cases b <;> simp [equal, isNumber, unsigned]

end Scalar

/-! ## Lists -/

section Lists

variable {α β : Type} {same : α → β → Bool}

theorem sameList_iff {as : List α} {bs : List β} :
    sameList same as bs = true ↔ List.Forall₂ (fun a b => same a b = true) as bs := by
  induction as generalizing bs with
  | nil => cases bs <;> simp [sameList]
  | cons a as ih => cases bs <;> simp [sameList, ih]

theorem sameOption_iff {a : Option α} {b : Option β} :
    sameOption same a b = true ↔ Option.Rel (fun a b => same a b = true) a b := by
  cases a <;> cases b <;> simp [sameOption]

variable {P : α → Prop} {R S : α → β → Prop}

/-- What is asked of the left alone can be asked apart. -/
theorem forall₂_iff_and {as : List α} {bs : List β} (h : ∀ a ∈ as, ∀ b ∈ bs, (R a b ↔ P a ∧ S a b)) :
    List.Forall₂ R as bs ↔ (∀ a ∈ as, P a) ∧ List.Forall₂ S as bs := by
  induction as generalizing bs with
  | nil => simp
  | cons a as ih =>
    cases bs with
    | nil => simp
    | cons b bs =>
      have hhead := h a List.mem_cons_self b List.mem_cons_self
      have htail := ih fun x hx y hy => h x (List.mem_cons_of_mem _ hx) y (List.mem_cons_of_mem _ hy)
      simp only [List.forall₂_cons, List.forall_mem_cons, hhead, htail]
      tauto

theorem rel_iff_and {a : Option α} {b : Option β} (h : ∀ x ∈ a, ∀ y ∈ b, (R x y ↔ P x ∧ S x y)) :
    Option.Rel R a b ↔ (∀ x ∈ a, P x) ∧ Option.Rel S a b := by
  cases a with
  | none => cases b <;> simp
  | some x =>
    cases b with
    | none => simp
    | some y => simpa using h x rfl y rfl

theorem forall₂_iff_getElem? {as : List α} {bs : List β} :
    List.Forall₂ R as bs ↔ ∀ index : Nat, Option.Rel R as[index]? bs[index]? := by
  refine ⟨rel_getElem?, fun h => ?_⟩
  induction as generalizing bs with
  | nil =>
    cases bs with
    | nil => exact .nil
    | cons b bs => cases h 0
  | cons a as ih =>
    cases bs with
    | nil => cases h 0
    | cons b bs =>
      have hhead := h 0
      cases hhead with
      | some hab => exact .cons hab (ih fun index => h (index + 1))

end Lists

/-! ## Content up to the sign of zero -/

section Definitions

variable {M : Type}

def Value.isNumeric : Value Bool → Bool
  | scalar value => value.isNumber
  | message numeric => numeric

def Value.unsigned : Value M → Value M
  | scalar value => scalar value.unsigned
  | message m => message m

def Entry.unsigned (entry : Entry M) : Entry M := { entry with value := entry.value.unsigned }

def Member.unsigned (member : Member M) : Member M := { member with value := member.value.unsigned }

/-- Whether no value of a field is a NaN, the keys of maps apart, which are compared as they are. -/
def Slot.isNumeric : Slot Bool → Bool
  | scalar value => value.isNumber
  | scalars values => values.all Scalar.isNumber
  | texts values => values.active.all Scalar.isNumber
  | message value => value.get?.all id
  | messages values => values.active.all id
  | map entries => entries.all fun entry => entry.value.isNumeric
  | member => true

def Slot.unsigned : Slot M → Slot M
  | scalar value => scalar value.unsigned
  | scalars values => scalars (values.map Scalar.unsigned)
  | texts values => texts (values.modify (·.map Scalar.unsigned))
  | map entries => map (entries.map Entry.unsigned)
  | slot => slot

def Choice.unsigned (choice : Choice M) : Choice M := { choice with selected := choice.selected.map Member.unsigned }

def Body.isNumeric (body : Body Bool) : Bool :=
  body.slots.all Slot.isNumeric && body.choices.all fun choice => choice.selected.all fun member => member.value.isNumeric

def Body.unsigned (body : Body M) : Body M :=
  { body with slots := body.slots.map Slot.unsigned, choices := body.choices.map Choice.unsigned }

/-- Whether nothing that is compared is a NaN, at any level in use. -/
def Message.isNumeric (m : Message) : Bool := m.fold Body.isNumeric

/-- The message with every negative zero made positive. -/
def Message.unsigned (m : Message) : Message := m.fold fun body => mk body.unsigned

/-- Equality of the two says whether their content is the same up to the sign of zero, with no NaN in it. -/
def Message.Decides (a b : Message) : Prop := a.equal b = true ↔ a.isNumeric = true ∧ a.unsigned.Same b.unsigned

end Definitions

/-! ## Fields -/

section Inversion

variable {M N : Type} {R : M → N → Prop}

theorem Value.rel_scalar_iff {v w : Scalar} : Value.Rel R (.scalar v) (.scalar w) ↔ v = w := by
  constructor
  · rintro ⟨⟩
    rfl
  · rintro rfl
    exact .scalar v

theorem Value.rel_message_iff {x : M} {y : N} : Value.Rel R (.message x) (.message y) ↔ R x y := by
  constructor
  · rintro ⟨⟩
    assumption
  · exact .message

theorem Slot.rel_scalar_iff {v w : Scalar} : Slot.Rel R (.scalar v) (.scalar w) ↔ v = w := by
  constructor
  · rintro ⟨⟩
    rfl
  · rintro rfl
    exact .scalar v

theorem Slot.rel_scalars_iff {vs ws : List Scalar} : Slot.Rel R (.scalars vs) (.scalars ws) ↔ vs = ws := by
  constructor
  · rintro ⟨⟩
    rfl
  · rintro rfl
    exact .scalars vs

theorem Slot.rel_texts_iff {a b : Repeated Scalar} : Slot.Rel R (.texts a) (.texts b) ↔ a.active = b.active := by
  constructor
  · rintro ⟨⟩
    assumption
  · exact .texts

theorem Slot.rel_message_iff {a : Singular M} {b : Singular N} :
    Slot.Rel R (.message a) (.message b) ↔ Option.Rel R a.get? b.get? := by
  constructor
  · rintro ⟨⟩
    assumption
  · exact .message

theorem Slot.rel_messages_iff {a : Repeated M} {b : Repeated N} :
    Slot.Rel R (.messages a) (.messages b) ↔ List.Forall₂ R a.active b.active := by
  constructor
  · rintro ⟨⟩
    assumption
  · exact .messages

theorem Slot.rel_map_iff {a : List (Entry M)} {b : List (Entry N)} : Slot.Rel R (.map a) (.map b) ↔ Entry.Rel R a b := by
  constructor
  · rintro ⟨⟩
    assumption
  · exact .map

/-- Maps with distinct keys have the same content if they are of one size and each entry has its counterpart. -/
theorem Entry.rel_iff {as : List (Entry M)} {bs : List (Entry N)} (ha : (as.map Entry.key).Nodup)
    (hb : (bs.map Entry.key).Nodup) : Entry.Rel R as bs ↔
      as.length = bs.length ∧ ∀ a ∈ as, ∃ c, c ∈ bs ∧ a.key = c.key ∧ a.value.Rel R c.value := by
  constructor
  · intro h
    refine ⟨by simpa using h.keys.length_eq, fun a hmem => ?_⟩
    have hrel := h.values a.key
    rw [valueOf_of_mem ha hmem] at hrel
    obtain ⟨w, hw, haw⟩ := exists_of_rel hrel rfl
    exact ⟨⟨a.key, w⟩, mem_of_valueOf hw, rfl, haw⟩
  · rintro ⟨hlen, hfind⟩
    obtain ⟨cs, hperm, hall⟩ := exists_perm_of_keys ha (Nat.le_of_eq hlen.symm) hfind
    have hsame := rel_of_perm (fun _ => rfl) hperm hb
    refine ⟨keys_of_forall₂ hall ▸ hperm.map Entry.key, fun key => ?_⟩
    rw [← rel_eq (rel_imp (hsame.values key) fun _ _ hvw => hvw.eq)]
    exact valueOf_of_forall₂ hall key

end Inversion

theorem Value.equal_iff {a b : Value Message} (h : ∀ x y, a = .message x → b = .message y → x.Decides y) :
    (a.map Message.equal).equal b = true ↔ (a.map Message.isNumeric).isNumeric = true ∧
      (a.map Message.unsigned).unsigned.Rel Message.Same (b.map Message.unsigned).unsigned := by
  cases a with
  | scalar v =>
    cases b with
    | scalar w => exact Scalar.equal_iff.trans (and_congr_right fun _ => rel_scalar_iff.symm)
    | message y => exact iff_of_false Bool.false_ne_true (by rintro ⟨_, ⟨⟩⟩)
  | message x =>
    cases b with
    | scalar w => exact iff_of_false Bool.false_ne_true (by rintro ⟨_, ⟨⟩⟩)
    | message y => exact (h x y rfl rfl).trans (and_congr_right fun _ => rel_message_iff.symm)

/-- Maps are equal as finite maps. -/
theorem Entry.equal_iff {as bs : List (Entry Message)} (ha : (as.map Entry.key).Nodup) (hb : (bs.map Entry.key).Nodup)
    (h : ∀ a ∈ as, ∀ b ∈ bs, ∀ x y, a.value = .message x → b.value = .message y → x.Decides y) :
    sameEntries (as.map (Entry.map Message.equal)) bs = true ↔
      (∀ a ∈ as, (a.value.map Message.isNumeric).isNumeric = true) ∧
        Entry.Rel Message.Same ((as.map (Entry.map Message.unsigned)).map Entry.unsigned)
          ((bs.map (Entry.map Message.unsigned)).map Entry.unsigned) := by
  have hkeys : ∀ es : List (Entry Message),
      (es.map (Entry.unsigned ∘ Entry.map Message.unsigned)).map Entry.key = es.map Entry.key := by
    intro es
    rw [List.map_map]
    rfl
  -- an entry is compared with the one that is found under its key
  have hfound : ∀ a ∈ as,
      ((bs.find? fun b => b.key == a.key).any fun b => (a.value.map Message.equal).equal b.value) = true ↔
      (a.value.map Message.isNumeric).isNumeric = true ∧ ∃ b ∈ bs, a.key = b.key ∧
        (a.value.map Message.unsigned).unsigned.Rel Message.Same (b.value.map Message.unsigned).unsigned := by
    intro a hmem
    rw [Option.any_eq_true]
    constructor
    · rintro ⟨b, hfind, hequal⟩
      have hkey := List.find?_some hfind
      have hmem' := List.mem_of_find?_eq_some hfind
      obtain ⟨hnumeric, hrel⟩ := (Value.equal_iff (h a hmem b hmem')).mp hequal
      exact ⟨hnumeric, b, hmem', (eq_of_beq hkey).symm, hrel⟩
    · rintro ⟨hnumeric, b, hmem', hkey, hrel⟩
      obtain ⟨c, hfind, hvalue⟩ := Option.map_eq_some_iff.mp (Entry.valueOf_of_mem hb hmem')
      rw [hkey]
      refine ⟨c, hfind, ?_⟩
      rw [hvalue]
      exact (Value.equal_iff (h a hmem b hmem')).mpr ⟨hnumeric, hrel⟩
  rw [sameEntries, Bool.and_eq_true, beq_iff_eq, List.length_map, List.all_map, List.all_eq_true, List.map_map,
    List.map_map, Entry.rel_iff (by rwa [hkeys]) (by rwa [hkeys]), List.length_map, List.length_map]
  constructor
  · rintro ⟨hlen, hall⟩
    refine ⟨fun a hmem => ((hfound a hmem).mp (hall a hmem)).1, hlen, fun a' hmem' => ?_⟩
    obtain ⟨a, hmem, rfl⟩ := List.mem_map.mp hmem'
    obtain ⟨_, b, hb, hkey, hrel⟩ := (hfound a hmem).mp (hall a hmem)
    exact ⟨_, List.mem_map_of_mem hb, hkey, hrel⟩
  · rintro ⟨hnumeric, hlen, hall⟩
    refine ⟨hlen, fun a hmem => (hfound a hmem).mpr ⟨hnumeric a hmem, ?_⟩⟩
    obtain ⟨c, hc, hkey, hrel⟩ := hall _ (List.mem_map_of_mem hmem)
    obtain ⟨b, hb, rfl⟩ := List.mem_map.mp hc
    exact ⟨b, hb, hkey, hrel⟩

theorem Scalar.sameList_equal_iff {vs ws : List Scalar} : sameList Scalar.equal vs ws = true ↔
    vs.all Scalar.isNumber = true ∧ vs.map Scalar.unsigned = ws.map Scalar.unsigned := by
  have hsplit : List.Forall₂ (fun v w => v.equal w = true) vs ws ↔
      (∀ v ∈ vs, v.isNumber = true) ∧ List.Forall₂ (fun v w => v.unsigned = w.unsigned) vs ws :=
    forall₂_iff_and fun _ _ _ _ => Scalar.equal_iff
  rw [sameList_iff, hsplit, List.all_eq_true, ← List.forall₂_eq_eq_eq, List.forall₂_map_left_iff,
    List.forall₂_map_right_iff]

theorem Slot.equal_iff {a b : Slot Message} {s t : Strategy} (ha : Form s a) (hb : Form t b)
    (h : ∀ x ∈ a.inUse, ∀ y ∈ b.inUse, x.Decides y) :
    (a.mapParts Message.equal Message.equal).equal b = true ↔
      (a.mapParts Message.isNumeric Message.isNumeric).isNumeric = true ∧
        (a.mapParts Message.unsigned Message.unsigned).unsigned.Rel Message.Same
          (b.mapParts Message.unsigned Message.unsigned).unsigned := by
  cases a with
  | scalar v =>
    cases b with
    | scalar w => exact Scalar.equal_iff.trans (and_congr_right fun _ => rel_scalar_iff.symm)
    | _ => exact iff_of_false Bool.false_ne_true (by rintro ⟨_, ⟨⟩⟩)
  | scalars vs =>
    cases b with
    | scalars ws => exact Scalar.sameList_equal_iff.trans (and_congr_right fun _ => rel_scalars_iff.symm)
    | _ => exact iff_of_false Bool.false_ne_true (by rintro ⟨_, ⟨⟩⟩)
  | texts vs =>
    cases b with
    | texts ws =>
      refine Scalar.sameList_equal_iff.trans (and_congr_right fun _ => Iff.symm ?_)
      exact rel_texts_iff (a := vs.modify _) (b := ws.modify _)
    | _ => exact iff_of_false Bool.false_ne_true (by rintro ⟨_, ⟨⟩⟩)
  | message x =>
    cases b with
    | message y =>
      cases x with
      | absent kept =>
        cases y with
        | absent kept' => exact ⟨fun _ => ⟨rfl, .message .none⟩, fun _ => rfl⟩
        | present y =>
          exact iff_of_false Bool.false_ne_true fun h => Option.not_rel_none_some (rel_message_iff.mp h.2)
      | present x =>
        cases y with
        | absent kept =>
          exact iff_of_false Bool.false_ne_true fun h => Option.not_rel_some_none (rel_message_iff.mp h.2)
        | present y =>
          refine (h x (List.mem_singleton_self x) y (List.mem_singleton_self y)).trans (and_congr_right fun _ => ?_)
          exact Option.rel_some_some.symm.trans
            (rel_message_iff (a := .present x.unsigned) (b := .present y.unsigned)).symm
    | _ => exact iff_of_false Bool.false_ne_true (by rintro ⟨_, ⟨⟩⟩)
  | messages xs =>
    cases b with
    | messages ys =>
      have hsplit : List.Forall₂ (fun x y => x.equal y = true) xs.active ys.active ↔
          (∀ x ∈ xs.active, x.isNumeric = true) ∧
            List.Forall₂ (fun x y => x.unsigned.Same y.unsigned) xs.active ys.active := forall₂_iff_and h
      refine (sameList_iff.trans List.forall₂_map_left_iff).trans (hsplit.trans (and_congr ?_ (Iff.symm ?_)))
      · simp [mapParts, isNumeric]
      · refine (rel_messages_iff (a := xs.mapParts _ _) (b := ys.mapParts _ _)).trans ?_
        rw [Repeated.active_mapParts, Repeated.active_mapParts, List.forall₂_map_left_iff, List.forall₂_map_right_iff]
    | _ => exact iff_of_false Bool.false_ne_true (by rintro ⟨_, ⟨⟩⟩)
  | map entries =>
    cases b with
    | map others =>
      cases ha with
      | map _ nodup =>
        cases hb with
        | map _ nodup' =>
          refine (Entry.equal_iff nodup nodup' fun a ha b hb x y hx hy => ?_).trans (and_congr ?_ rel_map_iff.symm)
          · refine h x (List.mem_filterMap.mpr ⟨a, ha, ?_⟩) y (List.mem_filterMap.mpr ⟨b, hb, ?_⟩)
            · rw [hx]
              rfl
            · rw [hy]
              rfl
          · simp [mapParts, isNumeric, Entry.map]
    | _ => exact iff_of_false Bool.false_ne_true (by rintro ⟨_, ⟨⟩⟩)
  | member =>
    cases b with
    | member => exact ⟨fun _ => ⟨rfl, .member⟩, fun _ => rfl⟩
    | _ => exact iff_of_false Bool.false_ne_true (by rintro ⟨_, ⟨⟩⟩)

/-! ## Levels -/

theorem Choice.equal_iff {a b : Choice Message}
    (h : ∀ i j x y, a.selected = some ⟨i, .message x⟩ → b.selected = some ⟨j, .message y⟩ → x.Decides y) :
    sameOption Member.equal (a.mapParts Message.equal Message.equal).selected b.selected = true ↔
      ((a.mapParts Message.isNumeric Message.isNumeric).selected.all fun member => member.value.isNumeric) = true ∧
        (a.mapParts Message.unsigned Message.unsigned).unsigned.Rel Message.Same
          (b.mapParts Message.unsigned Message.unsigned).unsigned := by
  have hmember : ∀ x ∈ a.selected, ∀ y ∈ b.selected, (Member.equal (x.map Message.equal) y = true ↔
      (x.value.map Message.isNumeric).isNumeric = true ∧
        (x.map Message.unsigned).unsigned.Rel Message.Same (y.map Message.unsigned).unsigned) := by
    rintro ⟨i, v⟩ hx ⟨j, w⟩ hy
    have hvalue := Value.equal_iff (a := v) (b := w) fun x y hv hw => h i j x y (hv ▸ hx) (hw ▸ hy)
    simp only [Member.equal, Member.map, Member.unsigned, Member.Rel, Bool.and_eq_true, beq_iff_eq, hvalue]
    tauto
  obtain ⟨selected, spare⟩ := a
  obtain ⟨selected', spare'⟩ := b
  refine (sameOption_iff.trans Protobuf.rel_map_left).trans ((rel_iff_and hmember).trans (and_congr ?_ ?_))
  · cases selected <;> simp [Choice.mapParts, Member.map]
  · cases selected <;> cases selected' <;> simp [Choice.Rel, Choice.mapParts, Choice.unsigned]

namespace Body

variable {a b : Body Message} {type other : MessageType}

theorem slots_equal_iff (ha : a.Shaped type) (hb : b.Shaped other) (h : ∀ p ∈ a.inUse, ∀ q ∈ b.inUse, p.2.Decides q.2) :
    sameList Slot.equal (a.map Message.equal).slots b.slots = true ↔
      (a.map Message.isNumeric).slots.all Slot.isNumeric = true ∧
        ∀ index : Nat, Option.Rel (Slot.Rel Message.Same) (a.map Message.unsigned).unsigned.slots[index]?
          (b.map Message.unsigned).unsigned.slots[index]? := by
  have hslot : ∀ s ∈ a.slots, ∀ t ∈ b.slots, ((s.mapParts Message.equal Message.equal).equal t = true ↔
      (s.mapParts Message.isNumeric Message.isNumeric).isNumeric = true ∧
        (s.mapParts Message.unsigned Message.unsigned).unsigned.Rel Message.Same
          (t.mapParts Message.unsigned Message.unsigned).unsigned) := by
    intro s hs t ht
    obtain ⟨i, hi⟩ := List.getElem?_of_mem hs
    obtain ⟨j, hj⟩ := List.getElem?_of_mem ht
    obtain ⟨_, _, hform⟩ := ha.field_of_slot hi
    obtain ⟨_, _, hform'⟩ := hb.field_of_slot hj
    refine Slot.equal_iff hform hform' fun x hx y hy => ?_
    exact h (i, x) (mem_parts_iff.mpr (.inl ⟨s, hi, hx⟩)) (j, y) (mem_parts_iff.mpr (.inl ⟨t, hj, hy⟩))
  refine (sameList_iff.trans List.forall₂_map_left_iff).trans ((forall₂_iff_and hslot).trans (and_congr ?_ ?_))
  · simp [Body.map, Body.mapParts]
  · rw [← forall₂_iff_getElem?]
    simp only [unsigned, Body.map, Body.mapParts, List.forall₂_map_left_iff, List.forall₂_map_right_iff]

theorem choices_equal_iff (h : ∀ p ∈ a.inUse, ∀ q ∈ b.inUse, p.2.Decides q.2) :
    sameList (fun (x : Choice (Message → Bool)) (y : Choice Message) => sameOption Member.equal x.selected y.selected)
        (a.map Message.equal).choices b.choices = true ↔
      (a.map Message.isNumeric).choices.all (fun choice => choice.selected.all fun m => m.value.isNumeric) = true ∧
        ∀ slot : Nat, Option.Rel (Choice.Rel Message.Same) (a.map Message.unsigned).unsigned.choices[slot]?
          (b.map Message.unsigned).unsigned.choices[slot]? := by
  have hchoice : ∀ c ∈ a.choices, ∀ d ∈ b.choices, (sameOption Member.equal
      (c.mapParts Message.equal Message.equal).selected d.selected = true ↔
        ((c.mapParts Message.isNumeric Message.isNumeric).selected.all fun member => member.value.isNumeric) = true ∧
          (c.mapParts Message.unsigned Message.unsigned).unsigned.Rel Message.Same
            (d.mapParts Message.unsigned Message.unsigned).unsigned) := by
    intro c hc d hd
    obtain ⟨i, hi⟩ := List.getElem?_of_mem hc
    obtain ⟨j, hj⟩ := List.getElem?_of_mem hd
    refine Choice.equal_iff fun k l x y hx hy => ?_
    exact h (k, x) (mem_parts_iff.mpr (.inr ⟨i, c, hi, hx⟩)) (l, y) (mem_parts_iff.mpr (.inr ⟨j, d, hj, hy⟩))
  refine (sameList_iff.trans List.forall₂_map_left_iff).trans ((forall₂_iff_and hchoice).trans (and_congr ?_ ?_))
  · simp [Body.map, Body.mapParts]
  · rw [← forall₂_iff_getElem?]
    simp only [unsigned, Body.map, Body.mapParts, List.forall₂_map_left_iff, List.forall₂_map_right_iff]

theorem equal_iff (ha : a.Shaped type) (hb : b.Shaped other) (h : ∀ p ∈ a.inUse, ∀ q ∈ b.inUse, p.2.Decides q.2) :
    (a.map Message.equal).equal b = true ↔ (a.map Message.isNumeric).isNumeric = true ∧
      (a.map Message.unsigned).unsigned.Rel Message.Same (b.map Message.unsigned).unsigned := by
  have hslots := slots_equal_iff ha hb h
  have hchoices := choices_equal_iff h
  simp only [equal, isNumeric, Bool.and_eq_true, beq_iff_eq, hslots, hchoices]
  constructor
  · rintro ⟨⟨⟨⟨hn, hs⟩, hn', hc⟩, hunknown⟩, hpresence⟩
    exact ⟨⟨hn, hn'⟩, hs, hc, hpresence, hunknown⟩
  · rintro ⟨⟨hn, hn'⟩, hs, hc, hpresence, hunknown⟩
    exact ⟨⟨⟨⟨hn, hs⟩, hn', hc⟩, hunknown⟩, hpresence⟩

end Body

/-! ## Messages -/

namespace Message

variable {table : TypeTable} {type other : MessageType} {a b : Message}

theorem equal_mk (a : Body Message) (b : Message) : (mk a).equal b = (a.map equal).equal b.body := by
  rw [equal, fold_mk]
  rfl

theorem isNumeric_mk (body : Body Message) : (mk body).isNumeric = (body.map isNumeric).isNumeric := fold_mk ..

theorem unsigned_mk (body : Body Message) : (mk body).unsigned = mk (body.map unsigned).unsigned := fold_mk ..

/-- Messages are equal just if there is no NaN in what is compared and their content is the same up to the sign
    of zero. Of the types no more is used than that keys of maps are distinct. -/
theorem Held.decides (ha : Held table type a) (hb : Held table other b) : a.Decides b := by
  induction ha generalizing other b with
  | @mk type body shaped _ _ ih _ =>
    cases hb with
    | mk shaped' inUse' _ =>
      rw [Decides, equal_mk, isNumeric_mk, unsigned_mk, unsigned_mk, same_mk_iff]
      exact Body.equal_iff shaped shaped' fun p hp q hq => ih p hp (inUse' q hq)

end Message

end Protobuf
