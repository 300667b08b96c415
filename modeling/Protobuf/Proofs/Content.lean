/-
  Protobuf.Proofs.Content — when two messages have the same content.

  `Message.Same` compares what a message says: its fields, selected members, presence bits and unknown
  bytes. Floats are compared by their bits and maps as finite maps, whatever the order of their entries.
  What is kept aside and the remembered size make no difference.

  It is a `fold` of `Body.Rel`, which lifts a relation of sub-messages to levels; `same_mk_iff` is the
  form used everywhere.
-/

import Mathlib.Data.List.Forall2
import Mathlib.Data.List.Nodup
import Mathlib.Data.List.Perm.Subperm
import Protobuf.Proofs.Shape

namespace Protobuf

/-! ## Induction over sub-messages in use -/

section Size

variable {M : Type} [SizeOf M]

theorem Slot.sizeOf_lt_of_mem_inUse {slot : Slot M} {m : M} (h : m ∈ slot.inUse) : sizeOf m < sizeOf slot := by
  cases slot with
  | message value =>
    cases value with
    | absent kept => cases h
    | present value =>
      cases List.mem_singleton.mp h
      simp only [Slot.message.sizeOf_spec, Singular.present.sizeOf_spec]
      omega
  | messages values =>
    obtain ⟨active, reserve⟩ := values
    have := List.sizeOf_lt_of_mem (show m ∈ active from h)
    simp only [Slot.messages.sizeOf_spec, Repeated.mk.sizeOf_spec]
    omega
  | map entries =>
    obtain ⟨⟨key, value⟩, he, hv⟩ := List.mem_filterMap.mp h
    cases value with
    | scalar v => cases hv
    | message value =>
      cases hv
      have := List.sizeOf_lt_of_mem he
      simp only [Slot.map.sizeOf_spec, Entry.mk.sizeOf_spec, Value.message.sizeOf_spec] at this ⊢
      omega
  | scalar v => cases h
  | scalars vs => cases h
  | texts vs => cases h
  | member => cases h

theorem Body.sizeOf_lt_of_mem_inUse {body : Body M} {part : Nat × M} (h : part ∈ body.inUse) :
    sizeOf part.2 < sizeOf body := by
  obtain ⟨slots, choices, presence, cachedSize, unknown⟩ := body
  obtain ⟨index, m⟩ := part
  simp only [Body.mk.sizeOf_spec]
  rcases Body.mem_parts_iff.mp h with ⟨slot, hs, hm⟩ | ⟨_, ⟨selected, spare⟩, hc, hm⟩
  · have hslot := Slot.sizeOf_lt_of_mem_inUse hm
    have := List.sizeOf_lt_of_mem (List.mem_of_getElem? hs)
    dsimp only at this
    omega
  · have := List.sizeOf_lt_of_mem (List.mem_of_getElem? hc)
    dsimp only at hm this
    rw [hm] at this
    simp only [Choice.mk.sizeOf_spec, Option.some.sizeOf_spec, Member.mk.sizeOf_spec, Value.message.sizeOf_spec]
      at this
    omega

end Size

/-- What holds of a message once it holds of its sub-messages in use holds of every message. -/
theorem Message.induct {motive : Message → Prop}
    (step : ∀ body : Body Message, (∀ part ∈ body.inUse, motive part.2) → motive (mk body)) (m : Message) :
    motive m := by
  obtain ⟨body⟩ := m
  refine step body fun part hp => ?_
  have := Body.sizeOf_lt_of_mem_inUse hp
  exact Message.induct step part.2
termination_by sizeOf m
decreasing_by
  simp only [Message.mk.sizeOf_spec]
  omega

/-! ## One level -/

section Relations

variable {L M N : Type}

/-- What a map holds under a key. -/
def Entry.valueOf (entries : List (Entry M)) (key : Scalar) : Option (Value M) :=
  (entries.find? fun entry => entry.key == key).map Entry.value

variable (R : M → N → Prop)

inductive Value.Rel : Value M → Value N → Prop
  | scalar (value : Scalar) : Value.Rel (.scalar value) (.scalar value)
  | message {a : M} {b : N} (h : R a b) : Value.Rel (.message a) (.message b)

def Member.Rel (a : Member M) (b : Member N) : Prop := a.field = b.field ∧ a.value.Rel R b.value

/-- The same keys, in whatever order, with related values. -/
structure Entry.Rel (as : List (Entry M)) (bs : List (Entry N)) : Prop where
  keys : (as.map Entry.key).Perm (bs.map Entry.key)
  values : ∀ key, Option.Rel (Value.Rel R) (Entry.valueOf as key) (Entry.valueOf bs key)

inductive Slot.Rel : Slot M → Slot N → Prop
  | scalar (value : Scalar) : Slot.Rel (.scalar value) (.scalar value)
  | scalars (values : List Scalar) : Slot.Rel (.scalars values) (.scalars values)
  | texts {a b : Repeated Scalar} (h : a.active = b.active) : Slot.Rel (.texts a) (.texts b)
  | message {a : Singular M} {b : Singular N} (h : Option.Rel R a.get? b.get?) : Slot.Rel (.message a) (.message b)
  | messages {a : Repeated M} {b : Repeated N} (h : List.Forall₂ R a.active b.active) :
    Slot.Rel (.messages a) (.messages b)
  | map {a : List (Entry M)} {b : List (Entry N)} (h : Entry.Rel R a b) : Slot.Rel (.map a) (.map b)
  | member : Slot.Rel .member .member

def Choice.Rel (a : Choice M) (b : Choice N) : Prop := Option.Rel (Member.Rel R) a.selected b.selected

structure Body.Rel (a : Body M) (b : Body N) : Prop where
  slots : ∀ index : Nat, Option.Rel (Slot.Rel R) a.slots[index]? b.slots[index]?
  choices : ∀ slot : Nat, Option.Rel (Choice.Rel R) a.choices[slot]? b.choices[slot]?
  presence : a.presence = b.presence
  unknown : a.unknown = b.unknown

end Relations

/-! ## Laws of relations -/

section Laws

variable {α β γ L M N : Type}

theorem rel_map_left {r : β → γ → Prop} {f : α → β} {a : Option α} {b : Option γ} :
    Option.Rel r (a.map f) b ↔ Option.Rel (fun x y => r (f x) y) a b := by
  constructor
  · intro h
    cases a with
    | none =>
      cases h
      exact .none
    | some a =>
      cases h with
      | some h => exact .some h
  · rintro (h | _)
    · exact .some h
    · exact .none

theorem rel_refl {r : α → α → Prop} {a : Option α} (h : ∀ x ∈ a, r x x) : Option.Rel r a a := by
  cases a with
  | none => exact .none
  | some x => exact .some (h x rfl)

variable {r : α → β → Prop}

theorem rel_trans {s : β → γ → Prop} {t : α → γ → Prop} {a : Option α} {b : Option β} {c : Option γ}
    (h : Option.Rel r a b) (h' : Option.Rel s b c) (ht : ∀ x ∈ a, ∀ y z, r x y → s y z → t x z) : Option.Rel t a c := by
  cases h with
  | none =>
    cases h'
    exact .none
  | some h =>
    cases h' with
    | some h' => exact .some (ht _ rfl _ _ h h')

theorem rel_none {a : Option α} {b : Option β} (h : Option.Rel r a b) : a = none ↔ b = none := by
  cases h <;> simp

theorem exists_of_rel {a : Option α} {b : Option β} (h : Option.Rel r a b) {x : α} (ha : a = some x) :
    ∃ y, b = some y ∧ r x y := by
  subst ha
  cases h with
  | some h => exact ⟨_, rfl, h⟩

theorem forall₂_trans {s : β → γ → Prop} {t : α → γ → Prop} {as : List α} {bs : List β} {cs : List γ}
    (h : List.Forall₂ r as bs) (h' : List.Forall₂ s bs cs) (ht : ∀ x ∈ as, ∀ y z, r x y → s y z → t x z) :
    List.Forall₂ t as cs := by
  induction h generalizing cs with
  | nil =>
    cases h'
    exact .nil
  | cons h _ ih =>
    cases h' with
    | cons h' htail =>
      exact .cons (ht _ (List.mem_cons_self ..) _ _ h h') (ih htail fun x hx => ht x (List.mem_cons_of_mem _ hx))

/-! ### Maps -/

namespace Entry

theorem valueOf_map (f : M → N) (entries : List (Entry M)) (key : Scalar) :
    valueOf (entries.map (Entry.map f)) key = (valueOf entries key).map (Value.map f) := by
  rw [valueOf, List.find?_map, valueOf, Option.map_map, Option.map_map]
  rfl

theorem mem_of_valueOf {entries : List (Entry M)} {key : Scalar} {value : Value M} (h : valueOf entries key = some value) :
    ⟨key, value⟩ ∈ entries := by
  obtain ⟨entry, he, rfl⟩ := Option.map_eq_some_iff.mp h
  have hkey : entry.key = key := by simpa using List.find?_some he
  subst hkey
  exact List.mem_of_find?_eq_some he

theorem valueOf_eq_none_iff {entries : List (Entry M)} {key : Scalar} :
    valueOf entries key = none ↔ key ∉ entries.map Entry.key := by
  simp [valueOf, List.find?_eq_none]

theorem valueOf_of_mem {entries : List (Entry M)} (hn : (entries.map Entry.key).Nodup) {entry : Entry M}
    (h : entry ∈ entries) : valueOf entries entry.key = some entry.value := by
  induction entries with
  | nil => cases h
  | cons first rest ih =>
    obtain ⟨hfirst, hrest⟩ := List.nodup_cons.mp hn
    rw [valueOf, List.find?_cons]
    rcases List.mem_cons.mp h with rfl | h
    · simp
    · have hne : first.key ≠ entry.key := by
        intro he
        exact hfirst (he ▸ List.mem_map_of_mem h)
      rw [beq_false_of_ne hne]
      exact ih hrest h

/-- Entries with distinct keys, each of them found among no more others, are those others in another order. -/
theorem exists_perm_of_keys {P : Entry M → Entry N → Prop} {as : List (Entry M)} {bs : List (Entry N)}
    (hn : (as.map Entry.key).Nodup) (hlen : bs.length ≤ as.length)
    (hfind : ∀ a ∈ as, ∃ c, c ∈ bs ∧ a.key = c.key ∧ P a c) :
    ∃ cs, cs.Perm bs ∧ List.Forall₂ (fun a c => a.key = c.key ∧ P a c) as cs := by
  have hlist : ∃ cs, cs ⊆ bs ∧ List.Forall₂ (fun a c => a.key = c.key ∧ P a c) as cs := by
    clear hn hlen
    induction as with
    | nil => exact ⟨[], List.nil_subset _, .nil⟩
    | cons a as ih =>
      obtain ⟨c, hc, hrel⟩ := hfind a (List.mem_cons_self ..)
      obtain ⟨cs, hsub, hcs⟩ := ih fun a ha => hfind a (List.mem_cons_of_mem _ ha)
      exact ⟨c :: cs, List.cons_subset.mpr ⟨hc, hsub⟩, .cons hrel hcs⟩
  obtain ⟨cs, hsub, hcs⟩ := hlist
  refine ⟨cs, ?_, hcs⟩
  have hkeys : as.map Entry.key = cs.map Entry.key := by
    clear hn hlen hfind hsub
    induction hcs with
    | nil => rfl
    | cons h _ ih => rw [List.map_cons, List.map_cons, h.1, ih]
  have hnc : cs.Nodup := List.Nodup.of_map Entry.key (hkeys ▸ hn)
  refine (List.subperm_of_subset hnc hsub).perm_of_length_le ?_
  rw [← hcs.length_eq]
  exact hlen

/-- Maps with the same content are the same list of entries up to order. -/
theorem Rel.exists_perm {R : M → N → Prop} {as : List (Entry M)} {bs : List (Entry N)} (h : Rel R as bs)
    (hn : (bs.map Entry.key).Nodup) :
    ∃ cs, cs.Perm bs ∧ List.Forall₂ (fun a c => a.key = c.key ∧ a.value.Rel R c.value) as cs := by
  have hna : (as.map Entry.key).Nodup := h.keys.nodup_iff.mpr hn
  have hlen := h.keys.length_eq
  rw [List.length_map, List.length_map] at hlen
  refine exists_perm_of_keys hna (Nat.le_of_eq hlen.symm) fun a ha => ?_
  have hv := h.values a.key
  rw [valueOf_of_mem hna ha] at hv
  cases hb : valueOf bs a.key with
  | none =>
    rw [hb] at hv
    cases hv
  | some value =>
    rw [hb] at hv
    cases hv with
    | some hv => exact ⟨⟨a.key, value⟩, mem_of_valueOf hb, rfl, hv⟩

end Entry

/-! ### Sub-messages through a function -/

variable {R : M → N → Prop} {f : L → M} {type : Schema.MessageType} {strategy : Schema.Strategy}

theorem Value.rel_map_left {a : Value L} {b : Value N} : (a.map f).Rel R b ↔ a.Rel (fun x y => R (f x) y) b := by
  constructor
  · intro h
    cases a with
    | scalar v =>
      cases h
      exact .scalar v
    | message m =>
      cases h with
      | message h => exact .message h
  · intro h
    cases h with
    | scalar v => exact .scalar v
    | message h => exact .message h

theorem Member.rel_map_left {a : Member L} {b : Member N} : (a.map f).Rel R b ↔ a.Rel (fun x y => R (f x) y) b :=
  and_congr Iff.rfl Value.rel_map_left

theorem Entry.rel_map_left {as : List (Entry L)} {bs : List (Entry N)} :
    Entry.Rel R (as.map (Entry.map f)) bs ↔ Entry.Rel (fun x y => R (f x) y) as bs := by
  have hkeys : (as.map (Entry.map f)).map Entry.key = as.map Entry.key := by
    rw [List.map_map]
    rfl
  have hvalue : ∀ key, Option.Rel (Value.Rel R) (Entry.valueOf (as.map (Entry.map f)) key) (Entry.valueOf bs key) ↔
      Option.Rel (Value.Rel fun x y => R (f x) y) (Entry.valueOf as key) (Entry.valueOf bs key) := by
    intro key
    rw [Entry.valueOf_map, Protobuf.rel_map_left]
    simp only [Value.rel_map_left]
  constructor
  · rintro ⟨keys, values⟩
    exact ⟨hkeys ▸ keys, fun key => (hvalue key).mp (values key)⟩
  · rintro ⟨keys, values⟩
    exact ⟨hkeys ▸ keys, fun key => (hvalue key).mpr (values key)⟩

theorem Slot.rel_map_left {g : L → M} {a : Slot L} {b : Slot N} :
    (a.mapParts f g).Rel R b ↔ a.Rel (fun x y => R (f x) y) b := by
  constructor
  · intro h
    cases a with
    | scalar v =>
      cases h
      exact .scalar v
    | scalars vs =>
      cases h
      exact .scalars vs
    | texts vs =>
      cases h with
      | texts h => exact .texts h
    | message value =>
      cases h with
      | message h => exact .message (Protobuf.rel_map_left.mp (Singular.get?_mapParts f g value ▸ h))
    | messages values =>
      cases h with
      | messages h => exact .messages (List.forall₂_map_left_iff.mp h)
    | map entries =>
      cases h with
      | map h => exact .map (Entry.rel_map_left.mp h)
    | member =>
      cases h
      exact .member
  · intro h
    cases h with
    | scalar v => exact .scalar v
    | scalars vs => exact .scalars vs
    | texts h => exact .texts h
    | message h => exact .message (Singular.get?_mapParts f g _ ▸ Protobuf.rel_map_left.mpr h)
    | messages h => exact .messages (List.forall₂_map_left_iff.mpr h)
    | map h => exact .map (Entry.rel_map_left.mpr h)
    | member => exact .member

theorem Choice.rel_map_left {g : L → M} {a : Choice L} {b : Choice N} :
    (a.mapParts f g).Rel R b ↔ a.Rel (fun x y => R (f x) y) b := by
  simp only [Choice.Rel, Choice.mapParts, Protobuf.rel_map_left, Member.rel_map_left]

theorem Body.rel_map_left {a : Body L} {b : Body N} : (a.map f).Rel R b ↔ a.Rel (fun x y => R (f x) y) b := by
  have hslots : ∀ index : Nat, Option.Rel (Slot.Rel R) (a.map f).slots[index]? b.slots[index]? ↔
      Option.Rel (Slot.Rel fun x y => R (f x) y) a.slots[index]? b.slots[index]? := by
    intro index
    simp only [Body.map, Body.mapParts, List.getElem?_map, Protobuf.rel_map_left, Slot.rel_map_left]
  have hchoices : ∀ slot : Nat, Option.Rel (Choice.Rel R) (a.map f).choices[slot]? b.choices[slot]? ↔
      Option.Rel (Choice.Rel fun x y => R (f x) y) a.choices[slot]? b.choices[slot]? := by
    intro slot
    simp only [Body.map, Body.mapParts, List.getElem?_map, Protobuf.rel_map_left, Choice.rel_map_left]
  constructor
  · rintro ⟨slots, choices, presence, unknown⟩
    exact ⟨fun i => (hslots i).mp (slots i), fun i => (hchoices i).mp (choices i), presence, unknown⟩
  · rintro ⟨slots, choices, presence, unknown⟩
    exact ⟨fun i => (hslots i).mpr (slots i), fun i => (hchoices i).mpr (choices i), presence, unknown⟩

theorem Slot.rel_tidy_left {a : Slot M} {b : Slot N} : a.tidy.Rel R b ↔ a.Rel R b := by
  cases a with
  | message value =>
    constructor
    · intro h
      cases h with
      | message h => exact .message (Singular.get?_ofOption value.get? ▸ h)
    · intro h
      cases h with
      | message h => exact .message ((Singular.get?_ofOption value.get?).symm ▸ h)
  | messages values =>
    constructor
    · intro h
      cases h with
      | messages h => exact .messages h
    · intro h
      cases h with
      | messages h => exact .messages h
  | _ => exact Iff.rfl

theorem Body.rel_tidy_left {a : Body M} {b : Body N} : a.tidy.Rel R b ↔ a.Rel R b := by
  have hslots : ∀ index : Nat, Option.Rel (Slot.Rel R) a.tidy.slots[index]? b.slots[index]? ↔
      Option.Rel (Slot.Rel R) a.slots[index]? b.slots[index]? := by
    intro index
    simp only [Body.tidy, List.getElem?_map, Protobuf.rel_map_left, Slot.rel_tidy_left]
  have hchoices : ∀ slot : Nat, Option.Rel (Choice.Rel R) a.tidy.choices[slot]? b.choices[slot]? ↔
      Option.Rel (Choice.Rel R) a.choices[slot]? b.choices[slot]? := by
    intro slot
    rw [Body.tidy, List.getElem?_map, Protobuf.rel_map_left]
    exact Iff.rfl
  constructor
  · rintro ⟨slots, choices, presence, unknown⟩
    exact ⟨fun i => (hslots i).mp (slots i), fun i => (hchoices i).mp (choices i), presence, unknown⟩
  · rintro ⟨slots, choices, presence, unknown⟩
    exact ⟨fun i => (hslots i).mpr (slots i), fun i => (hchoices i).mpr (choices i), presence, unknown⟩

/-! ### Reflexivity and transitivity -/

theorem Value.mem_inUse {entries : List (Entry M)} {key : Scalar} {m : M}
    (h : Entry.valueOf entries key = some (.message m)) : m ∈ (Slot.map entries).inUse :=
  List.mem_filterMap.mpr ⟨_, Entry.mem_of_valueOf h, rfl⟩

theorem Value.rel_refl {R : M → M → Prop} {value : Value M} (h : ∀ x, value = .message x → R x x) :
    value.Rel R value := by
  cases value with
  | scalar v => exact .scalar v
  | message m => exact .message (h m rfl)

theorem Slot.rel_refl {R : M → M → Prop} {slot : Slot M} (h : ∀ x ∈ slot.inUse, R x x) : slot.Rel R slot := by
  cases slot with
  | message value => exact .message (Protobuf.rel_refl fun x hx => h x (Option.mem_toList.mpr hx))
  | messages values => exact .messages (List.forall₂_same.mpr h)
  | map entries =>
    refine .map ⟨.refl _, fun key => Protobuf.rel_refl fun value hv => Value.rel_refl ?_⟩
    rintro x rfl
    exact h x (Value.mem_inUse hv)
  | scalar v => exact .scalar v
  | scalars vs => exact .scalars vs
  | texts vs => exact .texts rfl
  | member => exact .member

theorem Body.rel_refl {R : M → M → Prop} {body : Body M} (h : ∀ part ∈ body.inUse, R part.2 part.2) :
    body.Rel R body := by
  refine ⟨fun index => Protobuf.rel_refl fun slot hs => ?_, fun slot => Protobuf.rel_refl fun choice hc => ?_, rfl, rfl⟩
  · exact Slot.rel_refl fun x hx => h (index, x) (mem_parts_iff.mpr (.inl ⟨slot, hs, hx⟩))
  · refine Protobuf.rel_refl fun member hm => ⟨rfl, Value.rel_refl ?_⟩
    intro x hx
    obtain ⟨field, value⟩ := member
    subst hx
    exact h (field, x) (mem_parts_iff.mpr (.inr ⟨slot, choice, hc, hm⟩))

theorem Value.rel_trans {R : L → M → Prop} {S : M → N → Prop} {T : L → N → Prop} {a : Value L} {b : Value M}
    {c : Value N} (h : a.Rel R b) (h' : b.Rel S c)
    (ht : ∀ x, a = .message x → ∀ y z, R x y → S y z → T x z) : a.Rel T c := by
  cases h with
  | scalar v =>
    cases h'
    exact .scalar v
  | message h =>
    cases h' with
    | message h' => exact .message (ht _ rfl _ _ h h')

theorem Slot.rel_trans {R : L → M → Prop} {S : M → N → Prop} {T : L → N → Prop} {a : Slot L} {b : Slot M}
    {c : Slot N} (h : a.Rel R b) (h' : b.Rel S c) (ht : ∀ x ∈ a.inUse, ∀ y z, R x y → S y z → T x z) :
    a.Rel T c := by
  cases h with
  | scalar v =>
    cases h'
    exact .scalar v
  | scalars vs =>
    cases h'
    exact .scalars vs
  | texts h =>
    cases h' with
    | texts h' => exact .texts (h.trans h')
  | message h =>
    cases h' with
    | message h' => exact .message (Protobuf.rel_trans h h' fun x hx => ht x (Option.mem_toList.mpr hx))
  | messages h =>
    cases h' with
    | messages h' => exact .messages (forall₂_trans h h' ht)
  | map h =>
    cases h' with
    | map h' =>
      refine .map ⟨h.keys.trans h'.keys, fun key => Protobuf.rel_trans (h.values key) (h'.values key) ?_⟩
      intro value hv y z hy hz
      exact Value.rel_trans hy hz fun x hx => ht x (Value.mem_inUse (hx ▸ hv))
  | member =>
    cases h'
    exact .member

theorem Body.rel_trans {R : L → M → Prop} {S : M → N → Prop} {T : L → N → Prop} {a : Body L} {b : Body M}
    {c : Body N} (h : a.Rel R b) (h' : b.Rel S c)
    (ht : ∀ part ∈ a.inUse, ∀ y z, R part.2 y → S y z → T part.2 z) : a.Rel T c := by
  refine ⟨fun index => ?_, fun slot => ?_, h.presence.trans h'.presence, h.unknown.trans h'.unknown⟩
  · refine Protobuf.rel_trans (h.slots index) (h'.slots index) fun s hs y z hy hz => ?_
    exact Slot.rel_trans hy hz fun x hx => ht (index, x) (mem_parts_iff.mpr (.inl ⟨s, hs, hx⟩))
  · refine Protobuf.rel_trans (h.choices slot) (h'.choices slot) fun choice hc y z hy hz => ?_
    refine Protobuf.rel_trans hy hz fun member hm y z hy hz => ⟨hy.1.trans hz.1, ?_⟩
    refine Value.rel_trans hy.2 hz.2 fun x hx => ht (member.field, x) (mem_parts_iff.mpr (.inr ⟨slot, choice, hc, ?_⟩))
    rw [← hx]
    exact hm

/-! ### Symmetry -/

theorem rel_symm {r : α → β → Prop} {s : β → α → Prop} {a : Option α} {b : Option β} (h : Option.Rel r a b)
    (hs : ∀ x ∈ a, ∀ y, r x y → s y x) : Option.Rel s b a := by
  cases h with
  | none => exact .none
  | some h => exact .some (hs _ rfl _ h)

theorem forall₂_symm {r : α → β → Prop} {s : β → α → Prop} {as : List α} {bs : List β} (h : List.Forall₂ r as bs)
    (hs : ∀ x ∈ as, ∀ y, r x y → s y x) : List.Forall₂ s bs as := by
  induction h with
  | nil => exact .nil
  | cons h _ ih => exact .cons (hs _ (List.mem_cons_self ..) _ h) (ih fun x hx => hs x (List.mem_cons_of_mem _ hx))

theorem Value.rel_symm {S : N → M → Prop} {a : Value M} {b : Value N} (h : a.Rel R b)
    (hS : ∀ x, a = .message x → ∀ y, R x y → S y x) : b.Rel S a := by
  cases h with
  | scalar v => exact .scalar v
  | message h => exact .message (hS _ rfl _ h)

theorem Slot.rel_symm {S : N → M → Prop} {a : Slot M} {b : Slot N} (h : a.Rel R b)
    (hS : ∀ x ∈ a.inUse, ∀ y, R x y → S y x) : b.Rel S a := by
  cases h with
  | scalar v => exact .scalar v
  | scalars vs => exact .scalars vs
  | texts h => exact .texts h.symm
  | message h => exact .message (Protobuf.rel_symm h fun x hx => hS x (Option.mem_toList.mpr hx))
  | messages h => exact .messages (forall₂_symm h hS)
  | map h =>
    refine .map ⟨h.keys.symm, fun key => Protobuf.rel_symm (h.values key) fun value hv w hvw => ?_⟩
    exact Value.rel_symm hvw fun x hx => hS x (Value.mem_inUse (hx ▸ hv))
  | member => exact .member

theorem Body.rel_symm {S : N → M → Prop} {a : Body M} {b : Body N} (h : a.Rel R b)
    (hS : ∀ part ∈ a.inUse, ∀ y, R part.2 y → S y part.2) : b.Rel S a := by
  refine ⟨fun index => ?_, fun slot => ?_, h.presence.symm, h.unknown.symm⟩
  · refine Protobuf.rel_symm (h.slots index) fun s hs t hst => ?_
    exact Slot.rel_symm hst fun x hx => hS (index, x) (mem_parts_iff.mpr (.inl ⟨s, hs, hx⟩))
  · refine Protobuf.rel_symm (h.choices slot) fun choice hc other hco => ?_
    refine Protobuf.rel_symm hco fun member hm other hmo => ⟨hmo.1.symm, ?_⟩
    refine Value.rel_symm hmo.2 fun x hx => hS (member.field, x) (mem_parts_iff.mpr (.inr ⟨slot, choice, hc, ?_⟩))
    rw [← hx]
    exact hm

/-! ### Both sides through functions -/

theorem Value.Rel.map {M' N' : Type} {S : M' → N' → Prop} {f : M → M'} {g : N → N'} {a : Value M} {b : Value N}
    (h : a.Rel R b) (hS : ∀ x y, a = .message x → b = .message y → R x y → S (f x) (g y)) :
    (a.map f).Rel S (b.map g) := by
  cases h with
  | scalar v => exact .scalar v
  | message h => exact .message (hS _ _ rfl rfl h)

theorem forall₂_map {M' N' : Type} {S : M' → N' → Prop} {f : M → M'} {g : N → N'} {as : List M} {bs : List N}
    (h : List.Forall₂ R as bs) (hS : ∀ x ∈ as, ∀ y ∈ bs, R x y → S (f x) (g y)) :
    List.Forall₂ S (as.map f) (bs.map g) := by
  induction h with
  | nil => exact .nil
  | cons h _ ih =>
    refine .cons (hS _ (List.mem_cons_self ..) _ (List.mem_cons_self ..) h) (ih fun x hx y hy => ?_)
    exact hS x (List.mem_cons_of_mem _ hx) y (List.mem_cons_of_mem _ hy)

theorem Slot.Rel.mapParts {M' N' : Type} {S : M' → N' → Prop} {f i : M → M'} {g j : N → N'} {a : Slot M} {b : Slot N}
    (h : a.Rel R b) (hS : ∀ x ∈ a.inUse, ∀ y ∈ b.inUse, R x y → S (f x) (g y)) :
    (a.mapParts f i).Rel S (b.mapParts g j) := by
  cases h with
  | scalar v => exact .scalar v
  | scalars vs => exact .scalars vs
  | texts h => exact .texts h
  | @message a b h =>
    refine .message ?_
    rw [Singular.get?_mapParts, Singular.get?_mapParts]
    cases a with
    | absent kept =>
      cases b with
      | absent kept' => exact .none
      | present y => cases h
    | present x =>
      cases b with
      | absent kept' => cases h
      | present y =>
        cases h with
        | some h => exact .some (hS x (List.mem_singleton_self x) y (List.mem_singleton_self y) h)
  | messages h => exact .messages (forall₂_map h hS)
  | @map as bs h =>
    refine .map ⟨?_, fun key => ?_⟩
    · rw [List.map_map, List.map_map]
      exact h.keys
    · rw [Entry.valueOf_map, Entry.valueOf_map]
      have hv := h.values key
      cases ha : Entry.valueOf as key with
      | none =>
        rw [ha] at hv
        rw [(rel_none hv).mp rfl]
        exact .none
      | some v =>
        obtain ⟨w, hb, hrel⟩ := exists_of_rel hv ha
        rw [hb]
        refine .some (hrel.map fun x y hx hy => ?_)
        subst hx hy
        exact hS x (Value.mem_inUse ha) y (Value.mem_inUse hb)
  | member => exact .member

theorem Body.Rel.mapTyped {M' N' : Type} {S : M' → N' → Prop} {table : Schema.TypeTable}
    {f : Schema.MessageType → M → M'} {g : Schema.MessageType → N → N'} {a : Body M} {b : Body N} (h : a.Rel R b)
    (hS : ∀ index x y, (index, x) ∈ a.inUse → (index, y) ∈ b.inUse → R x y →
      S (f (table.childAt type index) x) (g (table.childAt type index) y)) :
    (a.mapTyped table type f).Rel S (b.mapTyped table type g) where
  slots := by
    intro index
    rw [slots_mapTyped, slots_mapTyped]
    have hs := h.slots index
    cases ha : a.slots[index]? with
    | none =>
      rw [ha] at hs
      rw [(rel_none hs).mp rfl]
      exact .none
    | some s =>
      obtain ⟨s', hb, hrel⟩ := exists_of_rel hs ha
      rw [hb]
      refine .some (hrel.mapParts fun x hx y hy => ?_)
      exact hS index x y (mem_parts_iff.mpr (.inl ⟨s, ha, hx⟩)) (mem_parts_iff.mpr (.inl ⟨s', hb, hy⟩))
  choices := by
    intro slot
    rw [Body.mapTyped, Body.mapTyped, List.getElem?_map, List.getElem?_map]
    have hc := h.choices slot
    cases ha : a.choices[slot]? with
    | none =>
      rw [ha] at hc
      rw [(rel_none hc).mp rfl]
      exact .none
    | some choice =>
      obtain ⟨choice', hb, hrel⟩ := exists_of_rel hc ha
      rw [hb]
      refine .some ?_
      show Option.Rel _ (choice.selected.map _) (choice'.selected.map _)
      cases hsel : choice.selected with
      | none =>
        have hnone := rel_none hrel
        rw [hnone.mp hsel]
        exact .none
      | some member =>
        obtain ⟨⟨field, value⟩, hsel', hfield, hval⟩ := exists_of_rel hrel hsel
        obtain ⟨field', value'⟩ := member
        cases hfield
        rw [hsel']
        refine .some ⟨rfl, hval.map fun x y hx hy => ?_⟩
        subst hx hy
        exact hS _ x y (mem_parts_iff.mpr (.inr ⟨slot, choice, ha, hsel⟩))
          (mem_parts_iff.mpr (.inr ⟨slot, choice', hb, hsel'⟩))
  presence := h.presence
  unknown := h.unknown

/-! ### What carries over -/

theorem length_eq_of_rel {r : α → β → Prop} {as : List α} {bs : List β}
    (h : ∀ i : Nat, Option.Rel r as[i]? bs[i]?) : as.length = bs.length := by
  have hle : ∀ n, as.length ≤ n ↔ bs.length ≤ n := by
    intro n
    rw [← List.getElem?_eq_none_iff, ← List.getElem?_eq_none_iff]
    exact rel_none (h n)
  exact Nat.le_antisymm ((hle _).mpr (Nat.le_refl _)) ((hle _).mp (Nat.le_refl _))

theorem exists_of_forall₂ {r : α → β → Prop} {as : List α} {bs : List β} (h : List.Forall₂ r as bs) {x : α}
    (hx : x ∈ as) : ∃ y ∈ bs, r x y := by
  induction h with
  | nil => cases hx
  | cons h _ ih =>
    rcases List.mem_cons.mp hx with rfl | hx
    · exact ⟨_, List.mem_cons_self .., h⟩
    · obtain ⟨y, hy, hr⟩ := ih hx
      exact ⟨y, List.mem_cons_of_mem _ hy, hr⟩

theorem Value.Rel.suits_eq {a : Value M} {b : Value N} (h : a.Rel R b) (type : Schema.ValueType) :
    a.suits type = b.suits type := by
  cases h <;> cases type <;> rfl

theorem Entry.Rel.exists_mem {as : List (Entry M)} {bs : List (Entry N)} (h : Entry.Rel R as bs)
    (hn : (bs.map Entry.key).Nodup) {a : Entry M} (ha : a ∈ as) : ∃ b ∈ bs, a.key = b.key ∧ a.value.Rel R b.value := by
  obtain ⟨cs, hperm, hcs⟩ := h.exists_perm hn
  obtain ⟨c, hc, hrel⟩ := exists_of_forall₂ hcs ha
  exact ⟨c, hperm.mem_iff.mp hc, hrel⟩

theorem Slot.Rel.form {a : Slot M} {b : Slot N} (h : a.Rel R b) (hb : Slot.Form strategy b) : Slot.Form strategy a := by
  cases h with
  | scalar v =>
    cases hb with
    | singular kind => exact .singular kind
  | scalars vs =>
    cases hb with
    | repeated kinds => exact .repeated kinds
    | packed kinds => exact .packed kinds
  | texts h =>
    cases hb with
    | texts kinds => exact .texts (h ▸ kinds)
  | message h =>
    cases hb
    exact .message
  | messages h =>
    cases hb
    exact .messages
  | map h =>
    cases hb with
    | map suit nodup =>
      refine .map (fun a ha => ?_) (h.keys.nodup_iff.mpr nodup)
      obtain ⟨b, hb, hkey, hval⟩ := h.exists_mem nodup ha
      rw [← suit b hb, Entry.suits, Entry.suits, hkey, hval.suits_eq]
  | member =>
    cases hb
    exact .member

/-- A sub-message in use has its counterpart. -/
theorem Slot.Rel.exists_inUse {a : Slot M} {b : Slot N} (h : a.Rel R b) (hb : Slot.Form strategy b) {x : M}
    (hx : x ∈ a.inUse) : ∃ y ∈ b.inUse, R x y := by
  cases h with
  | message h =>
    obtain ⟨y, hy, hr⟩ := exists_of_rel h (Option.mem_toList.mp hx)
    exact ⟨y, Option.mem_toList.mpr hy, hr⟩
  | messages h => exact exists_of_forall₂ h hx
  | map h =>
    cases hb with
    | map suit nodup =>
      obtain ⟨⟨key, value⟩, ha, hv⟩ := List.mem_filterMap.mp hx
      cases value with
      | scalar v => cases hv
      | message m =>
        cases hv
        obtain ⟨⟨key', value'⟩, hb, _, hval⟩ := h.exists_mem nodup ha
        cases hval with
        | message hr => exact ⟨_, List.mem_filterMap.mpr ⟨_, hb, rfl⟩, hr⟩
  | scalar v => cases hx
  | scalars vs => cases hx
  | texts h => cases hx
  | member => cases hx

theorem Body.Rel.exists_inUse {a : Body M} {b : Body N} (h : a.Rel R b) (hb : b.Shaped type) {index : Nat} {x : M}
    (hx : (index, x) ∈ a.inUse) : ∃ y, (index, y) ∈ b.inUse ∧ R x y := by
  rcases mem_parts_iff.mp hx with ⟨s, hs, hx⟩ | ⟨slot, choice, hc, hsel⟩
  · obtain ⟨s', hs', hrel⟩ := exists_of_rel (h.slots index) hs
    obtain ⟨field, hf, hform⟩ := hb.field_of_slot hs'
    obtain ⟨y, hy, hr⟩ := hrel.exists_inUse hform hx
    exact ⟨y, mem_parts_iff.mpr (.inl ⟨s', hs', hy⟩), hr⟩
  · obtain ⟨choice', hc', hrel⟩ := exists_of_rel (h.choices slot) hc
    obtain ⟨⟨field, value⟩, hsel', hfield, hval⟩ := exists_of_rel hrel hsel
    cases hfield
    cases hval with
    | message hr => exact ⟨_, mem_parts_iff.mpr (.inr ⟨slot, choice', hc', hsel'⟩), hr⟩

theorem Slot.Rel.mem_values {a : Slot M} {b : Slot N} (h : a.Rel R b) (hb : Slot.Form strategy b) {v : Scalar}
    (hv : v ∈ a.values) : v ∈ b.values := by
  cases h with
  | scalar v => exact hv
  | scalars vs => exact hv
  | @texts a b h =>
    show v ∈ b.active
    rw [← h]
    exact hv
  | map h =>
    cases hb with
    | map suit nodup =>
      obtain ⟨⟨key, value⟩, ha, hv⟩ := List.mem_flatMap.mp hv
      obtain ⟨⟨key', value'⟩, hb, hkey, hval⟩ := h.exists_mem nodup ha
      refine List.mem_flatMap.mpr ⟨_, hb, ?_⟩
      cases hkey
      cases hval with
      | scalar v => exact hv
      | message hr => exact hv
  | message h => cases hv
  | messages h => cases hv
  | member => cases hv

theorem Body.Rel.mem_values {a : Body M} {b : Body N} (h : a.Rel R b) (hb : b.Shaped type) {v : Scalar}
    (hv : v ∈ a.values) : v ∈ b.values := by
  rcases List.mem_append.mp hv with hv | hv
  · obtain ⟨slot, hs, hv⟩ := List.mem_flatMap.mp hv
    obtain ⟨index, hs⟩ := List.getElem?_of_mem hs
    obtain ⟨slot', hs', hrel⟩ := exists_of_rel (h.slots index) hs
    obtain ⟨field, hf, hform⟩ := hb.field_of_slot hs'
    exact List.mem_append_left _ (List.mem_flatMap.mpr ⟨slot', List.mem_of_getElem? hs', hrel.mem_values hform hv⟩)
  · obtain ⟨choice, hc, hv⟩ := List.mem_filterMap.mp hv
    obtain ⟨slot, hc⟩ := List.getElem?_of_mem hc
    obtain ⟨choice', hc', hrel⟩ := exists_of_rel (h.choices slot) hc
    obtain ⟨member, hm, hv⟩ := Option.bind_eq_some_iff.mp hv
    obtain ⟨member', hm', _, hval⟩ := exists_of_rel hrel hm
    refine List.mem_append_right _ (List.mem_filterMap.mpr ⟨choice', List.mem_of_getElem? hc', ?_⟩)
    rw [hm']
    show member'.value.scalar? = some v
    rw [← hv]
    generalize member.value = value at hval
    generalize member'.value = value' at hval
    cases hval <;> rfl

theorem Body.Rel.shaped {a : Body M} {b : Body N} (h : a.Rel R b) (hb : b.Shaped type) : a.Shaped type where
  length_slots := (length_eq_of_rel h.slots).trans hb.length_slots
  slots := by
    rintro ⟨field, slot⟩ hp
    obtain ⟨index, hi⟩ := List.getElem?_of_mem hp
    obtain ⟨hf, hs⟩ := List.getElem?_zip_eq_some.mp hi
    obtain ⟨slot', hs', hrel⟩ := exists_of_rel (h.slots index) hs
    exact Slot.suits_iff.mpr (hrel.form (hb.form hf hs'))
  length_choices := (length_eq_of_rel h.choices).trans hb.length_choices
  members := by
    rintro ⟨choice, slot⟩ hp member hm
    obtain ⟨choice', hc', hrel⟩ := exists_of_rel (h.choices slot) (List.mem_zipIdx_iff_getElem?.mp hp)
    obtain ⟨member', hm', hfield, hval⟩ := exists_of_rel hrel hm
    have := hb.member hc' hm'
    unfold Member.suits at this ⊢
    simp only [hfield, hval.suits_eq]
    exact this
  length_presence := by rw [h.presence, hb.length_presence]
  presence := by
    rw [h.presence]
    exact hb.presence
  unknown := by
    rw [h.unknown]
    exact hb.unknown

theorem Body.Shaped.mapTyped {body : Body M} (h : body.Shaped type) (table : Schema.TypeTable)
    (f : Schema.MessageType → M → N) : (body.mapTyped table type f).Shaped type := by
  have hself : body.Rel (fun _ _ => True) body := Body.rel_refl fun _ _ => trivial
  have hrel : (body.mapTyped table type f).Rel (fun _ _ => True) (body.mapTyped table type fun _ m => m) :=
    hself.mapTyped fun _ _ _ _ _ _ => trivial
  rw [Body.mapTyped_id] at hrel
  exact hrel.shaped h

end Laws

/-! ## Messages -/

/-- The same content. -/
def Message.Same (a b : Message) : Prop :=
  a.fold (fun (body : Body (Message → Prop)) other => body.Rel (fun same m => same m) other.body) b

namespace Message

theorem same_mk_iff {a b : Body Message} : (mk a).Same (mk b) ↔ a.Rel Same b := by
  rw [Same, fold_mk]
  exact Body.rel_map_left

theorem same_refl (m : Message) : m.Same m := by
  induction m using Message.induct with
  | step body ih => exact same_mk_iff.mpr (Body.rel_refl ih)

theorem Same.trans {a b c : Message} (h : a.Same b) (h' : b.Same c) : a.Same c := by
  induction a using Message.induct generalizing b c with
  | step a ih =>
    obtain ⟨b⟩ := b
    obtain ⟨c⟩ := c
    exact same_mk_iff.mpr (Body.rel_trans (same_mk_iff.mp h) (same_mk_iff.mp h') fun part hp y z hy hz =>
      ih part hp hy hz)

theorem Same.symm {a b : Message} (h : a.Same b) : b.Same a := by
  induction a using Message.induct generalizing b with
  | step a ih =>
    obtain ⟨b⟩ := b
    exact same_mk_iff.mpr (Body.rel_symm (same_mk_iff.mp h) fun part hp y hy => ih part hp hy)

variable {table : Schema.TypeTable} {type : Schema.MessageType} {a b : Message}

theorem Typed.shaped {body : Body Message} (h : Typed table type (mk body)) : body.Shaped type := by
  cases h with
  | mk level _ => exact level.1

/-- A property of all levels carries over to messages with the same content, if it does at each level. -/
theorem Throughout.of_same {P : Schema.MessageType → Body Message → Prop} (hP : Throughout table P type b)
    (ht : Typed table type b) (h : a.Same b)
    (level : ∀ {type : Schema.MessageType} {a b : Body Message},
      Typed table type (Message.mk b) → P type b → a.Rel Same b → P type a) :
    Throughout table P type a := by
  induction hP generalizing a with
  | mk hlevel _ ih =>
    obtain ⟨a⟩ := a
    have hrel := same_mk_iff.mp h
    refine .mk (level ht hlevel hrel) ?_
    rintro ⟨index, x⟩ hx
    obtain ⟨y, hy, hr⟩ := hrel.exists_inUse ht.shaped hx
    cases ht with
    | mk _ parts => exact ih (index, y) hy (parts _ hy) hr

theorem Same.typed (h : a.Same b) (ht : Typed table type b) : Typed table type a :=
  Throughout.of_same ht ht h fun ht hlevel hrel =>
    ⟨hrel.shaped ht.shaped, fun v hv => hlevel.2 v (hrel.mem_values ht.shaped hv)⟩

end Message

end Protobuf
