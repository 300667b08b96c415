/-
  Protobuf.Proofs.Overlay — one message laid over another.

  `Message.overlay` is what merging is meant to do, said field by field: a value that was written
  replaces the old one, a sub-message is laid over the old one or over a new message, lists are
  appended, a map takes the new value of a key, and a oneof keeps its member unless another was written.

  The map operations of merging, one `Entry.insert` after the other, do what the overlay of two maps
  says (`Entry.rel_overlay`), and selecting a member starts from what the overlay lays it over
  (`Choice.select_cases`).
-/

import Protobuf.Proofs.Reuse

namespace Protobuf

open Schema

/-! ## Definition -/

/-- Entries laid over others: the old value of a key stays only if there is no new one. -/
def Entry.overlay {M : Type} (new old : List (Entry M)) : List (Entry M) :=
  old.filter (fun entry => !(new.map Entry.key).contains entry.key) ++ new

/-- A field laid over the old one; a sub-message is given by what it makes of the message below it. -/
def Slot.overlay (fresh : Message) (written : Scalar → Bool) : Slot (Message → Message) → Slot Message → Slot Message
  | .scalar new, .scalar old => .scalar (if written new then new else old)
  | .scalars new, .scalars old => .scalars (old ++ new)
  | .texts new, .texts old => .texts (.ofList (old.active ++ new.active))
  | .message new, .message old =>
    match new.get? with
    | some lay => .message (.present (lay (old.get?.getD fresh)))
    | none => .message old
  | .messages new, .messages old => .messages (.ofList (old.active ++ new.active.map fun lay => lay fresh))
  | .map new, .map old => .map (Entry.overlay (new.map (Entry.map fun lay => lay fresh)) old)
  | _, old => old

/-- The message of a member, if that is the selected one. -/
def Choice.current {M : Type} (index : Nat) (choice : Choice M) : Option M :=
  match choice.selected with
  | some ⟨field, .message m⟩ => if field = index then some m else none
  | _ => none

def Choice.overlay (fresh : Nat → Message) (new : Choice (Message → Message)) (old : Choice Message) : Choice Message :=
  match new.selected with
  | some ⟨index, .scalar value⟩ => ⟨some ⟨index, .scalar value⟩, none⟩
  | some ⟨index, .message lay⟩ => ⟨some ⟨index, .message (lay ((old.current index).getD (fresh index)))⟩, none⟩
  | none => old

def Body.overlay (table : TypeTable) (type : MessageType) (new : Body (Message → Message)) (old : Body Message) :
    Body Message where
  slots := (type.fields.zip (new.slots.zip old.slots)).mapIdx fun index (field, newSlot, oldSlot) =>
    newSlot.overlay (.new (table.childAt type index)) (field.isWritten new.presence) oldSlot
  choices := List.zipWith (Choice.overlay fun index => .new (table.childAt type index)) new.choices old.choices
  presence := .union old.presence new.presence
  unknown := old.unknown ++ new.unknown

/-- A message laid over an old one. -/
def Message.overlay (table : TypeTable) (type : MessageType) (new : Message) : Message → Message :=
  new.foldTyped table type fun type body old => mk (body.overlay table type old.body)

theorem Message.overlay_mk (table : TypeTable) (type : MessageType) (new old : Body Message) :
    (mk new).overlay table type (mk old) = mk ((new.mapTyped table type (overlay table)).overlay table type old) := by
  rw [overlay, foldTyped_mk]
  rfl

/-! ## Maps -/

namespace Entry

variable {M N : Type}

theorem valueOf_cons (entry : Entry M) (entries : List (Entry M)) (key : Scalar) :
    valueOf (entry :: entries) key = if entry.key = key then some entry.value else valueOf entries key := by
  rw [valueOf, List.find?_cons]
  by_cases h : entry.key = key
  · rw [if_pos h, beq_iff_eq.mpr h]
    rfl
  · rw [if_neg h, beq_false_of_ne h]
    rfl

theorem valueOf_append (front back : List (Entry M)) (key : Scalar) :
    valueOf (front ++ back) key = (valueOf front key).or (valueOf back key) := by
  rw [valueOf, List.find?_append, Option.map_or]
  rfl

theorem valueOf_filter (p : Scalar → Bool) (entries : List (Entry M)) (key : Scalar) :
    valueOf (entries.filter fun entry => p entry.key) key = if p key then valueOf entries key else none := by
  induction entries with
  | nil =>
    rw [List.filter_nil]
    exact (ite_self _).symm
  | cons entry entries ih =>
    rw [List.filter_cons, valueOf_cons]
    split
    · rename_i hp
      rw [valueOf_cons, ih]
      by_cases hk : entry.key = key
      · rw [if_pos hk, if_pos hk, if_pos (hk ▸ hp)]
      · rw [if_neg hk, if_neg hk]
    · rename_i hp
      rw [ih]
      by_cases hk : entry.key = key
      · rw [if_neg (hk ▸ hp), if_neg (hk ▸ hp)]
      · rw [if_neg hk]

theorem keys_insert (entries : List (Entry M)) (entry : Entry M) :
    (insert entries entry).map Entry.key =
      if entry.key ∈ entries.map Entry.key then entries.map Entry.key else entries.map Entry.key ++ [entry.key] := by
  have hany : (entries.any fun other => other.key == entry.key) = true ↔ entry.key ∈ entries.map Entry.key := by
    simp [List.any_eq_true]
  rw [insert]
  by_cases h : entry.key ∈ entries.map Entry.key
  · rw [if_pos (hany.mpr h), if_pos h, List.map_map]
    refine List.map_congr_left fun other _ => ?_
    show (if other.key == entry.key then entry else other).key = other.key
    split
    · rename_i he
      exact (eq_of_beq he).symm
    · rfl
  · rw [if_neg (fun he => h (hany.mp he)), if_neg h, List.map_append]
    rfl

theorem nodup_insert {entries : List (Entry M)} (h : (entries.map Entry.key).Nodup) (entry : Entry M) :
    ((insert entries entry).map Entry.key).Nodup := by
  rw [keys_insert]
  split
  · exact h
  · rename_i hn
    exact List.nodup_append.mpr ⟨h, List.nodup_singleton _, by
      intro a ha b hb he
      cases List.mem_singleton.mp hb
      exact hn (he ▸ ha)⟩

theorem mem_keys_insert (entries : List (Entry M)) (entry : Entry M) (key : Scalar) :
    key ∈ (insert entries entry).map Entry.key ↔ key ∈ entries.map Entry.key ∨ key = entry.key := by
  rw [keys_insert]
  split
  · rename_i h
    exact ⟨.inl, fun hk => hk.elim id fun he => he ▸ h⟩
  · rw [List.mem_append, List.mem_singleton]

theorem valueOf_replace (entries : List (Entry M)) (entry : Entry M) (key : Scalar) :
    valueOf (entries.map fun other => if other.key == entry.key then entry else other) key =
      if key = entry.key then (valueOf entries key).map fun _ => entry.value else valueOf entries key := by
  induction entries with
  | nil => exact (ite_self _).symm
  | cons other entries ih =>
    rw [List.map_cons, valueOf_cons, valueOf_cons, ih]
    by_cases ho : other.key = entry.key
    · rw [if_pos (beq_iff_eq.mpr ho)]
      by_cases hk : key = entry.key
      · rw [if_pos hk.symm, if_pos hk, if_pos (ho.trans hk.symm)]
        rfl
      · rw [if_neg (Ne.symm hk), if_neg hk, if_neg hk, if_neg fun he => hk (he.symm.trans ho)]
    · rw [if_neg fun he => ho (eq_of_beq he)]
      by_cases hk : key = entry.key
      · rw [if_neg fun he => ho (he.trans hk), if_pos hk, if_pos hk, if_neg fun he => ho (he.trans hk)]
      · rw [if_neg hk, if_neg hk]

theorem valueOf_insert (entries : List (Entry M)) (entry : Entry M) (key : Scalar) :
    valueOf (insert entries entry) key = if key = entry.key then some entry.value else valueOf entries key := by
  have hany : (entries.any fun other => other.key == entry.key) = true ↔ entry.key ∈ entries.map Entry.key := by
    simp [List.any_eq_true]
  rw [insert]
  split
  · rename_i h
    rw [valueOf_replace]
    by_cases hk : key = entry.key
    · rw [if_pos hk, if_pos hk, hk]
      cases hv : valueOf entries entry.key with
      | none => exact absurd (hany.mp h) (valueOf_eq_none_iff.mp hv)
      | some value => rfl
    · rw [if_neg hk, if_neg hk]
  · rename_i h
    rw [valueOf_append, valueOf_cons]
    by_cases hk : key = entry.key
    · rw [if_pos hk, if_pos hk.symm, hk, valueOf_eq_none_iff.mpr fun he => h (hany.mpr he)]
      rfl
    · rw [if_neg hk, if_neg (Ne.symm hk)]
      exact Option.or_none

theorem nodup_foldl_insert {entries : List (Entry M)} (h : (entries.map Entry.key).Nodup) (new : List (Entry M)) :
    ((new.foldl insert entries).map Entry.key).Nodup := by
  induction new generalizing entries with
  | nil => exact h
  | cons entry new ih => exact ih (nodup_insert h entry)

theorem mem_keys_foldl_insert (entries new : List (Entry M)) (key : Scalar) :
    key ∈ (new.foldl insert entries).map Entry.key ↔ key ∈ entries.map Entry.key ∨ key ∈ new.map Entry.key := by
  induction new generalizing entries with
  | nil => exact ⟨.inl, fun h => h.elim id nofun⟩
  | cons entry new ih => rw [List.foldl_cons, ih, mem_keys_insert, List.map_cons, List.mem_cons, or_assoc]

theorem valueOf_foldl_insert (entries : List (Entry M)) {new : List (Entry M)} (h : (new.map Entry.key).Nodup)
    (key : Scalar) :
    valueOf (new.foldl insert entries) key = (valueOf new key).or (valueOf entries key) := by
  induction new generalizing entries with
  | nil => rfl
  | cons entry new ih =>
    obtain ⟨hfirst, hrest⟩ := List.nodup_cons.mp h
    rw [List.foldl_cons, ih _ hrest, valueOf_insert, valueOf_cons]
    by_cases hk : key = entry.key
    · rw [if_pos hk, if_pos hk.symm, hk, valueOf_eq_none_iff.mpr hfirst]
      rfl
    · rw [if_neg hk, if_neg (Ne.symm hk)]

theorem mem_keys_overlay (old new : List (Entry M)) (key : Scalar) :
    key ∈ (overlay new old).map Entry.key ↔ key ∈ old.map Entry.key ∨ key ∈ new.map Entry.key := by
  have hfilter : key ∈ (old.filter fun entry => !(new.map Entry.key).contains entry.key).map Entry.key ↔
      key ∈ old.map Entry.key ∧ key ∉ new.map Entry.key := by
    simp only [List.mem_map, List.mem_filter, Bool.not_eq_true', List.contains_eq_mem, decide_eq_false_iff_not]
    constructor
    · rintro ⟨entry, ⟨he, hn⟩, rfl⟩
      exact ⟨⟨entry, he, rfl⟩, hn⟩
    · rintro ⟨⟨entry, he, rfl⟩, hn⟩
      exact ⟨entry, ⟨he, hn⟩, rfl⟩
  rw [overlay, List.map_append, List.mem_append, hfilter]
  constructor
  · rintro (⟨h, _⟩ | h)
    · exact .inl h
    · exact .inr h
  · intro h
    by_cases hn : key ∈ new.map Entry.key
    · exact .inr hn
    · exact .inl ⟨h.resolve_right hn, hn⟩

theorem nodup_overlay {old new : List (Entry M)} (hold : (old.map Entry.key).Nodup) (hnew : (new.map Entry.key).Nodup) :
    ((overlay new old).map Entry.key).Nodup := by
  rw [overlay, List.map_append]
  refine List.nodup_append.mpr ⟨hold.sublist (List.filter_sublist.map _), hnew, ?_⟩
  intro a ha b hb he
  obtain ⟨entry, hentry, rfl⟩ := List.mem_map.mp ha
  have hn := (List.mem_filter.mp hentry).2
  rw [he] at hn
  simp [List.contains_eq_mem, hb] at hn

theorem valueOf_overlay (old new : List (Entry M)) (key : Scalar) :
    valueOf (overlay new old) key = (valueOf new key).or (valueOf old key) := by
  rw [overlay, valueOf_append, valueOf_filter fun key => !(new.map Entry.key).contains key]
  by_cases hk : key ∈ new.map Entry.key
  · rw [if_neg (by simp [hk])]
    cases hv : valueOf new key with
    | none => exact absurd hk (valueOf_eq_none_iff.mp hv)
    | some value => rfl
  · rw [if_pos (by simp [hk]), valueOf_eq_none_iff.mpr hk]
    exact Option.or_none

theorem keys_of_forall₂ {R : Value M → Value N → Prop} {as : List (Entry M)} {bs : List (Entry N)}
    (h : List.Forall₂ (fun a b => a.key = b.key ∧ R a.value b.value) as bs) : as.map Entry.key = bs.map Entry.key := by
  induction h with
  | nil => rfl
  | cons h _ ih => rw [List.map_cons, List.map_cons, h.1, ih]

theorem valueOf_of_forall₂ {R : Value M → Value N → Prop} {as : List (Entry M)} {bs : List (Entry N)}
    (h : List.Forall₂ (fun a b => a.key = b.key ∧ R a.value b.value) as bs) (key : Scalar) :
    Option.Rel R (valueOf as key) (valueOf bs key) := by
  induction h with
  | nil => exact .none
  | cons h _ ih =>
    rw [valueOf_cons, valueOf_cons, h.1]
    split
    · exact .some h.2
    · exact ih

/-- Inserting one entry after the other lays them over those that were there. -/
theorem rel_overlay {R : M → N → Prop} {entries added : List (Entry M)} {old new : List (Entry N)}
    (hentries : (entries.map Entry.key).Nodup) (hnew : (new.map Entry.key).Nodup) (hold : Rel R entries old)
    (hadded : List.Forall₂ (fun a b => a.key = b.key ∧ a.value.Rel R b.value) added new) :
    Rel R (added.foldl insert entries) (overlay new old) := by
  have hkeys := keys_of_forall₂ hadded
  have holdKeys : (old.map Entry.key).Nodup := hold.keys.nodup_iff.mp hentries
  refine ⟨?_, fun key => ?_⟩
  · refine (List.perm_ext_iff_of_nodup (nodup_foldl_insert hentries added) (nodup_overlay holdKeys hnew)).mpr fun key => ?_
    rw [mem_keys_foldl_insert, mem_keys_overlay, hkeys, hold.keys.mem_iff]
  · rw [valueOf_foldl_insert entries (hkeys ▸ hnew), valueOf_overlay]
    have hvalue := valueOf_of_forall₂ hadded key
    cases ha : valueOf added key with
    | none =>
      rw [ha] at hvalue
      rw [(rel_none hvalue).mp rfl]
      exact hold.values key
    | some value =>
      obtain ⟨value', hb, hrel⟩ := exists_of_rel hvalue ha
      rw [hb]
      exact .some hrel

end Entry

/-! ## Choices -/

namespace Choice

variable {M N : Type}

theorem current_eq_some_iff {choice : Choice M} {index : Nat} {m : M} :
    choice.current index = some m ↔ choice.selected = some ⟨index, .message m⟩ := by
  unfold current
  split
  · rename_i field m' hselected
    rw [hselected]
    by_cases hf : field = index
    · subst hf
      rw [if_pos rfl]
      simp
    · rw [if_neg hf]
      simp [hf]
  · rename_i hne
    constructor
    · nofun
    · intro h
      exact absurd h (hne _ _)

theorem Rel.current {R : M → N → Prop} {a : Choice M} {b : Choice N} (h : a.Rel R b) (index : Nat) :
    Option.Rel R (a.current index) (b.current index) := by
  cases ha : a.current index with
  | some x =>
    obtain ⟨⟨field, value⟩, hb, hfield, hvalue⟩ := exists_of_rel h (current_eq_some_iff.mp ha)
    cases hfield
    cases hvalue with
    | message hr =>
      rw [current_eq_some_iff.mpr hb]
      exact .some hr
  | none =>
    cases hb : b.current index with
    | none => exact .none
    | some y =>
      have hsel := current_eq_some_iff.mp hb
      cases hasel : a.selected with
      | none =>
        rw [(rel_none h).mp hasel] at hsel
        cases hsel
      | some member =>
        obtain ⟨⟨field, value⟩, hb', hfield, hvalue⟩ := exists_of_rel h hasel
        rw [hb'] at hsel
        cases hsel
        obtain ⟨field', value'⟩ := member
        cases hfield
        cases hvalue with
        | message hr =>
          rw [current_eq_some_iff.mpr hasel] at ha
          cases ha

/-- Selecting a message member starts from the one that is selected, else from a spare one, reset, or a
    fresh one. -/
theorem select_cases (reset : Message → Message) (fresh : Message) (index : Nat) (choice : Choice Message) :
    choice.current index = some (choice.select reset fresh index).1 ∨
      choice.current index = none ∧ ((choice.select reset fresh index).1 = fresh ∨
        ∃ m, choice.spare = some ⟨index, .message m⟩ ∧ (choice.select reset fresh index).1 = reset m) := by
  obtain ⟨selected, spare⟩ := choice
  -- with no message selected, the spare one counts
  have hspare : ∀ selected, stash ⟨selected, spare⟩ = (⟨none, spare⟩ : Choice Message) →
      (∀ field m, selected ≠ some ⟨field, .message m⟩) →
      (select reset fresh index ⟨selected, spare⟩).1 = fresh ∨
        ∃ m, spare = some ⟨index, .message m⟩ ∧ (select reset fresh index ⟨selected, spare⟩).1 = reset m := by
    intro selected hstash hne
    unfold select
    simp only [hstash]
    split
    · exact absurd rfl (hne _ _)
    · split
      · rename_i heq
        subst heq
        exact .inr ⟨_, rfl, rfl⟩
      · exact .inl rfl
    · exact .inl rfl
  rcases selected with _ | ⟨field, value | m⟩
  · exact .inr ⟨rfl, hspare none rfl nofun⟩
  · exact .inr ⟨rfl, hspare _ rfl nofun⟩
  · by_cases hf : field = index
    · subst hf
      left
      simp only [current, select, if_true]
    · right
      -- the selected message is put aside in the spare one's place, and is another member's
      simp only [current, select, stash, if_neg hf, true_and, true_or]

end Choice

end Protobuf
