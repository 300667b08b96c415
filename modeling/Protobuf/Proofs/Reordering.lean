/-
  Protobuf.Proofs.Reordering — fields of different regions commute.

  Two neighbouring fields that belong to different regions can change places: neither reads what the other
  writes (`Runs.swap`). So a field can be brought in front of all fields of other regions (`Runs.front`), and
  any order that keeps the order inside each region merges to the same message (`mergeBytes_reordered`).
-/

import Protobuf.Proofs.Regions

namespace Protobuf

open Schema

namespace Message

variable {table : TypeTable} {type : MessageType} {room : Nat} {tag : Tag} {head payload : Bytes} {m m' n out : Message}

/-! ## One field -/

/-- A reader in front of a field's payload. -/
theorem exists_behind (room : Nat) (head payload : Bytes) :
    ∃ r : Reader, r.Valid ∧ Reader.Behind head r ∧ r.window = payload ++ [] ∧ r.room = room := by
  obtain ⟨hv, hw⟩ := Reader.valid_ofBytesWithin (head ++ payload) room
  obtain ⟨hv', hw'⟩ := (Reader.past_pastTag _ head.length).valid hv hw
  exact ⟨_, hv', Reader.behind_pastTag hv hw, by rw [hw', List.append_nil], rfl⟩

theorem Reads.keeps (h : Reads table type room tag head payload m m') :
    Agree (fun cell => ¬ (type.region tag).Covers type cell) m' m := by
  obtain ⟨r, hv, hb, hw, hroom⟩ := exists_behind room head payload
  obtain ⟨s, hs, _⟩ := h r [] hv hb hw (Nat.le_of_eq hroom.symm)
  have hkeeps := readOne_keeps table type m tag r
  rwa [hs] at hkeeps

/-- A field is read the same into every message that agrees on its region. -/
theorem Reads.frame (h : Reads table type room tag head payload m m') (hmn : Agree ((type.region tag).Covers type) m n) :
    ∃ n', Reads table type room tag head payload n n' ∧ Agree ((type.region tag).Covers type) m' n' := by
  have hread : ∀ r rest, r.Valid → Reader.Behind head r → r.window = payload ++ rest → room ≤ r.room →
      ∃ s x, n.readOne table type tag r = ⟨x, s, none⟩ ∧ Reader.Past r payload.length r.depth s ∧
        Agree ((type.region tag).Covers type) m' x ∧ Agree (fun cell => ¬ (type.region tag).Covers type cell) x n := by
    intro r rest hv hb hw hroom
    obtain ⟨s, hs, hp⟩ := h r rest hv hb hw hroom
    obtain ⟨hagree, hreader, herror⟩ := readOne_agree table tag r (fun _ => id) hmn
    have hkeeps := readOne_keeps table type n tag r
    rw [hs] at hagree hreader herror
    generalize n.readOne table type tag r = outcome at *
    obtain ⟨x, s', error⟩ := outcome
    cases hreader
    cases herror
    exact ⟨s, x, rfl, hp, hagree, hkeeps⟩
  obtain ⟨r₀, hv₀, hb₀, hw₀, hroom₀⟩ := exists_behind room head payload
  obtain ⟨_, n', _, _, hin, hoff⟩ := hread r₀ [] hv₀ hb₀ hw₀ (Nat.le_of_eq hroom₀.symm)
  refine ⟨n', fun r rest hv hb hw hroom => ?_, hin⟩
  obtain ⟨s, x, hone, hp, hin', hoff'⟩ := hread r rest hv hb hw hroom
  -- inside the region both are as in `m'`, outside as in `n`
  have hsame : x = n' := by
    have hagree : Agree (fun _ => True) x n' := by
      have hcells := (hoff'.trans hoff.symm)
      refine { hcells with cells := fun cell _ => ?_ }
      by_cases hc : (type.region tag).Covers type cell
      · exact ((hin'.symm.trans hin).cells cell hc)
      · exact hcells.cells cell hc
    exact hagree.eq fun _ => trivial
  exact ⟨s, hsame ▸ hone, hp⟩

/-! ## Neighbouring fields -/

/-- Neighbouring fields of different regions can change places. -/
theorem Reads.swap (hw : type.WellFormed) {tag' : Tag} {head' payload' : Bytes} {m₁ m₂ : Message}
    (hne : type.region tag ≠ type.region tag') (h : Reads table type room tag head payload m m₁)
    (h' : Reads table type room tag' head' payload' m₁ m₂) :
    ∃ n₁, Reads table type room tag' head' payload' m n₁ ∧ Reads table type room tag head payload n₁ m₂ := by
  have hfirst : ∀ cell, (type.region tag).Covers type cell → ¬ (type.region tag').Covers type cell :=
    fun cell hc => Region.disjoint hw hne hc
  have hsecond : ∀ cell, (type.region tag').Covers type cell → ¬ (type.region tag).Covers type cell :=
    fun cell hc => Region.disjoint hw hne.symm hc
  have hkeeps := h.keeps
  have hkeeps' := h'.keeps
  obtain ⟨n₁, hn₁, hin'⟩ := h'.frame (hkeeps.mono hsecond)
  have hoff' := hn₁.keeps
  obtain ⟨n₂, hn₂, hin⟩ := h.frame (hoff'.symm.mono hfirst)
  have hoff := hn₂.keeps
  have hsame : n₂ = m₂ := by
    have hagree : Agree (fun _ => True) n₂ m₂ := by
      refine ⟨fun cell _ => ?_, ?_, ?_, ?_, ?_⟩
      · by_cases hc : (type.region tag).Covers type cell
        · exact (hin.symm.cells cell hc).trans (hkeeps'.symm.cells cell (hfirst cell hc))
        · by_cases hc' : (type.region tag').Covers type cell
          · exact (hoff.cells cell hc).trans (hin'.symm.cells cell hc')
          · exact (hoff.cells cell hc).trans ((hoff'.cells cell hc').trans
              ((hkeeps.symm.cells cell hc).trans (hkeeps'.symm.cells cell hc')))
      · exact hin.length_slots.symm.trans hkeeps'.length_slots.symm
      · exact hin.length_choices.symm.trans hkeeps'.length_choices.symm
      · exact hin.length_presence.symm.trans hkeeps'.length_presence.symm
      · exact hin.cachedSize.symm.trans hkeeps'.cachedSize.symm
    exact hagree.eq fun _ => trivial
  exact ⟨n₁, hn₁, hsame ▸ hn₂⟩

variable {fields others : List (Tag × Bytes)} {f : Tag × Bytes}

theorem Runs.swap (hw : type.WellFormed) {g : Tag × Bytes} (hne : type.region f.1 ≠ type.region g.1)
    (h : Runs table type room m (f :: g :: fields) out) : Runs table type room m (g :: f :: fields) out := by
  cases h with
  | cons spells tail reads rest =>
    cases rest with
    | cons spells' tail' reads' rest =>
      obtain ⟨n₁, hfirst, hsecond⟩ := reads.swap hw hne reads'
      exact .cons spells' tail' hfirst (.cons spells tail hsecond rest)

/-- A field can be brought in front of fields of other regions. -/
theorem Runs.front (hw : type.WellFormed) {before after : List (Tag × Bytes)}
    (hne : ∀ g ∈ before, type.region g.1 ≠ type.region f.1) (h : Runs table type room m (before ++ f :: after) out) :
    Runs table type room m (f :: (before ++ after)) out := by
  induction before generalizing m with
  | nil => exact h
  | cons g before ih =>
    have hrest := fun x hx => hne x (List.mem_cons_of_mem g hx)
    refine Runs.swap hw (hne g (List.mem_cons_self ..)) ?_
    cases h with
    | cons spells tail reads rest => exact .cons spells tail reads (ih hrest rest)

/-! ## Any order -/

/-- The same fields in an order that differs only between regions. -/
structure Reordered (type : MessageType) (fields others : List (Tag × Bytes)) : Prop where
  perm : others.Perm fields
  order : ∀ region, (others.filter fun f => type.region f.1 = region) = fields.filter fun f => type.region f.1 = region

/-- The regions of the fields are enough to look at. -/
theorem reordered_of_fields (hperm : others.Perm fields)
    (h : ∀ g ∈ fields, (others.filter fun f => type.region f.1 = type.region g.1) =
      fields.filter fun f => type.region f.1 = type.region g.1) : Reordered type fields others := by
  refine ⟨hperm, fun region => ?_⟩
  by_cases hex : ∃ g ∈ fields, type.region g.1 = region
  · obtain ⟨g, hg, rfl⟩ := hex
    exact h g hg
  · have hnone : ∀ list : List (Tag × Bytes), (∀ f ∈ list, f ∈ fields) →
        (list.filter fun f => type.region f.1 = region) = [] := by
      intro list hlist
      refine List.filter_eq_nil_iff.mpr fun f hf => ?_
      intro hregion
      exact hex ⟨f, hlist f hf, of_decide_eq_true hregion⟩
    rw [hnone others fun f hf => hperm.mem_iff.mp hf, hnone fields fun _ => id]

/-- The first field of a region is the first one of it in the other order too. -/
theorem Reordered.split (h : Reordered type fields (f :: others)) :
    ∃ before after, fields = before ++ f :: after ∧ (∀ g ∈ before, type.region g.1 ≠ type.region f.1) ∧
      Reordered type (before ++ after) others := by
  have horder := h.order (type.region f.1)
  rw [List.filter_cons, if_pos (decide_eq_true rfl)] at horder
  obtain ⟨before, after, rfl, hbefore, _, _⟩ := List.filter_eq_cons_iff.mp horder.symm
  have hne : ∀ g ∈ before, type.region g.1 ≠ type.region f.1 := fun g hg he => hbefore g hg (decide_eq_true he)
  refine ⟨before, after, rfl, hne, (h.perm.trans List.perm_middle).cons_inv, fun region => ?_⟩
  have hregion := h.order region
  rw [List.filter_append, List.filter_cons, List.filter_cons] at hregion
  rw [List.filter_append]
  by_cases hr : type.region f.1 = region
  · subst hr
    have hnil : (before.filter fun g => type.region g.1 = type.region f.1) = [] :=
      List.filter_eq_nil_iff.mpr fun g hg he => hne g hg (of_decide_eq_true he)
    rw [hnil] at hregion ⊢
    simpa using hregion
  · simpa [hr] using hregion

theorem Runs.reordered (hw : type.WellFormed) (ho : Reordered type fields others)
    (h : Runs table type room m fields out) : Runs table type room m others out := by
  induction others generalizing fields m with
  | nil =>
    obtain rfl := ho.perm.nil_eq.symm
    exact h
  | cons f others ih =>
    obtain ⟨before, after, rfl, hne, hrest⟩ := ho.split
    cases h.front hw hne with
    | cons spells tail reads rest => exact .cons spells tail reads (ih hrest rest)

/-- Bytes that merge are complete fields in just one way, and these can be merged in every order that keeps
    the order of fields with the same number, of members of the same oneof and of unknown fields. -/
theorem mergeBytes_reordered (table : TypeTable) (type : MessageType) (m out : Message) (bytes : Bytes)
    (hg : table.Generated) (htype : type ∈ table.messages) (hm : Held table type m)
    (h : mergeBytes table type m bytes = (out, none)) :
    ∃ fields, Complete 100 fields ∧ bytesOf fields = bytes ∧
      (∀ depth others, Complete depth others → bytesOf others = bytes → others = fields) ∧
      ∀ others, Reordered type fields others → mergeBytes table type m (bytesOf others) = (out, none) := by
  have hw := hg.wellFormed htype
  obtain ⟨fields, rfl, hruns⟩ := runs_of_mergeWithin hg hw hm h
  refine ⟨fields, hruns.complete, rfl, fun depth others hc he => complete_unique hc hruns.complete he, ?_⟩
  intro others ho
  exact (hruns.reordered hw ho).mergeWithin_eq

set_option maxRecDepth 100000 in
/-- Members of one oneof, values of one repeated field by themselves and in a run, unknown fields among which a
    known number has another wire type, a map entry, and fields that occur once. -/
theorem mergeBytes_reordered_shape :
    let table := Sample.Shapes.table
    let shape := table.message "demo.shapes.Shape"
    let corner : Tag × Bytes := (Tag.make 11 .lengthDelimited, [0x5a] ++ ([2] ++ [8, 1]))
    let caption : Tag × Bytes := (Tag.make 12 .lengthDelimited, [0x62] ++ ([1] ++ [0x42]))
    let weight : Tag × Bytes := (Tag.make 5 .varint, [0x28] ++ [3])
    let weights : Tag × Bytes := (Tag.make 5 .lengthDelimited, [0x2a] ++ ([2] ++ [1, 2]))
    let revision : Tag × Bytes := (Tag.make 14 .varint, [0x70] ++ [5])
    let anchor : Tag × Bytes := (Tag.make 9 .lengthDelimited, [0x4a] ++ ([2] ++ [8, 3]))
    let unknown : Tag × Bytes := (Tag.make 99 .varint, [0x98, 0x06] ++ [0x87, 0x00])
    let misread : Tag × Bytes := (Tag.make 1 .varint, [0x08] ++ [1])
    ∃ out,
      mergeBytes table shape (new shape)
        (bytesOf [corner, weight, unknown, revision, caption, misread, weights, anchor]) = (out, none) ∧
      mergeBytes table shape (new shape)
        (bytesOf [unknown, weight, anchor, misread, weights, corner, revision, caption]) = (out, none) := by
  intro table shape corner caption weight weights revision anchor unknown misread
  have hg : table.Generated := generated_tableOf _ _
  obtain ⟨hnamed, hok, hperm, horder⟩ :
      (table.messages.any fun type => type.fullName == "demo.shapes.Shape") = true ∧
      (mergeBytes table shape (new shape)
        (bytesOf [corner, weight, unknown, revision, caption, misread, weights, anchor])).2 = none ∧
      [unknown, weight, anchor, misread, weights, corner, revision, caption].Perm
        [corner, weight, unknown, revision, caption, misread, weights, anchor] ∧
      ∀ g ∈ [corner, weight, unknown, revision, caption, misread, weights, anchor],
        ([unknown, weight, anchor, misread, weights, corner, revision, caption].filter
            fun f => shape.region f.1 = shape.region g.1) =
          [corner, weight, unknown, revision, caption, misread, weights, anchor].filter
            fun f => shape.region f.1 = shape.region g.1 := by
    decide +kernel
  have htype := TypeTable.message_mem hnamed
  obtain ⟨fields, _, _, hunique, hreordered⟩ := mergeBytes_reordered table shape (new shape) _ _ hg htype
    (held_new table (hg.wellFormed htype)) (Prod.ext rfl hok)
  have hcomplete : Complete 100 [corner, weight, unknown, revision, caption, misread, weights, anchor] := by
    refine .plain ⟨rfl, by decide, by decide, rfl⟩ (.framed rfl rfl) ?_
    refine .plain ⟨rfl, by decide, by decide, rfl⟩ (.varint rfl rfl) ?_
    refine .plain ⟨rfl, by decide, by decide, rfl⟩ (.varint rfl rfl) ?_
    refine .plain ⟨rfl, by decide, by decide, rfl⟩ (.varint rfl rfl) ?_
    refine .plain ⟨rfl, by decide, by decide, rfl⟩ (.framed rfl rfl) ?_
    refine .plain ⟨rfl, by decide, by decide, rfl⟩ (.varint rfl rfl) ?_
    refine .plain ⟨rfl, by decide, by decide, rfl⟩ (.framed rfl rfl) ?_
    exact .plain ⟨rfl, by decide, by decide, rfl⟩ (.framed rfl rfl) (.nil 100)
  obtain rfl := hunique 100 _ hcomplete rfl
  exact ⟨_, Prod.ext rfl hok, hreordered _ (reordered_of_fields hperm horder)⟩

end Message

end Protobuf
