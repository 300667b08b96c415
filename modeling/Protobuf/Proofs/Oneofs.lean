/-
  Protobuf.Proofs.Oneofs — what a oneof holds after a merge.

  The members of a oneof share a region, so their occurrences are one sequence, whatever stands between them.
  The last occurrence selects its member (`Reads.selects`), and no other member can be read from then on
  (`reads_selected`). A plain member holds the value of that occurrence. A message member holds the payloads
  of the final run of occurrences, those at the end that are all of this member, merged one after the other:
  into the message that was selected before if the run is all there is, else into an empty one, since the
  occurrence in front of the run selected another member (`Runs.final_run`).
-/

import Mathlib.Data.List.DropRight
import Protobuf.Proofs.Occurrences

namespace Protobuf

open Schema

namespace Message

variable {table : TypeTable} {type : MessageType} {room index slot : Nat} {field : Field} {valueType : ValueType}
  {tag : Tag} {head payload : Bytes} {m m' out : Message} {fields : List (Tag × Bytes)}

/-! ## Reading a member -/

theorem value?_member (hm : Held table type m) (hf : type.fields[index]? = some field)
    (hs : field.strategy = .member slot valueType) :
    m.value? field index = ((m.choiceAt slot).selected.filter fun member => member.field == index).map Member.value := by
  simp only [value?, Field.oneof_of_strategy hs, hm.slotAt_member hf hs]

theorem has_member (hw : type.WellFormed) (hf : type.fields[index]? = some field)
    (hs : field.strategy = .member slot valueType) (m : Message) :
    m.has field index = (m.choiceAt slot).isSelected index := by
  have hbit : field.presenceBit = none := by
    by_contra hne
    obtain ⟨bit, hbit⟩ := Option.ne_none_iff_exists'.mp hne
    obtain ⟨_, plain, presence, hsingular⟩ := hw.bits field (List.mem_of_getElem? hf) bit hbit
    cases hs.symm.trans hsingular
  simp only [has, hbit, Field.oneof_of_strategy hs]

/-- Just the selected member reads as set, and only it has a value. -/
theorem reads_selected (hw : type.WellFormed) (hm : Held table type m) {value : Value Message}
    (h : (m.choiceAt slot).selected = some ⟨index, value⟩) {other : Nat} (hf : type.fields[other]? = some field)
    (hs : field.strategy = .member slot valueType) :
    m.has field other = decide (other = index) ∧ m.value? field other = if other = index then some value else none := by
  rw [has_member hw hf hs, value?_member hm hf hs, Choice.isSelected, h]
  by_cases ho : other = index
  · simp [ho]
  · simp [ho, Ne.symm ho]

/-! ## The last occurrence -/

/-- An occurrence of a member selects it; a plain member then holds what was read. -/
theorem Reads.selects (hw : type.WellFormed) (hm : Held table type m) (hregion : type.region tag = .oneof slot)
    (hspells : Tag.Spells head tag) (h : Reads table type room tag head payload m m') :
    ∃ index field valueType value, type.fields[index]? = some field ∧ field.strategy = .member slot valueType ∧
      tag = Tag.make field.number field.strategy.wireType ∧ (m'.choiceAt slot).selected = some ⟨index, value⟩ ∧
      ∀ plain, valueType = .plain plain →
        ∃ v, scalarOf plain.kind (tag, head ++ payload) = some v ∧ value = .scalar v := by
  obtain ⟨index, field, valueType, hf, hs, rfl⟩ := MessageType.region_oneof hregion
  have hlt := hm.lt_choices (hw.members field (List.mem_of_getElem? hf) slot _ hs)
  cases valueType with
  | plain plain =>
    have hstep : m.step table type (Tag.make field.number field.strategy.wireType) = fun r =>
        .ofRead (Reader.readScalar plain.kind) r m fun value => m.setMember slot index (.scalar value) := by
      rw [step_own hw.toNumbered hf]
      funext r
      simp only [readField, hs]
    obtain ⟨v, hv, rfl⟩ := h.scalar hspells hstep
    refine ⟨index, field, _, .scalar v, hf, hs, rfl, ?_, ?_⟩
    · rw [setMember, choiceAt_setChoice hlt]
    · intro other hother
      cases hother
      exact ⟨v, hv, rfl⟩
  | message ref =>
    have hpart : HoldsMessage field := .inr ⟨slot, ref, hs⟩
    obtain ⟨x, _, rfl⟩ := h.opened hspells (step_start hw hm hf hpart)
    refine ⟨index, field, _, .message x, hf, hs, rfl, ?_, ?_⟩
    · simp only [start_member (hm.slotAt_member hf hs) (Field.oneof_of_strategy hs), put, setMember_setChoice hlt,
        choiceAt_setChoice hlt]
    · intro plain hplain
      cases hplain

/-! ## The final run -/

/-- A message member starts from what it holds, and from an empty message if another member is selected. -/
theorem start_twins (hg : table.Generated) (hw : type.WellFormed) (hm : Held table type m)
    (hf : type.fields[index]? = some field) {ref : TypeRef} (hs : field.strategy = .member slot (.message ref)) :
    (m.start table type field index).2.2.Twins table (table.childAt type index)
      (((m.choiceAt slot).current index).getD (new (table.childAt type index))) := by
  have hchild := hg.childAt type index
  obtain ⟨choice, hc, hkept⟩ := hm.choice (hw.members field (List.mem_of_getElem? hf) slot _ hs)
  rw [start_member (hm.slotAt_member hf hs) (Field.oneof_of_strategy hs), choiceAt_of_getElem? hc]
  have hself : choice.Rel Same choice := rel_refl fun member _ => ⟨rfl, Value.rel_refl fun x _ => same_refl x⟩
  obtain ⟨hheld, hsame⟩ := held_select hchild (hkept.selected index) (hkept.spare index) hself
  refine ⟨hheld, ?_, hsame⟩
  cases hcurrent : choice.current index with
  | none => exact held_new table hchild
  | some x => exact hkept.selected index x (Choice.current_eq_some_iff.mp hcurrent)

/-- Behind an occurrence of another member there is nothing of a message member to start from. -/
theorem Runs.current_none (hg : table.Generated) (hw : type.WellFormed) (hm : Held table type m)
    (hf : type.fields[index]? = some field) (h : Runs table type room m fields out)
    (hregion : ∀ f ∈ fields, type.region f.1 = .oneof slot) (hne : fields ≠ [])
    (hother : (fields.getLast hne).1 ≠ Tag.make field.number field.strategy.wireType) :
    (out.choiceAt slot).current index = none := by
  have hlast := hregion _ (List.getLast_mem hne)
  rw [← List.dropLast_append_getLast hne] at h
  obtain ⟨n, hbefore, hone⟩ := runs_append.mp h
  generalize fields.getLast hne = g at *
  cases hone with
  | cons spells tail reads rest =>
    cases rest
    obtain ⟨index', field', _, value, hf', _, htag, hselected, _⟩ :=
      reads.selects hw (hbefore.held hg hw hm) hlast spells
    cases hc : (out.choiceAt slot).current index with
    | none => rfl
    | some x =>
      cases hselected.symm.trans (Choice.current_eq_some_iff.mp hc)
      cases hf.symm.trans hf'
      exact absurd htag hother

/-- A message member ends with the payloads of the final run of its occurrences. -/
theorem Runs.final_run (hg : table.Generated) (hw : type.WellFormed) (hm : Held table type m)
    (hf : type.fields[index]? = some field) {ref : TypeRef} (hs : field.strategy = .member slot (.message ref))
    (h : Runs table type room m fields out) (hregion : ∀ f ∈ fields, type.region f.1 = .oneof slot)
    {earlier : List (Tag × Bytes)} {last : Tag × Bytes} (hsplit : fields = earlier ++ [last])
    (htag : last.1 = Tag.make field.number field.strategy.wireType) :
    let child := table.childAt type index
    let run := fields.rtakeWhile fun f => f.1 = last.1
    let start := if run = fields then ((m.choiceAt slot).current index).getD (new child) else new child
    ∃ x y, out.value? field index = some (.message x) ∧
      mergeEach table child (room - 1) start (run.map bodyOf) = some y ∧ x.Same y := by
  intro child run start
  have hpart : HoldsMessage field := .inr ⟨slot, ref, hs⟩
  let front := fields.rdropWhile fun f => f.1 = last.1
  have hfields : front ++ run = fields := List.rdropWhile_append_rtakeWhile ..
  have hrun : run = (earlier.rtakeWhile fun f => f.1 = last.1) ++ [last] := by
    show List.rtakeWhile _ fields = _
    rw [hsplit, List.rtakeWhile_concat_pos _ _ _ (by simp)]
  rw [← hfields] at h
  obtain ⟨n, hfront, hlast⟩ := runs_append.mp h
  have hn := hfront.held hg hw hm
  -- in front of the run another member is selected, or nothing was read
  have hcurrent : start = ((n.choiceAt slot).current index).getD (new child) := by
    by_cases hall : run = fields
    · have hnil : front = [] := List.append_left_eq_self.mp (hfields.trans hall.symm)
      rw [hnil] at hfront
      cases hfront
      exact if_pos hall
    · have hne : front ≠ [] := by
        intro hnil
        rw [hnil, List.nil_append] at hfields
        exact hall hfields
      have hother : (front.getLast hne).1 ≠ Tag.make field.number field.strategy.wireType := by
        have hdropped := List.rdropWhile_last_not (fun f : Tag × Bytes => decide (f.1 = last.1)) fields hne
        rw [← htag]
        simpa using hdropped
      have hmember : ∀ f ∈ front, type.region f.1 = .oneof slot := by
        intro f hff
        exact hregion f (hfields ▸ List.mem_append_left run hff)
      rw [hfront.current_none hg hw hm hf hmember hne hother]
      exact if_neg hall
  have htags : ∀ f ∈ run, f.1 = Tag.make field.number field.strategy.wireType := by
    intro f hfr
    have hsame := List.mem_rtakeWhile_imp (p := fun f : Tag × Bytes => decide (f.1 = last.1)) hfr
    exact (of_decide_eq_true hsame).trans htag
  obtain ⟨heach, hvalue⟩ := hlast.each hg hw hn hf hpart htags
  obtain ⟨y, hy, htwins⟩ := mergeEach_twins hg (hg.childAt type index) (start_twins hg hw hn hf hs) heach
  rw [← hcurrent] at hy
  exact ⟨_, y, hvalue (by rw [hrun]; simp), hy, htwins.same⟩

/-! ## Whole inputs -/

/-- Bytes that merge are complete fields in just one way, and a oneof depends on those that are occurrences of its
    members. If there are none it is as before. Else the member of the last one is selected and no other can be read:
    a plain member holds the value of that occurrence, and a message member the payloads of the final run of its
    occurrences, merged one after the other into the message selected before if there is no other occurrence, and
    else into an empty one. The members are the fields with the strategy `member`; a map with the index of a oneof is
    none, it stays a map. -/
theorem mergeWithin_oneof (table : TypeTable) (type : MessageType) (room : Nat) (m out : Message) (bytes : Bytes)
    (slot : Nat) (hg : table.Generated) (htype : type ∈ table.messages) (hm : Held table type m)
    (h : mergeWithin table type room m bytes = (out, none)) :
    ∃ fields, Complete room fields ∧ bytesOf fields = bytes ∧
      (∀ depth others, Complete depth others → bytesOf others = bytes → others = fields) ∧
      let found := occurrences type (.oneof slot) fields
      (found = [] → out.choiceAt slot = m.choiceAt slot) ∧
      ∀ earlier last, found = earlier ++ [last] →
        ∃ index field valueType value, type.fields[index]? = some field ∧
          field.strategy = .member slot valueType ∧ last.1 = Tag.make field.number field.strategy.wireType ∧
          (out.choiceAt slot).selected = some ⟨index, value⟩ ∧
          (∀ plain, valueType = .plain plain → ∃ v, scalarOf plain.kind last = some v ∧ value = .scalar v) ∧
          (∀ ref, valueType = .message ref →
            let child := table.childAt type index
            let run := found.rtakeWhile fun f => f.1 = last.1
            let start := if run = found then ((m.choiceAt slot).current index).getD (new child) else new child
            ∃ x y, value = .message x ∧ mergeEach table child (room - 1) start (run.map bodyOf) = some y ∧ x.Same y) ∧
          ∀ other otherField otherType, type.fields[other]? = some otherField →
            otherField.strategy = .member slot otherType →
            out.has otherField other = decide (other = index) ∧
              out.value? otherField other = if other = index then some value else none := by
  have hw := hg.wellFormed htype
  obtain ⟨fields, rfl, hruns⟩ := runs_of_mergeWithin hg hw hm h
  have hout := hruns.held hg hw hm
  refine ⟨fields, hruns.complete, rfl, fun depth others hc he => complete_unique hc hruns.complete he, ?_, ?_⟩
  · intro hnone
    exact (hruns.keeps_of_none hw hnone).choiceAt rfl
  · intro earlier last hsplit
    have hmember : ∀ f ∈ occurrences type (.oneof slot) fields, type.region f.1 = .oneof slot :=
      fun f => region_of_mem_occurrences
    obtain ⟨n, middle, head, payload, hlast, hspells, hearlier, hreads, hagree⟩ := hruns.last hw hsplit
    have hn := hearlier.held hg hw hm
    obtain ⟨index, field, valueType, value, hf, hs, htag, hselected, hplain⟩ :=
      hreads.selects hw hn (hmember last (by rw [hsplit]; simp)) hspells
    have hchosen : (out.choiceAt slot).selected = some ⟨index, value⟩ := by
      rw [hagree.choiceAt rfl]
      exact hselected
    refine ⟨index, field, valueType, value, hf, hs, htag, hchosen, ?_, ?_, ?_⟩
    · rw [hlast]
      exact hplain
    · intro ref hmessage child run start
      subst hmessage
      obtain ⟨middle', hruns', hagree'⟩ := hruns.region hw (.oneof slot)
      obtain ⟨x, y, hvalue, hy, hsame⟩ := hruns'.final_run hg hw hm hf hs hmember hsplit htag
      refine ⟨x, y, ?_, hy, hsame⟩
      -- the value is read off the choice, which the other fields leave alone
      rw [value?_member (hruns'.held hg hw hm) hf hs, ← hagree'.choiceAt rfl, ← value?_member hout hf hs] at hvalue
      have hread := (reads_selected hw hout hchosen hf hs).2
      rw [if_pos rfl] at hread
      exact Option.some.inj (hread.symm.trans hvalue)
    · intro other otherField otherType hof hos
      exact reads_selected hw hout hchosen hof hos

set_option maxRecDepth 100000 in
/-- A corner is selected from before and occurs, then a caption, then a corner twice, with other fields among them:
    just the last two corners show. -/
theorem mergeWithin_oneof_corner :
    let table := Sample.Shapes.table
    let shape := table.message "demo.shapes.Shape"
    let before := (mergeBytes table shape (new shape) [0x5a, 2, 8, 5]).1
    let corner : Tag × Bytes := (Tag.make 11 .lengthDelimited, [0x5a] ++ ([2] ++ [8, 1]))
    let name : Tag × Bytes := (Tag.make 1 .lengthDelimited, [0x0a] ++ ([1] ++ [0x41]))
    let caption : Tag × Bytes := (Tag.make 12 .lengthDelimited, [0x62] ++ ([1] ++ [0x42]))
    let right : Tag × Bytes := (Tag.make 11 .lengthDelimited, [0x5a] ++ ([2] ++ [8, 2]))
    let weight : Tag × Bytes := (Tag.make 5 .varint, [0x28] ++ [3])
    let up : Tag × Bytes := (Tag.make 11 .lengthDelimited, [0x5a] ++ ([2] ++ [16, 3]))
    ∃ out x y, mergeWithin table shape 100 before (bytesOf [corner, name, caption, right, weight, up]) = (out, none) ∧
      (out.choiceAt 0).selected = some ⟨10, .message x⟩ ∧
      mergeEach table (table.childAt shape 10) 99 (new (table.childAt shape 10)) [[8, 2], [16, 3]] = some y ∧ x.Same y ∧
      out.value? (shape.fields[11]?.getD default) 11 = none := by
  intro table shape before corner name caption right weight up
  have hg : table.Generated := generated_tableOf _ _
  let fields := [corner, name, caption, right, weight, up]
  let out := (mergeWithin table shape 100 before (bytesOf fields)).1
  let point : TypeRef := ⟨"demo.shapes.Point", ⟨["demo", "shapes"], "Point"⟩⟩
  obtain ⟨hnamed, hok, hfound, hchosen, hcorner, hcaption⟩ :
      (table.messages.any fun type => type.fullName == "demo.shapes.Shape") = true ∧
      (mergeWithin table shape 100 before (bytesOf fields)).2 = none ∧
      occurrences shape (.oneof 0) fields = [corner, caption, right] ++ [up] ∧
      (out.choiceAt 0).selected.map Member.field = some 10 ∧
      shape.fields[10]?.map Field.strategy = some (.member 0 (.message point)) ∧
      (shape.fields[11]?.getD default).strategy = .member 0 (.plain (.scalar .string)) := by
    decide +kernel
  have htype := TypeTable.message_mem hnamed
  have hw := hg.wellFormed htype
  have hbefore : Held table shape before := held_merge hg hw (held_new table hw) _
  obtain ⟨_, _, _, hunique, _, hlast⟩ :=
    mergeWithin_oneof table shape 100 before out (bytesOf fields) 0 hg htype hbefore (Prod.ext rfl hok)
  have hcomplete : Complete 100 fields := by
    refine .plain ⟨rfl, by decide, by decide, rfl⟩ (.framed rfl rfl) ?_
    refine .plain ⟨rfl, by decide, by decide, rfl⟩ (.framed rfl rfl) ?_
    refine .plain ⟨rfl, by decide, by decide, rfl⟩ (.framed rfl rfl) ?_
    refine .plain ⟨rfl, by decide, by decide, rfl⟩ (.framed rfl rfl) ?_
    refine .plain ⟨rfl, by decide, by decide, rfl⟩ (.varint rfl rfl) ?_
    exact .plain ⟨rfl, by decide, by decide, rfl⟩ (.framed rfl rfl) (.nil 100)
  obtain rfl := hunique 100 fields hcomplete rfl
  obtain ⟨index, field, valueType, value, hf, hs, _, hselected, _, hmessage, hothers⟩ := hlast _ _ hfound
  rw [hselected] at hchosen
  obtain rfl : index = 10 := Option.some.inj hchosen
  rw [hf] at hcorner
  cases hs.symm.trans (Option.some.inj hcorner)
  obtain ⟨x, y, rfl, hy, hsame⟩ := hmessage point rfl
  refine ⟨out, x, y, Prod.ext rfl hok, hselected, ?_, hsame, (hothers 11 _ _ (by decide +kernel) hcaption).2⟩
  have hrun : (occurrences shape (.oneof 0) fields).rtakeWhile (fun f => f.1 = up.1) = [right, up] := by
    rw [hfound]
    decide +kernel
  rw [hrun, hfound, if_neg (by decide +kernel)] at hy
  exact hy

end Message

end Protobuf
