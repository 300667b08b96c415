/-
  Protobuf.Proofs.Containers — containers that keep what was removed are plain lists and options.

  (1) `Kind` is a container by its actions and `Kind.run` any sequence of them over any number of containers, with
  exchanging two and copying one over another. A relation that each action keeps is kept by every run (`Simulates.run`).

  (2) `Repeated` against a list, and against a `Buffer`: a row of elements of which a number are in use, read and written
  at checked places. No run misses its place, and what lies past the elements in use never shows
  (`repeated_refines_list`).

  (3) `Singular` against an option, and against a `Cell`: a value and a flag, which breaks off where the flag is set
  without a value. No run gets there (`singular_refines_option`).
-/

import Mathlib.Logic.Equiv.Basic
import Protobuf.Message.Equality
import Protobuf.Proofs.Twins

namespace Protobuf.Container

/-! ## Elements -/

/-- What a container asks of its elements: a reset one cannot be told from a fresh one. -/
structure Element (α : Type) where
  reset : α → α
  fresh : α
  /-- Not to be told apart; equality, if a reset element is a fresh one. -/
  same : α → α → Prop
  refl : ∀ a, same a a
  reset_same : ∀ a, same (reset a) fresh

/-- Messages of a type are such elements: they are told apart by their content. -/
def Element.message {table : Schema.TypeTable} {type : Schema.MessageType} (hw : type.WellFormed) :
    Element {m : Message // m.Held table type} where
  reset m := ⟨m.1.clear type, Message.held_clear hw m.2⟩
  fresh := ⟨.new type, Message.held_new table hw⟩
  same a b := a.1.Same b.1
  refl a := Message.same_refl a.1
  reset_same a := Message.clear_same a.2

variable {α : Type}

/-- A change of an element that depends only on what can be told of it. -/
structure Change (E : Element α) where
  act : α → α
  keeps : ∀ a b, E.same a b → E.same (act a) (act b)

/-- A change of elements in place. -/
structure SliceChange (E : Element α) where
  act : List α → List α
  length_eq : ∀ items, (act items).length = items.length
  keeps : ∀ as bs, List.Forall₂ E.same as bs → List.Forall₂ E.same (act as) (act bs)

/-! ## Runs -/

/-- What each action hands out and leaves, and what a copy is. -/
structure Kind (A O F : Type) where
  act : A → F → O × F
  copy : F → F

/-- A kind whose actions can break off, which leaves nothing. -/
def Kind.checked {A α F : Type} (act : A → F → Option (Option α × F)) (copy : F → Option F) :
    Kind A (Option α) (Option F) where
  act action field := ((field.bind (act action)).bind Prod.fst, (field.bind (act action)).map Prod.snd)
  copy field := field.bind copy

/-- One step with containers named by `ι`. -/
inductive Step (ι A : Type) where
  | act (i : ι) (action : A)
  | swap (i j : ι)
  | copy (source target : ι)

section Runs

variable {ι A O P F G : Type} [DecidableEq ι]

def Kind.step (kind : Kind A O F) (fields : ι → F) : Step ι A → List O × (ι → F)
  | .act i action => ([(kind.act action (fields i)).1], Function.update fields i (kind.act action (fields i)).2)
  | .swap i j => ([], fun k => fields (Equiv.swap i j k))
  | .copy source target => ([], Function.update fields target (kind.copy (fields source)))

/-- All that is handed out, and the containers in the end. -/
def Kind.run (kind : Kind A O F) (fields : ι → F) : List (Step ι A) → List O × (ι → F)
  | [] => ([], fields)
  | step :: steps => ((kind.step fields step).1 ++ (kind.run (kind.step fields step).2 steps).1,
      (kind.run (kind.step fields step).2 steps).2)

/-- Related containers stay related and hand out related things. -/
structure Simulates (K : Kind A O F) (L : Kind A P G) (R : F → G → Prop) (S : O → P → Prop) : Prop where
  act : ∀ action f g, R f g → S (K.act action f).1 (L.act action g).1 ∧ R (K.act action f).2 (L.act action g).2
  copy : ∀ f g, R f g → R (K.copy f) (L.copy g)

namespace Simulates

variable {K : Kind A O F} {L : Kind A P G} {R : F → G → Prop} {S : O → P → Prop} {fields : ι → F} {others : ι → G}

theorem update {i : ι} {f : F} {g : G} (hall : ∀ i, R (fields i) (others i)) (hfg : R f g) (k : ι) :
    R (Function.update fields i f k) (Function.update others i g k) := by
  by_cases hk : k = i
  · subst hk
    rwa [Function.update_self, Function.update_self]
  · rw [Function.update_of_ne hk, Function.update_of_ne hk]
    exact hall k

theorem step (h : Simulates K L R S) (hall : ∀ i, R (fields i) (others i)) (step : Step ι A) :
    List.Forall₂ S (K.step fields step).1 (L.step others step).1 ∧
      ∀ i, R ((K.step fields step).2 i) ((L.step others step).2 i) := by
  cases step with
  | act i action =>
    obtain ⟨hhanded, hleft⟩ := h.act action _ _ (hall i)
    exact ⟨.cons hhanded .nil, update hall hleft⟩
  | swap i j => exact ⟨.nil, fun k => hall _⟩
  | copy source target => exact ⟨.nil, update hall (h.copy _ _ (hall source))⟩

theorem run (h : Simulates K L R S) (hall : ∀ i, R (fields i) (others i)) (steps : List (Step ι A)) :
    List.Forall₂ S (K.run fields steps).1 (L.run others steps).1 ∧
      ∀ i, R ((K.run fields steps).2 i) ((L.run others steps).2 i) := by
  induction steps generalizing fields others with
  | nil => exact ⟨.nil, hall⟩
  | cons step steps ih =>
    obtain ⟨hhanded, hnow⟩ := h.step hall step
    obtain ⟨hmore, hlater⟩ := ih hnow
    exact ⟨List.rel_append hhanded hmore, hlater⟩

end Simulates

/-- Where each action is the same on containers as they lie in memory, so is each run. -/
theorem Kind.run_checked {α F H : Type} {K : Kind A (Option α) F} {act : A → H → Option (Option α × H)}
    {copy : H → Option H} {layout : F → H}
    (hact : ∀ action f, act action (layout f) = some ((K.act action f).1, layout (K.act action f).2))
    (hcopy : ∀ f, copy (layout f) = some (layout (K.copy f))) (fields : ι → F) (steps : List (Step ι A)) :
    (Kind.checked act copy).run (fun i => some (layout (fields i))) steps =
      ((K.run fields steps).1, fun i => some (layout ((K.run fields steps).2 i))) := by
  have hlaid : Simulates (Kind.checked act copy) K (fun h f => h = some (layout f)) (· = ·) := by
    constructor
    · rintro action _ f rfl
      simp [Kind.checked, hact]
    · rintro _ f rfl
      exact hcopy f
  obtain ⟨hhanded, hleft⟩ := hlaid.run (fun i => rfl) steps
  exact Prod.ext (List.forall₂_eq_eq_eq ▸ hhanded) (funext hleft)

end Runs

/-! ## Lists -/

/-- A row of elements of which the first `size` are in use. -/
structure Buffer (α : Type) where
  items : List α
  size : Nat

namespace Buffer

/-- The elements in use, if there are so many. -/
def slice? (buffer : Buffer α) : Option (List α) :=
  if buffer.size ≤ buffer.items.length then some (buffer.items.take buffer.size) else none

/-- Compares the elements in use. -/
def equal (same : α → α → Bool) (a b : Buffer α) : Option Bool :=
  a.slice?.bind fun as => b.slice?.bind fun bs => some (sameList same as bs)

end Buffer

/-- The row with an element replaced, if there is one. -/
def put? (items : List α) (i : Nat) (value : α) : Option (List α) :=
  if i < items.length then some (items.set i value) else none

/-- The container as it lies in memory. -/
def layout (xs : Repeated α) : Buffer α := ⟨xs.active ++ xs.reserve, xs.active.length⟩

theorem slice?_layout (xs : Repeated α) : (layout xs).slice? = some xs.active := by
  simp [Buffer.slice?, layout]

theorem size_layout_le (xs : Repeated α) : (layout xs).size ≤ (layout xs).items.length := by
  simp [layout]

inductive ListAction (E : Element α) where
  | push (value : α)
  /-- Appends an empty element and changes it. -/
  | add (change : Change E)
  | pop
  | truncate (size : Nat)
  | clear
  | modify (change : SliceChange E)
  | build (items : List α)

namespace ListAction

variable {E : Element α}

def onList : ListAction E → List α → Option α × List α
  | push value, items => (none, items ++ [value])
  | add change, items => (some E.fresh, items ++ [change.act E.fresh])
  | pop, items => (items.getLast?, items.dropLast)
  | truncate size, items => (none, items.take size)
  | clear, _ => (none, [])
  | modify change, items => (none, change.act items)
  | build items, _ => (none, items)

def onRepeated : ListAction E → Repeated α → Option α × Repeated α
  | push value, xs => (none, xs.push value)
  | add change, xs =>
    let start := xs.spare E.reset E.fresh
    (some start, (xs.push start).setLast (change.act start))
  | pop, xs => xs.pop
  | truncate size, xs => (none, xs.truncate size)
  | clear, xs => (none, xs.clear)
  | modify change, xs => (none, xs.modify change.act)
  | build items, _ => (none, .ofList items)

def onBuffer : ListAction E → Buffer α → Option (Option α × Buffer α)
  | push value, ⟨items, size⟩ =>
    (if size < items.length then put? items size value else some (items ++ [value])).bind fun items =>
      some (none, ⟨items, size + 1⟩)
  | add change, ⟨items, size⟩ =>
    (if size < items.length then items[size]?.bind fun old => put? items size (E.reset old)
      else some (items ++ [E.fresh])).bind fun items =>
        items[size + 1 - 1]?.bind fun start => (put? items (size + 1 - 1) (change.act start)).bind fun items =>
          some (some start, ⟨items, size + 1⟩)
  | pop, ⟨items, size⟩ =>
    if size = 0 then some (none, ⟨items, size⟩)
    else items[size - 1]?.bind fun last => some (some last, ⟨items.eraseIdx (size - 1), size - 1⟩)
  | truncate count, ⟨items, size⟩ => some (none, ⟨items, min size count⟩)
  | clear, ⟨items, _⟩ => some (none, ⟨items, 0⟩)
  | modify change, ⟨items, size⟩ =>
    (Buffer.slice? ⟨items, size⟩).bind fun slice => some (none, ⟨change.act slice ++ items.drop size, size⟩)
  | build items, _ => some (none, ⟨items, items.length⟩)

theorem rel_last {R : α → α → Prop} {as bs : List α} (h : List.Forall₂ R as bs) :
    Option.Rel R as.getLast? bs.getLast? ∧ List.Forall₂ R as.dropLast bs.dropLast := by
  induction h with
  | nil => exact ⟨.none, .nil⟩
  | cons hab hrest ih =>
    cases hrest with
    | nil => exact ⟨.some hab, .nil⟩
    | cons _ _ => exact ⟨by simpa only [List.getLast?_cons_cons] using ih.1, .cons hab ih.2⟩

theorem spare_same (xs : Repeated α) : E.same (xs.spare E.reset E.fresh) E.fresh := by
  unfold Repeated.spare
  split
  · exact E.reset_same _
  · exact E.refl _

/-- Through the elements in use, each action is the one on lists. -/
theorem onRepeated_same (action : ListAction E) {xs : Repeated α} {items : List α} (h : List.Forall₂ E.same xs.active items) :
    Option.Rel E.same (onRepeated action xs).1 (onList action items).1 ∧
      List.Forall₂ E.same (onRepeated action xs).2.active (onList action items).2 := by
  cases action with
  | push value => exact ⟨.none, List.rel_append h (.cons (E.refl value) .nil)⟩
  | add change =>
    have hstart := spare_same (E := E) xs
    refine ⟨.some hstart, ?_⟩
    show List.Forall₂ E.same ((xs.active ++ [xs.spare E.reset E.fresh]).dropLast ++ [_]) (items ++ [_])
    rw [List.dropLast_concat]
    exact List.rel_append h (.cons (change.keeps _ _ hstart) .nil)
  | pop => exact rel_last h
  | truncate size => exact ⟨.none, List.forall₂_take size h⟩
  | clear => exact ⟨.none, .nil⟩
  | modify change => exact ⟨.none, change.keeps _ _ h⟩
  | build items => exact ⟨.none, List.forall₂_same.mpr fun a _ => E.refl a⟩

/-- No action on a container as it lies in memory misses its place. -/
theorem onBuffer_layout (action : ListAction E) (xs : Repeated α) :
    onBuffer action (layout xs) = some ((onRepeated action xs).1, layout (onRepeated action xs).2) := by
  obtain ⟨active, reserve⟩ := xs
  cases action with
  | push value => cases reserve <;> simp [onBuffer, onRepeated, layout, put?, Repeated.push]
  | add change =>
    cases reserve <;>
      simp [onBuffer, onRepeated, layout, put?, Repeated.push, Repeated.spare, Repeated.setLast, Repeated.modify]
  | pop =>
    rcases List.eq_nil_or_concat active with rfl | ⟨front, last, rfl⟩
    · rfl
    · simp [onBuffer, onRepeated, layout, Repeated.pop, List.eraseIdx_append_of_length_le]
  | truncate size => simp [onBuffer, onRepeated, layout, Repeated.truncate, ← List.append_assoc, Nat.min_comm]
  | clear => simp [onBuffer, onRepeated, layout, Repeated.clear, Repeated.truncate]
  | modify change => simp [onBuffer, onRepeated, layout, Buffer.slice?, Repeated.modify, change.length_eq]
  | build items => simp [onBuffer, onRepeated, layout, Repeated.ofList]

end ListAction

/-! ## Options -/

/-- A value and whether it is present. -/
structure Cell (α : Type) where
  value : Option α
  present : Bool

def Cell.get? (cell : Cell α) : Option α := if cell.present then cell.value else none

def Cell.equal (same : α → α → Bool) (a b : Cell α) : Bool := sameOption same a.get? b.get?

/-- The container as it lies in memory. -/
def cellOf : Singular α → Cell α
  | .present value => ⟨some value, true⟩
  | .absent kept => ⟨kept, false⟩

theorem isSome_of_present {s : Singular α} (h : (cellOf s).present = true) : (cellOf s).value.isSome = true := by
  cases s with
  | present value => rfl
  | absent kept => cases h

inductive OptionAction (E : Element α) where
  | set (value : α)
  | clear
  | take
  /-- Gives the container a value if it has none, and changes it. -/
  | init (change : Change E)
  | modify (change : Change E)
  | build (value : Option α)

namespace OptionAction

variable {E : Element α}

def onOption : OptionAction E → Option α → Option α × Option α
  | set value, _ => (none, some value)
  | clear, _ => (none, none)
  | take, o => (o, none)
  | init change, o => (some (o.getD E.fresh), some (change.act (o.getD E.fresh)))
  | modify change, o => (o, o.map change.act)
  | build value, _ => (none, value)

def onSingular : OptionAction E → Singular α → Option α × Singular α
  | set value, s => (none, s.set value)
  | clear, s => (none, s.clear)
  | take, s => s.take
  | init change, s => (some (s.getOrInit E.reset E.fresh), s.set (change.act (s.getOrInit E.reset E.fresh)))
  | modify change, s => (s.get?, s.modify change.act)
  | build value, _ => (none, .ofOption value)

def onCell : OptionAction E → Cell α → Option (Option α × Cell α)
  | set value, _ => some (none, ⟨some value, true⟩)
  | clear, cell => some (none, ⟨cell.value, false⟩)
  | take, cell => some (if cell.present then (cell.value, ⟨none, false⟩) else (none, cell))
  | init change, cell =>
    -- a value that is present but not there would break off here
    (if cell.present then cell.value else some ((cell.value.map E.reset).getD E.fresh)).bind fun start =>
      some (some start, ⟨some (change.act start), true⟩)
  | modify change, cell => some (cell.get?, if cell.present then ⟨cell.value.map change.act, true⟩ else cell)
  | build value, _ => some (none, ⟨value, value.isSome⟩)

theorem getOrInit_same {s : Singular α} {o : Option α} (h : Option.Rel E.same s.get? o) :
    E.same (s.getOrInit E.reset E.fresh) (o.getD E.fresh) := by
  cases s with
  | present value =>
    cases h with
    | some h => exact h
  | absent kept =>
    cases h
    cases kept with
    | none => exact E.refl _
    | some kept => exact E.reset_same kept

/-- Through the value that is present, each action is the one on options. -/
theorem onSingular_same (action : OptionAction E) {s : Singular α} {o : Option α} (h : Option.Rel E.same s.get? o) :
    Option.Rel E.same (onSingular action s).1 (onOption action o).1 ∧
      Option.Rel E.same (onSingular action s).2.get? (onOption action o).2 := by
  have hstart := getOrInit_same h
  have hbuild : ∀ value : Option α, Option.Rel E.same (Singular.ofOption value).get? value := by
    intro value
    rw [Singular.get?_ofOption]
    exact rel_refl fun a _ => E.refl a
  -- the value present on both sides, or on neither
  cases s with
  | present value =>
    cases h with
    | some h =>
      cases action with
      | set value => exact ⟨.none, .some (E.refl value)⟩
      | clear => exact ⟨.none, .none⟩
      | take => exact ⟨.some h, .none⟩
      | init change => exact ⟨.some hstart, .some (change.keeps _ _ hstart)⟩
      | modify change => exact ⟨.some h, .some (change.keeps _ _ h)⟩
      | build value => exact ⟨.none, hbuild value⟩
  | absent kept =>
    cases h
    cases action with
    | set value => exact ⟨.none, .some (E.refl value)⟩
    | init change => exact ⟨.some hstart, .some (change.keeps _ _ hstart)⟩
    | build value => exact ⟨.none, hbuild value⟩
    | _ => exact ⟨.none, .none⟩

/-- No action on a container as it lies in memory wants a value that is not there. -/
theorem onCell_cellOf (action : OptionAction E) (s : Singular α) :
    onCell action (cellOf s) = some ((onSingular action s).1, cellOf (onSingular action s).2) := by
  cases action with
  | build value => cases value <;> rfl
  | init change => rcases s with (_ | _) | _ <;> rfl
  | _ => cases s <;> rfl

end OptionAction

/-! ## All runs -/

section Refinement

variable {ι : Type} [DecidableEq ι] (E : Element α)

def repeated : Kind (ListAction E) (Option α) (Repeated α) := ⟨ListAction.onRepeated, Repeated.copy⟩

def list : Kind (ListAction E) (Option α) (List α) := ⟨ListAction.onList, id⟩

def buffer : Kind (ListAction E) (Option α) (Option (Buffer α)) :=
  .checked ListAction.onBuffer fun buffer => buffer.slice?.map fun items => ⟨items, buffer.size⟩

/-- Whatever is done with containers, in memory nothing is read or written outside a row and no more elements are in use
    than there are; what is in use and what is handed out is what it is for plain lists, where adding appends an empty
    element; and comparing takes nothing else into account. -/
theorem repeated_refines_list (start : ι → Repeated α) (steps : List (Step ι (ListAction E))) :
    let after := (repeated E).run start steps
    let lists := (list E).run (fun i => (start i).active) steps
    List.Forall₂ (Option.Rel E.same) after.1 lists.1 ∧
    (buffer E).run (fun i => some (layout (start i))) steps = (after.1, fun i => some (layout (after.2 i))) ∧
    ∀ i, List.Forall₂ E.same (after.2 i).active (lists.2 i) ∧ (layout (after.2 i)).slice? = some (after.2 i).active ∧
      (layout (after.2 i)).size ≤ (layout (after.2 i)).items.length ∧
      ∀ j equal, (layout (after.2 i)).equal equal (layout (after.2 j)) =
        some (sameList equal (after.2 i).active (after.2 j).active) := by
  intro after lists
  have hmeant : Simulates (repeated E) (list E) (fun xs items => List.Forall₂ E.same xs.active items) (Option.Rel E.same) :=
    ⟨fun action _ _ h => action.onRepeated_same h, fun _ _ h => h⟩
  have hstart : ∀ i, List.Forall₂ E.same (start i).active (start i).active := fun i =>
    List.forall₂_same.mpr fun a _ => E.refl a
  obtain ⟨hhanded, hsame⟩ := hmeant.run hstart steps
  have hcopy : ∀ xs : Repeated α, ((layout xs).slice?.map fun items => ⟨items, (layout xs).size⟩) = some (layout xs.copy) := by
    intro xs
    rw [slice?_layout]
    simp [layout, Repeated.copy, Repeated.ofList]
  refine ⟨hhanded, Kind.run_checked ListAction.onBuffer_layout hcopy start steps, fun i => ?_⟩
  refine ⟨hsame i, slice?_layout _, size_layout_le _, fun j equal => ?_⟩
  simp [Buffer.equal, slice?_layout]

def singular : Kind (OptionAction E) (Option α) (Singular α) := ⟨OptionAction.onSingular, Singular.copy⟩

def option : Kind (OptionAction E) (Option α) (Option α) := ⟨OptionAction.onOption, id⟩

def cell : Kind (OptionAction E) (Option α) (Option (Cell α)) :=
  .checked OptionAction.onCell fun cell => some ⟨cell.get?, cell.get?.isSome⟩

/-- Whatever is done with containers, in memory a present value is there; the value and what is handed out is what it is
    for plain options, where a missing value starts as a fresh one; and comparing takes nothing else into account. -/
theorem singular_refines_option (start : ι → Singular α) (steps : List (Step ι (OptionAction E))) :
    let after := (singular E).run start steps
    let options := (option E).run (fun i => (start i).get?) steps
    List.Forall₂ (Option.Rel E.same) after.1 options.1 ∧
    (cell E).run (fun i => some (cellOf (start i))) steps = (after.1, fun i => some (cellOf (after.2 i))) ∧
    ∀ i, Option.Rel E.same (after.2 i).get? (options.2 i) ∧ (cellOf (after.2 i)).get? = (after.2 i).get? ∧
      ((cellOf (after.2 i)).present = true → (cellOf (after.2 i)).value.isSome = true) ∧
      ∀ j equal, (cellOf (after.2 i)).equal equal (cellOf (after.2 j)) =
        sameOption equal (after.2 i).get? (after.2 j).get? := by
  intro after options
  have hmeant : Simulates (singular E) (option E) (fun s o => Option.Rel E.same s.get? o) (Option.Rel E.same) :=
    ⟨fun action _ _ h => action.onSingular_same h, fun s _ h => s.get?_copy ▸ h⟩
  have hstart : ∀ i, Option.Rel E.same (start i).get? (start i).get? := fun i => rel_refl fun a _ => E.refl a
  obtain ⟨hhanded, hsame⟩ := hmeant.run hstart steps
  have hcopy : ∀ s : Singular α, some (⟨(cellOf s).get?, (cellOf s).get?.isSome⟩ : Cell α) = some (cellOf s.copy) := by
    intro s
    cases s <;> rfl
  have hget : ∀ s : Singular α, (cellOf s).get? = s.get? := by
    intro s
    cases s <;> rfl
  refine ⟨hhanded, Kind.run_checked OptionAction.onCell_cellOf hcopy start steps, fun i => ?_⟩
  exact ⟨hsame i, hget _, isSome_of_present, fun j equal => by rw [Cell.equal, hget, hget]⟩

/-- A point with a coordinate set is given up: the next one starts as a new one, though from what the first left. -/
theorem singular_refines_option_points :
    let table := Sample.Shapes.table
    let point := table.message "demo.shapes.Point"
    ∃ (hw : point.WellFormed) (used : {m : Message // m.Held table point}), (used.1.slotAt 0).values = [.int32 5] ∧
      let E := Element.message hw
      let make : Step Unit (OptionAction E) := .act () (.init ⟨fun _ => used, fun _ _ _ => E.refl used⟩)
      List.Forall₂ (Option.Rel E.same) ((singular E).run (fun _ => .empty) [make, .act () .clear, make]).1
        [some E.fresh, none, some E.fresh] := by
  intro table point
  obtain ⟨hnamed, hused⟩ : (table.messages.any fun type => type.fullName == "demo.shapes.Point") = true ∧
      ((Message.mergeBytes table point (.new point) [0x08, 5]).1.slotAt 0).values = [.int32 5] := by
    decide +kernel
  have hg : table.Generated := Schema.generated_tableOf _ _
  have hw := hg.wellFormed (Schema.TypeTable.message_mem hnamed)
  exact ⟨hw, ⟨_, Message.held_merge hg hw (Message.held_new table hw) _⟩, hused,
    (singular_refines_option (Element.message hw) (fun _ => .empty) _).1⟩

end Refinement

end Protobuf.Container
