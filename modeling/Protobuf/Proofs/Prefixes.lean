/-
  Protobuf.Proofs.Prefixes — what becomes of lengths that need more than 32 bits.

  (1) `Message.prefixes` is every length in the encoding of a message, from its first byte to its last: of
  sub-messages, runs of values and map entries. What is written is the encoding without memory with each of these cut
  to its lowest 32 bits, and nothing else changed (`cut_encode`).

  (2) So the size that was measured is too high by what the cut lengths lost (`Cut.length_eq`), and the two encodings
  are the same just if no length is cut (`Cut.eq_iff`). A length can be cut and lose no byte: then the sizes agree and
  the bytes do not (`Varint.lost_eq_zero_iff`).
-/

import Protobuf.Proofs.Updating
import Protobuf.Proofs.Varints

namespace Protobuf

open Schema

/-! ## One length -/

namespace Varint

/-- The bytes that a length takes less when it is cut to 32 bits. -/
def lost (n : Nat) : Nat := size n - size (n % 0x100000000)

/-- A cut length loses no byte if it took five, and its lowest 32 bits still do. -/
theorem lost_eq_zero_iff {n : Nat} :
    lost n = 0 ↔ n < 0x100000000 ∨ n < 0x800000000 ∧ 0x10000000 ≤ n % 0x100000000 := by
  have hfive : ∀ {k}, size k ≤ 5 ↔ k < 0x800000000 := size_le_iff 4
  have hfour : ∀ {k}, size k ≤ 4 ↔ k < 0x10000000 := size_le_iff 3
  have hlow : n % 0x100000000 < 0x100000000 := Nat.mod_lt _ (by decide)
  rw [lost, Nat.sub_eq_zero_iff_le]
  by_cases hn : n < 0x100000000
  · rw [Nat.mod_eq_of_lt hn]
    exact iff_of_true (Nat.le_refl _) (.inl hn)
  · -- a length that is cut takes five bytes or more, and what is left of it five or fewer
    have hlarge : ¬ size n ≤ 4 := fun h => hn (Nat.lt_trans (hfour.mp h) (by decide))
    have hsmall : size (n % 0x100000000) ≤ 5 := hfive.mpr (Nat.lt_trans hlow (by decide))
    have h5 := hfive (k := n)
    have h4 := hfour (k := n % 0x100000000)
    omega

end Varint

theorem length_lengthBytes (n : Nat) : (Varint.encode n).length = (lengthBytes n).length + Varint.lost n := by
  have hle := Varint.size_mono (Nat.mod_le n 0x100000000)
  rw [lengthBytes, Varint.length_encode, Varint.length_encode, Varint.lost]
  omega

theorem encode_eq_lengthBytes_iff {n : Nat} : Varint.encode n = lengthBytes n ↔ n < 0x100000000 := by
  constructor
  · intro h
    have hvalue := congrArg Varint.value h
    rw [lengthBytes, Varint.value_encode, Varint.value_encode] at hvalue
    rw [hvalue]
    exact Nat.mod_lt _ (by decide)
  · intro h
    exact (lengthBytes_of_lt h).symm

/-! ## All lengths -/

/-- The second bytes are the first with the lengths that stand in them cut to 32 bits. -/
inductive Cut : Bytes → Bytes → List Nat → Prop
  | plain (bytes : Bytes) : Cut bytes bytes []
  | length (n : Nat) : Cut (Varint.encode n) (lengthBytes n) [n]
  | append {full cut full' cut' : Bytes} {lengths lengths' : List Nat} (front : Cut full cut lengths)
      (back : Cut full' cut' lengths') : Cut (full ++ full') (cut ++ cut') (lengths ++ lengths')

namespace Cut

variable {full cut : Bytes} {lengths : List Nat}

theorem length_eq (h : Cut full cut lengths) : full.length = cut.length + total Varint.lost lengths := by
  induction h with
  | plain bytes => rfl
  | length n => exact length_lengthBytes n
  | append _ _ ihFront ihBack =>
    rw [List.length_append, List.length_append, total_append, ihFront, ihBack]
    omega

theorem length_le (h : Cut full cut lengths) : cut.length ≤ full.length := by
  rw [h.length_eq]
  exact Nat.le_add_right ..

/-- The bytes are the same just if no length is cut: neither half can make up for what the other lost. -/
theorem eq_iff (h : Cut full cut lengths) : cut = full ↔ ∀ n ∈ lengths, n < 0x100000000 := by
  induction h with
  | plain bytes => simp
  | length n =>
    rw [eq_comm, encode_eq_lengthBytes_iff]
    simp
  | @append full cut full' cut' _ _ front back ihFront ihBack =>
    rw [List.forall_mem_append, ← ihFront, ← ihBack]
    constructor
    · intro heq
      -- neither half is longer than it was, so the two are cut apart at the same place
      have hlength := congrArg List.length heq
      rw [List.length_append, List.length_append] at hlength
      have hfront := front.length_le
      have hback := back.length_le
      exact List.append_inj heq (by omega)
    · rintro ⟨rfl, rfl⟩
      rfl

theorem length_eq_iff (h : Cut full cut lengths) :
    full.length = cut.length ↔
      ∀ n ∈ lengths, n < 0x100000000 ∨ n < 0x800000000 ∧ 0x10000000 ≤ n % 0x100000000 := by
  rw [h.length_eq, Nat.add_eq_left, total_eq_zero_iff]
  exact forall₂_congr fun n _ => Varint.lost_eq_zero_iff

theorem append_plain (h : Cut full cut lengths) (bytes : Bytes) : Cut (full ++ bytes) (cut ++ bytes) lengths := by
  have happend := h.append (.plain bytes)
  rwa [List.append_nil] at happend

theorem flatMap {α : Type} {f g : α → Bytes} {ns : α → List Nat} {xs : List α} (h : ∀ x ∈ xs, Cut (f x) (g x) (ns x)) :
    Cut (xs.flatMap f) (xs.flatMap g) (xs.flatMap ns) := by
  induction xs with
  | nil => exact .plain []
  | cons x xs ih =>
    obtain ⟨hx, hxs⟩ := List.forall_mem_cons.mp h
    rw [List.flatMap_cons, List.flatMap_cons, List.flatMap_cons]
    exact hx.append (ih hxs)

end Cut

/-! ## The lengths of a message -/

/-- The lengths in a value, a message being given by its size and those in it. -/
def Value.prefixes : Value (Nat × List Nat) → List Nat
  | scalar _ => []
  | message part => part.1 :: part.2

def Entry.prefixes (entry : Entry (Nat × List Nat)) : List Nat := (entry.map Prod.fst).size :: entry.value.prefixes

/-- The lengths in a field, given the value of its choice if that selects it. -/
def Slot.prefixes (field : Field) (member : Option (Value (Nat × List Nat))) : Slot (Nat × List Nat) → List Nat
  | scalars values => if field.isPacked && !values.isEmpty then [Scalar.sizeAll values] else []
  | message value => value.get?.toList.flatMap fun part => part.1 :: part.2
  | messages values => values.active.flatMap fun part => part.1 :: part.2
  | map entries => entries.flatMap Entry.prefixes
  | .member => member.toList.flatMap Value.prefixes
  | scalar _ | texts _ => []

def Body.prefixes (type : MessageType) (body : Body (Nat × List Nat)) : List Nat :=
  ((type.fields.zip body.slots).mapIdx fun index (field, slot) =>
    slot.prefixes field (body.memberAt field index)).flatten

namespace Message

/-- The size of a message and the lengths in it. -/
def prefixStep (type : MessageType) (body : Body (Nat × List Nat)) : Nat × List Nat :=
  ((body.map Prod.fst).size type, body.prefixes type)

/-- Every length in the encoding of a message, in order. -/
def prefixes (table : TypeTable) (type : MessageType) (m : Message) : List Nat :=
  (m.foldTyped table type prefixStep).2

end Message

/-! ## Writing one level -/

/-- It remembers the size of this payload and is written as it with its lengths cut. -/
structure Written.Cuts (written : Written) (payload : Bytes) (part : Nat × List Nat) : Prop where
  size_eq : written.size = payload.length
  fst_eq : part.1 = payload.length
  cut : Cut payload written.bytes part.2

theorem Written.Cuts.framed {written : Written} {payload : Bytes} {part : Nat × List Nat}
    (h : written.Cuts payload part) : Cut (Frame.encode payload) written.framed (part.1 :: part.2) := by
  rw [Written.framed, Frame.encode, h.size_eq, h.fst_eq]
  exact (Cut.length _).append h.cut

section Level

variable {M : Type} {f : M → Bytes} {g : M → Written} {k : M → Nat × List Nat}

theorem Value.cut {value : Value M} (h : ∀ x, value = .message x → (g x).Cuts (f x) (k x)) :
    Cut (value.map f).wire (value.map g).encode (value.map k).prefixes := by
  cases value with
  | scalar v => exact .plain _
  | message x => exact (h x rfl).framed

theorem Entry.cut {entry : Entry M} (h : ∀ x, entry.value = .message x → (g x).Cuts (f x) (k x)) :
    Cut (Frame.encode (entry.map f).wire) (entry.map g).encode (entry.map k).prefixes := by
  obtain ⟨key, value⟩ := entry
  have hsizes : ((value.map g).map Written.size).size = ((value.map f).map List.length).size ∧
      ((value.map k).map Prod.fst).size = ((value.map f).map List.length).size := by
    cases value with
    | scalar v => exact ⟨rfl, rfl⟩
    | message x => exact ⟨congrArg Frame.size (h x rfl).size_eq, congrArg Frame.size (h x rfl).fst_eq⟩
  have hwritten : (Entry.map Written.size ⟨key, value.map g⟩).size = (Entry.wire ⟨key, value.map f⟩).length := by
    rw [Entry.length_wire]
    exact congrArg (2 + key.size + ·) hsizes.1
  have hcounted : (Entry.map Prod.fst ⟨key, value.map k⟩).size = (Entry.wire ⟨key, value.map f⟩).length := by
    rw [Entry.length_wire]
    exact congrArg (2 + key.size + ·) hsizes.2
  have htype : (value.map g).wireType = (value.map f).wireType := by cases value <;> rfl
  have hfields : Cut (Entry.wire ⟨key, value.map f⟩)
      (Tag.encode (Tag.make 1 key.kind.wireType) ++ key.encode ++
        (Tag.encode (Tag.make 2 (value.map f).wireType) ++ (value.map g).encode)) (value.map k).prefixes :=
    (Cut.plain _).append ((Cut.plain _).append (Value.cut h))
  have hentry := (Cut.length (Entry.wire ⟨key, value.map f⟩).length).append hfields
  show Cut (Frame.encode (Entry.wire ⟨key, value.map f⟩)) (Entry.encode ⟨key, value.map g⟩) (Entry.prefixes ⟨key, value.map k⟩)
  rw [Entry.encode, Entry.prefixes, hwritten, hcounted, htype]
  simpa only [Frame.encode, List.append_assoc, List.singleton_append] using hentry

/-- A field is written as it is without memory, with its lengths cut. -/
theorem Body.cut_slot {body : Body Written} {field : Field} {index : Nat} {slot : Slot M} {member : Option (Value M)}
    (hat : body.memberAt field index = member.map (Value.map g)) (hparts : ∀ x ∈ slot.inUse, (g x).Cuts (f x) (k x))
    (hmember : ∀ x, member = some (.message x) → (g x).Cuts (f x) (k x)) :
    Cut ((slot.mapParts f f).wire field body.presence (member.map (Value.map f)))
      (body.encodeSlot field index (slot.mapParts g g))
      ((slot.mapParts k k).prefixes field (member.map (Value.map k))) := by
  cases slot with
  | scalar v => exact .plain _
  | scalars vs =>
    rw [Slot.mapParts, Slot.mapParts, Slot.mapParts, Slot.wire, encodeSlot, Slot.prefixes]
    cases hpacked : field.isPacked with
    | false => exact .plain _
    | true =>
      cases hempty : vs.isEmpty with
      | true => exact .plain _
      | false =>
        have hrun := (Cut.length (Scalar.sizeAll vs)).append (Cut.plain (Scalar.encodeAll vs))
        rw [← Scalar.length_encodeAll] at hrun
        simpa [Frame.encode, Scalar.length_encodeAll] using (Cut.plain field.tagBytes).append hrun
  | texts vs => exact .plain _
  | message value =>
    cases value with
    | absent kept => exact .plain _
    | present x =>
      have hpart := (Cut.plain field.tagBytes).append (hparts x (List.mem_singleton_self x)).framed
      simpa [Slot.mapParts, Slot.wire, encodeSlot, Slot.prefixes, Singular.mapParts, Singular.get?] using hpart
  | messages values =>
    rw [Slot.mapParts, Slot.mapParts, Slot.mapParts, Slot.wire, encodeSlot, Slot.prefixes, Repeated.active_mapParts,
      Repeated.active_mapParts, Repeated.active_mapParts, List.flatMap_map, List.flatMap_map, List.flatMap_map]
    exact Cut.flatMap fun x hx => (Cut.plain field.tagBytes).append (hparts x hx).framed
  | map entries =>
    rw [Slot.mapParts, Slot.mapParts, Slot.mapParts, Slot.wire, encodeSlot, Slot.prefixes, List.flatMap_map,
      List.flatMap_map, List.flatMap_map]
    refine Cut.flatMap fun entry he => (Cut.plain field.tagBytes).append (Entry.cut fun x hx => hparts x ?_)
    exact List.mem_filterMap.mpr ⟨entry, he, by rw [hx]; rfl⟩
  | member =>
    rw [Slot.mapParts, Slot.mapParts, Slot.mapParts, Slot.wire, encodeSlot, Slot.prefixes, hat]
    cases member with
    | none => exact .plain _
    | some value =>
      have hvalue := (Cut.plain field.tagBytes).append (Value.cut fun x hx => hmember x (congrArg some hx))
      simpa using hvalue

end Level

namespace Body

variable {M N : Type} (table : TypeTable) (type : MessageType)

theorem mapIdx_zip_mapTyped {α : Type} (f : MessageType → M → N) (body : Body M) (step : Nat → Field × Slot N → α) :
    (type.fields.zip (body.mapTyped table type f).slots).mapIdx step =
      (type.fields.zip body.slots).zipIdx.map fun pair =>
        step pair.2 (pair.1.1, pair.1.2.mapParts (f (table.childAt type pair.2)) (f (table.childAt type pair.2))) := by
  refine List.ext_getElem? fun index => ?_
  rw [List.getElem?_mapIdx, List.getElem?_map, List.getElem?_zipIdx, Nat.zero_add, Option.map_map, List.zip, List.zip,
    List.getElem?_zipWith, List.getElem?_zipWith, slots_mapTyped]
  cases type.fields[index]? with
  | none => rfl
  | some field => cases body.slots[index]? <;> rfl

/-- A level is written as it is without memory, with its lengths cut. -/
theorem cut_pieces {f : MessageType → M → Bytes} {g : MessageType → M → Written} {k : MessageType → M → Nat × List Nat}
    {body : Body M} (hparts : ∀ part ∈ body.inUse, (g (table.childAt type part.1) part.2).Cuts
      (f (table.childAt type part.1) part.2) (k (table.childAt type part.1) part.2)) :
    Cut ((body.mapTyped table type f).wire type) ((body.mapTyped table type g).pieces type).flatten
      ((body.mapTyped table type k).prefixes type) := by
  rw [wire, segments, pieces, prefixes, mapIdx_zip_mapTyped, mapIdx_zip_mapTyped, mapIdx_zip_mapTyped,
    List.flatten_append, List.flatten_singleton, ← List.flatMap_def, ← List.flatMap_def, ← List.flatMap_def]
  refine Cut.append_plain (Cut.flatMap ?_) body.unknown
  rintro ⟨⟨field, slot⟩, index⟩ hpair
  obtain ⟨_, hslot⟩ := List.getElem?_zip_eq_some.mp (List.mem_zipIdx_iff_getElem?.mp hpair)
  have hcut := cut_slot (f := f (table.childAt type index)) (k := k (table.childAt type index))
    (memberAt_mapTyped table g body field index)
    (fun x hx => hparts (index, x) (mem_parts_iff.mpr (.inl ⟨slot, hslot, hx⟩)))
    (fun x hx => hparts (index, x) (mem_inUse_of_memberAt hx))
  rw [← memberAt_mapTyped, ← memberAt_mapTyped] at hcut
  exact hcut

theorem prefixes_tidy (body : Body (Nat × List Nat)) : body.tidy.prefixes type = body.prefixes type := by
  refine congrArg List.flatten (List.ext_getElem? fun index => ?_)
  rw [List.getElem?_mapIdx, List.getElem?_mapIdx, getElem?_zip_tidy, Option.map_map]
  refine congrArg (Option.map · _) (funext fun pair => ?_)
  obtain ⟨field, slot⟩ := pair
  show slot.tidy.prefixes field (body.tidy.memberAt field index) = slot.prefixes field (body.memberAt field index)
  rw [memberAt_tidy]
  cases slot with
  | message value => cases value <;> rfl
  | _ => rfl

end Body

/-! ## Writing a message -/

namespace Message

theorem prefixStep_tidy (type : MessageType) (body : Body (Nat × List Nat)) :
    prefixStep type body.tidy = prefixStep type body := by
  rw [prefixStep, prefixStep, Body.prefixes_tidy, Body.map_eq_mapTyped {} type, Body.map_eq_mapTyped {} type,
    ← Body.tidy_mapTyped, Body.size_tidy]

variable {table : TypeTable} {type : MessageType} {m : Message}

theorem prefixStep_fst (h : Typed table type m) : (m.foldTyped table type prefixStep).1 = (m.wire table type).length := by
  induction h with
  | @mk type body level _ ih =>
    have hsizes : ((body.mapTyped table type fun t m => m.foldTyped table t prefixStep).mapTyped table type
        fun _ => Prod.fst).tidy = (body.sizes table type).tidy := by
      rw [Body.mapTyped_mapTyped]
      exact Body.tidy_congr table type ih
    rw [foldTyped_mk, wire_length_mk level.1, prefixStep, Body.map_eq_mapTyped table type, ← Body.size_tidy, hsizes,
      Body.size_tidy]

theorem cuts_of_measured (h : Measured table type m) (ht : Typed table type m) :
    (m.foldTyped table type writeStep).Cuts (m.wire table type) (m.foldTyped table type prefixStep) := by
  induction h with
  | @mk type body level _ ih =>
    refine ⟨?_, prefixStep_fst ht, ?_⟩
    · rw [foldTyped_mk]
      exact level
    · rw [foldTyped_mk, foldTyped_mk, wire_mk]
      cases ht with
      | mk _ typedParts => exact Body.cut_pieces table type fun part hp => ih part hp (typedParts part hp)

theorem size_eq_length_wire (ht : Typed table type m) : m.size table type = (m.wire table type).length := by
  rw [size, (measure_measured ht).cachedSize_eq, wire_measure]

/-- A message is written as its encoding without memory, with its lengths cut. -/
theorem cut_encode (ht : Typed table type m) :
    Cut (m.wire table type) (m.encode table type) (m.prefixes table type) := by
  have h := (cuts_of_measured (measure_measured ht) ((measure_same table m type).typed ht)).cut
  rw [wire_measure, foldTyped_measure table prefixStep_tidy] at h
  exact h

theorem cut_encodeFramed (ht : Typed table type m) : Cut (Frame.encode (m.wire table type))
    (m.encodeFramed table type) (m.size table type :: m.prefixes table type) := by
  have h := (Cut.length (m.size table type)).append (cut_encode ht)
  rw [Frame.encode, ← size_eq_length_wire ht]
  exact h

/-- Without a bound on sizes, what is written is the encoding without memory with every length in it cut to its lowest
    32 bits. It is shorter than what was measured by what the cut lengths lost; the sizes agree just if each length
    fits 32 bits or takes five bytes before and after, and the bytes just if each fits. So it is with a message behind
    its own length, where that is one more to be cut. -/
theorem encode_cuts_lengths (table : TypeTable) (type : MessageType) (m : Message) (ht : Typed table type m) :
    let size := m.size table type
    let lengths := m.prefixes table type
    let Keeps (n : Nat) : Prop := n < 0x100000000 ∨ n < 0x800000000 ∧ 0x10000000 ≤ n % 0x100000000
    size = (m.wire table type).length ∧
      Cut (m.wire table type) (m.encode table type) lengths ∧
      size = (m.encode table type).length + total Varint.lost lengths ∧
      (size = (m.encode table type).length ↔ ∀ n ∈ lengths, Keeps n) ∧
      (m.encode table type = m.wire table type ↔ ∀ n ∈ lengths, n < 0x100000000) ∧
      Frame.size size = (m.encodeFramed table type).length + total Varint.lost (size :: lengths) ∧
      (Frame.size size = (m.encodeFramed table type).length ↔ ∀ n ∈ size :: lengths, Keeps n) ∧
      (m.encodeFramed table type = Frame.encode (m.wire table type) ↔ ∀ n ∈ size :: lengths, n < 0x100000000) := by
  intro size lengths Keeps
  have hsize : size = (m.wire table type).length := size_eq_length_wire ht
  have hcut := cut_encode ht
  have hframed := cut_encodeFramed ht
  have hframe : Frame.size size = (Frame.encode (m.wire table type)).length := by
    rw [Frame.length_encode, hsize]
  refine ⟨hsize, hcut, hsize.trans hcut.length_eq, ?_, hcut.eq_iff, hframe.trans hframed.length_eq, ?_, hframed.eq_iff⟩
  · rw [hsize]
    exact hcut.length_eq_iff
  · rw [hframe]
    exact hframed.length_eq_iff

set_option maxRecDepth 100000 in
/-- A point as a field, as a map value and as the member of a oneof, with a run of values between. -/
theorem encode_cuts_lengths_nested :
    let table := Sample.Shapes.table
    let shape := table.message "demo.shapes.Shape"
    let point := (new (table.message "demo.shapes.Point")).setSlot 0 (.scalar (.int32 7))
    let m := ((((new shape).setSlot 2 (.message (.present point))).setSlot 4 (.scalars [.int32 1, .int32 300])).setSlot 8
      (.map [⟨.int32 3, .message point⟩])).setChoice 0 { selected := some ⟨10, .message point⟩ }
    m.prefixes table shape = [2, 3, 6, 2, 2] ∧ m.size table shape = (m.encode table shape).length ∧
      m.encode table shape = m.wire table shape ∧
      m.encodeFramed table shape = Frame.encode (m.wire table shape) := by
  intro table shape point m
  obtain ⟨htyped, hlengths, hsmall⟩ : holds table (fun type body => body.Shaped type ∧ ∀ value ∈ body.values, value.Sized)
      2 shape m = true ∧ m.prefixes table shape = [2, 3, 6, 2, 2] ∧ m.size table shape < 0x100000000 := by
    decide +kernel
  obtain ⟨_, _, _, hsize, hbytes, _, _, hframed⟩ := encode_cuts_lengths table shape m (throughout_of_holds 2 htyped)
  have hfit : ∀ n ∈ m.prefixes table shape, n < 0x100000000 := by
    rw [hlengths]
    decide
  exact ⟨hlengths, hsize.mpr fun n hn => .inl (hfit n hn), hbytes.mpr hfit,
    hframed.mpr (List.forall_mem_cons.mpr ⟨hsmall, hfit⟩)⟩

/-! ## A run that is too long -/

section Run

variable {type : MessageType} {field : Field} {body : Body Message} {values : List Scalar}
  (hslots : body.slots = [.scalars values])
include hslots

theorem typed_run (table : TypeTable) (hshaped : body.Shaped type) (hchoices : body.choices = [])
    (hsized : ∀ value ∈ values, value.Sized) : Typed table type (mk body) := by
  refine .mk ⟨hshaped, ?_⟩ ?_
  · simpa [Body.values, hslots, hchoices, Slot.values] using hsized
  · intro part hp
    simp [Body.inUse, Body.parts, hslots, hchoices, Slot.inUse] at hp

variable (hfields : type.fields = [field]) (hpacked : field.isPacked = true) (hne : values ≠ [])
include hfields hpacked hne

theorem encode_run (table : TypeTable) : (mk body).encode table type =
    field.tagBytes ++ (lengthBytes (Scalar.sizeAll values) ++ (Scalar.encodeAll values ++ body.unknown)) := by
  simp [encode, encodeRaw, measure, foldTyped_mk, measureStep, writeStep, Body.pieces, Body.mapParts, Body.mapTyped, hfields,
    hslots, Slot.mapParts, Body.encodeSlot, hpacked, hne]

theorem prefixes_run (table : TypeTable) : (mk body).prefixes table type = [Scalar.sizeAll values] := by
  simp [prefixes, foldTyped_mk, prefixStep, Body.prefixes, Body.mapTyped, hfields, hslots, Slot.mapParts, Slot.prefixes, hpacked,
    hne]

end Run

end Message

/-- A file whose only message holds a run of numbers. -/
def numbers : Descriptor.File where
  dialect := some "proto3"
  messages := [.of "Run" [.repeated (.scalar "values" 1 .int32)]]

/-- So many zeros, at a byte each. -/
def zeros (count : Nat) : Message :=
  (Message.new ((Sample.tableOf numbers true).message "Run")).setSlot 0 (.scalars (List.replicate count (.int32 0)))

theorem encodeAll_zeros (count : Nat) : Scalar.encodeAll (List.replicate count (.int32 0)) = List.replicate count 0 := by
  have hzero : Scalar.encode (.int32 0) = [0] := by decide +kernel
  rw [Scalar.encodeAll]
  induction count with
  | zero => rfl
  | succ count ih => rw [List.replicate_succ, List.flatMap_cons, ih, hzero, List.replicate_succ, List.singleton_append]

/-- A run of zeros is written behind as many as there are, cut to 32 bits. -/
theorem encode_zeros {count : Nat} (h : count ≠ 0) :
    let table := Sample.tableOf numbers true
    let type := table.message "Run"
    Message.Typed table type (zeros count) ∧ (zeros count).prefixes table type = [count] ∧
      (zeros count).encode table type = 10 :: (lengthBytes count ++ List.replicate count 0) := by
  intro table type
  let values : List Scalar := List.replicate count (.int32 0)
  let body : Body Message := { (Message.new type).body with slots := (Message.new type).body.slots.set 0 (.scalars values) }
  -- only the type is evaluated: with the run in it, nothing could be
  obtain ⟨hfields, hshaped, hchoices, hunknown⟩ :
      (type.fields.map fun field => (field.strategy, field.tagBytes)) = [(.packed (.scalar .int32), [10])] ∧
        (Message.new type).body.Shaped type ∧ (Message.new type).body.choices = [] ∧
        (Message.new type).body.unknown = [] := by
    decide +kernel
  obtain ⟨field, hfield, hpair⟩ := List.map_eq_singleton_iff.mp hfields
  obtain ⟨hstrategy, htag⟩ := Prod.mk.inj hpair
  have hpacked : field.isPacked = true := by rw [Field.isPacked, hstrategy]
  have hslots : body.slots = [.scalars values] := by
    show (type.fields.map Slot.new).set 0 (.scalars values) = _
    rw [hfield]
    rfl
  have hne : values ≠ [] := fun hnil => h ((List.replicate_eq_nil_iff _).mp hnil)
  have hzero : ∀ value ∈ values, value = .int32 0 := fun value hv => List.eq_of_mem_replicate hv
  have hsize : Scalar.sizeAll values = count := by
    rw [← Scalar.length_encodeAll, encodeAll_zeros, List.length_replicate]
  have htyped : body.Shaped type := by
    refine hshaped.setSlot (by rw [hfield]; rfl) ?_
    rw [hstrategy]
    exact .packed fun value hv => by rw [hzero value hv]; rfl
  refine ⟨Message.typed_run hslots table htyped hchoices fun value hv => ?_, ?_, ?_⟩
  · rw [hzero value hv]
    trivial
  · exact (Message.prefixes_run hslots hfield hpacked hne table).trans (congrArg (fun n => [n]) hsize)
  · refine (Message.encode_run hslots hfield hpacked hne table).trans ?_
    rw [htag, hsize, encodeAll_zeros]
    show [10] ++ (lengthBytes count ++ (List.replicate count 0 ++ (Message.new type).body.unknown)) = _
    rw [hunknown, List.append_nil]
    rfl

/-- With 2^32 zeros, the run starts with a length of none and the message, behind its own, with one of six. -/
theorem encode_zeros_cut :
    let table := Sample.tableOf numbers true
    let type := table.message "Run"
    let m := zeros 0x100000000
    Message.Typed table type m ∧ m.encode table type = 10 :: 0 :: List.replicate 0x100000000 0 ∧
      m.size table type = (m.encode table type).length + 4 ∧
      m.encodeFramed table type = 6 :: m.encode table type ∧
      Frame.size (m.size table type) = (m.encodeFramed table type).length + 8 := by
  intro table type m
  obtain ⟨htyped, hlengths, hencode⟩ := encode_zeros (show (0x100000000 : Nat) ≠ 0 by decide)
  obtain ⟨hnone, hlost, hsix, hlost'⟩ : lengthBytes 0x100000000 = [0] ∧ Varint.lost 0x100000000 = 4 ∧
      lengthBytes 0x100000006 = [6] ∧ Varint.lost 0x100000006 = 4 := by
    decide +kernel
  rw [hnone, List.singleton_append] at hencode
  have hsize : m.size table type = (m.encode table type).length + 4 := by
    rw [Message.size_eq_length_wire htyped, (Message.cut_encode htyped).length_eq, hlengths, total_cons, hlost]
    rfl
  have hcount : m.size table type = 0x100000006 := by
    rw [hsize, hencode, List.length_cons, List.length_cons, List.length_replicate]
  refine ⟨htyped, hencode, hsize, ?_, ?_⟩
  · show lengthBytes (m.size table type) ++ m.encode table type = _
    rw [hcount, hsix, List.singleton_append]
  · rw [Message.size_eq_length_wire htyped, ← Frame.length_encode, (Message.cut_encodeFramed htyped).length_eq, hlengths,
      total_cons, total_cons, hlost]
    show _ + (Varint.lost (m.size table type) + _) = _
    rw [hcount, hlost']
    rfl

end Protobuf
