/-
  Protobuf.Proofs.Reading — values, runs of values and tags, as they are read.

  What was written is read back: a value by `takes_readScalar`, a packed run by
  `readRun_encodeAll`, a tag by `readTag_of_spells`. Texts and byte strings must have a length of 64
  bits (`Scalar.Sized`), since that is what a length can say. All these reads are local; a run also
  gives the same values before it fails.
-/

import Protobuf.Proofs.Window

namespace Protobuf

namespace Scalar

/-- Texts and byte strings are as long as a length can say. -/
def Sized : Scalar → Prop
  | string v => v.utf8ByteSize < 0x10000000000000000
  | bytes v => v.length < 0x10000000000000000
  | _ => True

instance (v : Scalar) : Decidable v.Sized := by
  cases v <;> unfold Sized <;> infer_instance

theorem length_encode_pos (v : Scalar) : 0 < v.encode.length := by
  rw [length_encode]
  cases v with
  | string v => exact Nat.lt_of_lt_of_le (Nat.succ_pos _) (Nat.le_add_right ..)
  | bytes v => exact Nat.lt_of_lt_of_le (Nat.succ_pos _) (Nat.le_add_right ..)
  | _ => exact Nat.succ_pos _

/-- Values of a kind with a width take just that. -/
theorem size_of_width? {v : Scalar} {width : Nat} (h : v.kind.width? = some width) : v.size = width := by
  cases v <;> cases h <;> rfl

end Scalar

namespace Reader

/-! ## Values -/

theorem readScalar_local (kind : Kind) : Local (readScalar kind) := by
  cases kind with
  | enum => exact readVarint_local.map _
  | scalar type =>
    cases type with
    | string => exact readText_local.map _
    | bytes => exact readBytes_local.map _
    | fixed32 | sfixed32 | float | fixed64 | sfixed64 | double => exact (readFixed_local _).map _
    | _ => exact readVarint_local.map _

variable {r r' : Reader} {kind : Kind} {v : Scalar} {values : List Scalar} {body head rest : Bytes}

/-- A number read and converted. -/
theorem takes_varint {n : Nat} (h : n < 0x10000000000000000) {f : Nat → Scalar} (hf : f n = v) :
    Takes (readVarint >>= fun x => pure (f x)) (Varint.encode n) v := by
  subst hf
  exact (takes_readVarint (spells_encode h)).map f

/-- A word read and converted. -/
theorem takes_fixed {width n : Nat} (h : n < Nat.pow 256 width) {f : Nat → Scalar} (hf : f n = v) :
    Takes (readFixed width >>= fun x => pure (f x)) (Fixed.encode width n) v := by
  subst hf
  have := (takes_readFixed (Fixed.length_encode width n)).map f
  rwa [Fixed.value_encode, Nat.mod_eq_of_lt h] at this

theorem takes_frame (h : body.length < 0x10000000000000000) :
    Takes readBytes (Frame.encode body) body := takes_readBytes (spells_encode h)

/-- Reading a value's kind gives the value back. -/
theorem takes_readScalar (h : v.Sized) : Takes (readScalar v.kind) v.encode v := by
  cases v with
  | int32 v => exact takes_varint v.toInt64.toUInt64.toNat_lt (congrArg _ (Scalar.ofNat_extended v))
  | enum v => exact takes_varint v.toInt64.toUInt64.toNat_lt (congrArg _ (Scalar.ofNat_extended v))
  | int64 v => exact takes_varint v.toUInt64.toNat_lt (congrArg _ (Scalar.ofNat_toUInt64 v))
  | uint32 v =>
    have := v.toNat_lt
    exact takes_varint (by omega) (congrArg _ UInt32.ofNat_toNat)
  | uint64 v => exact takes_varint v.toNat_lt (congrArg _ UInt64.ofNat_toNat)
  | sint32 v =>
    have := (ZigZag.encode32 v).toNat_lt
    refine takes_varint (by omega) (congrArg Scalar.sint32 ?_)
    rw [UInt32.ofNat_toNat, ZigZag.decode32_encode32]
  | sint64 v =>
    refine takes_varint (ZigZag.encode64 v).toNat_lt (congrArg Scalar.sint64 ?_)
    rw [UInt64.ofNat_toNat, ZigZag.decode64_encode64]
  | fixed32 v => exact takes_fixed v.toNat_lt (congrArg _ UInt32.ofNat_toNat)
  | float v => exact takes_fixed v.toNat_lt (congrArg _ UInt32.ofNat_toNat)
  | fixed64 v => exact takes_fixed v.toNat_lt (congrArg _ UInt64.ofNat_toNat)
  | double v => exact takes_fixed v.toNat_lt (congrArg _ UInt64.ofNat_toNat)
  | sfixed32 v => exact takes_fixed v.toUInt32.toNat_lt (congrArg _ (Scalar.ofNat_toUInt32 v))
  | sfixed64 v => exact takes_fixed v.toUInt64.toNat_lt (congrArg _ (Scalar.ofNat_toUInt64 v))
  | bool v =>
    have e : (Scalar.bool v).encode = Varint.encode v.toNat := by
      rw [Varint.encode]
      cases v <;> rfl
    rw [e]
    exact takes_varint (by cases v <;> decide) (by cases v <;> rfl)
  | string v =>
    have hl : (Bytes.ofText v).length < 0x10000000000000000 := by
      rw [Bytes.length_ofText]
      exact h
    have ht : Takes (textOf (Bytes.ofText v)) [] v := by
      rw [textOf, Bytes.toText?_ofText]
      exact takes_pure v
    have := ((takes_frame hl).bind ht).map Scalar.string
    rwa [List.append_nil] at this
  | bytes v => exact (takes_frame h).map Scalar.bytes

/-- What is read is of the kind asked for, and no longer than its length could say. -/
theorem readScalar_ok (h : readScalar kind r = .ok v r') : v.kind = kind ∧ v.Sized := by
  have hbytes : ∀ {b s}, readBytes r = .ok b s → b.length < 0x10000000000000000 := by
    intro b s hread
    obtain ⟨len, t, hlen, hadvance⟩ := bind_ok hread
    rw [readLength_eq] at hlen
    split at hlen
    · cases hlen
    · rename_i n t' hvarint
      obtain ⟨head, rest, _, hspells, rfl⟩ := readVarint_ok hvarint
      have hlt := Varint.lt_of_decode hspells
      split at hlen
      · cases hlen
      · cases hlen
        rw [advance] at hadvance
        split at hadvance
        · cases hadvance
        · cases hadvance
          rw [slice_eq, List.length_take]
          omega
  cases kind with
  | enum =>
    obtain ⟨_, _, _, h⟩ := bind_ok h
    cases h
    exact ⟨rfl, trivial⟩
  | scalar type =>
    cases type with
    | string =>
      obtain ⟨text, s, hread, h⟩ := bind_ok h
      cases h
      obtain ⟨b, t, hb, htext⟩ := bind_ok hread
      cases hsome : b.toText? with
      | none =>
        rw [textOf, hsome] at htext
        cases htext
      | some text' =>
        rw [textOf, hsome] at htext
        cases htext
        refine ⟨rfl, ?_⟩
        rw [Scalar.Sized, Bytes.length_of_toText? hsome]
        exact hbytes hb
    | bytes =>
      obtain ⟨b, s, hb, h⟩ := bind_ok h
      cases h
      exact ⟨rfl, hbytes hb⟩
    | _ =>
      obtain ⟨_, _, _, h⟩ := bind_ok h
      cases h
      exact ⟨rfl, trivial⟩

/-! ## Runs -/

theorem readValues_values : ∀ v ∈ (readValues kind r).values, v.kind = kind ∧ v.Sized := by
  fun_induction readValues kind r with
  | case1 => exact List.forall_mem_nil _
  | case2 => exact List.forall_mem_nil _
  | case3 r hl v s hs rest ih =>
    intro u hu
    rcases List.mem_cons.mp hu with rfl | hu
    · exact readScalar_ok hs
    · exact ih u hu

theorem readRun_values : ∀ v ∈ (readRun kind r).values, v.kind = kind ∧ v.Sized := by
  unfold readRun
  split
  · exact nofun
  · dsimp only
    split <;> exact readValues_values

theorem Run.eq_mk {run : Run} {result : EStateM.Result DecodeError Reader Unit} (hv : run.values = values)
    (hr : run.result = result) : run = ⟨values, result⟩ := by
  cases run
  cases hv
  cases hr
  rfl

theorem readValues_done (hv : r.Valid) (hw : r.window = []) : readValues kind r = ⟨[], .ok () r⟩ := by
  rw [readValues, if_pos ((atLimit_iff hv).mpr hw)]

theorem readValues_step (hv : r.Valid) (hw : r.window ≠ []) (h : readScalar kind r = .ok v r') :
    readValues kind r = ⟨v :: (readValues kind r').values, (readValues kind r').result⟩ := by
  rw [readValues, if_neg (fun e => hw ((atLimit_iff hv).mp e))]
  split
  · rename_i h'
    rw [h] at h'
    cases h'
  · rename_i h'
    rw [h] at h'
    cases h'
    rfl

theorem readValues_error {e : DecodeError} (hv : r.Valid) (hw : r.window ≠ []) (h : readScalar kind r = .error e r') :
    readValues kind r = ⟨[], .error (runError kind e) r'⟩ := by
  rw [readValues, if_neg (fun e => hw ((atLimit_iff hv).mp e))]
  split
  · rename_i h'
    rw [h] at h'
    cases h'
    rfl
  · rename_i h'
    rw [h] at h'
    cases h'

/-- A run that succeeds goes through the whole window. -/
theorem readValues_ok {a : Unit} (hv : r.Valid) (h : (readValues kind r).result = .ok a r') :
    r' = r.forward r.window.length := by
  fun_induction readValues kind r with
  | case1 r hl =>
    cases h
    rw [(atLimit_iff hv).mp hl]
    rfl
  | case2 => cases h
  | case3 r hl v s hs rest ih =>
    obtain ⟨bytes, tail, hw, rfl, _⟩ := (readScalar_local kind).ok hv hs
    obtain ⟨hv', hw'⟩ := hv.forward hw
    rw [ih hv' h, hw', hw, forward_forward, List.length_append]

/-- The same window gives the same values and the same ending, be it a failure. -/
theorem readValues_same (kind : Kind) {s : Reader} (hr : r.Valid) (hs : s.Valid) (hw : s.window = r.window) :
    (readValues kind s).values = (readValues kind r).values ∧
      ending (readValues kind s).result = ending (readValues kind r).result := by
  fun_induction readValues kind r generalizing s with
  | case1 r hl =>
    rw [readValues_done hs (hw.trans ((atLimit_iff hr).mp hl))]
    exact ⟨rfl, rfl⟩
  | case2 r hl e r' h =>
    have hne : s.window ≠ [] := fun e => hl ((atLimit_iff hr).mpr (hw.symm.trans e))
    have he := (readScalar_local kind).same hr hs hw
    rw [h] at he
    obtain ⟨s', h'⟩ := ending_error he
    rw [readValues_error hs hne h']
    exact ⟨rfl, rfl⟩
  | case3 =>
    rename_i r hl v r' h rest ih
    have hne : s.window ≠ [] := fun e => hl ((atLimit_iff hr).mpr (hw.symm.trans e))
    obtain ⟨bytes, tail, hb, rfl, ht⟩ := (readScalar_local kind).ok hr h
    obtain ⟨hr', hb'⟩ := hr.forward hb
    obtain ⟨hs', hw'⟩ := hs.forward (hw.trans hb)
    obtain ⟨h₁, h₂⟩ := ih hr' hs' (hw'.trans hb'.symm)
    rw [readValues_step hs hne (ht s tail hs (hw.trans hb))]
    exact ⟨congrArg (List.cons v) h₁, h₂⟩

/-- Values written back to back are read back to the limit. -/
theorem readValues_encodeAll (hk : ∀ v ∈ values, v.kind = kind ∧ v.Sized) (hv : r.Valid)
    (hw : r.window = Scalar.encodeAll values) :
    (readValues kind r).values = values ∧ ending (readValues kind r).result = .ok () := by
  induction values generalizing r with
  | nil =>
    rw [readValues_done hv hw]
    exact ⟨rfl, rfl⟩
  | cons v values ih =>
    obtain ⟨rfl, hs⟩ := hk v List.mem_cons_self
    have hb : r.window = v.encode ++ Scalar.encodeAll values := by rw [hw, Scalar.encodeAll, List.flatMap_cons]; rfl
    have hne : r.window ≠ [] := by
      intro e
      have := congrArg List.length (hb.symm.trans e)
      have := v.length_encode_pos
      simp only [List.length_append, List.length_nil] at *
      omega
    obtain ⟨hv', hw'⟩ := hv.forward hb
    obtain ⟨h₁, h₂⟩ := ih (fun u hu => hk u (List.mem_cons_of_mem v hu)) hv' hw'
    rw [readValues_step hv hne (takes_readScalar hs r _ hv hb)]
    exact ⟨congrArg (List.cons v) h₁, h₂⟩

theorem openRun_eq (kind : Kind) (r : Reader) :
    openRun kind r = match readLength r with
      | .error e r => .error e r
      | .ok len r => if isWhole kind len then pushLimit len r else .error .malformedPackedField r := by
  simp only [openRun, bind, EStateM.bind]
  cases readLength r with
  | error e r => rfl
  | ok len r =>
    simp only [checkWhole]
    by_cases h : isWhole kind len
    · simp only [h, if_true]
    · simp only [h, if_false, Bool.false_eq_true]

theorem openRun_of_spells (hv : r.Valid) (hw : r.window = head ++ (body ++ rest)) (hs : Varint.Spells head body.length)
    (hk : isWhole kind body.length = true) :
    openRun kind r = .ok r.limit ((r.forward head.length).confined false body.length) := by
  obtain ⟨hv', hw'⟩ := hv.forward hw
  have hl := hv'.le_left hw'
  rw [openRun_eq, readLength_of_spells hv hw hs (by rw [List.length_append]; omega)]
  simp only [hk, if_true, pushLimit]
  rw [if_neg (by omega)]
  rfl

theorem openRun_inv {inner : Reader} {outer : Nat} (hv : r.Valid) (h : openRun kind r = .ok outer inner) :
    ∃ head body rest, r.window = head ++ (body ++ rest) ∧ Varint.Spells head body.length ∧
      isWhole kind body.length = true := by
  rw [openRun_eq] at h
  split at h
  · cases h
  · rename_i len s hl
    obtain ⟨head, body, rest, hw, rfl, hs, _⟩ := readLength_ok hv hl
    split at h
    · exact ⟨head, body, rest, hw, hs, by assumption⟩
    · cases h

/-- A run in a window: what its values give, then behind it. -/
theorem readRun_of_spells (hv : r.Valid) (hw : r.window = head ++ (body ++ rest)) (hs : Varint.Spells head body.length)
    (hk : isWhole kind body.length = true) :
    (readRun kind r).values = (readValues kind ((r.forward head.length).confined false body.length)).values ∧
      ending (readRun kind r).result =
        ending (readValues kind ((r.forward head.length).confined false body.length)).result ∧
      ∀ a r', (readRun kind r).result = .ok a r' → r' = r.forward (head ++ body).length := by
  obtain ⟨hv', hw'⟩ := hv.forward hw
  obtain ⟨hi, hiw⟩ := hv'.confined hw' false
  rw [readRun, openRun_of_spells hv hw hs hk]
  dsimp only
  split
  · rename_i e s he
    exact ⟨rfl, by rw [he], fun a r' h => by cases h⟩
  · rename_i s he
    refine ⟨rfl, by rw [he]; rfl, fun a r' h => ?_⟩
    cases h
    rw [readValues_ok hi he, hiw, List.length_append]
    simp only [popLimit, confined, forward, Nat.add_assoc, Bool.false_eq_true, if_false]

theorem readRun_ok_inv {a : Unit} (hv : r.Valid) (h : (readRun kind r).result = .ok a r') :
    ∃ head body rest, r.window = head ++ (body ++ rest) ∧ Varint.Spells head body.length ∧
      isWhole kind body.length = true := by
  rw [readRun] at h
  split at h
  · cases h
  · rename_i ho
    exact openRun_inv hv ho

/-- Bytes that make up a run do so wherever they stand. -/
theorem readRun_move {a : Unit} (hv : r.Valid) (h : (readRun kind r).result = .ok a r') :
    ∃ bytes rest, r.window = bytes ++ rest ∧ r' = r.forward bytes.length ∧
      ∀ s rest', s.Valid → s.window = bytes ++ rest' →
        readRun kind s = ⟨(readRun kind r).values, .ok () (s.forward bytes.length)⟩ := by
  obtain ⟨head, body, rest, hw, hs, hk⟩ := readRun_ok_inv hv h
  obtain ⟨hvals, hend, hto⟩ := readRun_of_spells hv hw hs hk
  refine ⟨head ++ body, rest, by rw [hw, List.append_assoc], hto a r' h, fun s rest' hsv hsw => ?_⟩
  rw [List.append_assoc] at hsw
  obtain ⟨svals, send, sto⟩ := readRun_of_spells hsv hsw hs hk
  obtain ⟨hv', hw'⟩ := hv.forward hw
  obtain ⟨hsv', hsw'⟩ := hsv.forward hsw
  obtain ⟨hi, hiw⟩ := hv'.confined hw' false
  obtain ⟨hsi, hsiw⟩ := hsv'.confined hsw' false
  obtain ⟨same, sameEnd⟩ := readValues_same kind hi hsi (hsiw.trans hiw.symm)
  rw [h] at hend
  have hok : ending (readRun kind s).result = .ok a := by rw [send, sameEnd, ← hend]; rfl
  obtain ⟨s', hs'⟩ := ending_ok hok
  exact Run.eq_mk (by rw [svals, same, hvals]) (by rw [hs', sto _ _ hs'])

theorem readRun_same (kind : Kind) {s : Reader} (hr : r.Valid) (hs : s.Valid) (hw : s.window = r.window) :
    (readRun kind s).values = (readRun kind r).values ∧
      ending (readRun kind s).result = ending (readRun kind r).result := by
  have hl := readLength_same hr hs hw
  cases h₁ : readLength r with
  | error e r' =>
    rw [h₁] at hl
    obtain ⟨s', h₂⟩ := ending_error hl
    rw [readRun, readRun, openRun_eq, openRun_eq, h₁, h₂]
    exact ⟨rfl, rfl⟩
  | ok len r' =>
    obtain ⟨head, body, rest, hb, rfl, hsp, rfl⟩ := readLength_ok hr h₁
    by_cases hk : isWhole kind body.length = true
    · obtain ⟨rv, re, _⟩ := readRun_of_spells hr hb hsp hk
      obtain ⟨sv, se, _⟩ := readRun_of_spells hs (hw.trans hb) hsp hk
      obtain ⟨hr', hb'⟩ := hr.forward hb
      obtain ⟨hs', hw'⟩ := hs.forward (hw.trans hb)
      obtain ⟨hri, hriw⟩ := hr'.confined hb' false
      obtain ⟨hsi, hsiw⟩ := hs'.confined hw' false
      obtain ⟨same, sameEnd⟩ := readValues_same kind hri hsi (hsiw.trans hriw.symm)
      exact ⟨by rw [sv, same, rv], by rw [se, sameEnd, re]⟩
    · have h₂ := readLength_of_spells hs (hw.trans hb) hsp (by rw [List.length_append]; omega)
      rw [readRun, readRun, openRun_eq, openRun_eq, h₁, h₂]
      simp only [hk, if_false, Bool.false_eq_true]
      exact ⟨trivial, rfl⟩

/-- A run that was written is a whole number of values. -/
theorem isWhole_encodeAll (hk : ∀ v ∈ values, v.kind = kind) :
    isWhole kind (Scalar.encodeAll values).length = true := by
  unfold isWhole
  split
  · rename_i width h
    rw [beq_iff_eq, Scalar.length_encodeAll, Scalar.sizeAll]
    induction values with
    | nil => exact Nat.zero_mod _
    | cons v values ih =>
      have hv : v.size = width := Scalar.size_of_width? (by rw [hk v List.mem_cons_self]; exact h)
      rw [total_cons, hv, Nat.add_mod, Nat.mod_self, Nat.zero_add, Nat.mod_mod]
      exact ih fun u hu => hk u (List.mem_cons_of_mem v hu)
  · rfl

/-- A run that was written is read back. -/
theorem readRun_encodeAll (hk : ∀ v ∈ values, v.kind = kind ∧ v.Sized)
    (hs : Varint.Spells head (Scalar.encodeAll values).length) (hv : r.Valid)
    (hw : r.window = head ++ Scalar.encodeAll values ++ rest) :
    readRun kind r = ⟨values, .ok () (r.forward (head ++ Scalar.encodeAll values).length)⟩ := by
  rw [List.append_assoc] at hw
  obtain ⟨hv', hw'⟩ := hv.forward hw
  obtain ⟨hi, hiw⟩ := hv'.confined hw' false
  obtain ⟨h₁, h₂⟩ := readValues_encodeAll hk hi hiw
  obtain ⟨vals, ends, hto⟩ := readRun_of_spells hv hw hs (isWhole_encodeAll fun v h => (hk v h).1)
  rw [h₁] at vals
  obtain ⟨r', hr'⟩ := ending_ok (ends.trans h₂)
  exact Run.eq_mk vals (by rw [hr', hto _ _ hr'])

end Reader

/-! ## Tags -/

/-- A tag in a form, the shortest or not, that fills all of `bytes`. -/
structure Tag.Spells (bytes : Bytes) (tag : Tag) : Prop where
  spells : Varint.Spells bytes tag
  lt : tag < 0x100000000
  number_ne : tag.number ≠ 0
  wireType : tag.wireType?.isSome = true

theorem Tag.spells_make {n : Nat} (h0 : n ≠ 0) (h : n ≤ FieldNumber.max) (w : WireType) :
    Tag.Spells (Tag.encode (Tag.make n w)) (Tag.make n w) where
  spells := Reader.spells_encode (Nat.lt_trans (Tag.make_lt n w) (by decide))
  lt := Tag.make_lt n w
  number_ne := by rw [Tag.number_make h]; exact h0
  wireType := by rw [Tag.wireType?_make]; rfl

theorem Tag.Spells.ne_nil {bytes : Bytes} {tag : Tag} (h : Tag.Spells bytes tag) : bytes ≠ [] := by
  rintro rfl
  have := h.spells
  rw [Varint.Spells] at this
  exact absurd (Varint.pos_of_decode this).1 (Nat.lt_irrefl 0)

theorem Tag.wireType_of_some {tag : Tag} {w : WireType} (h : tag.wireType? = some w) : tag.wireType = .ok w := by
  have h : WireType.ofCode? tag.wireCode = some w := h
  rw [Tag.wireType, WireType.ofCode, h]

namespace Reader

theorem readTag_done {r : Reader} (hv : r.Valid) (hw : r.window = []) : readTag r = .ok none r := by
  rw [readTag, if_pos ((atLimit_iff hv).mpr hw)]

theorem readTag_of_spells {r : Reader} (hv : r.Valid) {head rest : Bytes} {tag : Tag} (hs : Tag.Spells head tag)
    (hw : r.window = head ++ rest) : readTag r = .ok (some tag) (r.pastTag head.length) := by
  have hne : ¬ r.atLimit = true := by
    rw [atLimit_iff hv, hw]
    exact List.append_ne_nil_of_left_ne_nil hs.ne_nil rest
  obtain ⟨w, hwt⟩ := Option.isSome_iff_exists.mp hs.wireType
  have hr : readVarint { r with tagStart := r.pos } = .ok tag (r.pastTag head.length) :=
    takes_readVarint hs.spells (r.tagged r.pos) rest (hv.tagged _) hw
  rw [readTag, if_neg hne, hr]
  dsimp only
  rw [if_neg, Tag.wireType_of_some hwt]
  rintro (h | h)
  · exact absurd hs.lt (Nat.not_lt.mpr h)
  · exact hs.number_ne h

theorem readTag_some {r r' : Reader} {tag : Tag} (h : readTag r = .ok (some tag) r') :
    ∃ head rest, r.window = head ++ rest ∧ Tag.Spells head tag ∧ r' = r.pastTag head.length := by
  rw [readTag] at h
  split at h
  · cases h
  · split at h
    · cases h
    · rename_i raw s hr
      obtain ⟨head, rest, hw, hs, rfl⟩ := readVarint_ok hr
      split at h
      · cases h
      · rename_i hok
        split at h
        · cases h
        · rename_i w ht
          cases h
          refine ⟨head, rest, hw, ⟨hs, ?_, ?_, ?_⟩, rfl⟩
          · exact Nat.lt_of_not_le fun hle => hok (.inl hle)
          · exact fun hz => hok (.inr hz)
          · rw [Tag.wireType, WireType.ofCode] at ht
            rw [Tag.wireType?]
            split at ht
            · rename_i hc
              rw [hc]
              rfl
            · cases ht

theorem readTag_none {r r' : Reader} (hv : r.Valid) (h : readTag r = .ok none r') : r.window = [] ∧ r' = r := by
  rw [readTag] at h
  split at h
  · rename_i hl
    cases h
    exact ⟨(atLimit_iff hv).mp hl, rfl⟩
  · split at h
    · cases h
    · split at h
      · cases h
      · split at h <;> cases h

theorem readTag_same {r s : Reader} (hr : r.Valid) (hs : s.Valid) (hw : s.window = r.window) :
    ending (readTag s) = ending (readTag r) := by
  by_cases h0 : r.window = []
  · rw [readTag_done hr h0, readTag_done hs (hw.trans h0)]
    rfl
  · have hl : ¬ r.atLimit = true := fun e => h0 ((atLimit_iff hr).mp e)
    have hl' : ¬ s.atLimit = true := fun e => h0 (hw.symm.trans ((atLimit_iff hs).mp e))
    have he := readVarint_local.same (hr.tagged r.pos) (hs.tagged s.pos) hw
    rw [readTag, readTag, if_neg hl, if_neg hl']
    cases h₁ : readVarint (r.tagged r.pos) with
    | error e r' =>
      rw [h₁] at he
      obtain ⟨s', h₂⟩ := ending_error he
      simp only [tagged] at h₁ h₂
      rw [h₁, h₂]
      rfl
    | ok raw r' =>
      rw [h₁] at he
      obtain ⟨s', h₂⟩ := ending_ok he
      simp only [tagged] at h₁ h₂
      rw [h₁, h₂]
      dsimp only
      split
      · rfl
      · split <;> rfl

end Reader

end Protobuf
