/-
  Protobuf.Proofs.Checked — reading with every access checked.

  A reader takes slices of its buffer, subtracts the cursor from the limit and counts levels down. `Checked` has
  the reads of a reader once more, in a form that faults (`none`) where one of these would be out of range, where
  the reader is not `InBounds` when it happens, or where a loop does not come nearer to its limit. Leaving a part
  restores the limit and counts down, as opening it did.

  A reader in bounds never faults, and the checked reads give what the plain ones do (`Sure`). What a read leaves is
  `Onward`: in bounds, within the old limit and no level further out, however it ended. A read that succeeds is
  `Level`, back at the same limit and depth. So does a merge (`merge_sure`), whose failures leave limits and levels
  of all the parts that were open.
-/

import Protobuf.Proofs.Locality

namespace Protobuf

open Schema

namespace Reader

/-! ## Bounds -/

/-- Last tag, cursor, limit and end of the buffer in this order, and no more levels than allowed. -/
structure InBounds (r : Reader) : Prop extends r.Valid where
  tag_le : r.tagStart ≤ r.pos
  depth_le : r.depth ≤ r.maxDepth

instance (r : Reader) : Decidable r.InBounds :=
  decidable_of_iff ((r.pos ≤ r.limit ∧ r.limit ≤ r.buffer.size) ∧ r.tagStart ≤ r.pos ∧ r.depth ≤ r.maxDepth)
    ⟨fun h => ⟨⟨h.1.1, h.1.2⟩, h.2.1, h.2.2⟩, fun h => ⟨⟨h.pos_le, h.limit_le⟩, h.tag_le, h.depth_le⟩⟩

theorem inBounds_ofBytesWithin (bytes : Bytes) (maxDepth : Nat) : (ofBytesWithin bytes maxDepth).InBounds :=
  ⟨(valid_ofBytesWithin bytes maxDepth).1, Nat.le_refl _, Nat.zero_le _⟩

/-- Further on in the same buffer, within the old limit and no level further out. -/
structure Onward (r s : Reader) : Prop where
  inBounds : s.InBounds
  buffer_eq : s.buffer = r.buffer
  maxDepth_eq : s.maxDepth = r.maxDepth
  pos_le : r.pos ≤ s.pos
  limit_le : s.limit ≤ r.limit
  depth_le : r.depth ≤ s.depth

/-- Further on at the same limit and depth. -/
structure Level (r s : Reader) : Prop extends r.Onward s where
  limit_eq : s.limit = r.limit
  depth_eq : s.depth = r.depth

theorem InBounds.level {r : Reader} (h : r.InBounds) : r.Level r :=
  ⟨⟨h, rfl, rfl, Nat.le_refl _, Nat.le_refl _, Nat.le_refl _⟩, rfl, rfl⟩

theorem Onward.trans {r s t : Reader} (h : r.Onward s) (h' : s.Onward t) : r.Onward t where
  inBounds := h'.inBounds
  buffer_eq := h'.buffer_eq.trans h.buffer_eq
  maxDepth_eq := h'.maxDepth_eq.trans h.maxDepth_eq
  pos_le := Nat.le_trans h.pos_le h'.pos_le
  limit_le := Nat.le_trans h'.limit_le h.limit_le
  depth_le := Nat.le_trans h.depth_le h'.depth_le

theorem Level.trans {r s t : Reader} (h : r.Level s) (h' : s.Level t) : r.Level t :=
  ⟨h.toOnward.trans h'.toOnward, h'.limit_eq.trans h.limit_eq, h'.depth_eq.trans h.depth_eq⟩

/-- With the cursor moved up to the limit at most. -/
theorem InBounds.forward {r : Reader} (h : r.InBounds) {count : Nat} (hc : count ≤ r.left) :
    r.Level (r.forward count) := by
  have hp := h.pos_le
  have ht := h.tag_le
  have hn : r.pos + count ≤ r.limit := by
    unfold left at hc
    omega
  refine ⟨⟨⟨⟨hn, h.limit_le⟩, ?_, h.depth_le⟩, rfl, rfl, ?_, Nat.le_refl _, Nat.le_refl _⟩, rfl, rfl⟩
  · show r.tagStart ≤ r.pos + count
    omega
  · show r.pos ≤ r.pos + count
    omega

/-- Back at a limit that lies no nearer. -/
theorem InBounds.popLimit {r : Reader} (h : r.InBounds) {limit : Nat} (hl : r.limit ≤ limit)
    (hb : limit ≤ r.buffer.size) : (r.popLimit limit).InBounds :=
  ⟨⟨hl, hb⟩, Nat.le_trans h.tag_le h.pos_le, h.depth_le⟩

theorem Onward.popLimit {r s : Reader} (h : r.Onward s) (hr : r.InBounds) : r.Onward (s.popLimit r.limit) where
  inBounds := h.inBounds.popLimit h.limit_le (by rw [h.buffer_eq]; exact hr.limit_le)
  buffer_eq := h.buffer_eq
  maxDepth_eq := h.maxDepth_eq
  pos_le := Nat.le_trans h.pos_le h.inBounds.pos_le
  limit_le := Nat.le_refl _
  depth_le := h.depth_le

end Reader

/-! ## Checked reads -/

/-- A read that may also fault. -/
abbrev Checked (α : Type) := Reader → Option (EStateM.Result DecodeError Reader α)

namespace Checked

open Reader (Run)

variable {α β : Type}

/-- The bytes from `start` up to `stop`, which must lie in this order in the buffer. -/
def slice (r : Reader) (start stop : Nat) : Option Bytes :=
  if r.InBounds ∧ start ≤ stop ∧ stop ≤ r.buffer.size then some (r.slice start stop) else none

/-- The bytes before the limit, which the cursor must not have passed. -/
def left (r : Reader) : Option Nat :=
  if r.InBounds ∧ r.pos ≤ r.limit then some (r.limit - r.pos) else none

/-- Closes the innermost message or group, of which there must be one. -/
def leave (r : Reader) : Option Reader :=
  if r.InBounds ∧ 0 < r.depth then some { r with depth := r.depth - 1 } else none

/-- Opens one more message or group; there must not be more of them than allowed. -/
def enter : Checked Unit := fun r =>
  match r.enter with
  | .error e s => some (.error e s)
  | .ok u s => if s.InBounds then some (.ok u s) else none

/-- Goes on after a success. -/
def andThen (x : Option (EStateM.Result DecodeError Reader α))
    (next : α → Reader → Option (EStateM.Result DecodeError Reader β)) :
    Option (EStateM.Result DecodeError Reader β) :=
  match x with
  | none => none
  | some (.error e r) => some (.error e r)
  | some (.ok a r) => next a r

def readVarint : Checked Nat := fun r =>
  (slice r r.pos r.limit).map fun bytes =>
    match Varint.decode (bytes.take 10) with
    | .ok (value, count) => .ok value { r with pos := r.pos + count }
    | .error e => .error e r

def advance (count : Nat) : Checked Bytes := fun r =>
  (left r).bind fun room =>
    if room < count then some (.error .truncated r)
    else (slice r r.pos (r.pos + count)).map fun bytes => .ok bytes { r with pos := r.pos + count }

def pushLimit (len : Nat) : Checked Nat := fun r =>
  (left r).map fun room =>
    if room < len then .error (.lengthOverrun len room) r else .ok r.limit { r with limit := r.pos + len }

def readTag : Checked (Option Tag) := fun r =>
  if r.atLimit then some (.ok none r)
  else
    andThen (readVarint { r with tagStart := r.pos }) fun raw r =>
      if 0x100000000 ≤ raw ∨ Tag.number raw = 0 then some (.error (.invalidTag raw) r)
      else
        match Tag.wireType raw with
        | .error e => some (.error e r)
        | .ok _ => some (.ok (some raw) r)

def readLength : Checked Nat := fun r =>
  andThen (readVarint r) fun len r =>
    (left r).map fun room => if room < len then .error (.lengthOverrun len room) r else .ok len r

def readBytes : Checked Bytes := fun r => andThen (readLength r) advance

def readText : Checked String := fun r => andThen (readBytes r) fun bytes r => some (Reader.textOf bytes r)

/-- A number lies in the bytes before the limit; texts and byte strings have a length. -/
def readScalar : Kind → Checked Scalar
  | .scalar .string => fun r => andThen (readText r) fun text r => some (.ok (.string text) r)
  | .scalar .bytes => fun r => andThen (readBytes r) fun bytes r => some (.ok (.bytes bytes) r)
  | kind => fun r => (slice r r.pos r.limit).map fun _ => Reader.readScalar kind r

def skipPlain (tag : Tag) : Checked Unit := fun r =>
  match tag.wireType with
  | .error e => some (.error e r)
  | .ok .varint => andThen (readVarint r) fun _ r => some (.ok () r)
  | .ok .fixed64 => andThen (advance 8 r) fun _ r => some (.ok () r)
  | .ok .fixed32 => andThen (advance 4 r) fun _ r => some (.ok () r)
  | .ok .lengthDelimited => andThen (readBytes r) fun _ r => some (.ok () r)
  | .ok .startGroup | .ok .endGroup => some (.error (.unexpectedEndGroup tag.number) r)

def skipGroups (numbers : List Nat) (r : Reader) : Option (EStateM.Result DecodeError Reader Unit) :=
  match numbers with
  | [] => some (.ok () r)
  | number :: outer =>
    andThen (readTag r) fun found s =>
      match found with
      | none => some (.error (.unterminatedGroup number) s)
      | some tag =>
        match tag.wireType? with
        | some .endGroup =>
          if tag.number = number then
            (leave s).bind fun s => if _h : s.left < r.left then skipGroups outer s else none
          else some (.error (.unexpectedEndGroup tag.number) s)
        | some .startGroup =>
          andThen (enter s) fun _ s =>
            if _h : s.left < r.left then skipGroups (tag.number :: number :: outer) s else none
        | _ =>
          andThen (skipPlain tag s) fun _ s =>
            if _h : s.left < r.left then skipGroups (number :: outer) s else none
termination_by r.left

def skip (tag : Tag) : Checked Unit := fun r =>
  match tag.wireType? with
  | some .startGroup => andThen (enter r) fun _ r => skipGroups [tag.number] r
  | _ => skipPlain tag r

def readRaw (tag : Tag) : Checked Bytes := fun r =>
  andThen (skip tag r) fun _ s => (slice s r.tagStart s.pos).map fun bytes => .ok bytes s

def readValues (kind : Kind) (r : Reader) : Option Run :=
  if r.atLimit then some ⟨[], .ok () r⟩
  else
    match readScalar kind r with
    | none => none
    | some (.error e s) => some ⟨[], .error (Reader.runError kind e) s⟩
    | some (.ok value s) =>
      if _h : s.left < r.left then (readValues kind s).map fun rest => ⟨value :: rest.values, rest.result⟩ else none
termination_by r.left

def openRun (kind : Kind) : Checked Nat := fun r =>
  andThen (readLength r) fun len s => andThen (some (Reader.checkWhole kind len s)) fun _ s => pushLimit len s

def readRun (kind : Kind) (r : Reader) : Option Run :=
  match openRun kind r with
  | none => none
  | some (.error e s) => some ⟨[], .error e s⟩
  | some (.ok outer inner) =>
    (readValues kind inner).map fun run =>
      match run.result with
      | .error e s => ⟨run.values, .error e s⟩
      | .ok () s => ⟨run.values, .ok () (s.popLimit outer)⟩

/-! ## No read faults -/

/-- The checked read ends as the plain one. Its successes are as `P` says, its failures onward of `b`. -/
structure Sure (b : Reader) (x : Option (EStateM.Result DecodeError Reader α))
    (y : EStateM.Result DecodeError Reader α) (P : α → Reader → Prop) : Prop where
  eq : x = some y
  ok : ∀ a s, y = .ok a s → P a s
  error : ∀ e s, y = .error e s → b.Onward s

variable {b r s : Reader}

theorem sure_ok {P : α → Reader → Prop} {a : α} (h : P a s) : Sure b (some (.ok a s)) (.ok a s) P := by
  refine ⟨rfl, ?_, ?_⟩
  · intro a' s' h'
    cases h'
    exact h
  · intro e s' h'
    cases h'

theorem sure_error {P : α → Reader → Prop} {e : DecodeError} (h : b.Onward s) :
    Sure b (some (.error e s)) (.error e s) P := by
  refine ⟨rfl, ?_, ?_⟩
  · intro a s' h'
    cases h'
  · intro e' s' h'
    cases h'
    exact h

theorem Sure.imp {x : Option (EStateM.Result DecodeError Reader α)} {y : EStateM.Result DecodeError Reader α}
    {P Q : α → Reader → Prop} {b' : Reader} (h : Sure b x y P) (hb : b'.Onward b) (hPQ : ∀ a s, P a s → Q a s) :
    Sure b' x y Q :=
  ⟨h.eq, fun a s hy => hPQ a s (h.ok a s hy), fun e s hy => hb.trans (h.error e s hy)⟩

theorem Sure.bind {x : Option (EStateM.Result DecodeError Reader α)} {read : Read α} {P : α → Reader → Prop}
    {Q : β → Reader → Prop} {next : α → Reader → Option (EStateM.Result DecodeError Reader β)} {next' : α → Read β}
    (h : Sure b x (read r) P) (hn : ∀ a s, P a s → Sure b (next a s) (next' a s) Q) :
    Sure b (andThen x next) ((read >>= next') r) Q := by
  rw [h.eq]
  show Sure b _ (EStateM.bind read next' r) Q
  cases hr : read r with
  | ok a s =>
    simp only [EStateM.bind, hr]
    exact hn a s (h.ok a s hr)
  | error e s =>
    simp only [EStateM.bind, hr]
    exact sure_error (h.error e s hr)

theorem Sure.discard {x : Option (EStateM.Result DecodeError Reader α)} {read : Read α} {P : Reader → Prop}
    (h : Sure b x (read r) fun _ s => P s) :
    Sure b (andThen x fun _ s => some (.ok () s)) ((Functor.discard read) r) fun _ s => P s := by
  rw [h.eq]
  cases hr : read r with
  | ok a s =>
    simp only [Functor.discard, Functor.mapConst, Function.comp, EStateM.map, hr]
    exact sure_ok (h.ok a s hr)
  | error e s =>
    simp only [Functor.discard, Functor.mapConst, Function.comp, EStateM.map, hr]
    exact sure_error (h.error e s hr)

theorem slice_eq {start stop : Nat} (h : r.InBounds) (h₁ : start ≤ stop) (h₂ : stop ≤ r.buffer.size) :
    slice r start stop = some (r.slice start stop) := by
  simp [slice, h, h₁, h₂]

theorem window_eq (h : r.InBounds) : slice r r.pos r.limit = some r.window := slice_eq h h.pos_le h.limit_le

theorem left_eq (h : r.InBounds) : left r = some r.left := by
  simp [left, h, h.pos_le, Reader.left]

theorem readVarint_sure (h : r.InBounds) : Sure r (readVarint r) (r.readVarint) fun _ s => r.Level s := by
  unfold readVarint Reader.readVarint
  rw [window_eq h, Option.map_some, Reader.peek_eq]
  cases hd : Varint.decode (r.window.take 10) with
  | error e => exact sure_error h.level.toOnward
  | ok pair =>
    have hpos := Varint.pos_of_decode hd
    have hlen := Reader.length_peek_le r 10
    rw [Reader.peek_eq] at hlen
    exact sure_ok (h.forward (by omega))

theorem advance_sure (h : r.InBounds) (count : Nat) :
    Sure r (advance count r) (Reader.advance count r) fun _ s => r.Level s := by
  unfold advance Reader.advance
  rw [left_eq h, Option.bind_some]
  by_cases hc : r.left < count
  · rw [if_pos hc, if_pos hc]
    exact sure_error h.level.toOnward
  · have hlevel := h.forward (Nat.le_of_not_lt hc)
    have hend : r.pos + count ≤ r.buffer.size := Nat.le_trans hlevel.inBounds.pos_le hlevel.inBounds.limit_le
    rw [if_neg hc, if_neg hc, slice_eq h (Nat.le_add_right ..) hend]
    exact sure_ok hlevel

theorem pushLimit_of_room {len : Nat} (h : len ≤ r.left) :
    Reader.pushLimit len r = .ok r.limit { r with limit := r.pos + len } := if_neg (Nat.not_lt.mpr h)

theorem pushLimit_sure (h : r.InBounds) (len : Nat) :
    Sure r (pushLimit len r) (Reader.pushLimit len r) fun old s =>
      old = r.limit ∧ s = { r with limit := r.pos + len } ∧ r.Onward s := by
  unfold pushLimit Reader.pushLimit
  rw [left_eq h, Option.map_some]
  by_cases hc : r.left < len
  · rw [if_pos hc]
    exact sure_error h.level.toOnward
  · have hp := h.pos_le
    have hl := h.limit_le
    have hn : r.pos + len ≤ r.limit := by
      unfold Reader.left at hc
      omega
    rw [if_neg hc]
    refine sure_ok ⟨rfl, rfl, ⟨⟨?_, ?_⟩, h.tag_le, h.depth_le⟩, rfl, rfl, Nat.le_refl _, hn, Nat.le_refl _⟩
    · exact Nat.le_add_right ..
    · exact Nat.le_trans hn hl

theorem readTag_sure (h : r.InBounds) :
    Sure r (readTag r) (Reader.readTag r) fun found s => r.Level s ∧ (found = none → s.pos = s.limit) := by
  have ht : r.Level { r with tagStart := r.pos } :=
    ⟨⟨⟨⟨h.pos_le, h.limit_le⟩, Nat.le_refl _, h.depth_le⟩, rfl, rfl, Nat.le_refl _, Nat.le_refl _, Nat.le_refl _⟩,
      rfl, rfl⟩
  unfold readTag Reader.readTag
  by_cases ha : r.atLimit
  · rw [if_pos ha, if_pos ha]
    refine sure_ok ⟨h.level, ?_⟩
    intro _
    simpa [Reader.atLimit] using ha
  rw [if_neg ha, if_neg ha]
  have hv := readVarint_sure ht.inBounds
  rw [hv.eq]
  cases hr : Reader.readVarint { r with tagStart := r.pos } with
  | error e s => exact sure_error (ht.toOnward.trans (hv.error e s hr))
  | ok raw s =>
    have hs := ht.trans (hv.ok raw s hr)
    simp only [andThen]
    by_cases hbad : 0x100000000 ≤ raw ∨ Tag.number raw = 0
    · rw [if_pos hbad, if_pos hbad]
      exact sure_error hs.toOnward
    · rw [if_neg hbad, if_neg hbad]
      cases hw : Tag.wireType raw with
      | error e => exact sure_error hs.toOnward
      | ok wireType =>
        refine sure_ok ⟨hs, ?_⟩
        intro hnone
        cases hnone

theorem readLength_sure (h : r.InBounds) :
    Sure r (readLength r) (Reader.readLength r) fun len s => r.Level s ∧ len ≤ s.left := by
  refine (readVarint_sure h).bind ?_
  intro len s hs
  show Sure r _ ((if s.left < len then throw (.lengthOverrun len s.left) else pure len : Read Nat) s) _
  rw [left_eq hs.inBounds, Option.map_some]
  by_cases hc : s.left < len
  · rw [if_pos hc, if_pos hc]
    exact sure_error hs.toOnward
  · rw [if_neg hc, if_neg hc]
    exact sure_ok ⟨hs, Nat.le_of_not_lt hc⟩

theorem readBytes_sure (h : r.InBounds) :
    Sure r (readBytes r) (Reader.readBytes r) fun _ s => r.Level s := by
  refine (readLength_sure h).bind ?_
  intro len s hs
  exact (advance_sure hs.1.inBounds len).imp hs.1.toOnward fun _ t ht => hs.1.trans ht

theorem readText_sure (h : r.InBounds) : Sure r (readText r) (Reader.readText r) fun _ s => r.Level s := by
  refine (readBytes_sure h).bind ?_
  intro bytes s hs
  unfold Reader.textOf
  cases bytes.toText? with
  | some text => exact sure_ok hs
  | none => exact sure_error hs.toOnward

theorem readFixed_sure (h : r.InBounds) (width : Nat) :
    Sure r (some (Reader.readFixed width r)) (Reader.readFixed width r) fun _ s => r.Level s := by
  unfold Reader.readFixed
  cases hd : Fixed.decode width (r.peek width) with
  | error e => exact sure_error h.level.toOnward
  | ok value =>
    have hlen := Reader.length_peek_le r width
    unfold Fixed.decode at hd
    split at hd
    · exact sure_ok (h.forward (by omega))
    · cases hd

/-- A number is read from the window, whatever is made of it. -/
theorem number_sure {read : Read Nat} (h : r.InBounds) (hread : Sure r (some (read r)) (read r) fun _ s => r.Level s)
    (make : Nat → Scalar) :
    Sure r ((slice r r.pos r.limit).map fun _ => (read >>= fun n => pure (make n)) r)
      ((read >>= fun n => pure (make n)) r) fun _ s => r.Level s := by
  have hmade : Sure r (andThen (some (read r)) fun n s => some (.ok (make n) s))
      ((read >>= fun n => pure (make n)) r) fun _ s => r.Level s :=
    hread.bind fun n s hs => sure_ok hs
  rw [window_eq h, Option.map_some]
  exact ⟨rfl, hmade.ok, hmade.error⟩

theorem readScalar_sure (h : r.InBounds) (kind : Kind) :
    Sure r (readScalar kind r) (Reader.readScalar kind r) fun _ s => r.Level s := by
  have varint : Sure r (some (Reader.readVarint r)) (Reader.readVarint r) fun _ s => r.Level s :=
    ⟨rfl, (readVarint_sure h).ok, (readVarint_sure h).error⟩
  cases kind with
  | enum => exact number_sure h varint _
  | scalar type =>
    cases type with
    | string => exact (readText_sure h).bind fun text s hs => sure_ok hs
    | bytes => exact (readBytes_sure h).bind fun bytes s hs => sure_ok hs
    | fixed32 | sfixed32 | float => exact number_sure h (readFixed_sure h 4) _
    | fixed64 | sfixed64 | double => exact number_sure h (readFixed_sure h 8) _
    | _ => exact number_sure h varint _

theorem skipPlain_sure (h : r.InBounds) (tag : Tag) :
    Sure r (skipPlain tag r) (Reader.skipPlain tag r) fun _ s => r.Level s := by
  unfold skipPlain Reader.skipPlain
  cases tag.wireType with
  | error e => exact sure_error h.level.toOnward
  | ok wireType =>
    cases wireType with
    | varint => exact (readVarint_sure h).discard
    | fixed64 => exact (advance_sure h 8).discard
    | fixed32 => exact (advance_sure h 4).discard
    | lengthDelimited => exact (readBytes_sure h).discard
    | startGroup => exact sure_error h.level.toOnward
    | endGroup => exact sure_error h.level.toOnward

theorem leave_eq (h : r.InBounds) (hd : 0 < r.depth) : leave r = some r.leave := by
  simp [leave, h, hd, Reader.leave]

theorem enter_sure (h : r.InBounds) :
    Sure r (enter r) (Reader.enter r) fun _ s => s = { r with depth := r.depth + 1 } ∧ r.Onward s := by
  unfold enter Reader.enter
  by_cases hd : r.maxDepth ≤ r.depth
  · rw [if_pos hd]
    exact sure_error h.level.toOnward
  · have hin : Reader.InBounds { r with depth := r.depth + 1 } :=
      ⟨⟨h.pos_le, h.limit_le⟩, h.tag_le, Nat.lt_of_not_le hd⟩
    simp only [hd, if_false, if_pos hin]
    exact sure_ok ⟨rfl, hin, rfl, rfl, Nat.le_refl _, Nat.le_refl _, Nat.le_succ _⟩

/-- As many groups are open as levels were entered since `b`. -/
theorem skipGroups_sure {numbers : List Nat} (hb : b.Onward r) (hl : r.limit = b.limit)
    (hd : r.depth = b.depth + numbers.length) :
    Sure b (skipGroups numbers r) (Reader.skipGroups numbers r) fun _ s => b.Level s := by
  have step : ∀ {r s : Reader} {tag : Tag}, b.Onward r → r.limit = b.limit → Reader.readTag r = .ok (some tag) s →
      readTag r = some (.ok (some tag) s) ∧ b.Onward s ∧ s.limit = b.limit ∧ s.depth = r.depth ∧ s.left < r.left := by
    intro r s tag hb hl ht
    have hsure := readTag_sure hb.inBounds
    have hs := (hsure.ok _ _ ht).1
    exact ⟨by rw [hsure.eq, ht], hb.trans hs.toOnward, hs.limit_eq.trans hl, hs.depth_eq, (Reader.readTag_lt ht).2⟩
  fun_induction Reader.skipGroups numbers r with
  | case1 r =>
    rw [skipGroups]
    exact sure_ok ⟨hb, hl, hd⟩
  | case2 r number outer e s ht =>
    have hsure := readTag_sure hb.inBounds
    rw [skipGroups, hsure.eq, ht]
    exact sure_error (hb.trans (hsure.error e s ht))
  | case3 r number outer s ht =>
    have hsure := readTag_sure hb.inBounds
    rw [skipGroups, hsure.eq, ht]
    exact sure_error (hb.trans (hsure.ok _ s ht).1.toOnward)
  | case4 =>
    rename_i r outer tag s ht hw ih
    obtain ⟨heq, hs, hls, hds, hlt⟩ := step hb hl ht
    rw [List.length_cons] at hd
    have hleave : b.Onward s.leave :=
      ⟨⟨⟨hs.inBounds.pos_le, hs.inBounds.limit_le⟩, hs.inBounds.tag_le,
        Nat.le_trans (Nat.sub_le ..) hs.inBounds.depth_le⟩, hs.buffer_eq, hs.maxDepth_eq, hs.pos_le, hs.limit_le, by
        show b.depth ≤ s.depth - 1
        omega⟩
    rw [skipGroups, heq]
    simp only [andThen, hw, if_true, leave_eq hs.inBounds (by omega), Option.bind_some]
    rw [dif_pos (show s.leave.left < r.left from hlt)]
    refine ih hleave hls ?_
    show s.depth - 1 = _
    omega
  | case5 =>
    rename_i r number outer tag s ht hw hne
    obtain ⟨heq, hs, -⟩ := step hb hl ht
    rw [skipGroups, heq]
    simp only [andThen, hw, hne, if_false]
    exact sure_error hs
  | case6 =>
    rename_i r number outer tag s ht hw e t he
    obtain ⟨heq, hs, -⟩ := step hb hl ht
    rw [skipGroups, heq]
    simp only [andThen, hw, (enter_sure hs.inBounds).eq, he]
    exact sure_error (hs.trans ((enter_sure hs.inBounds).error e t he))
  | case7 =>
    rename_i r number outer tag s ht hw u t he ih
    obtain ⟨heq, hs, hls, hds, hlt⟩ := step hb hl ht
    obtain ⟨rfl, hent⟩ := (enter_sure hs.inBounds).ok u t he
    rw [skipGroups, heq]
    simp only [andThen, hw, (enter_sure hs.inBounds).eq, he]
    rw [dif_pos (show Reader.left { s with depth := s.depth + 1 } < r.left from hlt)]
    refine ih (hs.trans hent) hls ?_
    show s.depth + 1 = _
    simp only [List.length_cons] at *
    omega
  | case8 =>
    rename_i r number outer tag s ht e t hp hne hns
    obtain ⟨heq, hs, -⟩ := step hb hl ht
    have hsure := skipPlain_sure hs.inBounds tag
    rw [skipGroups, heq]
    simp only [andThen, hsure.eq, hp]
    exact sure_error (hs.trans (hsure.error e t hp))
  | case9 =>
    rename_i r number outer tag s ht u t hp hne hns ih
    obtain ⟨heq, hs, hls, hds, hlt⟩ := step hb hl ht
    have hsure := skipPlain_sure hs.inBounds tag
    have ht' := hsure.ok u t hp
    have hleft : t.left < r.left := Nat.lt_of_le_of_lt (Reader.skipPlain_advances tag _ _ _ hp).2 hlt
    rw [skipGroups, heq]
    simp only [andThen, hsure.eq, hp]
    rw [dif_pos hleft]
    exact ih (hs.trans ht'.toOnward) (ht'.limit_eq.trans hls) (ht'.depth_eq.trans (hds.trans hd))

theorem skip_sure (h : r.InBounds) (tag : Tag) : Sure r (skip tag r) (Reader.skip tag r) fun _ s => r.Level s := by
  unfold skip Reader.skip
  cases tag.wireType? with
  | none => exact skipPlain_sure h tag
  | some wireType =>
    cases wireType with
    | startGroup =>
      refine (enter_sure h).bind ?_
      intro _ s hs
      exact skipGroups_sure hs.2 (by rw [hs.1]) (by rw [hs.1]; rfl)
    | _ => exact skipPlain_sure h tag

theorem readRaw_sure (h : r.InBounds) (tag : Tag) :
    Sure r (readRaw tag r) (Reader.readRaw tag r) fun _ s => r.Level s := by
  show Sure r (readRaw tag r) ((Reader.skip tag >>= fun _ s => .ok (s.slice r.tagStart s.pos) s) r) _
  refine (skip_sure h tag).bind ?_
  intro _ s hs
  have hstart : r.tagStart ≤ s.pos := Nat.le_trans h.tag_le hs.pos_le
  rw [slice_eq hs.inBounds hstart (Nat.le_trans hs.inBounds.pos_le hs.inBounds.limit_le), Option.map_some]
  exact sure_ok hs

/-- The checked run is the plain one. It ends level with `b`, or onward of it. -/
structure SureRun (b : Reader) (x : Option Run) (y : Run) : Prop where
  eq : x = some y
  ok : ∀ s, y.result = .ok () s → b.Level s
  error : ∀ e s, y.result = .error e s → b.Onward s

theorem sureRun_ok (values : List Scalar) (h : b.Level s) : SureRun b (some ⟨values, .ok () s⟩) ⟨values, .ok () s⟩ := by
  refine ⟨rfl, ?_, ?_⟩
  · intro t ht
    cases ht
    exact h
  · intro e t ht
    cases ht

theorem sureRun_error (values : List Scalar) (e : DecodeError) (h : b.Onward s) :
    SureRun b (some ⟨values, .error e s⟩) ⟨values, .error e s⟩ := by
  refine ⟨rfl, ?_, ?_⟩
  · intro t ht
    cases ht
  · intro e' t ht
    cases ht
    exact h

theorem readValues_sure (h : r.InBounds) (kind : Kind) :
    SureRun r (readValues kind r) (Reader.readValues kind r) := by
  fun_induction Reader.readValues kind r with
  | case1 r ha =>
    rw [readValues, if_pos ha]
    exact sureRun_ok _ h.level
  | case2 r ha e s hr =>
    have hsure := readScalar_sure h kind
    rw [readValues, if_neg ha, hsure.eq, hr]
    exact sureRun_error _ _ (hsure.error e s hr)
  | case3 r ha value s hr rest ih =>
    have hsure := readScalar_sure h kind
    have hs := hsure.ok value s hr
    have hrest := ih hs.inBounds
    rw [readValues, if_neg ha, hsure.eq, hr]
    dsimp only
    rw [dif_pos (Reader.readScalar_consumes kind _ _ _ hr).2, hrest.eq]
    exact ⟨rfl, fun t ht => hs.trans (hrest.ok t ht), fun e t ht => hs.toOnward.trans (hrest.error e t ht)⟩

theorem openRun_sure (h : r.InBounds) (kind : Kind) :
    Sure r (openRun kind r) (Reader.openRun kind r) fun outer inner =>
      outer = r.limit ∧ r.Onward inner ∧ inner.depth = r.depth := by
  refine (readLength_sure h).bind ?_
  intro len s hs
  have hwhole : Sure r (some (Reader.checkWhole kind len s)) (Reader.checkWhole kind len s) fun _ t => t = s := by
    unfold Reader.checkWhole
    by_cases hk : Reader.isWhole kind len
    · rw [if_pos hk]
      exact sure_ok rfl
    · rw [if_neg hk]
      exact sure_error hs.1.toOnward
  refine hwhole.bind ?_
  intro _ t ht
  subst ht
  refine (pushLimit_sure hs.1.inBounds len).imp hs.1.toOnward ?_
  intro outer inner hi
  refine ⟨hi.1.trans hs.1.limit_eq, hs.1.toOnward.trans hi.2.2, ?_⟩
  rw [hi.2.1]
  exact hs.1.depth_eq

theorem readRun_sure (h : r.InBounds) (kind : Kind) : SureRun r (readRun kind r) (Reader.readRun kind r) := by
  have hopen := openRun_sure h kind
  unfold readRun Reader.readRun
  rw [hopen.eq]
  cases ho : Reader.openRun kind r with
  | error e s => exact sureRun_error _ _ (hopen.error e s ho)
  | ok outer inner =>
    obtain ⟨rfl, hin, hdepth⟩ := hopen.ok outer inner ho
    have hval := readValues_sure hin.inBounds kind
    dsimp only
    rw [hval.eq, Option.map_some]
    cases hv : (Reader.readValues kind inner).result with
    | error e s => exact sureRun_error _ _ (hin.trans (hval.error e s hv))
    | ok u s =>
      have hs := hval.ok s hv
      exact sureRun_ok _ ⟨(hin.trans hs.toOnward).popLimit h, rfl, hs.depth_eq.trans hdepth⟩

end Checked

end Protobuf
