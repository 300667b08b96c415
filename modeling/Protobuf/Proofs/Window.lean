/-
  Protobuf.Proofs.Window — reading depends on the bytes before the limit and on nothing else.

  `window` is what a reader has before it, and every read is a function of it:
  - `Takes read bytes a`: in front of `bytes`, whatever follows, the read takes just these and
    gives `a`. Where a window starts is not part of it, so `Takes` is also what allows a part of
    the input to be moved.
  - `Local read`: a read that succeeds takes some bytes in this sense (`Local.ok`), and with the same
    window it ends the same way, failures included (`Local.same`).
  Reads in a row are local if each of them is (`Local.bind`). A length in front of bytes is not by
  itself, as it is checked against what follows, but together with those bytes it is.
-/

import Protobuf.Proofs.Wire
import Protobuf.Reader.Scalar

namespace Protobuf

/-- A number in a form, the shortest or not, that fills all of `bytes`. -/
def Varint.Spells (bytes : Bytes) (n : Nat) : Prop := decode bytes = .ok (n, bytes.length)

namespace Reader

/-! ## Windows -/

/-- The bytes before the limit. -/
def window (r : Reader) : Bytes := r.slice r.pos r.limit

structure Valid (r : Reader) : Prop where
  pos_le : r.pos ≤ r.limit
  limit_le : r.limit ≤ r.buffer.size

/-- Levels that may still be opened. -/
def room (r : Reader) : Nat := r.maxDepth - r.depth

/-- As many bytes further on. -/
def forward (r : Reader) (count : Nat) : Reader := { r with pos := r.pos + count }

/-- Behind a tag of as many bytes. -/
def pastTag (r : Reader) (count : Nat) : Reader := { r.forward count with tagStart := r.pos }

/-- With another place remembered for the last tag. -/
def tagged (r : Reader) (tagStart : Nat) : Reader := { r with tagStart }

/-- Confined to as many bytes, maybe a level further in. -/
def confined (r : Reader) (counted : Bool) (len : Nat) : Reader :=
  { r with limit := r.pos + len, depth := if counted then r.depth + 1 else r.depth }

theorem slice_eq (r : Reader) (start stop : Nat) :
    r.slice start stop = (r.buffer.toList.drop start).take (stop - start) := by
  rw [slice, Array.toList_extract, List.extract_eq_take_drop]

variable {r s : Reader} {bytes rest head : Bytes} {v len : Nat}

theorem length_window (h : r.Valid) : r.window.length = r.left := by
  have := h.pos_le
  have := h.limit_le
  rw [window, slice_eq, List.length_take, List.length_drop, Array.length_toList, left]
  omega

theorem window_forward (r : Reader) (count : Nat) : (r.forward count).window = r.window.drop count := by
  rw [window, window, slice_eq, slice_eq]
  show List.take (r.limit - (r.pos + count)) (List.drop (r.pos + count) r.buffer.toList) = _
  rw [List.drop_take, List.drop_drop, Nat.sub_add_eq]

theorem window_confined (counted : Bool) (h : len ≤ r.left) : (r.confined counted len).window = r.window.take len := by
  rw [window, window, slice_eq, slice_eq]
  show List.take (r.pos + len - r.pos) (List.drop r.pos r.buffer.toList) = _
  unfold left at h
  rw [List.take_take, Nat.add_sub_cancel_left, Nat.min_eq_left h]

theorem peek_eq (r : Reader) (count : Nat) : r.peek count = r.window.take count := by
  rw [peek, window, slice_eq, slice_eq, List.take_take]
  congr 1
  omega

theorem slice_pos_eq {count : Nat} (h : count ≤ r.left) : r.slice r.pos (r.pos + count) = r.window.take count := by
  unfold left at h
  rw [window, slice_eq, slice_eq, List.take_take, Nat.add_sub_cancel_left, Nat.min_eq_left h]

@[simp] theorem forward_forward (r : Reader) (a b : Nat) : (r.forward a).forward b = r.forward (a + b) := by
  simp only [forward, Nat.add_assoc]

theorem Valid.tagged (h : r.Valid) (t : Nat) : (r.tagged t).Valid := ⟨h.pos_le, h.limit_le⟩

theorem Valid.le_left (h : r.Valid) (hw : r.window = bytes ++ rest) : bytes.length ≤ r.left := by
  rw [← length_window h, hw, List.length_append]
  omega

/-- Past the bytes at the front of the window. -/
theorem Valid.forward (h : r.Valid) (hw : r.window = bytes ++ rest) :
    (r.forward bytes.length).Valid ∧ (r.forward bytes.length).window = rest := by
  have hl := h.le_left hw
  have := h.pos_le
  refine ⟨⟨?_, h.limit_le⟩, ?_⟩
  · show r.pos + bytes.length ≤ r.limit
    unfold left at hl
    omega
  · rw [window_forward, hw, List.drop_left]

/-- Inside the bytes at the front of the window. -/
theorem Valid.confined (h : r.Valid) (hw : r.window = bytes ++ rest) (counted : Bool) :
    (r.confined counted bytes.length).Valid ∧ (r.confined counted bytes.length).window = bytes := by
  have hl := h.le_left hw
  have := h.pos_le
  have := h.limit_le
  refine ⟨⟨?_, ?_⟩, ?_⟩
  · show r.pos ≤ r.pos + bytes.length
    omega
  · show r.pos + bytes.length ≤ r.buffer.size
    unfold left at hl
    omega
  · rw [window_confined counted hl, hw, List.take_left]

theorem atLimit_iff (h : r.Valid) : r.atLimit = true ↔ r.window = [] := by
  have := h.pos_le
  rw [← List.length_eq_zero_iff, length_window h]
  simp only [atLimit, left, beq_iff_eq]
  omega

theorem valid_ofBytesWithin (bytes : Bytes) (maxDepth : Nat) :
    (ofBytesWithin bytes maxDepth).Valid ∧ (ofBytesWithin bytes maxDepth).window = bytes := by
  refine ⟨⟨Nat.zero_le _, ?_⟩, ?_⟩
  · show bytes.length ≤ bytes.toArray.size
    exact Nat.le_of_eq (List.size_toArray ..).symm
  · rw [window, slice_eq]
    show List.take (bytes.length - 0) (List.drop 0 bytes.toArray.toList) = bytes
    rw [List.drop_zero, Nat.sub_zero, List.take_length]

/-! ## Local reads -/

/-- How a read ended, without the reader it left. -/
def ending {α : Type} : EStateM.Result DecodeError Reader α → Except DecodeError α
  | .ok a _ => .ok a
  | .error e _ => .error e

/-- In front of `bytes` the read takes these and no more, and gives `a`. -/
def Takes {α : Type} (read : Read α) (bytes : Bytes) (a : α) : Prop :=
  ∀ r rest, r.Valid → r.window = bytes ++ rest → read r = .ok a (r.forward bytes.length)

structure Local {α : Type} (read : Read α) : Prop where
  /-- What a success took is enough for it. -/
  ok : ∀ {r a r'}, r.Valid → read r = .ok a r' →
    ∃ bytes rest, r.window = bytes ++ rest ∧ r' = r.forward bytes.length ∧ Takes read bytes a
  /-- Where the window is the same, so is the ending. -/
  same : ∀ {r s}, r.Valid → s.Valid → s.window = r.window → ending (read s) = ending (read r)

variable {α β : Type}

theorem ending_ok {x : EStateM.Result DecodeError Reader α} {a : α} (h : ending x = .ok a) :
    ∃ r, x = .ok a r := by
  cases x with
  | ok b r => cases h; exact ⟨r, rfl⟩
  | error e r => cases h

theorem ending_error {x : EStateM.Result DecodeError Reader α} {e : DecodeError} (h : ending x = .error e) :
    ∃ r, x = .error e r := by
  cases x with
  | ok b r => cases h
  | error f r => cases h; exact ⟨r, rfl⟩

theorem bind_of_ok {read : Read α} {next : α → Read β} {a : α} (h : read r = .ok a s) :
    (read >>= next) r = next a s := by
  simp only [bind, EStateM.bind, h]

theorem bind_of_error {read : Read α} {next : α → Read β} {e : DecodeError} (h : read r = .error e s) :
    (read >>= next) r = .error e s := by
  simp only [bind, EStateM.bind, h]

theorem takes_pure (a : α) : Takes (pure a : Read α) [] a := fun _ _ _ _ => rfl

theorem Takes.bind {read : Read α} {next : α → Read β} {more : Bytes} {a : α} {b : β} (h : Takes read bytes a)
    (hn : Takes (next a) more b) : Takes (read >>= next) (bytes ++ more) b := by
  intro r rest hv hw
  rw [List.append_assoc] at hw
  obtain ⟨hv', hw'⟩ := hv.forward hw
  rw [bind_of_ok (h r _ hv hw), hn _ rest hv' hw', forward_forward, List.length_append]

theorem Takes.map {read : Read α} {a : α} (h : Takes read bytes a) (f : α → β) :
    Takes (read >>= fun x => pure (f x)) bytes (f a) := by
  have hmap : Takes (read >>= fun x => pure (f x)) (bytes ++ []) (f a) := h.bind (takes_pure (f a))
  rwa [List.append_nil] at hmap

theorem local_pure (a : α) : Local (pure a : Read α) where
  ok := by
    intro r b r' _ h
    cases h
    exact ⟨[], r.window, rfl, rfl, takes_pure a⟩
  same := fun _ _ _ => rfl

theorem local_throw (e : DecodeError) : Local (throw e : Read α) where
  ok := by
    intro r b r' _ h
    cases h
  same := fun _ _ _ => rfl

theorem Local.bind {read : Read α} {next : α → Read β} (h : Local read) (hn : ∀ a, Local (next a)) :
    Local (read >>= next) where
  ok := by
    intro r b r' hv hr
    obtain ⟨a, s, h₁, h₂⟩ := bind_ok hr
    obtain ⟨bytes, rest, hw, rfl, ht⟩ := h.ok hv h₁
    obtain ⟨hv', hw'⟩ := hv.forward hw
    obtain ⟨more, last, hm, rfl, ht'⟩ := (hn a).ok hv' h₂
    refine ⟨bytes ++ more, last, ?_, ?_, ht.bind ht'⟩
    · rw [hw, ← hw', hm, List.append_assoc]
    · rw [forward_forward, List.length_append]
  same := by
    intro r s hr hs hw
    have he := h.same hr hs hw
    cases h₁ : read r with
    | error e r' =>
      rw [h₁] at he
      obtain ⟨s', h₂⟩ := ending_error he
      rw [bind_of_error h₁, bind_of_error h₂]
      rfl
    | ok a r' =>
      -- both reads take the same bytes, so their windows stay the same
      obtain ⟨bytes, rest, hb, rfl, ht⟩ := h.ok hr h₁
      have h₂ := ht s rest hs (by rw [hw, hb])
      rw [bind_of_ok h₁, bind_of_ok h₂]
      obtain ⟨hr', hb'⟩ := hr.forward hb
      obtain ⟨hs', hw'⟩ := hs.forward (hw.trans hb)
      exact (hn a).same hr' hs' (hw'.trans hb'.symm)

theorem Local.map {read : Read α} (h : Local read) (f : α → β) : Local (read >>= fun a => pure (f a)) :=
  h.bind fun _ => local_pure _

theorem Local.discard {read : Read α} (h : Local read) : Local (discard read) := h.map fun _ => ()

theorem Takes.discard {read : Read α} {a : α} (h : Takes read bytes a) :
    Takes (discard read) bytes () := h.map fun _ => ()

/-! ## Numbers, words and bytes -/

theorem readVarint_eq (r : Reader) :
    readVarint r = match Varint.decode r.window with
      | .ok (value, count) => .ok value (r.forward count)
      | .error e => .error e r := by
  rw [readVarint, peek_eq, Varint.decode_take]
  rfl

/-- What a number is read from spells it, whatever follows. -/
theorem spells_of_decode {n : Nat} (h : Varint.decode bytes = .ok (v, n)) :
    ∃ head rest, bytes = head ++ rest ∧ head.length = n ∧ Varint.Spells head v := by
  have hn := Varint.pos_of_decode h
  have hl : (bytes.take n).length = n := by rw [List.length_take]; omega
  refine ⟨bytes.take n, bytes.drop n, (List.take_append_drop n bytes).symm, hl, ?_⟩
  have := (Varint.decode_append_of_decode [] h).2
  rw [List.append_nil] at this
  rw [Varint.Spells, this, hl]

theorem decode_of_spells (h : Varint.Spells head v) (rest : Bytes) :
    Varint.decode (head ++ rest) = .ok (v, head.length) := by
  have := (Varint.decode_append_of_decode rest h).2
  rwa [List.take_length] at this

theorem spells_encode {n : Nat} (h : n < 0x10000000000000000) : Varint.Spells (Varint.encode n) n := by
  have := Varint.decode_encode_append h []
  rwa [List.append_nil] at this

theorem takes_readVarint (h : Varint.Spells head v) : Takes readVarint head v := by
  intro r rest _ hw
  rw [readVarint_eq, hw, decode_of_spells h]

theorem readVarint_ok {r' : Reader} (h : readVarint r = .ok v r') :
    ∃ head rest, r.window = head ++ rest ∧ Varint.Spells head v ∧ r' = r.forward head.length := by
  rw [readVarint_eq] at h
  split at h
  · rename_i value count hd
    cases h
    obtain ⟨head, rest, hw, rfl, hs⟩ := spells_of_decode hd
    exact ⟨head, rest, hw, hs, rfl⟩
  · cases h

theorem readVarint_local : Local readVarint where
  ok := by
    intro r v r' _ h
    obtain ⟨head, rest, hw, hs, rfl⟩ := readVarint_ok h
    exact ⟨head, rest, hw, rfl, takes_readVarint hs⟩
  same := by
    intro r s _ _ hw
    rw [readVarint_eq, readVarint_eq, hw]
    split <;> rfl

theorem readFixed_eq (width : Nat) (r : Reader) :
    readFixed width r = if width ≤ r.window.length then
      .ok (Fixed.value (r.window.take width)) (r.forward width) else .error .truncated r := by
  rw [readFixed, peek_eq, Fixed.decode, List.take_take, Nat.min_self, List.length_take]
  by_cases h : width ≤ r.window.length
  · rw [if_pos (by omega), if_pos h]
    rfl
  · rw [if_neg (by omega), if_neg h]

theorem takes_readFixed {width : Nat} (h : bytes.length = width) :
    Takes (readFixed width) bytes (Fixed.value bytes) := by
  intro r rest _ hw
  subst h
  rw [readFixed_eq, hw, List.take_left, if_pos (by rw [List.length_append]; omega)]

theorem readFixed_local (width : Nat) : Local (readFixed width) where
  ok := by
    intro r v r' _ h
    rw [readFixed_eq] at h
    split at h
    · rename_i hw
      cases h
      have hl : (r.window.take width).length = width := by rw [List.length_take]; omega
      refine ⟨r.window.take width, r.window.drop width, (List.take_append_drop ..).symm, ?_, takes_readFixed hl⟩
      rw [hl]
    · cases h
  same := by
    intro r s _ _ hw
    rw [readFixed_eq, readFixed_eq, hw]
    split <;> rfl

theorem takes_advance (bytes : Bytes) : Takes (advance bytes.length) bytes bytes := by
  intro r rest hv hw
  have hl := hv.le_left hw
  rw [advance, if_neg (by omega), slice_pos_eq hl, hw, List.take_left]
  rfl

theorem advance_local (count : Nat) : Local (advance count) where
  ok := by
    intro r b r' hv h
    rw [advance] at h
    split at h
    · cases h
    · rename_i hc
      cases h
      have hl : (r.window.take count).length = count := by
        rw [List.length_take, length_window hv]
        omega
      refine ⟨r.window.take count, r.window.drop count, (List.take_append_drop ..).symm, ?_, ?_⟩
      · rw [hl]
        rfl
      · rw [slice_pos_eq (by omega)]
        have := takes_advance (r.window.take count)
        rwa [hl] at this
  same := by
    intro r s hr hs hw
    have hl : s.left = r.left := by rw [← length_window hs, hw, length_window hr]
    rw [advance, advance, hl]
    split
    · rfl
    · show Except.ok _ = Except.ok _
      rw [slice_pos_eq (by omega), slice_pos_eq (by omega), hw]

/-! ## Bytes behind their length -/

theorem readLength_eq (r : Reader) :
    readLength r = match readVarint r with
      | .error e r => .error e r
      | .ok len r => if r.left < len then .error (.lengthOverrun len r.left) r else .ok len r := by
  simp only [readLength, bind, EStateM.bind]
  cases readVarint r with
  | error e r => rfl
  | ok len r =>
    show (if r.left < len then _ else _ : Read Nat) r = if r.left < len then _ else _
    by_cases h : r.left < len
    · rw [if_pos h, if_pos h]
      rfl
    · rw [if_neg h, if_neg h]
      rfl

/-- A length can be read if it is spelled and as many bytes follow. -/
theorem readLength_of_spells (hv : r.Valid) (hw : r.window = head ++ rest) (hs : Varint.Spells head len)
    (hl : len ≤ rest.length) : readLength r = .ok len (r.forward head.length) := by
  obtain ⟨hv', hw'⟩ := hv.forward hw
  rw [readLength_eq, takes_readVarint hs r rest hv hw]
  show (if (r.forward head.length).left < len then _ else _) = _
  rw [if_neg (by rw [← length_window hv', hw']; omega)]

theorem readLength_ok {r' : Reader} (hv : r.Valid) (h : readLength r = .ok len r') :
    ∃ head body rest, r.window = head ++ (body ++ rest) ∧ body.length = len ∧ Varint.Spells head len ∧
      r' = r.forward head.length := by
  rw [readLength_eq] at h
  split at h
  · cases h
  · rename_i n s hr
    obtain ⟨head, rest, hw, hs, rfl⟩ := readVarint_ok hr
    obtain ⟨hv', hw'⟩ := hv.forward hw
    split at h
    · cases h
    · rename_i hl
      cases h
      rw [← length_window hv', hw'] at hl
      refine ⟨head, rest.take len, rest.drop len, ?_, ?_, hs, rfl⟩
      · rw [List.take_append_drop, hw]
      · rw [List.length_take]
        omega

theorem readLength_same (hr : r.Valid) (hs : s.Valid) (hw : s.window = r.window) :
    ending (readLength s) = ending (readLength r) := by
  have he := readVarint_local.same hr hs hw
  rw [readLength_eq, readLength_eq]
  cases h₁ : readVarint r with
  | error e r' =>
    rw [h₁] at he
    obtain ⟨s', h₂⟩ := ending_error he
    rw [h₂]
    rfl
  | ok len r' =>
    obtain ⟨head, rest, hb, hsp, rfl⟩ := readVarint_ok h₁
    rw [takes_readVarint hsp s rest hs (hw.trans hb)]
    obtain ⟨hr', hb'⟩ := hr.forward hb
    obtain ⟨hs', hw'⟩ := hs.forward (hw.trans hb)
    have hl : (s.forward head.length).left = (r.forward head.length).left := by
      rw [← length_window hs', hw', ← length_window hr', hb']
    simp only [hl]
    split <;> rfl

theorem takes_readBytes {body : Bytes} (h : Varint.Spells head body.length) : Takes readBytes (head ++ body) body := by
  intro r rest hv hw
  rw [List.append_assoc] at hw
  obtain ⟨hv', hw'⟩ := hv.forward hw
  rw [readBytes, bind_of_ok (readLength_of_spells hv hw h (by rw [List.length_append]; omega)),
    takes_advance body _ rest hv' hw', forward_forward, List.length_append]

theorem readBytes_local : Local readBytes where
  ok := by
    intro r b r' hv h
    obtain ⟨len, s, hl, ha⟩ := bind_ok h
    obtain ⟨head, body, rest, hw, rfl, hs, rfl⟩ := readLength_ok hv hl
    obtain ⟨hv', hw'⟩ := hv.forward hw
    rw [takes_advance body _ rest hv' hw'] at ha
    cases ha
    refine ⟨head ++ b, rest, by rw [hw, List.append_assoc], ?_, takes_readBytes hs⟩
    rw [forward_forward, List.length_append]
  same := by
    intro r s hr hs hw
    have he := readLength_same hr hs hw
    cases h₁ : readLength r with
    | error e r' =>
      rw [h₁] at he
      obtain ⟨s', h₂⟩ := ending_error he
      rw [readBytes, bind_of_error h₁, bind_of_error h₂]
      rfl
    | ok len r' =>
      obtain ⟨head, body, rest, hb, rfl, hsp, rfl⟩ := readLength_ok hr h₁
      have h₂ := readLength_of_spells hs (hw.trans hb) hsp (by rw [List.length_append]; omega)
      obtain ⟨hr', hb'⟩ := hr.forward hb
      obtain ⟨hs', hw'⟩ := hs.forward (hw.trans hb)
      rw [readBytes, bind_of_ok h₁, bind_of_ok h₂]
      exact (advance_local _).same hr' hs' (hw'.trans hb'.symm)

theorem textOf_local (bytes : Bytes) : Local (textOf bytes) := by
  unfold textOf
  split
  · exact local_pure _
  · exact local_throw _

theorem readText_local : Local readText := readBytes_local.bind textOf_local

end Reader

end Protobuf
