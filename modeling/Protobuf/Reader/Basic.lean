/-
  Protobuf.Reader.Basic — a cursor over a buffer, with nested limits.

  Reads stop at `limit`, never at the end of the buffer; entering a length-delimited part pushes
  a nearer limit and leaving it restores the old one. `depth` counts the messages and groups
  around the cursor. A failed read keeps the state it had reached: the error carries the reader.

  `left` is the measure of all loops over a reader; `Advances` and `Consumes` say that a read that
  succeeds keeps the limit and does not grow, or strictly shrinks, what is left.
-/

import Protobuf.Wire.Fixed
import Protobuf.Wire.Tag

namespace Protobuf

structure Reader where
  buffer : Array UInt8
  pos : Nat := 0
  limit : Nat
  depth : Nat := 0
  /-- Messages and groups that may be open at once. -/
  maxDepth : Nat
  /-- Where the last tag read began. -/
  tagStart : Nat := 0

/-- A read from a reader; when it fails, the error comes with the reader it left behind. -/
abbrev Read := EStateM DecodeError Reader

namespace Reader

def defaultMaxDepth : Nat := 100

/-- At the start of `bytes`, with room for `maxDepth` open messages and groups. -/
def ofBytesWithin (bytes : Bytes) (maxDepth : Nat) : Reader :=
  { buffer := bytes.toArray, limit := bytes.length, maxDepth }

def ofBytes (bytes : Bytes) : Reader := ofBytesWithin bytes defaultMaxDepth

/-- Bytes before the limit. -/
def left (r : Reader) : Nat := r.limit - r.pos

def atLimit (r : Reader) : Bool := r.pos == r.limit

/-- The bytes from `start` up to `stop`. -/
def slice (r : Reader) (start stop : Nat) : Bytes := (r.buffer.extract start stop).toList

/-- Up to `count` bytes at the cursor, fewer if the limit is nearer. -/
def peek (r : Reader) (count : Nat) : Bytes := r.slice r.pos (min (r.pos + count) r.limit)

def readVarint : Read Nat := fun r =>
  match Varint.decode (r.peek 10) with
  | .ok (value, count) => .ok value { r with pos := r.pos + count }
  | .error e => .error e r

/-- The word in the next `width` bytes. -/
def readFixed (width : Nat) : Read Nat := fun r =>
  match Fixed.decode width (r.peek width) with
  | .ok value => .ok value { r with pos := r.pos + width }
  | .error e => .error e r

/-- The next `count` bytes. -/
def advance (count : Nat) : Read Bytes := fun r =>
  if r.left < count then .error .truncated r
  else .ok (r.slice r.pos (r.pos + count)) { r with pos := r.pos + count }

/-- Brings the limit to `len` bytes from here and returns the one it replaces. -/
def pushLimit (len : Nat) : Read Nat := fun r =>
  if r.left < len then .error (.lengthOverrun len r.left) r
  else .ok r.limit { r with limit := r.pos + len }

/-- Restores a limit, skipping what is left before the present one. -/
def popLimit (limit : Nat) (r : Reader) : Reader := { r with pos := r.limit, limit }

/-- The next tag, `none` at the limit. -/
def readTag : Read (Option Tag) := fun r =>
  if r.atLimit then .ok none r
  else
    match readVarint { r with tagStart := r.pos } with
    | .error e r => .error e r
    | .ok raw r =>
      if 0x100000000 ≤ raw ∨ Tag.number raw = 0 then .error (.invalidTag raw) r
      else
        match Tag.wireType raw with
        | .error e => .error e r
        | .ok _ => .ok (some raw) r

/-- A length that the bytes left can hold. -/
def readLength : Read Nat := do
  let len ← readVarint
  let r ← get
  if r.left < len then
    throw (.lengthOverrun len r.left)
  return len

/-- A byte string behind its length. -/
def readBytes : Read Bytes := do
  let len ← readLength
  advance len

/-- Opens one more message or group. -/
def enter : Read Unit := fun r =>
  if r.maxDepth ≤ r.depth then .error (.recursionLimitExceeded r.maxDepth) r
  else .ok () { r with depth := r.depth + 1 }

/-- Closes the innermost message or group. -/
def leave (r : Reader) : Reader := { r with depth := r.depth - 1 }

/-! ## Progress -/

/-- A success keeps the limit and leaves no more than before. -/
def Advances {α : Type} (read : Read α) : Prop :=
  ∀ r a r', read r = .ok a r' → r'.limit = r.limit ∧ r'.left ≤ r.left

/-- A success keeps the limit and leaves less than before. -/
def Consumes {α : Type} (read : Read α) : Prop :=
  ∀ r a r', read r = .ok a r' → r'.limit = r.limit ∧ r'.left < r.left

theorem Consumes.advances {α : Type} {read : Read α} (h : Consumes read) : Advances read :=
  fun r a r' hr => ⟨(h r a r' hr).1, Nat.le_of_lt (h r a r' hr).2⟩

theorem advances_pure {α : Type} (a : α) : Advances (pure a : Read α) := by
  intro r b r' h
  cases h
  exact ⟨rfl, Nat.le_refl _⟩

theorem bind_ok {α β : Type} {read : Read α} {next : α → Read β} {r r' : Reader} {b : β}
    (h : (read >>= next) r = .ok b r') : ∃ a s, read r = .ok a s ∧ next a s = .ok b r' := by
  simp only [bind, EStateM.bind] at h
  split at h
  · exact ⟨_, _, by assumption, h⟩
  · cases h

theorem Consumes.bind {α β : Type} {read : Read α} {next : α → Read β} (h : Consumes read)
    (hn : ∀ a, Advances (next a)) : Consumes (read >>= next) := by
  intro r b r' hr
  obtain ⟨a, s, h₁, h₂⟩ := bind_ok hr
  have e₁ := h _ _ _ h₁
  have e₂ := hn a _ _ _ h₂
  exact ⟨by omega, by omega⟩

theorem Advances.discard {α : Type} {read : Read α} (h : Advances read) : Advances (discard read) := by
  intro r a r' hr
  simp only [Functor.discard, Functor.mapConst, Function.comp, EStateM.map] at hr
  split at hr
  · cases hr
    exact h _ _ _ (by assumption)
  · cases hr

theorem length_peek_le (r : Reader) (count : Nat) : (r.peek count).length ≤ r.left := by
  simp only [peek, slice, Array.length_toList, Array.size_extract, left]
  omega

theorem readVarint_consumes : Consumes readVarint := by
  intro r v r' h
  simp only [readVarint] at h
  split at h
  · rename_i value count hd
    have := Varint.pos_of_decode hd
    have := length_peek_le r 10
    cases h
    exact ⟨rfl, by simp only [left] at *; omega⟩
  · cases h

theorem readFixed_consumes {width : Nat} (hw : 0 < width) : Consumes (readFixed width) := by
  intro r v r' h
  simp only [readFixed] at h
  split at h
  · rename_i value hd
    simp only [Fixed.decode] at hd
    split at hd
    · have := length_peek_le r width
      cases h
      exact ⟨rfl, by simp only [left] at *; omega⟩
    · cases hd
  · cases h

theorem advance_advances (count : Nat) : Advances (advance count) := by
  intro r b r' h
  simp only [advance] at h
  split at h
  · cases h
  · cases h
    exact ⟨rfl, by simp only [left]; omega⟩

theorem readLength_consumes : Consumes readLength := by
  refine readVarint_consumes.bind fun len => ?_
  intro r a r' h
  obtain ⟨s, t, hg, h⟩ := bind_ok h
  cases hg
  split at h
  · obtain ⟨_, _, hx, _⟩ := bind_ok h
    cases hx
  · cases h
    exact ⟨rfl, Nat.le_refl _⟩

/-- A length that was read fits into what is left. -/
theorem readLength_room {r r' : Reader} {len : Nat} (h : readLength r = .ok len r') : len ≤ r'.left := by
  obtain ⟨n, s, _, h⟩ := bind_ok h
  obtain ⟨t, u, hg, h⟩ := bind_ok h
  cases hg
  split at h
  · obtain ⟨_, _, hx, _⟩ := bind_ok h
    cases hx
  · cases h
    simp only [left] at *
    omega

theorem readBytes_consumes : Consumes readBytes := readLength_consumes.bind advance_advances

theorem readTag_lt {r r' : Reader} {tag : Tag} (h : readTag r = .ok (some tag) r') :
    r'.limit = r.limit ∧ r'.left < r.left := by
  simp only [readTag] at h
  split at h
  · cases h
  · split at h
    · cases h
    · rename_i raw s hv
      have := readVarint_consumes _ _ _ hv
      split at h
      · cases h
      · split at h
        · cases h
        · cases h
          simpa [left] using this

end Reader

end Protobuf
