/-
  Protobuf.Reader.Skip — stepping over a field without knowing its type.

  The wire type alone fixes how far a payload reaches. A group reaches to its end tag, and groups
  nest, so `skipGroups` keeps the numbers of the groups still open, innermost first, and ends when
  the last of them is closed. `readRaw` returns the bytes stepped over, tag included.
-/

import Protobuf.Reader.Basic

namespace Protobuf.Reader

/-- Steps over a payload that is no group. -/
def skipPlain (tag : Tag) : Read Unit :=
  match tag.wireType with
  | .error e => throw e
  | .ok .varint => discard readVarint
  | .ok .fixed64 => discard (advance 8)
  | .ok .fixed32 => discard (advance 4)
  | .ok .lengthDelimited => discard readBytes
  | .ok .startGroup | .ok .endGroup => throw (.unexpectedEndGroup tag.number)

theorem skipPlain_advances (tag : Tag) : Advances (skipPlain tag) := by
  unfold skipPlain
  split
  · intro r a r' h
    cases h
  · exact readVarint_consumes.advances.discard
  · exact (advance_advances 8).discard
  · exact (advance_advances 4).discard
  · exact readBytes_consumes.advances.discard
  all_goals
    intro r a r' h
    cases h

/-- Steps over fields until the groups in `numbers`, innermost first, are all closed. -/
def skipGroups (numbers : List Nat) (r : Reader) : EStateM.Result DecodeError Reader Unit :=
  match numbers with
  | [] => .ok () r
  | number :: outer =>
    match _h : readTag r with
    | .error e r => .error e r
    | .ok none r => .error (.unterminatedGroup number) r
    | .ok (some tag) r' =>
      match tag.wireType? with
      | some .endGroup =>
        if tag.number = number then skipGroups outer r'.leave else .error (.unexpectedEndGroup tag.number) r'
      | some .startGroup =>
        match _he : enter r' with
        | .error e r => .error e r
        | .ok _ r' => skipGroups (tag.number :: number :: outer) r'
      | _ =>
        match _hs : skipPlain tag r' with
        | .error e r => .error e r
        | .ok _ r' => skipGroups (number :: outer) r'
termination_by r.left
decreasing_by
  · exact (readTag_lt _h).2
  · have := (readTag_lt _h).2
    simp only [enter] at _he
    split at _he
    · cases _he
    · cases _he
      exact this
  · have := (readTag_lt _h).2
    have := (skipPlain_advances tag _ _ _ _hs).2
    omega

/-- Steps over the payload of the tag just read. -/
def skip (tag : Tag) : Read Unit :=
  match tag.wireType? with
  | some .startGroup => do
    enter
    skipGroups [tag.number]
  | _ => skipPlain tag

/-- Steps over the payload of the tag just read and returns the bytes of the field, tag included. -/
def readRaw (tag : Tag) : Read Bytes := do
  let start := (← get).tagStart
  skip tag
  let r ← get
  return r.slice start r.pos

/-! ## Progress -/

theorem enter_advances : Advances enter := by
  intro r a r' h
  simp only [enter] at h
  split at h
  · cases h
  · cases h
    exact ⟨rfl, Nat.le_refl _⟩

theorem skipGroups_advances (numbers : List Nat) : Advances (skipGroups numbers) := by
  intro r a r' h
  fun_induction skipGroups numbers r with
  | case1 =>
    cases h
    exact ⟨rfl, Nat.le_refl _⟩
  | case4 =>
    rename_i ht _ ih
    have := readTag_lt ht
    have := ih h
    simp only [left, leave] at *
    omega
  | case7 =>
    rename_i ht _ _ _ he ih
    have := readTag_lt ht
    have := enter_advances _ _ _ he
    have := ih h
    omega
  | case9 =>
    rename_i ht _ _ hs _ _ ih
    have := readTag_lt ht
    have := skipPlain_advances _ _ _ _ hs
    have := ih h
    omega
  | _ => cases h

theorem skip_advances (tag : Tag) : Advances (skip tag) := by
  unfold skip
  split
  · intro r a r' h
    obtain ⟨_, s, he, hs⟩ := bind_ok h
    have := enter_advances _ _ _ he
    have := skipGroups_advances _ _ _ _ hs
    omega
  · exact skipPlain_advances tag

theorem readRaw_advances (tag : Tag) : Advances (readRaw tag) := by
  intro r a r' h
  obtain ⟨_, s, hg, h⟩ := bind_ok h
  cases hg
  obtain ⟨_, s, hs, h⟩ := bind_ok h
  obtain ⟨_, t, hg, h⟩ := bind_ok h
  cases hg
  cases h
  exact skip_advances tag _ _ _ hs

end Protobuf.Reader
