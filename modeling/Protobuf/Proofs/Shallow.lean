/-
  Protobuf.Proofs.Shallow — what fewer levels change.

  Levels are asked for where a group or a sub-message is opened, and nowhere else. So a reader with the bytes of
  another before it and no more levels left does what that one does until it cannot open a part: if the other
  succeeds, this one gives the same message or fails for want of levels (`mergeWithin_shallow`), and with more levels
  a merge that succeeded gives the same again (`mergeWithin_deeper`).
-/

import Protobuf.Proofs.Locality

namespace Protobuf

open Schema

namespace Reader

/-- The same bytes before `r` as before `s`, and no more levels left. -/
structure Shallower (r s : Reader) : Prop where
  valid_left : r.Valid
  valid_right : s.Valid
  window_eq : s.window = r.window
  room_le : r.room ≤ s.room

theorem Shallower.past {r s r' s' : Reader} (h : Shallower r s) {bytes rest : Bytes} (hw : r.window = bytes ++ rest)
    (hr : Past r bytes.length r.depth r') (hs : Past s bytes.length s.depth s') : Shallower r' s' := by
  obtain ⟨hv, hw'⟩ := hr.valid h.valid_left hw
  obtain ⟨hv', hw''⟩ := hs.valid h.valid_right (h.window_eq.trans hw)
  refine ⟨hv, hv', hw''.trans hw'.symm, ?_⟩
  rw [hr.room_eq, hs.room_eq]
  exact h.room_le

theorem Shallower.tagged {r s : Reader} (h : Shallower r s) (start start' : Nat) :
    Shallower (r.tagged start) (s.tagged start') :=
  ⟨h.valid_left.tagged start, h.valid_right.tagged start', h.window_eq, h.room_le⟩

theorem Shallower.readTag {r s r' : Reader} {tag : Tag} (h : Shallower r s) (ht : r.readTag = .ok (some tag) r') :
    ∃ head rest, r.window = head ++ rest ∧ r' = r.pastTag head.length ∧
      s.readTag = .ok (some tag) (s.pastTag head.length) ∧ Shallower r' (s.pastTag head.length) := by
  obtain ⟨head, rest, hw, hspell, rfl⟩ := readTag_some ht
  have ht' := readTag_of_spells h.valid_right hspell (h.window_eq.trans hw)
  exact ⟨head, rest, hw, rfl, ht', h.past hw (past_pastTag r _) (past_pastTag s _)⟩

/-! ## Sub-messages -/

theorem openNested_shallow {counted : Bool} {r s r' : Reader} {e : DecodeError} (h : Shallower r s)
    (hr : openNested counted r = .error e r') :
    (∃ f s', openNested counted s = .error f s') ∨ e = .recursionLimitExceeded r.maxDepth := by
  have hl := readLength_same h.valid_left h.valid_right h.window_eq
  unfold openNested at hr ⊢
  cases h₁ : readLength r with
  | error e₁ r₁ =>
    rw [h₁] at hl
    obtain ⟨s₁, h₂⟩ := ending_error hl
    rw [h₂]
    exact .inl ⟨_, _, rfl⟩
  | ok len r₁ =>
    obtain ⟨head, body, rest, hw, rfl, hs, rfl⟩ := readLength_ok h.valid_left h₁
    rw [h₁] at hr
    dsimp only at hr
    cases counted with
    | false => cases hr
    | true =>
      by_cases hroom : r.room = 0
      · have hfull : enter (r.forward head.length) = .error (.recursionLimitExceeded r.maxDepth) _ := enter_full hroom
        simp only [if_true, hfull] at hr
        cases hr
        exact .inr rfl
      · obtain ⟨t, hent, -⟩ := enter_of_room (r := r.forward head.length) (Nat.pos_of_ne_zero hroom)
        simp only [if_true, hent] at hr
        cases hr

end Reader

/-! ## Steps -/

namespace Step

/-- Where `r` stops, `s` stops too, or `r` has no level left. -/
def Stops (f : Reader → Step) (r s : Reader) : Prop :=
  ∀ m r' e, f r = .stop m r' e → (∃ m' s' e', f s = .stop m' s' e') ∨ e = .recursionLimitExceeded r.maxDepth

variable {r s : Reader}

theorem stops_ofRead {α : Type} {read : Read α} (h : Reader.Shallower r s) (hread : Reader.Local read) (m : Message)
    (change : α → Message) : Stops (fun r => ofRead read r m change) r s := by
  intro m' r' e hr
  replace hr : ofRead read r m change = .stop m' r' e := hr
  have he := hread.same h.valid_left h.valid_right h.window_eq
  cases hr₁ : read r with
  | ok a r₁ =>
    rw [ofRead_of_ok hr₁] at hr
    cases hr
  | error e₁ r₁ =>
    rw [hr₁] at he
    obtain ⟨s', hs'⟩ := Reader.ending_error he
    exact .inl ⟨_, _, _, ofRead_of_error hs'⟩

theorem stops_ofRun (h : Reader.Shallower r s) (kind : Kind) (change : List Scalar → Message) :
    Stops (fun r => ofRun (Reader.readRun kind r) change) r s := by
  intro m' r' e hr
  obtain ⟨-, hend⟩ := Reader.readRun_same kind h.valid_left h.valid_right h.window_eq
  unfold ofRun at hr ⊢
  cases hrun : (Reader.readRun kind r).result with
  | ok u r₁ =>
    simp only [hrun] at hr
    cases hr
  | error e₁ r₁ =>
    rw [hrun] at hend
    obtain ⟨s', hs'⟩ := Reader.ending_error hend
    simp only [hs']
    exact .inl ⟨_, _, _, rfl⟩

theorem stops_ofNested (h : Reader.Shallower r s) (counted : Bool) (m : Message) (place : Place) (type : MessageType)
    (child : Message) : Stops (fun r => ofNested counted r m place type child) r s := by
  intro m' r' e hr
  unfold ofNested at hr ⊢
  cases ho : Reader.openNested counted r with
  | ok nested r₁ =>
    simp only [ho] at hr
    cases hr
  | error e₁ r₁ =>
    simp only [ho] at hr
    cases hr
    rcases Reader.openNested_shallow h ho with ⟨f, s', hs'⟩ | rfl
    · simp only [hs']
      exact .inl ⟨_, _, _, rfl⟩
    · exact .inr rfl

theorem stops_next (m : Message) : Stops (fun r => .next m r) r s := by
  intro m' r' e hr
  cases hr

end Step

namespace Message

variable {table : TypeTable} {type : MessageType} {m : Message} {r s : Reader}

theorem readField_stops (h : Reader.Shallower r s) (field : Field) (index : Nat) (action : Action) (m : Message) :
    Step.Stops (m.readField table type field index action) r s := by
  refine readField_forms table type (P := fun f => Step.Stops f r s) field index action m ?_ ?_ ?_ (Step.stops_next m)
  · exact fun kind => Step.stops_ofRead h (Reader.readScalar_local kind)
  · exact Step.stops_ofRun h
  · exact fun counted n place childType child _ => Step.stops_ofNested h counted n place childType child

theorem readUnknown_stops (h : Reader.Shallower r s) (tag : Tag) (m : Message) :
    Step.Stops (m.readUnknown type tag) r s := by
  intro m' r' e hr
  cases hs : Reader.skip tag s with
  | error f s' => exact .inl ⟨_, _, _, readUnknown_skip hs⟩
  | ok u s' =>
    right
    obtain ⟨payload, rest, hw, htail, -⟩ := Reader.skip_tail h.valid_right hs
    rcases Reader.skip_cases htail h.valid_left (h.window_eq.symm.trans hw) with ⟨t, ht, _⟩ | ⟨_, t, ht⟩
    · obtain ⟨m'', hnext⟩ := readUnknown_ok type m ht
      rw [hnext] at hr
      cases hr
    · rw [readUnknown_skip ht] at hr
      cases hr
      rfl

theorem step_stops (h : Reader.Shallower r s) (tag : Tag) (m : Message) : Step.Stops (m.step table type tag) r s := by
  unfold step
  cases type.dispatch.find? fun entry => entry.tag == tag with
  | some entry => exact readField_stops h _ _ _ m
  | none => exact readUnknown_stops h tag m

/-- A sub-message that is opened with fewer levels is opened with more. -/
theorem into_shallow {r' inner outer : Reader} {tag : Tag} {m' child : Message} {place : Place} {childType : MessageType}
    (h : Reader.Shallower r s) (ht : r.readTag = .ok (some tag) r')
    (hst : m.step table type tag r' = .into m' place childType child inner outer) :
    ∃ s' inner' outer', s.readTag = .ok (some tag) s' ∧
      m.step table type tag s' = .into m' place childType child inner' outer' ∧ Reader.Shallower inner inner' ∧
      Reader.Shallower outer outer' ∧ inner.maxDepth = r.maxDepth ∧ outer.maxDepth = r.maxDepth := by
  obtain ⟨head, rest, hw, rfl, ht', hsh⟩ := h.readTag ht
  obtain ⟨bytes, rest', body, counted, hb, hp, hin, _, hn⟩ :=
    (step_local table type tag m head).into hsh.valid_left (Reader.behind_pastTag h.valid_left hw) hst
  obtain ⟨inner', outer', hs', hin', hp'⟩ := hn _ rest' hsh.valid_right
    (Reader.behind_pastTag h.valid_right (h.window_eq.trans hw)) (hsh.window_eq.trans hb) hsh.room_le
  refine ⟨_, inner', outer', ht', hs', ⟨hin.valid, hin'.valid, hin'.window_eq.trans hin.window_eq.symm, ?_⟩,
    hsh.past hb hp hp', hin.maxDepth_eq, hp.maxDepth_eq⟩
  rw [hin.room_eq, hin'.room_eq]
  exact Nat.sub_le_sub_right hsh.room_le _

/-! ## Merging -/

/-- Where a merge succeeds, one with fewer levels succeeds too or has no level left. -/
theorem merge_shallow (h : Reader.Shallower r s) (hok : (m.merge table type s).error = none) :
    (m.merge table type r).error = none ∨
      (m.merge table type r).error = some (.recursionLimitExceeded r.maxDepth) := by
  fun_induction merge table type m r generalizing s with
  | case1 type m r e r' ht =>
    have he := Reader.readTag_same h.valid_left h.valid_right h.window_eq
    rw [ht] at he
    obtain ⟨s', hs'⟩ := Reader.ending_error he
    rw [merge_tag_error hs'] at hok
    cases hok
  | case2 type m r r' ht => exact .inl rfl
  | case3 type m r tag r' ht m' r'' e hst =>
    obtain ⟨head, rest, hw, rfl, ht', hsh⟩ := h.readTag ht
    rcases step_stops hsh tag m m' r'' e hst with ⟨m'', s', e', hs'⟩ | rfl
    · rw [merge_stop ht' hs'] at hok
      cases hok
    · exact .inr rfl
  | case4 type m r tag r' ht m' r'' hst ih =>
    obtain ⟨head, rest, hw, rfl, ht', hsh⟩ := h.readTag ht
    obtain ⟨bytes, rest', hb, hp, hn⟩ :=
      (step_local table type tag m head).next hsh.valid_left (Reader.behind_pastTag h.valid_left hw) hst
    obtain ⟨s', hs', hp'⟩ := hn _ rest' hsh.valid_right
      (Reader.behind_pastTag h.valid_right (h.window_eq.trans hw)) (hsh.window_eq.trans hb) hsh.room_le
    rw [merge_next ht' hs'] at hok
    have hrest := ih (hsh.past hb hp hp') hok
    rwa [hp.maxDepth_eq] at hrest
  | case5 =>
    rename_i type m r tag r' ht m' place childType child inner outer hst out e he ih
    obtain ⟨s', inner', outer', ht', hs', hinner, _, hmax, _⟩ := into_shallow h ht hst
    rw [merge_into ht' hs'] at hok
    cases hf : (child.merge table childType inner').error with
    | some f =>
      rw [hf] at hok
      cases hok
    | none =>
      rcases ih hinner hf with hnone | hlimit
      · rw [hnone] at he
        cases he
      · right
        rw [hmax] at hlimit
        exact he.symm.trans hlimit
  | case6 =>
    rename_i type m r tag r' ht m' place childType child inner outer hst out he ihInner ihOuter
    obtain ⟨s', inner', outer', ht', hs', hinner, houter, _, hmax⟩ := into_shallow h ht hst
    -- what the part gives with fewer levels it gives with more
    have hchild := merge_absorbs hinner.valid_left he
    obtain ⟨t, hmore, -⟩ := hchild.merge_eq hinner.valid_right hinner.window_eq hinner.room_le
    rw [merge_into ht' hs', hmore] at hok
    rw [← hmax]
    exact ihOuter (houter.tagged out.reader.tagStart t.tagStart) hok

/-- With more levels, a merge that succeeded gives the same message. -/
theorem mergeWithin_deeper {bytes : Bytes} {room deeper : Nat} (hle : room ≤ deeper)
    (h : (mergeWithin table type room m bytes).2 = none) :
    mergeWithin table type deeper m bytes = mergeWithin table type room m bytes := by
  obtain ⟨hv, hw⟩ := Reader.valid_ofBytesWithin bytes room
  obtain ⟨hv', hw'⟩ := Reader.valid_ofBytesWithin bytes deeper
  have habs := merge_absorbs hv h
  obtain ⟨s, hs, -⟩ := habs.merge_eq hv' (hw'.trans hw.symm) hle
  rw [mergeWithin, hs]
  exact Prod.ext rfl h.symm

/-- With fewer levels, a merge that succeeded does so again or has no level left. -/
theorem mergeWithin_shallow {bytes : Bytes} {room deeper : Nat} (hle : room ≤ deeper)
    (h : (mergeWithin table type deeper m bytes).2 = none) :
    (mergeWithin table type room m bytes).2 = none ∨
      (mergeWithin table type room m bytes).2 = some (.recursionLimitExceeded room) := by
  obtain ⟨hv, hw⟩ := Reader.valid_ofBytesWithin bytes room
  obtain ⟨hv', hw'⟩ := Reader.valid_ofBytesWithin bytes deeper
  exact merge_shallow ⟨hv, hv', hw'.trans hw.symm, hle⟩ h

end Message

end Protobuf
