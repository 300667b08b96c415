/-
  Protobuf.Proofs.Complete — complete fields, and stepping over them.

  `Payload tag` are the payloads of a tag that opens no group, `Tail depth tag` those of any tag that
  a field can start with, with groups nested no deeper than `depth`, and `Complete depth` lists of
  whole fields. Numbers may be spelled in more bytes than needed.

  Stepping over a field succeeds in front of these payloads (`skip_of_tail`) and nowhere else
  (`skip_tail`), and takes just the payload. So whether it succeeds does not depend on what follows,
  and more levels than needed do no harm. How it fails depends on the window and on the levels left
  (`skip_same`).
-/

import Protobuf.Proofs.Reading
import Protobuf.Reader.Skip

namespace Protobuf

/-- The payloads of a tag that opens no group. -/
inductive Payload (tag : Tag) : Bytes → Prop
  | varint {bytes : Bytes} {n : Nat} : tag.wireType? = some .varint → Varint.Spells bytes n → Payload tag bytes
  | fixed64 {bytes : Bytes} : tag.wireType? = some .fixed64 → bytes.length = 8 → Payload tag bytes
  | fixed32 {bytes : Bytes} : tag.wireType? = some .fixed32 → bytes.length = 4 → Payload tag bytes
  | framed {head body : Bytes} : tag.wireType? = some .lengthDelimited → Varint.Spells head body.length →
      Payload tag (head ++ body)

/-- The bytes of fields, given each with its tag and all its bytes. -/
def bytesOf (fields : List (Tag × Bytes)) : Bytes := fields.flatMap Prod.snd

/-- Whole fields, given each with its tag and all its bytes, with groups at most so deep. -/
inductive Complete : Nat → List (Tag × Bytes) → Prop
  | nil (depth : Nat) : Complete depth []
  | plain {depth : Nat} {tag : Tag} {head payload : Bytes} {rest : List (Tag × Bytes)} :
      Tag.Spells head tag → Payload tag payload → Complete depth rest →
      Complete depth ((tag, head ++ payload) :: rest)
  | group {depth : Nat} {tag stop : Tag} {head tail : Bytes} {inner rest : List (Tag × Bytes)} :
      Tag.Spells head tag → tag.wireType? = some .startGroup → Complete depth inner →
      Tag.Spells tail stop → stop.wireType? = some .endGroup → stop.number = tag.number →
      Complete (depth + 1) rest → Complete (depth + 1) ((tag, head ++ (bytesOf inner ++ tail)) :: rest)

/-- The payloads of a tag, with groups at most so deep. -/
inductive Tail : Nat → Tag → Bytes → Prop
  | plain {depth : Nat} {tag : Tag} {payload : Bytes} : Payload tag payload → Tail depth tag payload
  | group {depth : Nat} {tag stop : Tag} {tail : Bytes} {inner : List (Tag × Bytes)} :
      tag.wireType? = some .startGroup → Complete depth inner → Tag.Spells tail stop →
      stop.wireType? = some .endGroup → stop.number = tag.number → Tail (depth + 1) tag (bytesOf inner ++ tail)

theorem bytesOf_cons (tag : Tag) (bytes : Bytes) (fields : List (Tag × Bytes)) :
    bytesOf ((tag, bytes) :: fields) = bytes ++ bytesOf fields := List.flatMap_cons ..

theorem complete_cons {depth : Nat} {tag : Tag} {head payload : Bytes} {rest : List (Tag × Bytes)}
    (hs : Tag.Spells head tag) (ht : Tail depth tag payload) (hr : Complete depth rest) :
    Complete depth ((tag, head ++ payload) :: rest) := by
  cases ht with
  | plain hp => exact .plain hs hp hr
  | group hw hi hstop he hn => exact .group hs hw hi hstop he hn hr

theorem complete_cons_inv {depth : Nat} {tag : Tag} {bytes : Bytes} {rest : List (Tag × Bytes)}
    (h : Complete depth ((tag, bytes) :: rest)) :
    (∃ head payload, bytes = head ++ payload ∧ Tag.Spells head tag ∧ Tail depth tag payload) ∧
      Complete depth rest := by
  cases h with
  | plain hs hp hr => exact ⟨⟨_, _, rfl, hs, .plain hp⟩, hr⟩
  | group hs hw hi hstop he hn hr => exact ⟨⟨_, _, rfl, hs, .group hw hi hstop he hn⟩, hr⟩

theorem Payload.wireType_ne {tag : Tag} {payload : Bytes} (h : Payload tag payload) :
    tag.wireType? ≠ some .startGroup ∧ tag.wireType? ≠ some .endGroup := by
  cases h with
  | varint hw _ | fixed64 hw _ | fixed32 hw _ | framed hw _ => rw [hw]; exact ⟨nofun, nofun⟩

namespace Reader

/-! ## Payloads without groups -/

variable {r s r' : Reader} {tag : Tag} {rest payload head bytes : Bytes} {depth number count : Nat}
  {outer numbers : List Nat}

theorem takes_skipPlain (h : Payload tag payload) : Takes (skipPlain tag) payload () := by
  cases h with
  | varint hw hs =>
    rw [skipPlain, Tag.wireType_of_some hw]
    exact (takes_readVarint hs).discard
  | fixed64 hw hl =>
    rw [skipPlain, Tag.wireType_of_some hw, ← hl]
    exact (takes_advance payload).discard
  | fixed32 hw hl =>
    rw [skipPlain, Tag.wireType_of_some hw, ← hl]
    exact (takes_advance payload).discard
  | framed hw hs =>
    rw [skipPlain, Tag.wireType_of_some hw]
    exact (takes_readBytes hs).discard

theorem skipPlain_local (tag : Tag) : Local (skipPlain tag) := by
  unfold skipPlain
  split
  · exact local_throw _
  · exact readVarint_local.discard
  · exact (advance_local 8).discard
  · exact (advance_local 4).discard
  · exact readBytes_local.discard
  all_goals exact local_throw _

theorem discard_ok {α : Type} {read : Read α} {u : Unit} (h : discard read r = .ok u r') : ∃ a, read r = .ok a r' := by
  have h : (read >>= fun _ => pure ()) r = .ok u r' := h
  obtain ⟨a, s, h₁, h₂⟩ := bind_ok h
  cases h₂
  exact ⟨a, h₁⟩

theorem advance_ok {b : Bytes} (hv : r.Valid) (h : advance count r = .ok b r') :
    ∃ rest, r.window = b ++ rest ∧ b.length = count ∧ r' = r.forward count := by
  rw [advance] at h
  split at h
  · cases h
  · rename_i hc
    cases h
    rw [slice_pos_eq (by omega)]
    refine ⟨r.window.drop count, (List.take_append_drop ..).symm, ?_, rfl⟩
    rw [List.length_take, length_window hv]
    omega

/-- What was stepped over is a payload of the tag. -/
theorem skipPlain_ok {u : Unit} (hv : r.Valid) (h : skipPlain tag r = .ok u r') :
    ∃ payload rest, r.window = payload ++ rest ∧ Payload tag payload ∧ r' = r.forward payload.length := by
  rcases hw : tag.wireType? with _ | w
  · have : tag.wireType = .error (.invalidWireType tag.wireCode) := by
      have hw : WireType.ofCode? tag.wireCode = none := hw
      rw [Tag.wireType, WireType.ofCode, hw]
    rw [skipPlain, this] at h
    cases h
  · rw [skipPlain, Tag.wireType_of_some hw] at h
    cases w with
    | varint =>
      obtain ⟨n, hr⟩ := discard_ok h
      obtain ⟨head, rest, hb, hs, rfl⟩ := readVarint_ok hr
      exact ⟨head, rest, hb, .varint hw hs, rfl⟩
    | fixed64 =>
      obtain ⟨b, hr⟩ := discard_ok h
      obtain ⟨rest, hb, hl, rfl⟩ := advance_ok hv hr
      exact ⟨b, rest, hb, .fixed64 hw hl, by rw [hl]⟩
    | fixed32 =>
      obtain ⟨b, hr⟩ := discard_ok h
      obtain ⟨rest, hb, hl, rfl⟩ := advance_ok hv hr
      exact ⟨b, rest, hb, .fixed32 hw hl, by rw [hl]⟩
    | lengthDelimited =>
      obtain ⟨b, hr⟩ := discard_ok h
      obtain ⟨len, s, hl, ha⟩ := bind_ok hr
      obtain ⟨head, body, rest, hb, rfl, hs, rfl⟩ := readLength_ok hv hl
      obtain ⟨hv', hb'⟩ := hv.forward hb
      rw [takes_advance body _ rest hv' hb'] at ha
      cases ha
      refine ⟨head ++ b, rest, by rw [hb, List.append_assoc], .framed hw hs, ?_⟩
      rw [forward_forward, List.length_append]
    | startGroup => cases h
    | endGroup => cases h

/-! ## Groups -/

/-- As many bytes further on, at a given depth; what the reader remembers of tags is left open. -/
structure Past (r : Reader) (count depth : Nat) (s : Reader) : Prop where
  buffer_eq : s.buffer = r.buffer
  limit_eq : s.limit = r.limit
  maxDepth_eq : s.maxDepth = r.maxDepth
  pos_eq : s.pos = r.pos + count
  depth_eq : s.depth = depth

theorem past_refl (r : Reader) : Past r 0 r.depth r := ⟨rfl, rfl, rfl, rfl, rfl⟩

theorem past_forward (r : Reader) (count : Nat) : Past r count r.depth (r.forward count) := ⟨rfl, rfl, rfl, rfl, rfl⟩

theorem past_pastTag (r : Reader) (count : Nat) : Past r count r.depth (r.pastTag count) := ⟨rfl, rfl, rfl, rfl, rfl⟩

theorem Past.trans {t : Reader} {a b d e : Nat} (h : Past r a d s) (h' : Past s b e t) : Past r (a + b) e t :=
  ⟨h'.buffer_eq.trans h.buffer_eq, h'.limit_eq.trans h.limit_eq, h'.maxDepth_eq.trans h.maxDepth_eq,
    by rw [h'.pos_eq, h.pos_eq, Nat.add_assoc], h'.depth_eq⟩

/-- Past the bytes at the front of the window. -/
theorem Past.valid (h : Past r bytes.length depth s) (hv : r.Valid) (hw : r.window = bytes ++ rest) :
    s.Valid ∧ s.window = rest := by
  obtain ⟨hv', hw'⟩ := hv.forward hw
  obtain ⟨hb, hl, _, hp, _⟩ := h
  refine ⟨⟨?_, ?_⟩, ?_⟩
  · rw [hp, hl]
    exact hv'.pos_le
  · rw [hb, hl]
    exact hv.limit_le
  · rw [← hw', window, window, slice_eq, slice_eq, hb, hl, hp]
    rfl

theorem Past.still (h : Past r 0 depth s) (hv : r.Valid) : s.Valid ∧ s.window = r.window :=
  Past.valid (List.length_nil ▸ h) hv (List.nil_append r.window).symm

theorem Past.room_eq (h : Past r count depth s) : s.room = r.maxDepth - depth := by
  rw [room, h.maxDepth_eq, h.depth_eq]

theorem enter_of_room (h : 0 < r.room) : ∃ s, enter r = .ok () s ∧ Past r 0 (r.depth + 1) s := by
  unfold room at h
  rw [enter, if_neg (by omega)]
  exact ⟨_, rfl, rfl, rfl, rfl, rfl, rfl⟩

theorem enter_full (h : r.room = 0) : enter r = .error (.recursionLimitExceeded r.maxDepth) r := by
  unfold room at h
  rw [enter, if_pos (by omega)]

theorem enter_ok {u : Unit} (h : enter r = .ok u s) : Past r 0 (r.depth + 1) s ∧ r.depth < r.maxDepth := by
  rw [enter] at h
  split at h
  · cases h
  · rename_i hd
    cases h
    exact ⟨⟨rfl, rfl, rfl, rfl, rfl⟩, by omega⟩

theorem past_leave (r : Reader) : Past r 0 (r.depth - 1) r.leave := ⟨rfl, rfl, rfl, rfl, rfl⟩

/-! ### What a tag does to the open groups -/

theorem skipGroups_tag (h : readTag r = .ok (some tag) r') :
    skipGroups (number :: outer) r = match tag.wireType? with
      | some .endGroup =>
        if tag.number = number then skipGroups outer r'.leave else .error (.unexpectedEndGroup tag.number) r'
      | some .startGroup =>
        match enter r' with
        | .error e r => .error e r
        | .ok _ r' => skipGroups (tag.number :: number :: outer) r'
      | _ =>
        match skipPlain tag r' with
        | .error e r => .error e r
        | .ok _ r' => skipGroups (number :: outer) r' := by
  rw [skipGroups]
  split <;> rename_i h' <;> rw [h] at h' <;> cases h'
  rcases tag.wireType? with _ | w
  · dsimp only
    split <;> rename_i he <;> rw [he]
  · cases w with
    | endGroup => rfl
    | _ =>
      dsimp only
      split <;> rename_i he <;> rw [he]

theorem skipGroups_end (outer : List Nat) (hv : r.Valid) {tail : Bytes} {stop : Tag} (hs : Tag.Spells tail stop)
    (he : stop.wireType? = some .endGroup) (hn : stop.number = number) (hw : r.window = tail ++ rest) :
    ∃ s, skipGroups (number :: outer) r = skipGroups outer s ∧ Past r tail.length (r.depth - 1) s := by
  refine ⟨(r.pastTag tail.length).leave, ?_, (past_pastTag r _).trans (past_leave _)⟩
  rw [skipGroups_tag (readTag_of_spells hv hs hw), he]
  exact if_pos hn

theorem skipGroups_plain (number : Nat) (outer : List Nat) (hv : r.Valid) (hs : Tag.Spells head tag)
    (hp : Payload tag payload) (hw : r.window = head ++ (payload ++ rest)) :
    ∃ s, skipGroups (number :: outer) r = skipGroups (number :: outer) s ∧
      Past r (head ++ payload).length r.depth s := by
  obtain ⟨hv', hw'⟩ := (past_pastTag r head.length).valid hv hw
  refine ⟨(r.pastTag head.length).forward payload.length, ?_, ?_⟩
  · rw [skipGroups_tag (readTag_of_spells hv hs hw)]
    split
    · rename_i he
      exact absurd he hp.wireType_ne.2
    · rename_i he
      exact absurd he hp.wireType_ne.1
    · rw [takes_skipPlain hp _ rest hv' hw']
  · rw [List.length_append]
    exact (past_pastTag r _).trans (past_forward _ _)

theorem skipGroups_start (number : Nat) (outer : List Nat) (hv : r.Valid) (hs : Tag.Spells head tag)
    (hg : tag.wireType? = some .startGroup) (hroom : 0 < r.room) (hw : r.window = head ++ rest) :
    ∃ s, skipGroups (number :: outer) r = skipGroups (tag.number :: number :: outer) s ∧
      Past r head.length (r.depth + 1) s := by
  obtain ⟨s, hent, hs'⟩ := enter_of_room (r := r.pastTag head.length) hroom
  refine ⟨s, ?_, (past_pastTag r _).trans hs'⟩
  rw [skipGroups_tag (readTag_of_spells hv hs hw), hg]
  dsimp only
  rw [hent]

/-- Complete fields inside a group are stepped over one by one, or there is no level left for one of their groups. -/
theorem skipGroups_cases {fields : List (Tag × Bytes)} (h : Complete depth fields) (number : Nat) (outer : List Nat)
    (hv : r.Valid) (hw : r.window = bytesOf fields ++ rest) :
    (∃ s, skipGroups (number :: outer) r = skipGroups (number :: outer) s ∧
      Past r (bytesOf fields).length r.depth s) ∨
    r.room < depth ∧ ∃ s, skipGroups (number :: outer) r = .error (.recursionLimitExceeded r.maxDepth) s := by
  induction h generalizing number outer r rest with
  | nil depth => exact .inl ⟨r, rfl, past_refl r⟩
  | @plain depth tag head payload fields hs hp _ ih =>
    rw [bytesOf_cons, List.append_assoc] at hw
    obtain ⟨s, hskip, hpast⟩ := skipGroups_plain number outer hv hs hp (by rw [hw, List.append_assoc])
    obtain ⟨hv', hw'⟩ := hpast.valid hv hw
    rcases ih number outer hv' hw' with ⟨t, ht, hpast'⟩ | ⟨hlt, t, ht⟩
    · refine .inl ⟨t, hskip.trans ht, ?_⟩
      rw [bytesOf_cons, List.length_append]
      exact hpast.depth_eq ▸ hpast.trans hpast'
    · rw [hpast.maxDepth_eq] at ht
      rw [hpast.room_eq] at hlt
      exact .inr ⟨hlt, t, hskip.trans ht⟩
  | @group depth tag stop head tail inner fields hs hg _ hstop he hn _ ihInner ih =>
    rw [bytesOf_cons] at hw
    simp only [List.append_assoc] at hw
    by_cases hroom : r.room = 0
    · have hfull : enter (r.pastTag head.length) = .error (.recursionLimitExceeded r.maxDepth) _ := enter_full hroom
      refine .inr ⟨by omega, r.pastTag head.length, ?_⟩
      rw [skipGroups_tag (readTag_of_spells hv hs hw), hg]
      simp only [hfull]
    obtain ⟨s, hstart, hpast⟩ := skipGroups_start number outer hv hs hg (Nat.pos_of_ne_zero hroom) hw
    obtain ⟨hv₁, hw₁⟩ := hpast.valid hv hw
    rcases ihInner tag.number (number :: outer) hv₁ hw₁ with ⟨s₂, hin, hpast₂⟩ | ⟨hlt, t, ht⟩
    · obtain ⟨hv₂, hw₂⟩ := hpast₂.valid hv₁ hw₁
      obtain ⟨s₃, hend, hpast₃⟩ := skipGroups_end (number :: outer) hv₂ hstop he hn hw₂
      have hover := (hpast.trans hpast₂).trans hpast₃
      rw [hpast₂.depth_eq, hpast.depth_eq, Nat.add_sub_cancel] at hover
      obtain ⟨hv₃, hw₃⟩ := hpast₃.valid hv₂ hw₂
      have hsofar := (hstart.trans hin).trans hend
      rcases ih number outer hv₃ hw₃ with ⟨s₄, hrest, hpast₄⟩ | ⟨hlt, t, ht⟩
      · refine .inl ⟨s₄, hsofar.trans hrest, ?_⟩
        have all := hover.trans hpast₄
        rw [hover.depth_eq] at all
        simpa [bytesOf_cons, Nat.add_assoc] using all
      · rw [hover.maxDepth_eq] at ht
        rw [hover.room_eq] at hlt
        exact .inr ⟨hlt, t, hsofar.trans ht⟩
    · rw [hpast.maxDepth_eq] at ht
      rw [hpast.room_eq] at hlt
      exact .inr ⟨by unfold room; omega, t, hstart.trans ht⟩

theorem skipGroups_complete {fields : List (Tag × Bytes)} (h : Complete depth fields) (number : Nat) (outer : List Nat)
    (hv : r.Valid) (hw : r.window = bytesOf fields ++ rest) (hd : depth ≤ r.room) :
    ∃ s, skipGroups (number :: outer) r = skipGroups (number :: outer) s ∧ Past r (bytesOf fields).length r.depth s :=
  (skipGroups_cases h number outer hv hw).resolve_right fun hfull => Nat.not_lt.mpr hd hfull.1

/-! ### Where all groups are closed -/

/-- Complete fields and the end of the innermost group, for each open group in turn. -/
inductive Closes : Nat → List Nat → Bytes → Prop
  | nil (depth : Nat) : Closes depth [] []
  | cons {depth number : Nat} {fields : List (Tag × Bytes)} {tail rest : Bytes} {stop : Tag} {outer : List Nat} :
      Complete depth fields → Tag.Spells tail stop → stop.wireType? = some .endGroup → stop.number = number →
      Closes (depth + 1) outer rest → Closes depth (number :: outer) (bytesOf fields ++ (tail ++ rest))

/-- One more field in front of those of the innermost group. -/
theorem Closes.prepend (h : Closes depth (number :: outer) bytes) (hs : Tag.Spells head tag)
    (ht : Tail depth tag payload) : Closes depth (number :: outer) (head ++ (payload ++ bytes)) := by
  cases h with
  | cons hf hstop he hn hc =>
    have := Closes.cons (complete_cons hs ht hf) hstop he hn hc
    simpa [bytesOf_cons] using this

/-- As many groups open as levels, and no more levels than allowed. -/
structure Opened (numbers : List Nat) (r : Reader) : Prop where
  length_le : numbers.length ≤ r.depth
  depth_le : r.depth ≤ r.maxDepth

theorem Opened.past (h : Past r count depth s) (hl : numbers.length ≤ depth) (hd : depth ≤ r.maxDepth) :
    Opened numbers s :=
  ⟨by rw [h.depth_eq]; exact hl, by rw [h.depth_eq, h.maxDepth_eq]; exact hd⟩

theorem Opened.leave (h : Opened (number :: outer) r) (count : Nat) :
    Opened outer (r.pastTag count).leave ∧ (r.pastTag count).leave.room = r.room + 1 := by
  have h₁ := h.length_le
  have h₂ := h.depth_le
  rw [List.length_cons] at h₁
  refine ⟨⟨?_, ?_⟩, ?_⟩
  · show outer.length ≤ r.depth - 1
    omega
  · show r.depth - 1 ≤ r.maxDepth
    omega
  · show r.maxDepth - (r.depth - 1) = r.maxDepth - r.depth + 1
    omega

/-- What was stepped over closes all groups. -/
theorem skipGroups_ok {u : Unit} (hv : r.Valid) (ho : Opened numbers r) (h : skipGroups numbers r = .ok u s) :
    ∃ bytes rest, r.window = bytes ++ rest ∧ Closes r.room numbers bytes ∧
      Past r bytes.length (r.depth - numbers.length) s := by
  fun_induction skipGroups numbers r with
  | case1 =>
    cases h
    exact ⟨[], _, rfl, .nil _, past_refl _⟩
  | case4 =>
    rename_i r outer tag r' ht he ih
    obtain ⟨tail, rest, hw, hs, rfl⟩ := readTag_some ht
    have hpast := (past_pastTag r tail.length).trans (past_leave _)
    have hd : (r.pastTag tail.length).depth = r.depth := rfl
    obtain ⟨hv', hw'⟩ := hpast.valid hv hw
    obtain ⟨ho', hroom⟩ := ho.leave tail.length
    obtain ⟨bytes, last, hb, hc, hp⟩ := ih hv' ho' h
    rw [hroom] at hc
    refine ⟨tail ++ bytes, last, by rw [hw, ← hw', hb, List.append_assoc], ?_, ?_⟩
    · exact .cons (.nil _) hs he rfl hc
    · have all := hpast.trans hp
      rw [hpast.depth_eq, hd] at all
      rw [List.length_append, List.length_cons, Nat.add_comm outer.length 1, Nat.sub_add_eq]
      exact all
  | case7 =>
    rename_i r number outer tag r' ht hg u r'' hent ih
    obtain ⟨head, rest, hw, hs, rfl⟩ := readTag_some ht
    obtain ⟨hpe, hlt⟩ := enter_ok hent
    have hpast := (past_pastTag r head.length).trans hpe
    have h₁ := ho.length_le
    have hd : (r.pastTag head.length).depth = r.depth := rfl
    have hm : (r.pastTag head.length).maxDepth = r.maxDepth := rfl
    obtain ⟨hv', hw'⟩ := hpast.valid hv hw
    obtain ⟨bytes, last, hb, hc, hp⟩ := ih hv' (.past hpast
      (by rw [List.length_cons, hd]; exact Nat.succ_le_succ h₁) (by omega)) h
    -- the new group is one field of the group around it
    have hroom : r''.room + 1 = r.room := by
      rw [hpast.room_eq, room]
      omega
    cases hc with
    | @cons _ _ fields tail inner stop _ hf hstop he hn hc =>
      rw [hroom] at hc
      have ht : Tail r.room tag (bytesOf fields ++ tail) := by
        rw [← hroom]
        exact .group hg hf hstop he hn
      refine ⟨head ++ ((bytesOf fields ++ tail) ++ inner), last, ?_, hc.prepend hs ht, ?_⟩
      · rw [hw, ← hw', hb]
        simp only [List.append_assoc]
      · have all := hpast.trans hp
        rw [hpast.depth_eq, hd, List.length_cons, Nat.add_sub_add_right] at all
        simpa [Nat.add_assoc] using all
  | case9 =>
    rename_i r number outer tag r' ht u r'' hskip hne hne' ih
    obtain ⟨head, rest, hw, hs, rfl⟩ := readTag_some ht
    obtain ⟨hv', hw'⟩ := (past_pastTag r head.length).valid hv hw
    obtain ⟨payload, more, hb, hp, rfl⟩ := skipPlain_ok hv' hskip
    have hpast := (past_pastTag r head.length).trans (past_forward _ payload.length)
    have hd : (r.pastTag head.length).depth = r.depth := rfl
    obtain ⟨hv'', hw''⟩ := hv'.forward hb
    obtain ⟨bytes, last, hb', hc, hp'⟩ := ih hv'' (.past hpast ho.length_le ho.depth_le) h
    refine ⟨head ++ (payload ++ bytes), last, ?_, hc.prepend hs (.plain hp), ?_⟩
    · rw [hw, ← hw', hb, ← hw'', hb']
      simp only [List.append_assoc]
    · have all := hpast.trans hp'
      rw [hpast.depth_eq, hd] at all
      simpa [Nat.add_assoc] using all
  | _ => cases h

/-! ## Any field -/

theorem skip_eq_skipPlain (h : tag.wireType? ≠ some .startGroup) : skip tag = skipPlain tag := by
  unfold skip
  split
  · exact absurd (by assumption) h
  · rfl

theorem skip_of_enter (h : tag.wireType? = some .startGroup) {u : Unit} (hent : enter r = .ok u s) :
    skip tag r = skipGroups [tag.number] s := by
  unfold skip
  rw [h]
  exact bind_of_ok hent

theorem skip_of_not_enter (h : tag.wireType? = some .startGroup) {e : DecodeError} (hent : enter r = .error e s) :
    skip tag r = .error e s := by
  unfold skip
  rw [h]
  exact bind_of_error hent

/-- In front of a payload of the tag, stepping over it succeeds or there is no level left for a group. -/
theorem skip_cases (h : Tail depth tag payload) (hv : r.Valid) (hw : r.window = payload ++ rest) :
    (∃ s, skip tag r = .ok () s ∧ Past r payload.length r.depth s) ∨
      r.room < depth ∧ ∃ s, skip tag r = .error (.recursionLimitExceeded r.maxDepth) s := by
  cases h with
  | plain hp =>
    refine .inl ⟨r.forward payload.length, ?_, past_forward r _⟩
    rw [skip_eq_skipPlain hp.wireType_ne.1]
    exact takes_skipPlain hp r rest hv hw
  | @group depth _ stop tail inner hg hi hstop he hn =>
    rw [List.append_assoc] at hw
    by_cases hroom : r.room = 0
    · exact .inr ⟨by omega, r, skip_of_not_enter hg (enter_full hroom)⟩
    obtain ⟨s, hent, hpast⟩ := enter_of_room (Nat.pos_of_ne_zero hroom)
    obtain ⟨hv₁, hw₁⟩ := (hpast.still hv).imp_right fun h => h.trans hw
    rcases skipGroups_cases hi tag.number [] hv₁ hw₁ with ⟨s₂, hin, hpast₂⟩ | ⟨hlt, t, ht⟩
    · obtain ⟨hv₂, hw₂⟩ := hpast₂.valid hv₁ hw₁
      obtain ⟨s₃, hend, hpast₃⟩ := skipGroups_end [] hv₂ hstop he hn hw₂
      have hover := (hpast.trans hpast₂).trans hpast₃
      rw [hpast₂.depth_eq, hpast.depth_eq, Nat.add_sub_cancel, Nat.zero_add] at hover
      refine .inl ⟨s₃, ?_, by rw [List.length_append]; exact hover⟩
      rw [skip_of_enter hg hent, hin, hend, skipGroups]
    · rw [hpast.maxDepth_eq] at ht
      rw [hpast.room_eq] at hlt
      exact .inr ⟨by unfold room; omega, t, (skip_of_enter hg hent).trans ht⟩

theorem skip_of_tail (h : Tail depth tag payload) (hv : r.Valid) (hw : r.window = payload ++ rest)
    (hd : depth ≤ r.room) :
    ∃ s, skip tag r = .ok () s ∧ Past r payload.length r.depth s :=
  (skip_cases h hv hw).resolve_right fun hfull => Nat.not_lt.mpr hd hfull.1

/-- What was stepped over is a payload of the tag. -/
theorem skip_tail {u : Unit} (hv : r.Valid) (h : skip tag r = .ok u s) :
    ∃ payload rest, r.window = payload ++ rest ∧ Tail r.room tag payload ∧ Past r payload.length r.depth s := by
  by_cases hg : tag.wireType? = some .startGroup
  · rcases hent : enter r with ⟨u, r'⟩ | ⟨e, r'⟩
    case error =>
      rw [skip_of_not_enter hg hent] at h
      cases h
    rw [skip_of_enter hg hent] at h
    obtain ⟨hpast, hlt⟩ := enter_ok hent
    obtain ⟨hv', hw'⟩ := hpast.still hv
    obtain ⟨bytes, rest, hw, hc, hp⟩ := skipGroups_ok hv' (.past hpast (Nat.le_add_left ..) hlt) h
    have hroom : r'.room + 1 = r.room := by
      rw [hpast.room_eq, room]
      omega
    cases hc with
    | @cons _ _ fields tail inner stop _ hf hstop he hn hc =>
      cases hc with
      | nil =>
        rw [List.append_nil] at hw hp
        refine ⟨bytesOf fields ++ tail, rest, hw'.symm.trans hw, ?_, ?_⟩
        · rw [← hroom]
          exact .group hg hf hstop he hn
        · have all := hpast.trans hp
          rw [hpast.depth_eq, Nat.zero_add] at all
          exact all
  · rw [skip_eq_skipPlain hg] at h
    obtain ⟨payload, rest, hw, hp, rfl⟩ := skipPlain_ok hv h
    exact ⟨payload, rest, hw, .plain hp, past_forward r _⟩

/-! ## Failures -/

/-- The same ending, but that each names its own limit of levels. -/
inductive Matches {α : Type} (k l : Nat) : Except DecodeError α → Except DecodeError α → Prop
  | ok (a : α) : Matches k l (.ok a) (.ok a)
  | error (e : DecodeError) : Matches k l (.error e) (.error e)
  | limit : Matches k l (.error (.recursionLimitExceeded k)) (.error (.recursionLimitExceeded l))

theorem matches_refl {α : Type} (k l : Nat) (x : Except DecodeError α) : Matches k l x x := by
  cases x with
  | ok a => exact .ok a
  | error e => exact .error e

theorem Matches.of_eq {α : Type} {k l : Nat} {x y : Except DecodeError α} (h : y = x) : Matches k l x y :=
  h ▸ matches_refl k l x

theorem Matches.eq {α : Type} {k : Nat} {x y : Except DecodeError α} (h : Matches k k x y) : x = y := by
  cases h <;> rfl

/-- Readers with the same bytes before them and the same levels left. -/
structure Alike (r s : Reader) : Prop where
  valid_left : r.Valid
  valid_right : s.Valid
  window_eq : s.window = r.window
  room_eq : s.room = r.room

/-- Readers that are alike stay so behind the same bytes. -/
theorem Alike.past {s' : Reader} {d e : Nat} (h : Alike r s) (hw : r.window = bytes ++ rest)
    (hr : Past r bytes.length d r') (hs : Past s bytes.length e s') (hroom : s'.room = r'.room) : Alike r' s' := by
  obtain ⟨hv, hw'⟩ := hr.valid h.valid_left hw
  obtain ⟨hv', hw''⟩ := hs.valid h.valid_right (h.window_eq.trans hw)
  exact ⟨hv, hv', hw''.trans hw'.symm, hroom⟩

theorem Alike.still {s' : Reader} {d e : Nat} (h : Alike r s) (hr : Past r 0 d r') (hs : Past s 0 e s')
    (hroom : s'.room = r'.room) : Alike r' s' :=
  ⟨(hr.still h.valid_left).1, (hs.still h.valid_right).1,
    (hs.still h.valid_right).2.trans (h.window_eq.trans (hr.still h.valid_left).2.symm), hroom⟩

/-- The same tag is read by both, or the same failure. -/
theorem Alike.readTag (h : Alike r s) (hr : readTag r = .ok (some tag) r') :
    ∃ head rest, r.window = head ++ rest ∧ Tag.Spells head tag ∧ r' = r.pastTag head.length ∧
      Reader.readTag s = .ok (some tag) (s.pastTag head.length) ∧ Alike r' (s.pastTag head.length) := by
  obtain ⟨head, rest, hw, hs, rfl⟩ := readTag_some hr
  exact ⟨head, rest, hw, hs, rfl, readTag_of_spells h.valid_right hs (h.window_eq.trans hw),
    h.past hw (past_pastTag r _) (past_pastTag s _) h.room_eq⟩

/-- If one has no level left, neither has the other. -/
theorem Alike.enter_error {e : DecodeError} (h : Alike r s) (hr : Reader.enter r = .error e r') :
    e = .recursionLimitExceeded r.maxDepth ∧ Reader.enter s = .error (.recursionLimitExceeded s.maxDepth) s := by
  by_cases hroom : r.room = 0
  · cases (enter_full hroom).symm.trans hr
    exact ⟨rfl, enter_full (h.room_eq.trans hroom)⟩
  · obtain ⟨_, hent, _⟩ := enter_of_room (Nat.pos_of_ne_zero hroom)
    cases hent.symm.trans hr

/-- If one has a level left, so has the other, and both are alike on it. -/
theorem Alike.enter_ok {u : Unit} (h : Alike r s) (hr : Reader.enter r = .ok u r') :
    ∃ s', Reader.enter s = .ok () s' ∧ Alike r' s' ∧ r'.maxDepth = r.maxDepth ∧ s'.maxDepth = s.maxDepth ∧
      ∀ number outer, outer.length ≤ r.depth → outer.length ≤ s.depth →
        Opened (number :: outer) r' ∧ Opened (number :: outer) s' := by
  obtain ⟨hp, hd⟩ := Reader.enter_ok hr
  have hroom := h.room_eq
  unfold room at hroom
  obtain ⟨s', hs, hp'⟩ := enter_of_room (r := s) (by unfold room; omega)
  refine ⟨s', hs, h.still hp hp' ?_, hp.maxDepth_eq, hp'.maxDepth_eq, fun number outer hlr hls => ?_⟩
  · rw [hp.room_eq, hp'.room_eq]
    omega
  · exact ⟨.past hp (Nat.succ_le_succ hlr) hd, .past hp' (Nat.succ_le_succ hls) (Reader.enter_ok hs).2⟩

/-- Alike readers step over the open groups alike. -/
theorem skipGroups_same (h : Alike r s) (hr : Opened numbers r) (hs : Opened numbers s) :
    Matches r.maxDepth s.maxDepth (ending (skipGroups numbers r)) (ending (skipGroups numbers s)) := by
  fun_induction skipGroups numbers r generalizing s with
  | case1 r =>
    rw [skipGroups]
    exact .ok ()
  | case2 r number outer e r' ht =>
    have he := readTag_same h.valid_left h.valid_right h.window_eq
    rw [ht] at he
    obtain ⟨s', hs'⟩ := ending_error he
    rw [skipGroups]
    split <;> rename_i ht' <;> rw [hs'] at ht' <;> cases ht'
    exact .error e
  | case3 r number outer r' ht =>
    have he := readTag_same h.valid_left h.valid_right h.window_eq
    rw [ht] at he
    obtain ⟨s', hs'⟩ := ending_ok he
    rw [skipGroups]
    split <;> rename_i ht' <;> rw [hs'] at ht' <;> cases ht'
    exact .error _
  | case4 =>
    rename_i r outer tag r' ht he ih
    obtain ⟨head, rest, hw, _, rfl, ht', _⟩ := h.readTag ht
    rw [skipGroups_tag ht', he]
    dsimp only
    rw [if_pos rfl]
    obtain ⟨hr₁, hr₂⟩ := hr.leave head.length
    obtain ⟨hs₁, hs₂⟩ := hs.leave head.length
    exact ih (h.past hw ((past_pastTag r _).trans (past_leave _)) ((past_pastTag s _).trans (past_leave _))
      (by rw [hr₂, hs₂, h.room_eq])) hr₁ hs₁
  | case5 =>
    rename_i r number outer tag r' ht he hne
    obtain ⟨head, rest, hw, _, rfl, ht', _⟩ := h.readTag ht
    rw [skipGroups_tag ht', he]
    dsimp only
    rw [if_neg hne]
    exact .error _
  | case6 =>
    rename_i r number outer tag r' ht hg e r'' hent
    obtain ⟨head, rest, hw, _, rfl, ht', hal⟩ := h.readTag ht
    obtain ⟨rfl, hent'⟩ := hal.enter_error hent
    rw [skipGroups_tag ht', hg]
    dsimp only
    rw [hent']
    exact .limit
  | case7 =>
    rename_i r number outer tag r' ht hg u r'' hent ih
    obtain ⟨head, rest, hw, _, rfl, ht', hal⟩ := h.readTag ht
    obtain ⟨s', hent', hin, hmr, hms, hopened⟩ := hal.enter_ok hent
    obtain ⟨hor, hos⟩ := hopened tag.number (number :: outer) hr.length_le hs.length_le
    rw [skipGroups_tag ht', hg]
    dsimp only
    rw [hent']
    have hm := ih hin hor hos
    rwa [hmr, hms] at hm
  | case8 =>
    rename_i r number outer tag r' ht e r'' hskip hne hne'
    obtain ⟨head, rest, hw, _, rfl, ht', hal⟩ := h.readTag ht
    rw [skipGroups_tag ht']
    have he := (skipPlain_local tag).same hal.valid_left hal.valid_right hal.window_eq
    rw [hskip] at he
    obtain ⟨s', hs'⟩ := ending_error he
    rw [hs']
    split
    · exact absurd (by assumption) hne
    · exact absurd (by assumption) hne'
    · exact .error e
  | case9 =>
    rename_i r number outer tag r' ht u r'' hskip hne hne' ih
    obtain ⟨head, rest, hw, _, rfl, ht', hal⟩ := h.readTag ht
    obtain ⟨payload, more, hb, rfl, htakes⟩ := (skipPlain_local tag).ok hal.valid_left hskip
    rw [skipGroups_tag ht', htakes _ more hal.valid_right (hal.window_eq.trans hb)]
    split
    · exact absurd (by assumption) hne
    · exact absurd (by assumption) hne'
    · exact ih (hal.past hb (past_forward _ _) (past_forward _ _) hal.room_eq)
        ⟨hr.length_le, hr.depth_le⟩ ⟨hs.length_le, hs.depth_le⟩

/-- Alike readers step over a field alike. -/
theorem skip_same (tag : Tag) (h : Alike r s) :
    Matches r.maxDepth s.maxDepth (ending (skip tag r)) (ending (skip tag s)) := by
  by_cases hg : tag.wireType? = some .startGroup
  · cases hr : enter r with
    | error e r' =>
      obtain ⟨rfl, hs⟩ := h.enter_error hr
      rw [skip_of_not_enter hg hr, skip_of_not_enter hg hs]
      exact .limit
    | ok u r' =>
      obtain ⟨s', hs, hin, hmr, hms, hopened⟩ := h.enter_ok hr
      obtain ⟨hor, hos⟩ := hopened tag.number [] (Nat.zero_le _) (Nat.zero_le _)
      rw [skip_of_enter hg hr, skip_of_enter hg hs, ← hmr, ← hms]
      exact skipGroups_same hin hor hos
  · rw [skip_eq_skipPlain hg]
    exact .of_eq ((skipPlain_local tag).same h.valid_left h.valid_right h.window_eq)

/-! ## Raw bytes -/

/-- The reader is behind a tag that was written `head`. -/
structure Behind (head : Bytes) (r : Reader) : Prop where
  le_pos : r.tagStart ≤ r.pos
  slice_eq : r.slice r.tagStart r.pos = head

theorem behind_pastTag (hv : r.Valid) (hw : r.window = head ++ rest) : Behind head (r.pastTag head.length) := by
  refine ⟨Nat.le_add_right .., ?_⟩
  show r.slice r.pos (r.pos + head.length) = head
  rw [slice_pos_eq (hv.le_left hw), hw, List.take_left]

/-- From a place behind the reader up to past the front of its window. -/
theorem slice_past (hv : r.Valid) {start : Nat} (hs : start ≤ r.pos) (hw : r.window = bytes ++ rest)
    (hp : Past r bytes.length depth s) : s.slice start s.pos = r.slice start r.pos ++ bytes := by
  have hl := hv.le_left hw
  have h₁ := hv.pos_le
  have h₂ := hv.limit_le
  have hb : (r.buffer.toList.drop r.pos).take bytes.length = bytes := by
    have := slice_pos_eq hl
    rw [hw, List.take_left, Reader.slice_eq, Nat.add_sub_cancel_left] at this
    exact this
  unfold left at hl
  rw [Reader.slice_eq, Reader.slice_eq, hp.buffer_eq, hp.pos_eq,
    show r.pos + bytes.length - start = (r.pos - start) + bytes.length by omega, List.take_add, List.drop_drop,
    show start + (r.pos - start) = r.pos by omega, hb]

/-- Stepping over the payload of the tag behind which the reader is gives the whole field. -/
theorem readRaw_of_tail (h : Tail depth tag payload) (hv : r.Valid) (hb : Behind head r)
    (hw : r.window = payload ++ rest) (hd : depth ≤ r.room) :
    ∃ s, readRaw tag r = .ok (head ++ payload) s ∧ Past r payload.length r.depth s := by
  obtain ⟨s, hs, hp⟩ := skip_of_tail h hv hw hd
  refine ⟨s, ?_, hp⟩
  show (skip tag >>= fun _ => get >>= fun s => pure (s.slice r.tagStart s.pos)) r = _
  rw [bind_of_ok hs]
  show EStateM.Result.ok (s.slice r.tagStart s.pos) s = _
  rw [slice_past hv hb.le_pos hw hp, hb.slice_eq]

theorem readRaw_error {e : DecodeError} (h : skip tag r = .error e s) : readRaw tag r = .error e s := by
  show (skip tag >>= fun _ => get >>= fun s => pure (s.slice r.tagStart s.pos)) r = _
  rw [bind_of_error h]

/-- What is kept of a field is its tag, as it stands, and a whole payload. -/
theorem readRaw_ok {raw : Bytes} (hv : r.Valid) (hb : Behind head r) (h : readRaw tag r = .ok raw s) :
    ∃ payload, raw = head ++ payload ∧ Tail r.room tag payload := by
  cases hskip : skip tag r with
  | error e s' =>
    rw [readRaw_error hskip] at h
    cases h
  | ok u s' =>
    obtain ⟨payload, rest, hwin, htail, _⟩ := skip_tail hv hskip
    obtain ⟨_, hraw, _⟩ := readRaw_of_tail htail hv hb hwin (Nat.le_refl _)
    cases hraw.symm.trans h
    exact ⟨payload, rfl, htail⟩

end Reader

end Protobuf
