/-
  Protobuf.Proofs.Locality — merging reads a message field by field, and a field is its own bytes.

  (1) `Nexts` and `Opens` say what a step does in front of certain bytes, whatever follows: it changes
  the message, or opens a sub-message of which it names the bytes. Every step is local in this sense
  (`step_local`), and fails alike where the window and the levels left are the same.

  (2) `Absorbs table type room bytes m m'`: in front of `bytes`, merging goes on as if the message were
  `m'` and the bytes behind it. A merge that succeeds absorbs its whole window (`merge_absorbs`), and
  alike readers give the same message and the same ending (`merge_same`).

  (3) Hence merging a concatenation is merging one after the other (`mergeBytes_append`), also when the
  second part fails midway.
-/

import Protobuf.Message.Codec
import Protobuf.Proofs.Complete
import Protobuf.Sample.Shapes

namespace Protobuf

open Schema

namespace Reader

theorem Matches.within {α : Type} {k l k' l' : Nat} {x y : Except DecodeError α} (h : Matches k l x y) (hk : k = k')
    (hl : l = l') : Matches k' l' x y :=
  hk ▸ hl ▸ h

theorem Alike.tagged {r s : Reader} (h : Alike r s) (start start' : Nat) :
    Alike (r.tagged start) (s.tagged start') :=
  ⟨h.valid_left.tagged start, h.valid_right.tagged start', h.window_eq, h.room_eq⟩

/-! ## Sub-messages -/

/-- Confined to `body`, which may be a level further in. -/
structure Inside (r : Reader) (counted : Bool) (body : Bytes) (inner : Reader) : Prop where
  valid : inner.Valid
  window_eq : inner.window = body
  maxDepth_eq : inner.maxDepth = r.maxDepth
  depth_eq : inner.depth = if counted then r.depth + 1 else r.depth

/-- Levels that opening a part takes. -/
def levels (counted : Bool) : Nat := if counted then 1 else 0

theorem Inside.room_eq {r inner : Reader} {counted : Bool} {body : Bytes} (h : Inside r counted body inner) :
    inner.room = r.room - levels counted := by
  rw [room, h.maxDepth_eq, h.depth_eq, room]
  cases counted
  · rfl
  · show r.maxDepth - (r.depth + 1) = r.maxDepth - r.depth - 1
    omega

theorem enter_if_of_room (counted : Bool) (r : Reader) (h : levels counted ≤ r.room) :
    ∃ s, (if counted then enter else pure ()) r = .ok () s ∧
      Past r 0 (if counted then r.depth + 1 else r.depth) s := by
  cases counted with
  | false => exact ⟨r, rfl, past_refl r⟩
  | true => exact enter_of_room h

theorem openNested_of_spells {counted : Bool} {r : Reader} (hv : r.Valid) {head body rest : Bytes}
    (hw : r.window = head ++ (body ++ rest)) (hs : Varint.Spells head body.length) (hroom : levels counted ≤ r.room) :
    ∃ nested s, openNested counted r = .ok nested s ∧ Inside r counted body nested.inner ∧
      Past r (head ++ body).length r.depth nested.outer := by
  obtain ⟨hv', hw'⟩ := hv.forward hw
  obtain ⟨hc, hcw⟩ := hv'.confined hw' counted
  obtain ⟨s, hent, hp⟩ := enter_if_of_room counted (r.forward head.length) hroom
  unfold openNested
  rw [readLength_of_spells hv hw hs (by rw [List.length_append]; omega)]
  dsimp only
  rw [hent]
  refine ⟨_, _, rfl, ⟨⟨?_, ?_⟩, ?_, hp.maxDepth_eq, hp.depth_eq⟩, ?_⟩
  · show s.pos ≤ (r.forward head.length).pos + body.length
    rw [hp.pos_eq]
    exact hc.pos_le
  · show (r.forward head.length).pos + body.length ≤ s.buffer.size
    rw [hp.buffer_eq]
    exact hc.limit_le
  · refine Eq.trans ?_ hcw
    rw [window, window, slice_eq, slice_eq]
    show List.take (_ - s.pos) (List.drop s.pos s.buffer.toList) = _
    rw [hp.pos_eq, hp.buffer_eq]
    rfl
  · rw [List.length_append]
    exact (past_forward r _).trans (past_forward _ _)

theorem openNested_ok {counted : Bool} {r s : Reader} {nested : Nested} (hv : r.Valid)
    (h : openNested counted r = .ok nested s) :
    ∃ head body rest, r.window = head ++ (body ++ rest) ∧ Varint.Spells head body.length ∧
      levels counted ≤ r.room ∧ Inside r counted body nested.inner ∧
      Past r (head ++ body).length r.depth nested.outer := by
  have h' := h
  unfold openNested at h
  split at h
  · cases h
  · rename_i len r' hl
    obtain ⟨head, body, rest, hw, rfl, hs, rfl⟩ := readLength_ok hv hl
    have hroom : levels counted ≤ r.room := by
      cases counted with
      | false => exact Nat.zero_le _
      | true =>
        split at h
        · cases h
        · rename_i hent
          have := (enter_ok hent).2
          exact Nat.sub_pos_of_lt this
    obtain ⟨nested', s', ho, hin, hp⟩ := openNested_of_spells hv hw hs hroom
    rw [ho] at h'
    cases h'
    exact ⟨head, body, rest, hw, hs, hroom, hin, hp⟩

theorem openNested_same {counted : Bool} {r s : Reader} (h : Alike r s) {r' : Reader} {e : DecodeError}
    (hr : openNested counted r = .error e r') :
    ∃ f s', openNested counted s = .error f s' ∧
      Matches (α := Unit) r.maxDepth s.maxDepth (.error e) (.error f) := by
  have hl := readLength_same h.valid_left h.valid_right h.window_eq
  unfold openNested at hr ⊢
  cases h₁ : readLength r with
  | error e₁ r₁ =>
    rw [h₁] at hr hl
    obtain ⟨s₁, h₂⟩ := ending_error hl
    rw [h₂]
    cases hr
    exact ⟨_, _, rfl, .error _⟩
  | ok len r₁ =>
    obtain ⟨head, body, rest, hw, rfl, hs, rfl⟩ := readLength_ok h.valid_left h₁
    rw [h₁] at hr
    rw [readLength_of_spells h.valid_right (h.window_eq.trans hw) hs (by rw [List.length_append]; omega)]
    have hal := h.past hw (past_forward r _) (past_forward s _) h.room_eq
    dsimp only at hr ⊢
    cases counted with
    | false => cases hr
    | true =>
      simp only [if_true] at hr ⊢
      cases hent : enter (r.forward head.length) with
      | ok u r₂ =>
        rw [hent] at hr
        cases hr
      | error e₂ r₂ =>
        obtain ⟨rfl, hent'⟩ := hal.enter_error hent
        rw [hent] at hr
        cases hr
        rw [hent']
        exact ⟨_, _, rfl, .limit⟩

end Reader

/-! ## Steps -/

namespace Step

/-- Behind a tag written `head` and in front of `bytes`, the step changes the message and goes on. -/
def Nexts (f : Reader → Step) (head : Bytes) (room : Nat) (bytes : Bytes) (m : Message) : Prop :=
  ∀ r rest, r.Valid → Reader.Behind head r → r.window = bytes ++ rest → room ≤ r.room →
    ∃ s, f r = .next m s ∧ Reader.Past r bytes.length r.depth s

/-- Behind a tag written `head` and in front of `bytes`, the step opens a sub-message. -/
def Opens (f : Reader → Step) (head : Bytes) (room : Nat) (bytes body : Bytes) (counted : Bool) (m : Message)
    (place : Place) (type : MessageType) (child : Message) : Prop :=
  ∀ r rest, r.Valid → Reader.Behind head r → r.window = bytes ++ rest → room ≤ r.room →
    ∃ inner outer, f r = .into m place type child inner outer ∧ Reader.Inside r counted body inner ∧
      Reader.Past r bytes.length r.depth outer

structure Local (head : Bytes) (f : Reader → Step) : Prop where
  next : ∀ {r m s}, r.Valid → Reader.Behind head r → f r = .next m s →
    ∃ bytes rest, r.window = bytes ++ rest ∧ Reader.Past r bytes.length r.depth s ∧ Nexts f head r.room bytes m
  into : ∀ {r m place type child inner outer}, r.Valid → Reader.Behind head r →
    f r = .into m place type child inner outer →
    ∃ bytes rest body counted, r.window = bytes ++ rest ∧ Reader.Past r bytes.length r.depth outer ∧
      Reader.Inside r counted body inner ∧ Reader.levels counted ≤ r.room ∧
      Opens f head r.room bytes body counted m place type child
  stop : ∀ {r s m r' e}, Reader.Alike r s → Reader.Behind head r → Reader.Behind head s → f r = .stop m r' e →
    ∃ s' e', f s = .stop m s' e' ∧
      Reader.Matches (α := Unit) r.maxDepth s.maxDepth (.error e) (.error e')

theorem Local.next_alike {head : Bytes} {f : Reader → Step} (h : Local head f) {r s r' : Reader} {m : Message}
    (hal : Reader.Alike r s) (hr : Reader.Behind head r) (hs : Reader.Behind head s) (hf : f r = .next m r') :
    ∃ s', f s = .next m s' ∧ Reader.Alike r' s' ∧ r'.maxDepth = r.maxDepth ∧ s'.maxDepth = s.maxDepth := by
  obtain ⟨bytes, rest, hw, hp, hn⟩ := h.next hal.valid_left hr hf
  obtain ⟨s', hs', hp'⟩ := hn s rest hal.valid_right hs (hal.window_eq.trans hw) (Nat.le_of_eq hal.room_eq.symm)
  refine ⟨s', hs', hal.past hw hp hp' ?_, hp.maxDepth_eq, hp'.maxDepth_eq⟩
  rw [hp.room_eq, hp'.room_eq]
  exact hal.room_eq

theorem Local.into_alike {head : Bytes} {f : Reader → Step} (h : Local head f) {r s inner outer : Reader}
    {m child : Message} {place : Place} {type : MessageType} (hal : Reader.Alike r s) (hr : Reader.Behind head r)
    (hs : Reader.Behind head s) (hf : f r = .into m place type child inner outer) :
    ∃ inner' outer', f s = .into m place type child inner' outer' ∧
      (Reader.Alike inner inner' ∧ inner.maxDepth = r.maxDepth ∧ inner'.maxDepth = s.maxDepth) ∧
      Reader.Alike outer outer' ∧ outer.maxDepth = r.maxDepth ∧ outer'.maxDepth = s.maxDepth := by
  obtain ⟨bytes, rest, body, counted, hw, hp, hin, hroom, hn⟩ := h.into hal.valid_left hr hf
  obtain ⟨inner', outer', hs', hin', hp'⟩ :=
    hn s rest hal.valid_right hs (hal.window_eq.trans hw) (Nat.le_of_eq hal.room_eq.symm)
  refine ⟨inner', outer', hs', ⟨⟨hin.valid, hin'.valid, ?_, ?_⟩, hin.maxDepth_eq, hin'.maxDepth_eq⟩,
    hal.past hw hp hp' ?_, hp.maxDepth_eq, hp'.maxDepth_eq⟩
  · rw [hin.window_eq, hin'.window_eq]
  · rw [hin.room_eq, hin'.room_eq, hal.room_eq]
  · rw [hp.room_eq, hp'.room_eq]
    exact hal.room_eq

theorem ofRead_of_ok {α : Type} {read : Read α} {r s : Reader} {m : Message} {change : α → Message} {a : α}
    (h : read r = .ok a s) : ofRead read r m change = .next (change a) s := by
  rw [ofRead, h]

theorem ofRead_of_error {α : Type} {read : Read α} {r s : Reader} {m : Message} {change : α → Message}
    {e : DecodeError} (h : read r = .error e s) : ofRead read r m change = .stop m s e := by
  rw [ofRead, h]

theorem nexts_ofRead {α : Type} {read : Read α} {bytes : Bytes} {a : α} (h : Reader.Takes read bytes a)
    (head : Bytes) (room : Nat) (m : Message) (change : α → Message) :
    Nexts (fun r => ofRead read r m change) head room bytes (change a) := by
  intro r rest hv _ hw _
  exact ⟨_, ofRead_of_ok (h r rest hv hw), Reader.past_forward r _⟩

theorem local_ofRead {α : Type} {read : Read α} (h : Reader.Local read) (head : Bytes) (m : Message)
    (change : α → Message) : Local head fun r => ofRead read r m change where
  next := by
    intro r m' s hv _ hr
    cases hread : read r with
    | error e r' =>
      rw [ofRead_of_error hread] at hr
      cases hr
    | ok a r' =>
      rw [ofRead_of_ok hread] at hr
      cases hr
      obtain ⟨bytes, rest, hw, rfl, ht⟩ := h.ok hv hread
      exact ⟨bytes, rest, hw, Reader.past_forward r _, nexts_ofRead ht head _ m change⟩
  into := by
    intro r _ _ _ _ _ _ _ _ hr
    dsimp only [ofRead] at hr
    split at hr <;> cases hr
  stop := by
    intro r s m' r' e hal _ _ hr
    have he := h.same hal.valid_left hal.valid_right hal.window_eq
    cases hread : read r with
    | ok a r₁ =>
      rw [ofRead_of_ok hread] at hr
      cases hr
    | error e₁ r₁ =>
      rw [ofRead_of_error hread] at hr
      cases hr
      rw [hread] at he
      obtain ⟨s', hs'⟩ := Reader.ending_error he
      exact ⟨s', e, ofRead_of_error hs', .error e⟩

theorem local_next (head : Bytes) (m : Message) : Local head fun r => .next m r where
  next := by
    intro r m' s _ _ hr
    cases hr
    refine ⟨[], r.window, rfl, Reader.past_refl r, ?_⟩
    intro s rest _ _ _ _
    exact ⟨s, rfl, Reader.past_refl s⟩
  into := nofun
  stop := nofun

theorem local_ofRun (kind : Kind) (head : Bytes) (change : List Scalar → Message) :
    Local head fun r => ofRun (Reader.readRun kind r) change where
  next := by
    intro r m s hv _ hr
    dsimp only [ofRun] at hr
    split at hr
    · cases hr
    · rename_i hrun
      cases hr
      obtain ⟨bytes, rest, hw, rfl, hmove⟩ := Reader.readRun_move hv hrun
      refine ⟨bytes, rest, hw, Reader.past_forward r _, ?_⟩
      intro s rest' hs _ hsw _
      refine ⟨s.forward bytes.length, ?_, Reader.past_forward s _⟩
      dsimp only
      rw [ofRun, hmove s rest' hs hsw]
  into := by
    intro r _ _ _ _ _ _ _ _ hr
    dsimp only [ofRun] at hr
    split at hr <;> cases hr
  stop := by
    intro r s m r' e hal _ _ hr
    obtain ⟨hvals, hend⟩ := Reader.readRun_same kind hal.valid_left hal.valid_right hal.window_eq
    dsimp only [ofRun] at hr ⊢
    split at hr
    · rename_i hrun
      cases hr
      rw [hrun] at hend
      obtain ⟨s', hs'⟩ := Reader.ending_error hend
      rw [hs', hvals]
      exact ⟨_, _, rfl, .error e⟩
    · cases hr

theorem opens_ofNested {counted : Bool} {head size body : Bytes} (hs : Varint.Spells size body.length) {room : Nat}
    (hroom : Reader.levels counted ≤ room) (m : Message) (place : Place) (type : MessageType) (child : Message) :
    Opens (fun r => ofNested counted r m place type child) head room (size ++ body) body counted m place type child := by
  intro r rest hv _ hw hr
  rw [List.append_assoc] at hw
  obtain ⟨nested, s, ho, hin, hp⟩ := Reader.openNested_of_spells hv hw hs (Nat.le_trans hroom hr)
  refine ⟨nested.inner, nested.outer, ?_, hin, hp⟩
  dsimp only
  rw [ofNested, ho]

theorem local_ofNested (counted : Bool) (head : Bytes) (m : Message) (place : Place) (type : MessageType)
    (child : Message) : Local head fun r => ofNested counted r m place type child where
  next := by
    intro r m' s _ _ hr
    dsimp only [ofNested] at hr
    split at hr <;> cases hr
  into := by
    intro r m' place' type' child' inner outer hv _ hr
    dsimp only [ofNested] at hr
    split at hr
    · cases hr
    · rename_i nested s ho
      cases hr
      obtain ⟨size, body, rest, hw, hs, hroom, hin, hp⟩ := Reader.openNested_ok hv ho
      exact ⟨size ++ body, rest, body, counted, by rw [hw, List.append_assoc], hp, hin, hroom,
        opens_ofNested hs hroom m place type child⟩
  stop := by
    intro r s m' r' e hal _ _ hr
    dsimp only [ofNested] at hr ⊢
    split at hr
    · rename_i ho
      cases hr
      obtain ⟨f, s', ho', hm⟩ := Reader.openNested_same hal ho
      rw [ho']
      exact ⟨_, _, rfl, hm⟩
    · cases hr

end Step

/-- How a merge ended, without the reader. -/
def Outcome.ending (out : Outcome) : Except DecodeError Unit :=
  match out.error with
  | none => .ok ()
  | some e => .error e

theorem Outcome.ending_of_error {out : Outcome} {e : DecodeError} (h : out.error = some e) :
    out.ending = .error e := by
  rw [ending, h]

theorem Outcome.ending_of_none {out : Outcome} (h : out.error = none) : out.ending = .ok () := by
  rw [ending, h]

theorem Outcome.error_eq {out out' : Outcome} (h : out.ending = out'.ending) : out.error = out'.error := by
  unfold ending at h
  split at h <;> split at h <;> cases h <;> simp only [*]

namespace Message

variable (table : TypeTable) (type : MessageType)

/-- A field is read in one of four forms. Only for an entry of a map a part is opened that is not counted. -/
theorem readField_forms {P : (Reader → Step) → Prop} (field : Field) (index : Nat) (action : Action) (m : Message)
    (hread : ∀ kind n change, P fun r => .ofRead (Reader.readScalar kind) r n change)
    (hrun : ∀ kind change, P fun r => .ofRun (Reader.readRun kind r) change)
    (hnested : ∀ counted n place childType child, counted = true ∨ place = .entry index →
      P fun r => .ofNested counted r n place childType child)
    (hnext : P fun r => .next m r) : P (m.readField table type field index action) := by
  unfold readField
  cases field.strategy with
  | singular plain presence => exact hread _ _ _
  | repeated plain | packed plain =>
    by_cases ha : action = .run
    · simp only [ha, if_true]
      exact hrun _ _
    · simp only [ha, if_false]
      exact hread _ _ _
  | texts plain => exact hread _ _ _
  | message ref =>
    cases m.slotAt index with
    | message value => exact hnested _ _ _ _ _ (.inl rfl)
    | _ => exact hnext
  | messages ref =>
    cases m.slotAt index with
    | messages values => exact hnested _ _ _ _ _ (.inl rfl)
    | _ => exact hnext
  | map key value => exact hnested _ _ _ _ _ (.inr rfl)
  | member slot value =>
    cases value with
    | plain plain => exact hread _ _ _
    | message ref => exact hnested _ _ _ _ _ (.inl rfl)

theorem readField_local (field : Field) (index : Nat) (action : Action) (m : Message) (head : Bytes) :
    Step.Local head (m.readField table type field index action) := by
  refine readField_forms table type field index action m ?_ ?_ ?_ (Step.local_next head m)
  · exact fun kind => Step.local_ofRead (Reader.readScalar_local kind) head
  · exact fun kind => Step.local_ofRun kind head
  · exact fun counted n place childType child _ => Step.local_ofNested ..

theorem nexts_unknown (type : MessageType) {tag : Tag} {depth : Nat} {payload : Bytes}
    (h : Tail depth tag payload) (m : Message) (head : Bytes) :
    Step.Nexts (m.readUnknown type tag) head depth payload
      (if type.keepsUnknown then m.update fun body => { body with unknown := body.unknown ++ (head ++ payload) }
        else m) := by
  intro r rest hv hb hw hd
  unfold readUnknown
  by_cases hk : type.keepsUnknown = true
  · obtain ⟨s, hs, hp⟩ := Reader.readRaw_of_tail h hv hb hw hd
    rw [if_pos hk, if_pos hk]
    exact ⟨s, Step.ofRead_of_ok hs, hp⟩
  · obtain ⟨s, hs, hp⟩ := Reader.skip_of_tail h hv hw hd
    rw [if_neg hk, if_neg hk]
    exact ⟨s, Step.ofRead_of_ok hs, hp⟩

theorem readUnknown_skip {type : MessageType} {tag : Tag} {m : Message} {r s : Reader} {e : DecodeError}
    (h : Reader.skip tag r = .error e s) : m.readUnknown type tag r = .stop m s e := by
  unfold readUnknown
  split
  · exact Step.ofRead_of_error (Reader.readRaw_error h)
  · exact Step.ofRead_of_error h

theorem readUnknown_ok (type : MessageType) (m : Message) {tag : Tag} {r s : Reader}
    (h : Reader.skip tag r = .ok () s) : ∃ m', m.readUnknown type tag r = .next m' s := by
  unfold readUnknown
  split
  · exact ⟨_, Step.ofRead_of_ok (Reader.bind_of_ok h)⟩
  · exact ⟨_, Step.ofRead_of_ok h⟩

theorem readUnknown_local (tag : Tag) (m : Message) (head : Bytes) :
    Step.Local head (m.readUnknown type tag) where
  next := by
    intro r m' s hv hb hr
    cases hskip : Reader.skip tag r with
    | error e r' =>
      rw [readUnknown_skip hskip] at hr
      cases hr
    | ok u r' =>
      obtain ⟨payload, rest, hw, htail, hp⟩ := Reader.skip_tail hv hskip
      have hn := nexts_unknown type htail m head
      obtain ⟨s', hs', hp'⟩ := hn r rest hv hb hw (Nat.le_refl _)
      rw [hr] at hs'
      cases hs'
      exact ⟨payload, rest, hw, hp', hn⟩
  into := by
    intro r _ _ _ _ _ _ _ _ hr
    cases hskip : Reader.skip tag r with
    | error e r' =>
      rw [readUnknown_skip hskip] at hr
      cases hr
    | ok u r' =>
      obtain ⟨m', hm'⟩ := readUnknown_ok type m hskip
      rw [hm'] at hr
      cases hr
  stop := by
    intro r s m' r' e hal _ _ hr
    have hm := Reader.skip_same tag hal
    cases hskip : Reader.skip tag r with
    | ok u r₁ =>
      obtain ⟨m', hm'⟩ := readUnknown_ok type m hskip
      rw [hm'] at hr
      cases hr
    | error e₁ r₁ =>
      rw [readUnknown_skip hskip] at hr
      cases hr
      rw [hskip] at hm
      cases hskip' : Reader.skip tag s with
      | ok u s' =>
        rw [hskip'] at hm
        cases hm
      | error f s' =>
        rw [hskip'] at hm
        exact ⟨s', f, readUnknown_skip hskip', hm⟩

theorem step_local (tag : Tag) (m : Message) (head : Bytes) : Step.Local head (m.step table type tag) := by
  unfold step
  split
  · exact readField_local ..
  · exact readUnknown_local ..

/-! ## The loop over tags -/

section Loop

variable {table type} {m : Message} {r s : Reader} {tag : Tag}

theorem merge_none (ht : Reader.readTag r = .ok none s) : m.merge table type r = ⟨m, s, none⟩ := by
  rw [merge]
  split <;> rename_i h <;> rw [ht] at h <;> cases h
  rfl

theorem merge_done (hv : r.Valid) (hw : r.window = []) : m.merge table type r = ⟨m, r, none⟩ :=
  merge_none (Reader.readTag_done hv hw)

theorem merge_tag_error {e : DecodeError} (ht : Reader.readTag r = .error e s) :
    m.merge table type r = ⟨m, s, some e⟩ := by
  rw [merge]
  split <;> rename_i h <;> rw [ht] at h <;> cases h
  rfl

theorem merge_next {m' : Message} {r' : Reader} (ht : Reader.readTag r = .ok (some tag) s)
    (hs : m.step table type tag s = .next m' r') : m.merge table type r = m'.merge table type r' := by
  rw [merge]
  split <;> rename_i h <;> rw [ht] at h <;> cases h
  split <;> rename_i h <;> rw [hs] at h <;> cases h
  rfl

theorem merge_stop {m' : Message} {r' : Reader} {e : DecodeError} (ht : Reader.readTag r = .ok (some tag) s)
    (hs : m.step table type tag s = .stop m' r' e) : m.merge table type r = ⟨m', r', some e⟩ := by
  rw [merge]
  split <;> rename_i h <;> rw [ht] at h <;> cases h
  split <;> rename_i h <;> rw [hs] at h <;> cases h
  rfl

theorem merge_into {m' child : Message} {place : Place} {childType : MessageType} {inner outer : Reader}
    (ht : Reader.readTag r = .ok (some tag) s)
    (hs : m.step table type tag s = .into m' place childType child inner outer) :
    m.merge table type r =
      match (child.merge table childType inner).error with
      | some e =>
        ⟨m'.putFailed table type place (child.merge table childType inner).message,
          (child.merge table childType inner).reader, some e⟩
      | none =>
        merge table type (m'.put table type place (child.merge table childType inner).message)
          (outer.tagged (child.merge table childType inner).reader.tagStart) := by
  rw [merge]
  split <;> rename_i h <;> rw [ht] at h <;> cases h
  split <;> rename_i h <;> rw [hs] at h <;> cases h
  rfl

end Loop

/-! ## Absorbing -/

/-- In front of `bytes` and with `room` levels left, merging goes on as if the message were `m'` and the
    reader behind them. -/
def Absorbs (room : Nat) (bytes : Bytes) (m m' : Message) : Prop :=
  ∀ r rest, r.Valid → r.window = bytes ++ rest → room ≤ r.room →
    ∃ s, Reader.Past r bytes.length r.depth s ∧ m.merge table type r = m'.merge table type s

section Absorbing

variable {table type} {room : Nat} {m m' m'' : Message}

theorem absorbs_nil (m : Message) : Absorbs table type room [] m m := by
  intro r rest _ _ _
  exact ⟨r, Reader.past_refl r, rfl⟩

theorem Absorbs.trans {front back : Bytes} (h : Absorbs table type room front m m')
    (h' : Absorbs table type room back m' m'') : Absorbs table type room (front ++ back) m m'' := by
  intro r rest hv hw hr
  rw [List.append_assoc] at hw
  obtain ⟨s, hp, he⟩ := h r (back ++ rest) hv hw hr
  obtain ⟨hv', hw'⟩ := hp.valid hv hw
  obtain ⟨t, hp', he'⟩ := h' s rest hv' hw' (by rw [hp.room_eq]; exact hr)
  refine ⟨t, ?_, he.trans he'⟩
  rw [List.length_append, ← hp.depth_eq]
  exact hp.trans hp'

/-- With nothing behind the bytes, merging ends. -/
theorem Absorbs.merge_eq {bytes : Bytes} (h : Absorbs table type room bytes m m') {r : Reader} (hv : r.Valid)
    (hw : r.window = bytes) (hr : room ≤ r.room) :
    ∃ s, m.merge table type r = ⟨m', s, none⟩ ∧ Reader.Past r bytes.length r.depth s := by
  have hw' : r.window = bytes ++ [] := by rw [hw, List.append_nil]
  obtain ⟨s, hp, he⟩ := h r [] hv hw' hr
  obtain ⟨hv', hw''⟩ := hp.valid hv hw'
  exact ⟨s, he.trans (merge_done hv' hw''), hp⟩

theorem absorbs_next {head bytes : Bytes} {tag : Tag} (hs : Tag.Spells head tag)
    (h : Step.Nexts (m.step table type tag) head room bytes m') :
    Absorbs table type room (head ++ bytes) m m' := by
  intro r rest hv hw hr
  rw [List.append_assoc] at hw
  have ht := Reader.past_pastTag r head.length
  obtain ⟨hv', hw'⟩ := ht.valid hv hw
  obtain ⟨s, hn, hp⟩ := h _ rest hv' (Reader.behind_pastTag hv hw) hw' hr
  refine ⟨s, ?_, merge_next (Reader.readTag_of_spells hv hs hw) hn⟩
  rw [List.length_append]
  exact ht.trans hp

theorem absorbs_into {head bytes body : Bytes} {tag : Tag} {counted : Bool} {place : Place}
    {childType : MessageType} {child child' : Message} (hs : Tag.Spells head tag)
    (h : Step.Opens (m.step table type tag) head room bytes body counted m' place childType child)
    (hc : Absorbs table childType (room - Reader.levels counted) body child child') :
    Absorbs table type room (head ++ bytes) m (m'.put table type place child') := by
  intro r rest hv hw hr
  rw [List.append_assoc] at hw
  have ht := Reader.past_pastTag r head.length
  obtain ⟨hv', hw'⟩ := ht.valid hv hw
  obtain ⟨inner, outer, hn, hin, hp⟩ := h _ rest hv' (Reader.behind_pastTag hv hw) hw' hr
  have hroom : room - Reader.levels counted ≤ inner.room := by
    rw [hin.room_eq]
    exact Nat.sub_le_sub_right hr _
  obtain ⟨s, hm, _⟩ := hc.merge_eq hin.valid hin.window_eq hroom
  have hout : Reader.Past outer 0 r.depth (outer.tagged s.tagStart) := ⟨rfl, rfl, rfl, rfl, hp.depth_eq⟩
  refine ⟨outer.tagged s.tagStart, ?_, ?_⟩
  · rw [List.length_append]
    exact ht.trans (hp.trans hout)
  · rw [merge_into (Reader.readTag_of_spells hv hs hw) hn, hm]

/-- A merge that succeeds absorbs its window. -/
theorem merge_absorbs {r : Reader} (hv : r.Valid) (h : (m.merge table type r).error = none) :
    Absorbs table type r.room r.window m (m.merge table type r).message := by
  fun_induction merge table type m r with
  | case1 type m r e r' ht => cases h
  | case2 type m r r' ht =>
    obtain ⟨hw, -⟩ := Reader.readTag_none hv ht
    rw [hw]
    exact absorbs_nil m
  | case3 type m r tag r' ht m' r'' e hs => cases h
  | case4 type m r tag r' ht m' r'' hs ih =>
    obtain ⟨head, rest, hw, hspell, rfl⟩ := Reader.readTag_some ht
    have hp := Reader.past_pastTag r head.length
    obtain ⟨hv', hw'⟩ := hp.valid hv hw
    obtain ⟨bytes, rest', hb, hp', hn⟩ :=
      (step_local table type tag m head).next hv' (Reader.behind_pastTag hv hw) hs
    obtain ⟨hv'', hw''⟩ := hp'.valid hv' hb
    have habs := ih hv'' h
    rw [hp'.room_eq, hw''] at habs
    rw [hw, ← hw', hb, ← List.append_assoc]
    exact (absorbs_next hspell hn).trans habs
  | case5 type m r tag r' ht m' place childType child inner outer hs out e he ih => cases h
  | case6 type m r tag r' ht m' place childType child inner outer hs out he ihInner ihOuter =>
    obtain ⟨head, rest, hw, hspell, rfl⟩ := Reader.readTag_some ht
    have hp := Reader.past_pastTag r head.length
    obtain ⟨hv', hw'⟩ := hp.valid hv hw
    obtain ⟨bytes, rest', body, counted, hb, hp', hin, hroom, hn⟩ :=
      (step_local table type tag m head).into hv' (Reader.behind_pastTag hv hw) hs
    obtain ⟨hv'', hw''⟩ := hp'.valid hv' hb
    have hchild := ihInner hin.valid he
    rw [hin.room_eq, hin.window_eq] at hchild
    have habs : Absorbs table type (outer.tagged out.reader.tagStart).room
        (outer.tagged out.reader.tagStart).window _ _ := ihOuter (hv''.tagged _) h
    have hrm : (outer.tagged out.reader.tagStart).room = r.room := hp'.room_eq
    have hwin : (outer.tagged out.reader.tagStart).window = rest' := hw''
    rw [hrm, hwin] at habs
    rw [hw, ← hw', hb, ← List.append_assoc]
    exact (absorbs_into hspell hn hchild).trans habs

end Absorbing

/-! ## Alike readers -/

/-- Alike readers merge alike: to the same message, and with the same ending. -/
theorem merge_same {table : TypeTable} {type : MessageType} {m : Message} {r s : Reader} (h : Reader.Alike r s) :
    (m.merge table type s).message = (m.merge table type r).message ∧
      Reader.Matches r.maxDepth s.maxDepth (m.merge table type r).ending (m.merge table type s).ending := by
  fun_induction merge table type m r generalizing s with
  | case1 type m r e r' ht =>
    have he := Reader.readTag_same h.valid_left h.valid_right h.window_eq
    rw [ht] at he
    obtain ⟨s', hs'⟩ := Reader.ending_error he
    rw [merge_tag_error hs']
    exact ⟨rfl, .error e⟩
  | case2 type m r r' ht =>
    obtain ⟨hw, -⟩ := Reader.readTag_none h.valid_left ht
    rw [merge_done h.valid_right (h.window_eq.trans hw)]
    exact ⟨rfl, .ok ()⟩
  | case3 type m r tag r' ht m' r'' e hs =>
    obtain ⟨head, rest, hw, _, rfl, ht', hal⟩ := h.readTag ht
    obtain ⟨s', f, hs', hm⟩ := (step_local table type tag m head).stop hal (Reader.behind_pastTag h.valid_left hw)
      (Reader.behind_pastTag h.valid_right (h.window_eq.trans hw)) hs
    rw [merge_stop ht' hs']
    exact ⟨rfl, hm⟩
  | case4 type m r tag r' ht m' r'' hs ih =>
    obtain ⟨head, rest, hw, _, rfl, ht', hal⟩ := h.readTag ht
    obtain ⟨s', hs', hal', hr, hs''⟩ := (step_local table type tag m head).next_alike hal
      (Reader.behind_pastTag h.valid_left hw) (Reader.behind_pastTag h.valid_right (h.window_eq.trans hw)) hs
    rw [merge_next ht' hs']
    obtain ⟨hm, he⟩ := ih hal'
    exact ⟨hm, he.within hr hs''⟩
  | case5 =>
    rename_i type m r tag r' ht m' place childType child inner outer hs out e he ih
    obtain ⟨head, rest, hw, _, rfl, ht', hal⟩ := h.readTag ht
    obtain ⟨inner', outer', hs', hin, hout⟩ := (step_local table type tag m head).into_alike hal
      (Reader.behind_pastTag h.valid_left hw) (Reader.behind_pastTag h.valid_right (h.window_eq.trans hw)) hs
    obtain ⟨hm, he'⟩ := ih hin.1
    replace he' := he'.within hin.2.1 hin.2.2
    rw [Outcome.ending_of_error he] at he'
    cases hf : (child.merge table childType inner').error with
    | none =>
      rw [Outcome.ending_of_none hf] at he'
      cases he'
    | some f =>
      rw [Outcome.ending_of_error hf] at he'
      rw [merge_into ht' hs', hf, hm]
      exact ⟨rfl, he'⟩
  | case6 =>
    rename_i type m r tag r' ht m' place childType child inner outer hs out he ihInner ihOuter
    obtain ⟨head, rest, hw, _, rfl, ht', hal⟩ := h.readTag ht
    obtain ⟨inner', outer', hs', hin, hout⟩ := (step_local table type tag m head).into_alike hal
      (Reader.behind_pastTag h.valid_left hw) (Reader.behind_pastTag h.valid_right (h.window_eq.trans hw)) hs
    obtain ⟨hm, he'⟩ := ihInner hin.1
    rw [Outcome.ending_of_none he] at he'
    cases hf : (child.merge table childType inner').error with
    | some f =>
      rw [Outcome.ending_of_error hf] at he'
      cases he'
    | none =>
      rw [merge_into ht' hs', hf, hm]
      obtain ⟨hm', he''⟩ :=
        ihOuter (hout.1.tagged out.reader.tagStart (child.merge table childType inner').reader.tagStart)
      exact ⟨hm', he''.within hout.2.1 hout.2.2⟩

/-! ## Concatenation -/

/-- What is merged behind bytes that were merged without failure does not depend on how they were. -/
theorem mergeWithin_append {table : TypeTable} {type : MessageType} {m m' : Message} {front : Bytes} {maxDepth : Nat}
    (h : mergeWithin table type maxDepth m front = (m', none)) (back : Bytes) :
    mergeWithin table type maxDepth m (front ++ back) = mergeWithin table type maxDepth m' back := by
  obtain ⟨rfl, herror⟩ := Prod.mk.inj h
  obtain ⟨hvf, hwf⟩ := Reader.valid_ofBytesWithin front maxDepth
  obtain ⟨hvb, hwb⟩ := Reader.valid_ofBytesWithin back maxDepth
  obtain ⟨hv, hw⟩ := Reader.valid_ofBytesWithin (front ++ back) maxDepth
  have habs := merge_absorbs hvf herror
  obtain ⟨s, hp, he⟩ := habs _ back hv (by rw [hwf]; exact hw) (Nat.le_refl _)
  obtain ⟨hv', hw'⟩ := hp.valid hv (by rw [hwf]; exact hw)
  have hal : Reader.Alike s (.ofBytesWithin back maxDepth) :=
    ⟨hv', hvb, hwb.trans hw'.symm, by rw [hp.room_eq]; rfl⟩
  obtain ⟨hmessage, hending⟩ := merge_same hal
  have hlimit : s.maxDepth = maxDepth := hp.maxDepth_eq
  rw [mergeWithin, mergeWithin, he, hmessage, Outcome.error_eq (hending.within hlimit rfl).eq]

/-- Merging a concatenation is merging its parts one after the other: once the first part is merged,
    the rest has the same message and the same failure, if any, as when it is merged on its own. -/
theorem mergeBytes_append (table : TypeTable) (type : MessageType) (m m' : Message) (front back : Bytes)
    (h : mergeBytes table type m front = (m', none)) :
    mergeBytes table type m (front ++ back) = mergeBytes table type m' back :=
  mergeWithin_append h back

set_option maxRecDepth 100000 in
/-- A sub-message that is there, and then more of it that breaks off: what was read stays. -/
theorem mergeBytes_append_truncated :
    let table := Sample.Shapes.table
    let shape := table.message "demo.shapes.Shape"
    let once := mergeBytes table shape (new shape) [0x1a, 2, 0x08, 5]
    once.2 = none ∧ (mergeBytes table shape once.1 [0x1a, 2, 0x08, 7, 0x1a, 1, 0x10]).2 = some .truncated ∧
      mergeBytes table shape (new shape) ([0x1a, 2, 0x08, 5] ++ [0x1a, 2, 0x08, 7, 0x1a, 1, 0x10]) =
        mergeBytes table shape once.1 [0x1a, 2, 0x08, 7, 0x1a, 1, 0x10] := by
  intro table shape once
  have hfront : once.2 = none := by decide +kernel
  refine ⟨hfront, by decide +kernel, ?_⟩
  exact mergeBytes_append table shape (new shape) once.1 _ _ (Prod.ext rfl hfront)

end Message

end Protobuf
