/-
  Protobuf.Proofs.Cursor — a cursor stays within its buffer, whatever is read with it.

  Messages are read in the checked form too: opening a part enters its level and pushes its end as the limit,
  leaving it restores both. `Step.Leads` says where a step leaves the cursor, and `merge_sure` that a merge does not
  fault and comes back to the limit and depth it had, unless it fails.

  A `Session` is a reader with the limits that were pushed and not yet popped. `apply` is one call on it,
  and after a call that failed the session goes on with what that left: limits and levels of the parts that were
  open. They only ever shrink the bounds, so `Nested` holds after every call (`apply_follows`) and after any row of
  calls, and none of them faults (`session_in_bounds`).
-/

import Protobuf.Proofs.Checked

namespace Protobuf

open Schema

namespace Checked

open Reader (Run)

variable {α : Type}

/-! ## Checked messages -/

/-- Opens a part: one more level if it counts, then its end as the limit. The limit it replaces is returned. -/
def openNested (counted : Bool) : Checked Nat := fun r =>
  andThen (readLength r) fun len s =>
    andThen (if counted then enter s else some (.ok () s)) fun _ s => pushLimit len s

/-- Leaves a part that was read. -/
def closeNested (counted : Bool) (limit : Nat) (r : Reader) : Option Reader :=
  if counted then leave (r.popLimit limit) else some (r.popLimit limit)

def ofRead (read : Checked α) (r : Reader) (m : Message) (change : α → Message) : Option Step :=
  (read r).map fun result =>
    match result with
    | .error e s => .stop m s e
    | .ok a s => .next (change a) s

def ofRun (run : Option Run) (change : List Scalar → Message) : Option Step := run.map (Step.ofRun · change)

/-- The reader behind a part is the one that leaving it at once would give. -/
def ofNested (counted : Bool) (r : Reader) (m : Message) (place : Place) (type : MessageType) (child : Message) :
    Option Step :=
  match openNested counted r with
  | none => none
  | some (.error e s) => some (.stop m s e)
  | some (.ok limit inner) => (closeNested counted limit inner).map fun outer => .into m place type child inner outer

def readField (table : TypeTable) (type : MessageType) (field : Field) (index : Nat) (action : Action)
    (m : Message) (r : Reader) : Option Step :=
  let child := table.childAt type index
  match field.strategy with
  | .singular plain _ => ofRead (readScalar plain.kind) r m (m.setScalar field index)
  | .repeated plain | .packed plain =>
    if action = .run then ofRun (readRun plain.kind r) (m.appendScalars index)
    else ofRead (readScalar plain.kind) r m fun value => m.appendScalars index [value]
  | .texts plain =>
    let m := m.addText index plain.kind
    ofRead (readScalar plain.kind) r m (m.setLastText index)
  | .message _ =>
    match m.slotAt index with
    | .message value =>
      let start := value.getOrInit (Message.clear child) (.new child)
      ofNested true r (m.setSlot index (.message (.present start))) (.field index) child start
    | _ => some (.next m r)
  | .messages _ =>
    match m.slotAt index with
    | .messages values =>
      let start := values.spare (Message.clear child) (.new child)
      ofNested true r (m.setSlot index (.messages (values.push start))) (.element index) child start
    | _ => some (.next m r)
  | .map key value =>
    let valueDefault :=
      match field.type with
      | .map _ _ valueDefault => valueDefault
      | .value _ => none
    let entry := entryType key value valueDefault
    ofNested false r m (.entry index) entry (.new entry)
  | .member slot (.plain plain) =>
    ofRead (readScalar plain.kind) r m fun value => m.setMember slot index (.scalar value)
  | .member slot (.message _) =>
    let (start, choice) := (m.choiceAt slot).select (Message.clear child) (.new child) index
    ofNested true r (m.setChoice slot choice) (.member slot index) child start

def readUnknown (type : MessageType) (tag : Tag) (m : Message) (r : Reader) : Option Step :=
  if type.keepsUnknown then
    ofRead (readRaw tag) r m fun raw => m.update fun body => { body with unknown := body.unknown ++ raw }
  else ofRead (skip tag) r m fun _ => m

def step (table : TypeTable) (type : MessageType) (m : Message) (tag : Tag) (r : Reader) : Option Step :=
  match type.dispatch.find? fun entry => entry.tag == tag with
  | some entry =>
    readField table type (type.fields[entry.field]?.getD default) entry.field entry.action m r
  | none => readUnknown type tag m r

/-- Whether a sub-message at this place is a level of its own; a map entry is not. -/
def counts : Place → Bool
  | .entry _ => false
  | _ => true

def merge (table : TypeTable) (type : MessageType) (m : Message) (r : Reader) : Option Outcome :=
  match readTag r with
  | none => none
  | some (.error e s) => some ⟨m, s, some e⟩
  | some (.ok none s) => some ⟨m, s, none⟩
  | some (.ok (some tag) s) =>
    match step table type m tag s with
    | none => none
    | some (.stop m s e) => some ⟨m, s, some e⟩
    | some (.next m s) => if _h : s.left < r.left then merge table type m s else none
    | some (.into m place childType child inner outer) =>
      if _h : inner.left < r.left then
        match merge table childType child inner with
        | none => none
        | some out =>
          match out.error with
          | some e => some ⟨m.putFailed table type place out.message, out.reader, some e⟩
          | none =>
            match closeNested (counts place) outer.limit out.reader with
            | none => none
            | some s =>
              if _h : s.left < r.left then merge table type (m.put table type place out.message) s else none
      else none
termination_by r.left

def mergeNested (table : TypeTable) (type : MessageType) (m : Message) (r : Reader) : Option Outcome :=
  match openNested true r with
  | none => none
  | some (.error e s) => some ⟨m, s, some e⟩
  | some (.ok limit inner) =>
    match merge table type m inner with
    | none => none
    | some out =>
      match out.error with
      | some _ => some out
      | none => (closeNested true limit out.reader).map fun s => { out with reader := s }

/-! ## No message faults -/

variable {b r s inner outer : Reader} {m child : Message} {type childType : MessageType} {place : Place}

/-- A part that was opened: `inner` is confined to it and `outer` behind it. -/
structure Opened (r : Reader) (counted : Bool) (inner outer : Reader) : Prop where
  onward : r.Onward inner
  level : r.Level outer
  limit_eq : inner.limit = outer.pos
  depth_eq : inner.depth = outer.depth + Reader.levels counted
  tag_eq : inner.tagStart = outer.tagStart

theorem openNested_sure (h : r.InBounds) (counted : Bool) :
    (∃ e s, openNested counted r = some (.error e s) ∧ Reader.openNested counted r = .error e s ∧ r.Onward s) ∨
    ∃ inner outer s, openNested counted r = some (.ok r.limit inner) ∧
      Reader.openNested counted r = .ok ⟨inner, outer⟩ s ∧ Opened r counted inner outer := by
  have hlen := readLength_sure h
  unfold openNested Reader.openNested
  rw [hlen.eq]
  cases hl : Reader.readLength r with
  | error e s => exact .inl ⟨e, s, rfl, rfl, hlen.error e s hl⟩
  | ok len s =>
    obtain ⟨hs, hroom⟩ := hlen.ok len s hl
    have hbehind := hs.trans (hs.inBounds.forward hroom)
    have henter : Sure r (if counted then enter s else some (.ok () s))
        ((if counted then Reader.enter else pure ()) s) fun _ t =>
          t = { s with depth := s.depth + Reader.levels counted } ∧ s.Onward t := by
      cases counted with
      | true => exact (enter_sure hs.inBounds).imp hs.toOnward fun _ t ht => ht
      | false => exact sure_ok ⟨rfl, hs.inBounds.level.toOnward⟩
    simp only [andThen, henter.eq]
    cases ht : (if counted then Reader.enter else pure ()) s with
    | error e t => exact .inl ⟨e, t, rfl, rfl, henter.error e t ht⟩
    | ok u t =>
      obtain ⟨rfl, hent⟩ := henter.ok u t ht
      have hpush := pushLimit_sure hent.inBounds len
      have hinner : Reader.pushLimit len { s with depth := s.depth + Reader.levels counted } =
          .ok r.limit { s with depth := s.depth + Reader.levels counted, limit := s.pos + len } := by
        rw [← hs.limit_eq]
        exact pushLimit_of_room hroom
      refine .inr ⟨_, s.forward len, _, hpush.eq.trans (congrArg some hinner), rfl, ?_⟩
      have hin := (hpush.ok _ _ hinner).2.2
      exact ⟨hs.toOnward.trans (hent.trans hin), hbehind, rfl, rfl, rfl⟩

/-- Leaving a part that was read to its end leads behind it. -/
theorem closeNested_eq {counted : Bool} (h : Opened r counted inner outer) (hs : inner.Level s) :
    closeNested counted outer.limit s = some (outer.tagged s.tagStart) ∧ r.Level (outer.tagged s.tagStart) := by
  have hpop : (s.popLimit outer.limit).InBounds := by
    refine hs.inBounds.popLimit ?_ ?_
    · rw [hs.limit_eq, h.limit_eq]
      exact h.level.inBounds.pos_le
    · rw [hs.buffer_eq, h.onward.buffer_eq, ← h.level.buffer_eq]
      exact h.level.inBounds.limit_le
  have hnext : { s.popLimit outer.limit with depth := s.depth - Reader.levels counted } = outer.tagged s.tagStart := by
    have hbuf : s.buffer = outer.buffer := by rw [hs.buffer_eq, h.onward.buffer_eq, h.level.buffer_eq]
    have hmax : s.maxDepth = outer.maxDepth := by rw [hs.maxDepth_eq, h.onward.maxDepth_eq, h.level.maxDepth_eq]
    have hpos : s.limit = outer.pos := hs.limit_eq.trans h.limit_eq
    have hdep : s.depth - Reader.levels counted = outer.depth := by rw [hs.depth_eq, h.depth_eq, Nat.add_sub_cancel]
    simp only [Reader.popLimit, Reader.tagged, hbuf, hmax, hpos, hdep]
  have htag : s.tagStart ≤ outer.pos := by
    rw [← h.limit_eq, ← hs.limit_eq]
    exact Nat.le_trans hs.inBounds.tag_le hs.inBounds.pos_le
  refine ⟨?_, ⟨⟨⟨h.level.inBounds.pos_le, h.level.inBounds.limit_le⟩, htag, h.level.inBounds.depth_le⟩,
    h.level.buffer_eq, h.level.maxDepth_eq, h.level.pos_le, h.level.limit_le, h.level.depth_le⟩,
    h.level.limit_eq, h.level.depth_eq⟩
  cases counted with
  | false => exact congrArg some hnext
  | true =>
    have hdeep : 0 < s.depth := by
      rw [hs.depth_eq, h.depth_eq]
      exact Nat.succ_pos _
    rw [closeNested, if_pos rfl, leave_eq hpop hdeep, ← hnext]
    rfl

/-- Where a step that starts at `r` leaves the cursor. -/
def Leads (r : Reader) : Step → Prop
  | .next _ s => r.Level s
  | .stop _ s _ => r.Onward s
  | .into _ place _ _ inner outer => Opened r (counts place) inner outer

/-- The checked step is the plain one, and leads on from `r`. -/
structure SureStep (r : Reader) (x : Option Step) (y : Step) : Prop where
  eq : x = some y
  leads : Leads r y

theorem ofRead_sure {x : Checked α} {read : Read α} (h : Sure r (x r) (read r) fun _ s => r.Level s)
    (m : Message) (change : α → Message) : SureStep r (ofRead x r m change) (.ofRead read r m change) := by
  unfold ofRead Step.ofRead
  rw [h.eq, Option.map_some]
  cases hr : read r with
  | error e s => exact ⟨rfl, h.error e s hr⟩
  | ok a s => exact ⟨rfl, h.ok a s hr⟩

theorem ofRun_sure {x : Option Run} {run : Run} (h : SureRun r x run) (change : List Scalar → Message) :
    SureStep r (ofRun x change) (.ofRun run change) := by
  unfold ofRun
  rw [h.eq, Option.map_some]
  refine ⟨rfl, ?_⟩
  unfold Step.ofRun
  cases hr : run.result with
  | error e s => exact h.error e s hr
  | ok u s => exact h.ok s hr

theorem ofNested_sure (h : r.InBounds) (m : Message) (place : Place) (type : MessageType) (child : Message) :
    SureStep r (ofNested (counts place) r m place type child) (.ofNested (counts place) r m place type child) := by
  unfold ofNested Step.ofNested
  rcases openNested_sure h (counts place) with ⟨e, s, hx, hy, hs⟩ | ⟨inner, outer, s, hx, hy, hopen⟩
  · rw [hx, hy]
    exact ⟨rfl, hs⟩
  · have hclose := (closeNested_eq hopen hopen.onward.inBounds.level).1
    have hsame : outer.tagged inner.tagStart = outer := by
      rw [hopen.tag_eq]
      rfl
    rw [hopen.level.limit_eq, hsame] at hclose
    rw [hx, hy]
    simp only [hclose, Option.map_some]
    exact ⟨rfl, hopen⟩

theorem readField_sure (h : r.InBounds) (table : TypeTable) (type : MessageType) (field : Field) (index : Nat)
    (action : Action) (m : Message) :
    SureStep r (readField table type field index action m r) (m.readField table type field index action r) := by
  unfold readField Message.readField
  cases field.strategy with
  | singular plain presence => exact ofRead_sure (readScalar_sure h _) _ _
  | repeated plain | packed plain =>
    dsimp only
    by_cases ha : action = .run
    · rw [if_pos ha, if_pos ha]
      exact ofRun_sure (readRun_sure h _) _
    · rw [if_neg ha, if_neg ha]
      exact ofRead_sure (readScalar_sure h _) _ _
  | texts plain => exact ofRead_sure (readScalar_sure h _) _ _
  | message name =>
    cases m.slotAt index with
    | message value => exact ofNested_sure h _ (.field index) _ _
    | _ => exact ⟨rfl, h.level⟩
  | messages name =>
    cases m.slotAt index with
    | messages values => exact ofNested_sure h _ (.element index) _ _
    | _ => exact ⟨rfl, h.level⟩
  | map key value => exact ofNested_sure h _ (.entry index) _ _
  | member slot value =>
    cases value with
    | plain plain => exact ofRead_sure (readScalar_sure h _) _ _
    | message name => exact ofNested_sure h _ (.member slot index) _ _

theorem readUnknown_sure (h : r.InBounds) (type : MessageType) (tag : Tag) (m : Message) :
    SureStep r (readUnknown type tag m r) (m.readUnknown type tag r) := by
  unfold readUnknown Message.readUnknown
  by_cases hk : type.keepsUnknown
  · rw [if_pos hk, if_pos hk]
    exact ofRead_sure (readRaw_sure h tag) _ _
  · rw [if_neg hk, if_neg hk]
    exact ofRead_sure (skip_sure h tag) _ _

theorem step_sure (h : r.InBounds) (table : TypeTable) (type : MessageType) (m : Message) (tag : Tag) :
    SureStep r (step table type m tag r) (m.step table type tag r) := by
  unfold step Message.step
  cases type.dispatch.find? fun entry => entry.tag == tag with
  | some entry => exact readField_sure h table type _ _ _ m
  | none => exact readUnknown_sure h type tag m

/-- The checked merge is the plain one. It leads on from `b`, and back to its level if it succeeds. -/
structure SureOutcome (b : Reader) (x : Option Outcome) (y : Outcome) : Prop where
  eq : x = some y
  onward : b.Onward y.reader
  level : y.error = none → b.Level y.reader

theorem sureOutcome_error (m : Message) (e : DecodeError) (h : b.Onward s) :
    SureOutcome b (some ⟨m, s, some e⟩) ⟨m, s, some e⟩ := by
  refine ⟨rfl, h, ?_⟩
  intro hnone
  cases hnone

theorem SureOutcome.of_level {x : Option Outcome} {y : Outcome} (h : SureOutcome s x y) (hs : b.Level s) :
    SureOutcome b x y :=
  ⟨h.eq, hs.toOnward.trans h.onward, fun hnone => hs.trans (h.level hnone)⟩

theorem merge_sure (h : r.InBounds) (table : TypeTable) (type : MessageType) (m : Message) :
    SureOutcome r (merge table type m r) (m.merge table type r) := by
  have tagged : ∀ {r s : Reader} {tag : Tag}, r.InBounds → Reader.readTag r = .ok (some tag) s →
      readTag r = some (.ok (some tag) s) ∧ r.Level s ∧ s.left < r.left := by
    intro r s tag h ht
    have hsure := readTag_sure h
    exact ⟨by rw [hsure.eq, ht], (hsure.ok _ _ ht).1, (Reader.readTag_lt ht).2⟩
  fun_induction Message.merge table type m r with
  | case1 type m r e s ht =>
    have hsure := readTag_sure h
    rw [merge, hsure.eq, ht]
    exact sureOutcome_error m e (hsure.error e s ht)
  | case2 type m r s ht =>
    have hsure := readTag_sure h
    have hs := (hsure.ok _ s ht).1
    rw [merge, hsure.eq, ht]
    exact ⟨rfl, hs.toOnward, fun _ => hs⟩
  | case3 type m r tag s ht m' t e hst =>
    obtain ⟨heq, hs, -⟩ := tagged h ht
    have hstep := step_sure hs.inBounds table type m tag
    have hleads := hstep.leads
    rw [hst] at hleads
    rw [merge, heq]
    simp only [hstep.eq, hst]
    exact sureOutcome_error m' e (hs.toOnward.trans hleads)
  | case4 type m r tag s ht m' t hst ih =>
    obtain ⟨heq, hs, hlt⟩ := tagged h ht
    have hstep := step_sure hs.inBounds table type m tag
    have hleads := hstep.leads
    rw [hst] at hleads
    have hleft : t.left < r.left := Nat.lt_of_le_of_lt (Message.next_left hst) hlt
    rw [merge, heq]
    simp only [hstep.eq, hst]
    rw [dif_pos hleft]
    exact (ih hleads.inBounds).of_level (hs.trans hleads)
  | case5 type m r tag s ht m' place childType child inner outer hst out e he ih =>
    obtain ⟨heq, hs, hlt⟩ := tagged h ht
    have hstep := step_sure hs.inBounds table type m tag
    have hopen : Opened s (counts place) inner outer := by
      have hleads := hstep.leads
      rwa [hst] at hleads
    have hleft : inner.left < r.left := Nat.lt_of_le_of_lt (Message.into_left hst).1 hlt
    have hchild : SureOutcome inner (merge table childType child inner) out := ih hopen.onward.inBounds
    rw [merge, heq]
    simp only [hstep.eq, hst]
    rw [dif_pos hleft, hchild.eq]
    simp only [he]
    exact sureOutcome_error _ e (hs.toOnward.trans (hopen.onward.trans hchild.onward))
  | case6 type m r tag s ht m' place childType child inner outer hst out he ihInner ihOuter =>
    obtain ⟨heq, hs, hlt⟩ := tagged h ht
    have hstep := step_sure hs.inBounds table type m tag
    have hopen : Opened s (counts place) inner outer := by
      have hleads := hstep.leads
      rwa [hst] at hleads
    have hleft : inner.left < r.left := Nat.lt_of_le_of_lt (Message.into_left hst).1 hlt
    have hchild : SureOutcome inner (merge table childType child inner) out := ihInner hopen.onward.inBounds
    obtain ⟨hclose, hnext⟩ := closeNested_eq hopen (hchild.level he)
    have hleft' : (outer.tagged out.reader.tagStart).left < r.left :=
      Nat.lt_of_le_of_lt (Message.into_left hst).2 hlt
    rw [merge, heq]
    simp only [hstep.eq, hst]
    rw [dif_pos hleft, hchild.eq]
    simp only [he, hclose]
    rw [dif_pos hleft']
    exact (ihOuter hnext.inBounds).of_level (hs.trans hnext)

theorem mergeNested_sure (h : r.InBounds) (table : TypeTable) (type : MessageType) (m : Message) :
    SureOutcome r (mergeNested table type m r) (m.mergeNested table type r) := by
  unfold mergeNested Message.mergeNested
  rcases openNested_sure h true with ⟨e, s, hx, hy, hs⟩ | ⟨inner, outer, s, hx, hy, hopen⟩
  · rw [hx, hy]
    exact sureOutcome_error m e hs
  · have hout := merge_sure hopen.onward.inBounds table type m
    rw [hx, hy]
    simp only [hout.eq]
    cases he : (m.merge table type inner).error with
    | some e =>
      refine ⟨rfl, hopen.onward.trans hout.onward, ?_⟩
      intro hnone
      rw [he] at hnone
      cases hnone
    | none =>
      obtain ⟨hclose, hnext⟩ := closeNested_eq hopen (hout.level he)
      rw [hopen.level.limit_eq] at hclose
      simp only [hclose, Option.map_some]
      exact ⟨rfl, hnext.toOnward, fun _ => hnext⟩

end Checked

/-! ## Sessions -/

/-- A reader and the limits that were pushed on it, the last one first. -/
structure Session where
  reader : Reader
  saved : List Nat := []

/-- A call on a reader. -/
inductive Call where
  | left
  | tag
  | varint
  | length
  | scalar (kind : Kind)
  | run (kind : Kind)
  /-- A message up to the limit. -/
  | fields (table : TypeTable) (type : MessageType) (m : Message)
  /-- A message behind its length. -/
  | message (table : TypeTable) (type : MessageType) (m : Message)
  | skip (tag : Tag)
  | raw (tag : Tag)
  | push (len : Nat)
  /-- Restores the limit that was pushed last, if any. -/
  | pop

namespace Session

/-- The reader that a read leaves, also if it fails. -/
def behind {α : Type} : EStateM.Result DecodeError Reader α → Reader
  | .ok _ r => r
  | .error _ r => r

/-- The session after a call, also after one that failed. -/
def apply (st : Session) : Call → Session
  | .left => st
  | .tag => { st with reader := behind st.reader.readTag }
  | .varint => { st with reader := behind st.reader.readVarint }
  | .length => { st with reader := behind st.reader.readLength }
  | .scalar kind => { st with reader := behind (Reader.readScalar kind st.reader) }
  | .run kind => { st with reader := behind (Reader.readRun kind st.reader).result }
  | .fields table type m => { st with reader := (m.merge table type st.reader).reader }
  | .message table type m => { st with reader := (m.mergeNested table type st.reader).reader }
  | .skip tag => { st with reader := behind (Reader.skip tag st.reader) }
  | .raw tag => { st with reader := behind (Reader.readRaw tag st.reader) }
  | .push len =>
    match Reader.pushLimit len st.reader with
    | .ok old r => ⟨r, old :: st.saved⟩
    | .error _ r => { st with reader := r }
  | .pop =>
    match st.saved with
    | limit :: saved => ⟨st.reader.popLimit limit, saved⟩
    | [] => st

/-- The same with every access checked. -/
def check (st : Session) : Call → Option Session
  | .left => (Checked.left st.reader).map fun _ => st
  | .tag => (Checked.readTag st.reader).map fun x => { st with reader := behind x }
  | .varint => (Checked.readVarint st.reader).map fun x => { st with reader := behind x }
  | .length => (Checked.readLength st.reader).map fun x => { st with reader := behind x }
  | .scalar kind => (Checked.readScalar kind st.reader).map fun x => { st with reader := behind x }
  | .run kind => (Checked.readRun kind st.reader).map fun run => { st with reader := behind run.result }
  | .fields table type m => (Checked.merge table type m st.reader).map fun out => { st with reader := out.reader }
  | .message table type m =>
    (Checked.mergeNested table type m st.reader).map fun out => { st with reader := out.reader }
  | .skip tag => (Checked.skip tag st.reader).map fun x => { st with reader := behind x }
  | .raw tag => (Checked.readRaw tag st.reader).map fun x => { st with reader := behind x }
  | .push len =>
    (Checked.pushLimit len st.reader).map fun x =>
      match x with
      | .ok old r => ⟨r, old :: st.saved⟩
      | .error _ r => { st with reader := r }
  | .pop =>
    match st.saved with
    | limit :: saved => some ⟨st.reader.popLimit limit, saved⟩
    | [] => some st

/-- From the start of the last tag to the end of the buffer, what bounds the cursor. -/
def bounds (st : Session) : List Nat :=
  st.reader.tagStart :: st.reader.pos :: st.reader.limit :: (st.saved ++ [st.reader.buffer.size])

/-- The reader is in bounds and within the saved limits, which are nested. -/
structure Nested (st : Session) : Prop where
  inBounds : st.reader.InBounds
  limit_le : ∀ limit ∈ st.saved, st.reader.limit ≤ limit
  saved_le : ∀ limit ∈ st.saved, limit ≤ st.reader.buffer.size
  saved_nested : st.saved.Pairwise (· ≤ ·)

theorem Nested.bounds {st : Session} (h : st.Nested) : st.bounds.Pairwise (· ≤ ·) := by
  have htag := h.inBounds.tag_le
  have hpos := h.inBounds.pos_le
  have hlim := h.inBounds.limit_le
  have hall : ∀ b ∈ st.saved ++ [st.reader.buffer.size], st.reader.limit ≤ b := by
    intro b hb
    rcases List.mem_append.mp hb with hb | hb
    · exact h.limit_le b hb
    · rw [List.mem_singleton.mp hb]
      exact hlim
  refine .cons ?_ (.cons ?_ (.cons hall ?_))
  · intro b hb
    rcases List.mem_cons.mp hb with rfl | hb
    · exact htag
    rcases List.mem_cons.mp hb with rfl | hb
    · omega
    · have := hall b hb
      omega
  · intro b hb
    rcases List.mem_cons.mp hb with rfl | hb
    · exact hpos
    · have := hall b hb
      omega
  · rw [List.pairwise_append]
    refine ⟨h.saved_nested, List.pairwise_singleton .., ?_⟩
    intro limit hl b hb
    rw [List.mem_singleton.mp hb]
    exact h.saved_le limit hl

variable {st : Session}

/-- A reader that goes on within its limit stays within the saved ones. -/
theorem Nested.onward (h : st.Nested) {r : Reader} (hr : st.reader.Onward r) :
    Nested { st with reader := r } where
  inBounds := hr.inBounds
  limit_le limit hl := Nat.le_trans hr.limit_le (h.limit_le limit hl)
  saved_le limit hl := by
    show limit ≤ r.buffer.size
    rw [hr.buffer_eq]
    exact h.saved_le limit hl
  saved_nested := h.saved_nested

/-- The checked call does not fault, and leaves limits nested in the same buffer. -/
structure Follows (st : Session) (x : Option Session) (st' : Session) : Prop where
  eq : x = some st'
  nested : st'.Nested
  buffer_eq : st'.reader.buffer = st.reader.buffer
  maxDepth_eq : st'.reader.maxDepth = st.reader.maxDepth

theorem Nested.follows (h : st.Nested) {r : Reader} (hr : st.reader.Onward r) :
    Follows st (some { st with reader := r }) { st with reader := r } :=
  ⟨rfl, h.onward hr, hr.buffer_eq, hr.maxDepth_eq⟩

theorem Nested.follows_read {α : Type} {x : Option (EStateM.Result DecodeError Reader α)}
    {y : EStateM.Result DecodeError Reader α} {P : α → Reader → Prop} (h : st.Nested)
    (hx : Checked.Sure st.reader x y P) (hP : ∀ a s, P a s → st.reader.Level s) :
    Follows st (x.map fun x => { st with reader := behind x }) { st with reader := behind y } := by
  rw [hx.eq, Option.map_some]
  cases hy : y with
  | ok a s => exact h.follows (hP a s (hx.ok a s hy)).toOnward
  | error e s => exact h.follows (hx.error e s hy)

theorem Nested.follows_run {x : Option Reader.Run} {y : Reader.Run} (h : st.Nested)
    (hx : Checked.SureRun st.reader x y) :
    Follows st (x.map fun run => { st with reader := behind run.result }) { st with reader := behind y.result } := by
  rw [hx.eq, Option.map_some]
  cases hy : y.result with
  | ok u s => exact h.follows (hx.ok s hy).toOnward
  | error e s => exact h.follows (hx.error e s hy)

theorem Nested.follows_merge {x : Option Outcome} {y : Outcome} (h : st.Nested)
    (hx : Checked.SureOutcome st.reader x y) :
    Follows st (x.map fun out => { st with reader := out.reader }) { st with reader := y.reader } := by
  rw [hx.eq, Option.map_some]
  exact h.follows hx.onward

theorem follows_push (h : st.Nested) (len : Nat) : Follows st (st.check (.push len)) (st.apply (.push len)) := by
  have hpush := Checked.pushLimit_sure h.inBounds len
  simp only [check, apply, hpush.eq, Option.map_some]
  cases hp : Reader.pushLimit len st.reader with
  | error e r => exact h.follows (hpush.error e r hp)
  | ok old r =>
    obtain ⟨rfl, -, hr⟩ := hpush.ok old r hp
    have hsize : st.reader.limit ≤ r.buffer.size := by
      rw [hr.buffer_eq]
      exact h.inBounds.limit_le
    refine ⟨rfl, ⟨hr.inBounds, ?_, ?_, .cons h.limit_le h.saved_nested⟩, hr.buffer_eq, hr.maxDepth_eq⟩
    · intro limit hl
      rcases List.mem_cons.mp hl with rfl | hl
      · exact hr.limit_le
      · exact Nat.le_trans hr.limit_le (h.limit_le limit hl)
    · intro limit hl
      rcases List.mem_cons.mp hl with rfl | hl
      · exact hsize
      · rw [hr.buffer_eq]
        exact h.saved_le limit hl

theorem follows_pop (h : st.Nested) : Follows st (st.check .pop) (st.apply .pop) := by
  simp only [check, apply]
  cases hs : st.saved with
  | nil => exact ⟨rfl, h, rfl, rfl⟩
  | cons limit saved =>
    have hl : limit ∈ st.saved := by simp [hs]
    have hnested := h.saved_nested
    rw [hs, List.pairwise_cons] at hnested
    have hpop := h.inBounds.popLimit (h.limit_le limit hl) (h.saved_le limit hl)
    refine ⟨rfl, ⟨hpop, hnested.1, ?_, hnested.2⟩, rfl, rfl⟩
    intro other ho
    exact h.saved_le other (by simp [hs, ho])

/-- Every call keeps the limits nested and faults nowhere, whether it succeeds or fails. -/
theorem apply_follows (h : st.Nested) (call : Call) : Follows st (st.check call) (st.apply call) := by
  have hr := h.inBounds
  cases call with
  | left =>
    show Follows st ((Checked.left st.reader).map fun _ => st) st
    rw [Checked.left_eq hr]
    exact ⟨rfl, h, rfl, rfl⟩
  | tag => exact h.follows_read (Checked.readTag_sure hr) fun _ _ hs => hs.1
  | varint => exact h.follows_read (Checked.readVarint_sure hr) fun _ _ hs => hs
  | length => exact h.follows_read (Checked.readLength_sure hr) fun _ _ hs => hs.1
  | scalar kind => exact h.follows_read (Checked.readScalar_sure hr kind) fun _ _ hs => hs
  | run kind => exact h.follows_run (Checked.readRun_sure hr kind)
  | fields table type m => exact h.follows_merge (Checked.merge_sure hr table type m)
  | message table type m => exact h.follows_merge (Checked.mergeNested_sure hr table type m)
  | skip tag => exact h.follows_read (Checked.skip_sure hr tag) fun _ _ hs => hs
  | raw tag => exact h.follows_read (Checked.readRaw_sure hr tag) fun _ _ hs => hs
  | push len => exact follows_push h len
  | pop => exact follows_pop h

/-- The session after calls in a row. -/
def run (st : Session) (calls : List Call) : Session := calls.foldl apply st

/-- The same with every access checked. -/
def checkAll (st : Session) (calls : List Call) : Option Session := calls.foldlM check st

theorem run_follows (h : st.Nested) (calls : List Call) : Follows st (st.checkAll calls) (st.run calls) := by
  induction calls generalizing st with
  | nil => exact ⟨rfl, h, rfl, rfl⟩
  | cons call calls ih =>
    have hcall := apply_follows h call
    have hrest := ih hcall.nested
    refine ⟨?_, hrest.nested, hrest.buffer_eq.trans hcall.buffer_eq, hrest.maxDepth_eq.trans hcall.maxDepth_eq⟩
    rw [checkAll, List.foldlM_cons, hcall.eq]
    exact hrest.eq

/-- Whatever is called on a reader, in whatever order and whatever fails: the start of the last tag, the cursor, the
    limit, the limits saved, the last one first, and the end of the buffer stand in this order, no more levels are
    open than allowed, and no call takes a slice out of range or counts below zero. -/
theorem session_in_bounds (bytes : Bytes) (maxDepth : Nat) (calls : List Call) :
    let start : Session := ⟨.ofBytesWithin bytes maxDepth, []⟩
    start.checkAll calls = some (start.run calls) ∧
      (start.run calls).bounds.Pairwise (· ≤ ·) ∧
      (start.run calls).reader.buffer = bytes.toArray ∧
      (start.run calls).reader.depth ≤ maxDepth := by
  intro start
  have hstart : start.Nested :=
    ⟨Reader.inBounds_ofBytesWithin bytes maxDepth, List.forall_mem_nil _, List.forall_mem_nil _, .nil⟩
  have hrun := run_follows hstart calls
  have hdepth := hrun.nested.inBounds.depth_le
  rw [hrun.maxDepth_eq] at hdepth
  exact ⟨hrun.eq, hrun.nested.bounds, hrun.buffer_eq, hdepth⟩

end Session

end Protobuf
