/-
  Protobuf.Proofs.Extents — reading a field and stepping over it take the same bytes.

  Whatever reads a field, a single value, a run, a message behind its length or a map entry: where it
  succeeds, stepping over the field behind the same tag succeeds and ends at the same place
  (`Reader.SkipsTo`). So a type that has none of the fields in some bytes accepts all that another one
  accepts, and runs over the same fields (`runs_foreign`).
-/

import Protobuf.Proofs.Confined
import Protobuf.Proofs.Unknown

namespace Protobuf

open Schema

namespace Reader

/-- Stepping over the field behind the tag ends where `s` stands. -/
def SkipsTo (tag : Tag) (r s : Reader) : Prop :=
  ∃ t, skip tag r = .ok () t ∧ t.pos = s.pos ∧ t.limit = s.limit ∧ t.depth = s.depth

variable {tag : Tag} {r s : Reader}

theorem PastPayload.skipsTo (hv : r.Valid) (h : PastPayload tag r s) : SkipsTo tag r s := by
  obtain ⟨payload, rest, hw, htail, hpast⟩ := h
  obtain ⟨t, ht, hpast'⟩ := skip_of_tail htail hv hw (Nat.le_refl _)
  exact ⟨t, ht, hpast'.pos_eq.trans hpast.pos_eq.symm, hpast'.limit_eq.trans hpast.limit_eq.symm,
    hpast'.depth_eq.trans hpast.depth_eq.symm⟩

theorem skipsTo_readScalar {kind : Kind} {v : Scalar} (hv : r.Valid) (ht : tag.wireType? = some kind.wireType)
    (h : readScalar kind r = .ok v s) : SkipsTo tag r s := by
  obtain ⟨payload, rest, hw, hp, rfl⟩ := readScalar_payload ht hv h
  exact PastPayload.skipsTo hv ⟨payload, rest, hw, .plain hp, past_forward r _⟩

theorem skipsTo_readRun {kind : Kind} {u : Unit} (hv : r.Valid) (ht : tag.wireType? = some .lengthDelimited)
    (h : (readRun kind r).result = .ok u s) : SkipsTo tag r s := by
  obtain ⟨payload, rest, hw, hp, rfl⟩ := readRun_payload ht hv h
  exact PastPayload.skipsTo hv ⟨payload, rest, hw, .plain hp, past_forward r _⟩

end Reader

namespace Message

variable {table : TypeTable} {type : MessageType} {m n : Message} {tag : Tag} {r : Reader}

theorem skipsTo_mergeNested (hv : r.Valid) (ht : tag.wireType? = some .lengthDelimited)
    (h : (m.mergeNested table type r).error = none) : Reader.SkipsTo tag r (m.mergeNested table type r).reader := by
  cases ho : Reader.openNested true r with
  | error e s =>
    rw [mergeNested, ho] at h
    cases h
  | ok nested s =>
    obtain ⟨head, body, rest, hw, hs, _, _, hpast⟩ := Reader.openNested_ok hv ho
    obtain ⟨_, herror, hreader⟩ := mergeNested_open table type m ho
    rw [hreader (herror.symm.trans h)]
    exact Reader.PastPayload.skipsTo hv
      ⟨head ++ body, rest, by rw [hw, List.append_assoc], .plain (.framed ht hs), hpast.tagged _⟩

theorem skipsTo_readOne (hm : m.body.Shaped type) (hv : r.Valid) (h : (m.readOne table type tag r).error = none) :
    Reader.SkipsTo tag r (m.readOne table type tag r).reader := by
  have hwhole : (m.step table type tag r).Whole tag r := step_whole hm hv tag
  cases hs : m.step table type tag r with
  | stop m' s e =>
    rw [readOne_stop hs] at h
    cases h
  | next m' s =>
    rw [hs] at hwhole
    rw [readOne_next hs]
    exact Reader.PastPayload.skipsTo hv hwhole
  | into m' place childType child inner outer =>
    rw [hs] at hwhole
    cases he : (child.merge table childType inner).error with
    | some e =>
      rw [readOne_into_failed hs he] at h
      cases h
    | none =>
      rw [readOne_into hs he]
      obtain ⟨payload, rest, hw, htail, hpast⟩ := hwhole
      exact Reader.PastPayload.skipsTo hv ⟨payload, rest, hw, htail, hpast.tagged _⟩

/-! ## Without the fields -/

variable {room : Nat} {head payload : Bytes} {fields : List (Tag × Bytes)}

/-- With the bytes of foreign fields kept, if the type keeps them. -/
def withForeign (type : MessageType) (m : Message) (bytes : Bytes) : Message :=
  if type.keepsUnknown then m.addUnknown bytes else m

theorem withForeign_nil (type : MessageType) (m : Message) : m.withForeign type [] = m := by
  unfold withForeign
  split
  · exact addUnknown_nil m
  · rfl

theorem withForeign_append (type : MessageType) (m : Message) (front back : Bytes) :
    m.withForeign type (front ++ back) = (m.withForeign type front).withForeign type back := by
  unfold withForeign
  split
  · exact addUnknown_append m front back
  · rfl

theorem reads_foreign (htail : Tail room tag payload) (hforeign : type.isForeign tag = true) (head : Bytes)
    (m : Message) : Reads table type room tag head payload m (m.withForeign type (head ++ payload)) := by
  intro r rest hv hb hw hroom
  obtain ⟨s, hnext, hpast⟩ := nexts_unknown type htail m head r rest hv hb hw hroom
  have hstep : m.step table type tag = m.readUnknown type tag := step_unknown (MessageType.isForeign_iff.mp hforeign)
  exact ⟨s, readOne_next ((congrFun hstep r).trans hnext), hpast⟩

/-- Complete fields are run over by every type that has none of them. -/
theorem runs_foreign (hcomplete : Complete room fields) (hforeign : ∀ field ∈ fields, type.isForeign field.1 = true)
    (m : Message) : Runs table type room m fields (m.withForeign type (bytesOf fields)) := by
  induction fields generalizing m with
  | nil =>
    have hnil := withForeign_nil type m
    exact hnil.symm ▸ .nil m
  | cons field fields ih =>
    obtain ⟨tag, bytes⟩ := field
    obtain ⟨⟨head, payload, rfl, hs, ht⟩, hrest⟩ := complete_cons_inv hcomplete
    rw [bytesOf_cons, withForeign_append]
    refine .cons hs ht (reads_foreign ht (hforeign _ (List.mem_cons_self ..)) head m) (ih hrest ?_ _)
    intro field hf
    exact hforeign field (List.mem_cons_of_mem _ hf)

/-- Reading and stepping over agree on where a field ends. This holds of a single value of each kind, of a run, of
    a message behind its length and of every field that a type dispatches, map entries included. So bytes that
    are merged without failure are one sequence of complete fields, and a type that has none of these, whatever
    its own are, runs over the same sequence. -/
theorem skip_agrees (table : TypeTable) (type : MessageType) (m : Message) (hg : table.Generated)
    (htype : type ∈ table.messages) (hm : Held table type m) :
    (∀ (r : Reader) (tag : Tag), r.Valid →
      (∀ kind v s, tag.wireType? = some kind.wireType → Reader.readScalar kind r = .ok v s → Reader.SkipsTo tag r s) ∧
      (tag.wireType? = some .lengthDelimited →
        (∀ kind s, (Reader.readRun kind r).result = .ok () s → Reader.SkipsTo tag r s) ∧
        ((m.mergeNested table type r).error = none → Reader.SkipsTo tag r (m.mergeNested table type r).reader)) ∧
      ((m.readOne table type tag r).error = none → Reader.SkipsTo tag r (m.readOne table type tag r).reader)) ∧
    (∀ (room : Nat) (bytes : Bytes) (out : Message), mergeWithin table type room m bytes = (out, none) →
      ∃ fields, bytes = bytesOf fields ∧ Runs table type room m fields out ∧
        (∀ depth others, Complete depth others → bytes = bytesOf others → others = fields) ∧
        ∀ (table' : TypeTable) (other : MessageType) (n : Message), (∀ field ∈ fields, other.isForeign field.1 = true) →
          Runs table' other room n fields (n.withForeign other bytes) ∧
          mergeWithin table' other room n bytes = (n.withForeign other bytes, none)) := by
  refine ⟨fun r tag hv => ⟨?_, fun ht => ⟨?_, ?_⟩, ?_⟩, ?_⟩
  · intro kind v s ht hread
    exact Reader.skipsTo_readScalar hv ht hread
  · intro kind s hrun
    exact Reader.skipsTo_readRun hv ht hrun
  · exact skipsTo_mergeNested hv ht
  · obtain ⟨body⟩ := m
    exact skipsTo_readOne hm.shaped hv
  · intro room bytes out hmerge
    obtain ⟨fields, rfl, hruns⟩ := runs_of_mergeWithin hg (hg.wellFormed htype) hm hmerge
    refine ⟨fields, rfl, hruns, ?_, ?_⟩
    · intro depth others hothers hbytes
      exact complete_unique hothers hruns.complete hbytes.symm
    · intro table' other n hforeign
      have hother : Runs table' other room n fields _ := runs_foreign hruns.complete hforeign n
      exact ⟨hother, hother.mergeWithin_eq⟩

set_option maxRecDepth 100000 in
/-- A shape with an origin, a run of weights and an anchor, which is a map entry with a message: a type without
    fields keeps all of it. Stepping over the anchor ends where reading it does. -/
theorem skip_agrees_anchor :
    let table := Sample.Shapes.table
    let shape := table.message "demo.shapes.Shape"
    let bytes := [0x1a, 2, 0x08, 5, 0x2a, 2, 1, 2, 0x4a, 6, 0x08, 1, 0x12, 2, 0x08, 7]
    let blank : MessageType := { (default : MessageType) with keepsUnknown := true }
    let r : Reader := { Reader.ofBytes bytes with pos := 9 }
    (mergeWithin table shape 100 (new shape) bytes).2 = none ∧
      mergeWithin table blank 100 (new blank) bytes = ((new blank).addUnknown bytes, none) ∧
      ((new shape).readOne table shape 0x4a r).reader.pos = 16 ∧
      Reader.SkipsTo 0x4a r ((new shape).readOne table shape 0x4a r).reader := by
  intro table shape bytes blank r
  have hg : table.Generated := generated_tableOf _ _
  obtain ⟨hnamed, hok, hone, hpos⟩ :
      (table.messages.any fun type => type.fullName == "demo.shapes.Shape") = true ∧
      (mergeWithin table shape 100 (new shape) bytes).2 = none ∧
      ((new shape).readOne table shape 0x4a r).error = none ∧
      ((new shape).readOne table shape 0x4a r).reader.pos = 16 := by
    decide +kernel
  have htype := TypeTable.message_mem hnamed
  have hv : r.Valid := ⟨by decide, by decide⟩
  obtain ⟨hread, hwhole⟩ := skip_agrees table shape (new shape) hg htype (held_new table (hg.wellFormed htype))
  obtain ⟨fields, _, _, _, hother⟩ := hwhole 100 bytes _ (Prod.ext rfl hok)
  obtain ⟨_, hblank⟩ := hother table blank (new blank) (fun _ _ => rfl)
  exact ⟨hok, hblank, hpos, (hread r 0x4a hv).2.2 hone⟩

end Message

end Protobuf
