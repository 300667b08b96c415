/-
  Protobuf.Reader.Scalar — reading single values and packed runs of them.

  A packed run is a length and then values back to back. `readRun` returns the values it read
  also when it fails midway; its limit is then still pushed. Inside a run of varints a value that
  is cut off means that the run is not a whole number of elements.
-/

import Protobuf.Reader.Basic
import Protobuf.Scalar

namespace Protobuf.Reader

/-- The text with these bytes. -/
def textOf (bytes : Bytes) : Read String :=
  match bytes.toText? with
  | some text => pure text
  | none => throw .invalidUtf8

/-- A text behind its length. The bytes are consumed before their encoding is checked. -/
def readText : Read String := readBytes >>= textOf

/-- The payload of one value of the given kind. Numbers wider than the kind lose their high bits. -/
def readScalar : Kind → Read Scalar
  | .scalar .int32 => return .int32 (Int32.ofNat (← readVarint))
  | .scalar .int64 => return .int64 (Int64.ofNat (← readVarint))
  | .scalar .uint32 => return .uint32 (UInt32.ofNat (← readVarint))
  | .scalar .uint64 => return .uint64 (UInt64.ofNat (← readVarint))
  | .scalar .sint32 => return .sint32 (ZigZag.decode32 (UInt32.ofNat (← readVarint)))
  | .scalar .sint64 => return .sint64 (ZigZag.decode64 (UInt64.ofNat (← readVarint)))
  | .scalar .fixed32 => return .fixed32 (UInt32.ofNat (← readFixed 4))
  | .scalar .fixed64 => return .fixed64 (UInt64.ofNat (← readFixed 8))
  | .scalar .sfixed32 => return .sfixed32 (Int32.ofNat (← readFixed 4))
  | .scalar .sfixed64 => return .sfixed64 (Int64.ofNat (← readFixed 8))
  | .scalar .float => return .float (UInt32.ofNat (← readFixed 4))
  | .scalar .double => return .double (UInt64.ofNat (← readFixed 8))
  | .scalar .bool => return .bool ((← readVarint) != 0)
  | .scalar .string => return .string (← readText)
  | .scalar .bytes => return .bytes (← readBytes)
  | .enum => return .enum (Int32.ofNat (← readVarint))

theorem readText_consumes : Consumes readText := by
  refine readBytes_consumes.bind fun bytes => ?_
  unfold textOf
  split
  · exact advances_pure _
  · intro r a r' h
    cases h

theorem readScalar_consumes (kind : Kind) : Consumes (readScalar kind) := by
  have four : Consumes (readFixed 4) := readFixed_consumes (by decide)
  have eight : Consumes (readFixed 8) := readFixed_consumes (by decide)
  cases kind with
  | enum => exact readVarint_consumes.bind fun _ => advances_pure _
  | scalar type =>
    cases type with
    | string => exact readText_consumes.bind fun _ => advances_pure _
    | bytes => exact readBytes_consumes.bind fun _ => advances_pure _
    | fixed32 | sfixed32 | float => exact four.bind fun _ => advances_pure _
    | fixed64 | sfixed64 | double => exact eight.bind fun _ => advances_pure _
    | _ => exact readVarint_consumes.bind fun _ => advances_pure _

/-- How a failure inside a packed run of this kind is reported. -/
def runError (kind : Kind) (e : DecodeError) : DecodeError :=
  if kind.width?.isNone && e == .truncated then .malformedPackedField else e

/-- What a run of values gave: the values read, and how reading ended. -/
structure Run where
  values : List Scalar
  result : EStateM.Result DecodeError Reader Unit

/-- Reads values up to the limit. -/
def readValues (kind : Kind) (r : Reader) : Run :=
  if r.atLimit then ⟨[], .ok () r⟩
  else
    match _h : readScalar kind r with
    | .error e r => ⟨[], .error (runError kind e) r⟩
    | .ok value r' =>
      let rest := readValues kind r'
      ⟨value :: rest.values, rest.result⟩
termination_by r.left
decreasing_by exact (readScalar_consumes kind _ _ _ _h).2

/-- Whether a run of `len` bytes can be a whole number of values of the kind. -/
def isWhole (kind : Kind) (len : Nat) : Bool :=
  match kind.width? with
  | some width => len % width == 0
  | none => true

def checkWhole (kind : Kind) (len : Nat) : Read Unit := fun r =>
  if isWhole kind len then .ok () r else .error .malformedPackedField r

/-- Opens a packed run: its length becomes the limit, and the limit it replaces is returned. -/
def openRun (kind : Kind) : Read Nat := do
  let len ← readLength
  checkWhole kind len
  pushLimit len

/-- A packed run of values. -/
def readRun (kind : Kind) (r : Reader) : Run :=
  match openRun kind r with
  | .error e r => ⟨[], .error e r⟩
  | .ok outer inner =>
    let run := readValues kind inner
    match run.result with
    | .error e r => ⟨run.values, .error e r⟩
    | .ok () inner => ⟨run.values, .ok () (inner.popLimit outer)⟩

/-! ## Progress -/

theorem checkWhole_ok {kind : Kind} {len : Nat} {r r' : Reader} {a : Unit}
    (h : checkWhole kind len r = .ok a r') : r' = r := by
  simp only [checkWhole] at h
  split at h <;> cases h
  rfl

/-- An opened run lies within what was left, behind at least the length itself. -/
theorem openRun_ok {kind : Kind} {r inner : Reader} {outer : Nat} (h : openRun kind r = .ok outer inner) :
    outer = r.limit ∧ r.limit - inner.limit < r.left := by
  obtain ⟨len, s, hl, hc⟩ := bind_ok h
  obtain ⟨_, t, hw, hp⟩ := bind_ok hc
  have hl := readLength_consumes _ _ _ hl
  rw [checkWhole_ok hw] at hp
  simp only [pushLimit] at hp
  split at hp
  · cases hp
  · cases hp
    simp only [left] at *
    omega

theorem readValues_limit {kind : Kind} {r r' : Reader} {a : Unit}
    (h : (readValues kind r).result = .ok a r') : r'.limit = r.limit := by
  fun_induction readValues kind r with
  | case1 =>
    cases h
    rfl
  | case2 => cases h
  | case3 =>
    rename_i hs _ ih
    have := (readScalar_consumes kind _ _ _ hs).1
    have := ih h
    omega

theorem readRun_ok {kind : Kind} {r r' : Reader} {a : Unit} (h : (readRun kind r).result = .ok a r') :
    r'.limit = r.limit ∧ r'.left < r.left := by
  simp only [readRun] at h
  split at h
  · cases h
  · rename_i outer inner ho
    have ho := openRun_ok ho
    split at h
    · cases h
    · rename_i last hv
      have := readValues_limit hv
      cases h
      simp only [popLimit, left] at *
      omega

end Protobuf.Reader
