/-
  Protobuf.Hash.SipHash — the keyed hash SipHash-1-3 of a byte string.

  One round for each word of eight bytes, three to finish. The last word holds the bytes left over
  and the length modulo 256.
-/

import Protobuf.Bytes

namespace Protobuf.SipHash

structure State where
  v0 : UInt64
  v1 : UInt64
  v2 : UInt64
  v3 : UInt64
  deriving DecidableEq, Repr

def rotate (x : UInt64) (n : UInt64) : UInt64 := (x <<< n) ||| (x >>> (64 - n))

def round (s : State) : State :=
  let v0 := s.v0 + s.v1
  let v1 := rotate s.v1 13 ^^^ v0
  let v0 := rotate v0 32
  let v2 := s.v2 + s.v3
  let v3 := rotate s.v3 16 ^^^ v2
  let v0 := v0 + v3
  let v3 := rotate v3 21 ^^^ v0
  let v2 := v2 + v1
  let v1 := rotate v1 17 ^^^ v2
  ⟨v0, v1, rotate v2 32, v3⟩

def start (key0 key1 : UInt64) : State :=
  ⟨key0 ^^^ 0x736f6d6570736575, key1 ^^^ 0x646f72616e646f6d, key0 ^^^ 0x6c7967656e657261, key1 ^^^ 0x7465646279746573⟩

/-- Takes in one word. -/
def absorb (s : State) (word : UInt64) : State :=
  let s := round { s with v3 := s.v3 ^^^ word }
  { s with v0 := s.v0 ^^^ word }

/-- Up to eight bytes as a word, the first in the lowest place. -/
def word (bytes : Bytes) : UInt64 := bytes.foldr (fun b w => (w <<< 8) ||| b.toUInt64) 0

/-- Takes in whole words while there are any. -/
def absorbAll (s : State) (bytes : Bytes) : State × Bytes :=
  match bytes with
  | b0 :: b1 :: b2 :: b3 :: b4 :: b5 :: b6 :: b7 :: rest =>
    absorbAll (absorb s (word [b0, b1, b2, b3, b4, b5, b6, b7])) rest
  | rest => (s, rest)

def finish (s : State) : UInt64 :=
  let s := round (round (round { s with v2 := s.v2 ^^^ 0xff }))
  s.v0 ^^^ s.v1 ^^^ s.v2 ^^^ s.v3

def hash (key0 key1 : UInt64) (bytes : Bytes) : UInt64 :=
  let (s, rest) := absorbAll (start key0 key1) bytes
  finish (absorb s (word rest ||| (UInt64.ofNat bytes.length <<< 56)))

end Protobuf.SipHash
