/-
  Protobuf.Error — why bytes are refused, and why a message is not written.

  Each cause is a constructor; `message` is the only place that words it.
-/

namespace Protobuf

inductive DecodeError where
  | truncated
  | malformedVarint
  | invalidTag (raw : Nat)
  | invalidWireType (code : Nat)
  | lengthOverrun (len remaining : Nat)
  | unexpectedEndGroup (number : Nat)
  | unterminatedGroup (number : Nat)
  | malformedPackedField
  | recursionLimitExceeded (limit : Nat)
  | invalidUtf8
  | missingRequiredFields (typeName : String)
  deriving DecidableEq, Repr

inductive EncodeError where
  | missingRequiredFields (typeName : String)
  deriving DecidableEq, Repr

/-- Why a message could not be decoded from a byte stream: the stream or its contents failed. -/
inductive ReadError where
  | stream (reason : String)
  | decode (error : DecodeError)
  deriving DecidableEq, Repr

/-- `n` in lower-case hexadecimal, without leading zeros. -/
def hexText (n : Nat) : String := String.ofList (Nat.toDigits 16 n)

def missingRequiredText (typeName : String) : String :=
  s!"message {typeName} is missing required fields"

def DecodeError.message : DecodeError → String
  | truncated => "truncated input: unexpected end of buffer"
  | malformedVarint => "malformed varint: more than 10 bytes or overflows 64 bits"
  | invalidTag raw => "invalid tag 0x" ++ hexText raw
  | invalidWireType code => s!"invalid wire type {code}"
  | lengthOverrun len remaining =>
    s!"length-delimited field of {len} bytes exceeds the {remaining} bytes remaining"
  | unexpectedEndGroup number => s!"end-group tag for field {number} without a matching start-group"
  | unterminatedGroup number => s!"group for field {number} is not terminated"
  | malformedPackedField => "packed field payload is not a whole number of elements"
  | recursionLimitExceeded limit => s!"message nesting exceeds the recursion limit of {limit}"
  | invalidUtf8 => "string field contains invalid UTF-8"
  | missingRequiredFields typeName => missingRequiredText typeName

def EncodeError.message : EncodeError → String
  | missingRequiredFields typeName => missingRequiredText typeName

def ReadError.message : ReadError → String
  | stream reason => reason
  | decode error => error.message

end Protobuf
