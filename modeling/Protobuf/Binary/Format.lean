/-
  Protobuf.Binary.Format — binary floating-point words, kept as bit patterns.

  A format is the width of its fraction and of its exponent; a word is a natural number. The
  magnitude of a finite word is a whole number of units, the unit being the least subnormal,
  so every comparison and rounding here is exact arithmetic on `Nat`. Since words of one sign
  are ordered like their magnitudes, rounding needs no separate case for carries.
-/

namespace Protobuf.Binary

structure Format where
  fractionBits : Nat
  exponentBits : Nat
  deriving DecidableEq, Repr

/-- `num / den` to the nearest whole number, a half to the even one. -/
def roundHalfEven (num den : Nat) : Nat :=
  let q := num / den
  let twice := 2 * (num % den)
  if den < twice || (twice == den && q % 2 == 1) then q + 1 else q

namespace Format

def single : Format := ⟨23, 8⟩

def double : Format := ⟨52, 11⟩

/-- The exponent field of infinities and NaNs. -/
def topExponent (f : Format) : Nat := Nat.pow 2 f.exponentBits - 1

/-- A word's bits below the sign. -/
def magnitude (f : Format) (bits : Nat) : Nat := bits % Nat.pow 2 (f.fractionBits + f.exponentBits)

def fraction (f : Format) (bits : Nat) : Nat := bits % Nat.pow 2 f.fractionBits

def exponent (f : Format) (bits : Nat) : Nat := bits / Nat.pow 2 f.fractionBits % Nat.pow 2 f.exponentBits

def isNegative (f : Format) (bits : Nat) : Bool := bits / Nat.pow 2 (f.fractionBits + f.exponentBits) % 2 == 1

/-- The positive infinity. -/
def infinity (f : Format) : Nat := f.topExponent * Nat.pow 2 f.fractionBits

/-- The NaN that arithmetic produces: positive, quiet, empty payload. -/
def nan (f : Format) : Nat := f.infinity + Nat.pow 2 (f.fractionBits - 1)

def signBit (f : Format) : Nat := Nat.pow 2 (f.fractionBits + f.exponentBits)

def isNaN (f : Format) (bits : Nat) : Bool := f.infinity < f.magnitude bits

def isInfinite (f : Format) (bits : Nat) : Bool := f.magnitude bits == f.infinity

def isZero (f : Format) (bits : Nat) : Bool := f.magnitude bits == 0

/-- Equality of numbers: a NaN differs from everything, the two zeros are one. -/
def equal (f : Format) (a b : Nat) : Bool :=
  !f.isNaN a && !f.isNaN b && (a == b || (f.isZero a && f.isZero b))

/-- Units in one, as a power of two. -/
def unitBits (f : Format) : Nat := Nat.pow 2 (f.exponentBits - 1) + f.fractionBits - 2

/-- The power of two, in units, of a word's last place. -/
def lastPlace (f : Format) (bits : Nat) : Nat := f.exponent bits - 1

/-- A finite word's magnitude as a multiple of its last place. -/
def significand (f : Format) (bits : Nat) : Nat :=
  if f.exponent bits = 0 then f.fraction bits else Nat.pow 2 f.fractionBits + f.fraction bits

/-- A finite word's magnitude in units. -/
def units (f : Format) (bits : Nat) : Nat := f.significand bits * Nat.pow 2 (f.lastPlace bits)

/-- The word nearest to `num / den`, a tie to the even one, too large ones to infinity. -/
def ofRatio (f : Format) (num den : Nat) : Nat :=
  let num := num * Nat.pow 2 f.unitBits
  let place := (num / den).log2 - f.fractionBits
  let word := roundHalfEven num (den * Nat.pow 2 place) + place * Nat.pow 2 f.fractionBits
  min word f.infinity

/-- A word of format `f` in format `g`, rounded; every NaN becomes the one of arithmetic. -/
def convert (f g : Format) (bits : Nat) : Nat :=
  let word :=
    if f.isNaN bits then g.nan
    else if f.isInfinite bits then g.infinity
    else g.ofRatio (f.units bits) (Nat.pow 2 f.unitBits)
  if f.isNegative bits && !f.isNaN bits then word + g.signBit else word

end Format

end Protobuf.Binary
