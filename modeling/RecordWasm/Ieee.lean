/-!
# Binary floating-point formats

A format is described by the widths of its fraction and its exponent.  The bits of a positive finite
number are one counter: the next larger number has the next larger bit pattern, and the pattern
after the largest finite number is the infinity.  `Format.round` uses this to round an exact
quotient to the nearest number of the format, a tie going to the even pattern.
-/

namespace RecordWasm.Ieee

structure Format where
  fractionBits : Nat
  exponentBits : Nat
  deriving DecidableEq, Repr

def single : Format := ⟨23, 8⟩

def double : Format := ⟨52, 11⟩

namespace Format

/-- The weight of the sign bit. -/
def signWeight (format : Format) : Nat := 1 <<< (format.fractionBits + format.exponentBits)

/-- The bits of positive infinity. -/
def infinity (format : Format) : Nat := (1 <<< format.exponentBits - 1) <<< format.fractionBits

/-- The exponent of the weight of the last fraction bit of the smallest numbers. -/
def minExponent (format : Format) : Int :=
  2 - (1 <<< (format.exponentBits - 1) : Nat) - format.fractionBits

/-- What a bit pattern stands for.  The value of `finite` is `significand * 2 ^ exponent`. -/
inductive Value where
  | nan
  | infinite (negative : Bool)
  | finite (negative : Bool) (significand : Nat) (exponent : Int)
  deriving DecidableEq, Repr

def decode (format : Format) (bits : Nat) : Value :=
  let negative := bits / format.signWeight % 2 == 1
  let magnitude := bits % format.signWeight
  let field := magnitude >>> format.fractionBits
  let fraction := magnitude % 1 <<< format.fractionBits
  if magnitude > format.infinity then .nan
  else if magnitude = format.infinity then .infinite negative
  else if field = 0 then .finite negative fraction format.minExponent
  else .finite negative (fraction + 1 <<< format.fractionBits) (format.minExponent + field - 1)

/-- The quotient rounded to the nearest integer, a tie to the even one. -/
def roundQuotient (numerator denominator : Nat) : Nat :=
  let quotient := numerator / denominator
  let twice := 2 * (numerator % denominator)
  if twice > denominator ∨ (twice = denominator ∧ quotient % 2 = 1) then quotient + 1
  else quotient

/-- The largest `e` with `2 ^ e ≤ numerator / denominator`, for positive arguments. -/
def floorLog2 (numerator denominator : Nat) : Int :=
  let guess : Int := (numerator.log2 : Int) - denominator.log2
  let reaches : Bool :=
    match guess with
    | .ofNat e => denominator <<< e ≤ numerator
    | .negSucc e => denominator ≤ numerator <<< (e + 1)
  if reaches then guess else guess - 1

/-- The bits of the number nearest to a quotient; at or above `infinity` if it is too large. -/
def round (format : Format) (numerator denominator : Nat) : Nat :=
  if numerator = 0 then 0
  else
    let exponent := max format.minExponent
      (floorLog2 numerator denominator - format.fractionBits)
    let significand :=
      match exponent with
      | .ofNat e => roundQuotient numerator (denominator <<< e)
      | .negSucc e => roundQuotient (numerator <<< (e + 1)) denominator
    ((exponent - format.minExponent).toNat <<< format.fractionBits) + significand

/-- The bits of the number nearest to an integer. -/
def ofInt (format : Format) (value : Int) : Nat :=
  (if value < 0 then format.signWeight else 0) + format.round value.natAbs 1

end Format

end RecordWasm.Ieee
