import RecordWasm.Ieee

/-!
# Shortest decimal texts of binary numbers

A binary number is the rounding of every real in an interval around it.  Its shortest decimal form
is the decimal of the fewest digits in that interval and, of two such, the one nearer to the number;
if both are equally near, the one whose last digit is even.  The search goes over the number of
digits: if a decimal of some length lies in the interval, then so does one of the two neighbours of
the number on the grid of that length.
-/

namespace RecordWasm.Decimal

open Ieee

/-- The decimal `digits * 10 ^ exponent`. -/
structure Digits where
  digits : Nat
  exponent : Int
  deriving DecidableEq, Repr

/-- A positive number and the ends of the interval that rounds to it, all over one denominator. -/
structure Neighbourhood where
  low : Nat
  value : Nat
  high : Nat
  denominator : Nat
  closed : Bool

/-- The reals that round to `significand * 2 ^ exponent`.  Below a power of two the gap is half as
wide as above it, unless the number is among the smallest. -/
def neighbourhood (format : Format) (significand : Nat) (exponent : Int) : Neighbourhood :=
  let atPower := significand = 1 <<< format.fractionBits ∧ format.minExponent < exponent
  let low := if atPower then 4 * significand - 1 else 4 * significand - 2
  let value := 4 * significand
  let high := 4 * significand + 2
  let closed := significand % 2 == 0
  match exponent - 2 with
  | .ofNat e => ⟨low <<< e, value <<< e, high <<< e, 1, closed⟩
  | .negSucc e => ⟨low, value, high, 1 <<< (e + 1), closed⟩

/-- Compares `digits * 10 ^ exponent` with `numerator / denominator`. -/
def compareDecimal (digits : Nat) (exponent : Int) (numerator denominator : Nat) : Ordering :=
  match exponent with
  | .ofNat e => compare (digits * Nat.pow 10 e * denominator) numerator
  | .negSucc e => compare (digits * denominator) (numerator * Nat.pow 10 (e + 1))

namespace Neighbourhood

def contains (hood : Neighbourhood) (digits : Nat) (exponent : Int) : Bool :=
  let fromLow := compareDecimal digits exponent hood.low hood.denominator
  let fromHigh := compareDecimal digits exponent hood.high hood.denominator
  if hood.closed then fromLow.isGE && fromHigh.isLE else fromLow.isGT && fromHigh.isLT

/-- The largest multiple of `10 ^ exponent` not above the number, as a multiple. -/
def floorAt (hood : Neighbourhood) (exponent : Int) : Nat :=
  match exponent with
  | .ofNat e => hood.value / (hood.denominator * Nat.pow 10 e)
  | .negSucc e => hood.value * Nat.pow 10 (e + 1) / hood.denominator

/-- Whether the number is rounded down to `floor` and not up to `floor + 1` on the grid: a number in
the middle goes to the even one. -/
def roundsDown (hood : Neighbourhood) (floor : Nat) (exponent : Int) : Bool :=
  match compareDecimal (2 * floor + 1) exponent (2 * hood.value) hood.denominator with
  | .gt => true
  | .eq => floor % 2 == 0
  | .lt => false

/-- The nearer of the number's neighbours on the grid `10 ^ exponent` that lie in the interval, and
the even one if both are equally near. -/
def pickAt (hood : Neighbourhood) (exponent : Int) : Option Nat :=
  let floor := hood.floorAt exponent
  match hood.contains floor exponent, hood.contains (floor + 1) exponent with
  | true, true => some (if hood.roundsDown floor exponent then floor else floor + 1)
  | true, false => some floor
  | false, true => some (floor + 1)
  | false, false => none

/-- Tries grids from `10 ^ exponent` on, each ten times finer than the last. -/
def search (hood : Neighbourhood) : (grids : Nat) → (exponent : Int) → Digits
  | 0, exponent => ⟨hood.floorAt exponent, exponent⟩
  | grids + 1, exponent =>
      match hood.pickAt exponent with
      | some digits => ⟨digits, exponent⟩
      | none => search hood grids (exponent - 1)

end Neighbourhood

/-- The least `e` from `exponent` downward with `10 ^ e` not above the number. -/
def leadingExponent (hood : Neighbourhood) : (steps : Nat) → (exponent : Int) → Int
  | 0, exponent => exponent
  | steps + 1, exponent =>
      if (compareDecimal 1 exponent hood.value hood.denominator).isLE then exponent
      else leadingExponent hood steps (exponent - 1)

/-- The shortest decimal that reads back to `significand * 2 ^ exponent`. -/
def shortest (format : Format) (significand : Nat) (exponent : Int) : Digits :=
  let hood := neighbourhood format significand exponent
  let log2 : Int := significand.log2 + exponent
  let guess := log2 * 30103 / 100000 + 1
  hood.search 18 (leadingExponent hood 3 guess)

/-- How a decimal is laid out as text: which exponents of the first digit are written
positionally, and the texts of the values that have no digits. -/
structure Layout where
  leastPositional : Int
  firstScientific : Int
  exponentWidth : Nat
  nan : String
  positiveInfinity : String
  negativeInfinity : String

/-- Six places before the point and four zeros behind it are written out. -/
def compact : Layout where
  leastPositional := -4
  firstScientific := 6
  exponentWidth := 2
  nan := "NaN"
  positiveInfinity := "+Inf"
  negativeInfinity := "-Inf"

/-- Pads a number with zeros on the left. -/
def padded (width value : Nat) : String :=
  let digits := toString value
  String.ofList (List.replicate (width - digits.length) '0') ++ digits

/-- Lays out `digits` (without trailing zeros) whose first one weighs `10 ^ leading`. -/
def Layout.place (layout : Layout) (digits : List Char) (leading : Int) : String :=
  if leading < layout.leastPositional ∨ layout.firstScientific ≤ leading then
    let mantissa :=
      match digits with
      | first :: second :: rest => first :: '.' :: second :: rest
      | short => short
    let sign := if leading < 0 then "-" else "+"
    String.ofList mantissa ++ "e" ++ sign ++ padded layout.exponentWidth leading.natAbs
  else
    match leading with
    | .negSucc zeros => "0." ++ String.ofList (List.replicate zeros '0' ++ digits)
    | .ofNat places =>
        let whole := digits.take (places + 1)
        let filled := whole ++ List.replicate (places + 1 - whole.length) '0'
        match digits.drop (places + 1) with
        | [] => String.ofList filled
        | fraction => String.ofList (filled ++ '.' :: fraction)

/-- Drops the zeros at the end of a digit string. -/
def trimZeros (digits : List Char) : List Char := (digits.reverse.dropWhile (· == '0')).reverse

def Layout.decimal (layout : Layout) (value : Digits) : String :=
  let digits := (toString value.digits).toList
  layout.place (trimZeros digits) (value.exponent + digits.length - 1)

/-- The text of a number given by its bits. -/
def Layout.number (layout : Layout) (format : Format) (bits : Nat) : String :=
  match format.decode bits with
  | .nan => layout.nan
  | .infinite negative => if negative then layout.negativeInfinity else layout.positiveInfinity
  | .finite negative significand exponent =>
      let sign := if negative then "-" else ""
      if significand = 0 then sign ++ "0"
      else sign ++ layout.decimal (shortest format significand exponent)

/-- The text of a single-precision number. -/
def singleText (bits : UInt32) : String := compact.number single bits.toNat

/-- The text of a double-precision number. -/
def doubleText (bits : UInt64) : String := compact.number double bits.toNat

end RecordWasm.Decimal
