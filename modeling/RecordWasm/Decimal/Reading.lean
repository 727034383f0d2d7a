import RecordWasm.Ieee

/-!
# Numbers read from texts

Integers are decimal digits behind an optional sign.  Floating-point numbers are decimal, or
hexadecimal with a binary exponent, or one of the words for infinity and "not a number" in any case;
an underscore may stand between two digits.  A number is rounded once, to the format asked for.
-/

namespace RecordWasm.Decimal

open Ieee

/-- Why a text is no number. -/
inductive NumberError where
  | malformed
  | outOfRange
  deriving DecidableEq, Repr

def NumberError.message : NumberError → String
  | .malformed => "invalid syntax"
  | .outOfRange => "value out of range"

/-- The value of a digit in a base of at most sixteen. -/
def digitIn? (base : Nat) (character : Char) : Option Nat :=
  let value :=
    if '0' ≤ character ∧ character ≤ '9' then character.toNat - '0'.toNat
    else if 'a' ≤ character ∧ character ≤ 'f' then character.toNat - 'a'.toNat + 10
    else if 'A' ≤ character ∧ character ≤ 'F' then character.toNat - 'A'.toNat + 10
    else 16
  if value < base then some value else none

def isDigitIn (base : Nat) (character : Char) : Bool := (digitIn? base character).isSome

/-- The number that the digits of a text spell; other characters are passed over. -/
def digitsValue (base : Nat) (text : List Char) : Nat :=
  text.foldl (fun value character =>
    match digitIn? base character with
    | some digit => value * base + digit
    | none => value) 0

/-- Splits off a sign; `true` stands for minus. -/
def splitSign : List Char → Bool × List Char
  | '-' :: rest => (true, rest)
  | '+' :: rest => (false, rest)
  | text => (false, text)

/-- The number that decimal digits spell.  The digits are read in turn, and the first that is none,
or that leads beyond `limit`, ends the reading. -/
def readDigits (limit : Nat) : (value : Nat) → List Char → Except NumberError Nat
  | value, [] => .ok value
  | value, character :: rest =>
      match digitIn? 10 character with
      | none => .error .malformed
      | some digit =>
          if value * 10 + digit ≤ limit then readDigits limit (value * 10 + digit) rest
          else .error .outOfRange

/-- A signed decimal integer of the given number of bits.  Digits beyond that many bits are noticed
before what follows them is read. -/
def readInt (bits : Nat) (text : String) : Except NumberError Int :=
  let (negative, digits) := splitSign text.toList
  let half := 1 <<< (bits - 1)
  if digits.isEmpty then .error .malformed
  else
    match readDigits (2 * half - 1) 0 digits with
    | .error cause => .error cause
    | .ok magnitude =>
        if negative then
          if magnitude ≤ half then .ok (-(magnitude : Int)) else .error .outOfRange
        else if magnitude < half then .ok magnitude
        else .error .outOfRange

/-- Whether underscores stand only behind digits and in front of digits; `afterDigit` tells whether
the character before is a digit, `afterMark` whether it is an underscore. -/
def underscoresOk (base : Nat) : (afterDigit afterMark : Bool) → List Char → Bool
  | _, afterMark, [] => !afterMark
  | afterDigit, afterMark, character :: rest =>
      if isDigitIn base character then underscoresOk base true false rest
      else if character = '_' then afterDigit && underscoresOk base false true rest
      else !afterMark && underscoresOk base false false rest

/-- The number that the digits of an exponent spell.  Once it has reached 10000 no further digit is
taken in. -/
def exponentValue (text : List Char) : Nat :=
  text.foldl (fun value character =>
    match digitIn? 10 character with
    | some digit => if value < 10000 then value * 10 + digit else value
    | none => value) 0

/-- The exponent at the end of a number, `none` if it is malformed. -/
def readExponent? (text : List Char) : Option Int :=
  let (negative, digits) := splitSign text
  match digits with
  | [] => none
  | first :: rest =>
      if first.isDigit ∧ rest.all (fun character => character.isDigit || character = '_') then
        let magnitude : Int := exponentValue digits
        some (if negative then -magnitude else magnitude)
      else none

/-- A number `digits * base ^ scale * exponentBase ^ exponent`, before it is rounded. -/
structure Numeral where
  digits : Nat
  base : Nat
  exponent : Int
  deriving DecidableEq, Repr

/-- The digits, the point and the exponent of a number without its sign.  In base sixteen a digit
behind the point weighs four binary places, and the exponent is required. -/
def readNumeral? (base : Nat) (text : List Char) : Option Numeral := do
  let inMantissa (character : Char) : Bool :=
    isDigitIn base character || character == '_' || character == '.'
  let mantissa := text.takeWhile inMantissa
  let rest := text.dropWhile inMantissa
  let fraction := (mantissa.dropWhile (· ≠ '.')).drop 1
  if fraction.contains '.' ∨ ¬ mantissa.any (isDigitIn base) then none
  let places : Int := (fraction.filter (isDigitIn base)).length
  let digits := digitsValue base mantissa
  let exponentMark := if base = 16 then 'p' else 'e'
  match rest with
  | [] => if base = 16 then none else return ⟨digits, 10, -places⟩
  | mark :: rest =>
      if mark.toLower ≠ exponentMark then none
      let exponent ← readExponent? rest
      return if base = 16 then ⟨digits, 2, exponent - 4 * places⟩
        else ⟨digits, 10, exponent - places⟩

/-- The bits of the number nearest to a numeral.  Exponents far outside the format are cut off
before they are computed. -/
def Numeral.round (format : Format) (numeral : Numeral) : Nat :=
  let length := if numeral.base = 2 then numeral.digits.log2 else (toString numeral.digits).length
  let size : Int := numeral.exponent + length
  if numeral.digits = 0 then 0
  else if size > 5000 then format.infinity
  else if size < -5000 then 0
  else
    match numeral.exponent with
    | .ofNat e => format.round (numeral.digits * Nat.pow numeral.base e) 1
    | .negSucc e => format.round numeral.digits (Nat.pow numeral.base (e + 1))

/-- The words that stand for values without digits, as magnitude bits of a format. -/
def readWord? (format : Format) (nan : Nat) (signed : Bool) (text : List Char) : Option Nat :=
  let word := String.ofList (text.map Char.toLower)
  if word = "inf" ∨ word = "infinity" then some format.infinity
  else if word = "nan" ∧ ¬ signed then some nan
  else none

/-- The bits of the floating-point number that a text spells; `nan` are those of "not a number". -/
def readFloat (format : Format) (nan : Nat) (text : String) : Except NumberError Nat :=
  let characters := text.toList
  let (negative, unsigned) := splitSign characters
  let sign := if negative then format.signWeight else 0
  match readWord? format nan (unsigned.length < characters.length) unsigned with
  | some magnitude => .ok (sign + magnitude)
  | none =>
      let (base, body) :=
        match unsigned with
        | '0' :: 'x' :: first :: rest | '0' :: 'X' :: first :: rest => (16, first :: rest)
        | _ => (10, unsigned)
      match readNumeral? base body with
      | none => .error .malformed
      | some numeral =>
          if ¬ underscoresOk base (base = 16) false body then .error .malformed
          else
            let magnitude := numeral.round format
            if magnitude < format.infinity then .ok (sign + magnitude) else .error .outOfRange

/-- The bits of a single-precision number. -/
def readSingle (text : String) : Except NumberError UInt32 :=
  (readFloat single 0x7FC00000 text).map Nat.toUInt32

/-- The bits of a double-precision number. -/
def readDouble (text : String) : Except NumberError UInt64 :=
  (readFloat double 0x7FF8000000000001 text).map Nat.toUInt64

/-- The single-precision number nearest to a double-precision one. -/
def narrow (bits : UInt64) : UInt32 :=
  match double.decode bits.toNat with
  | .nan => 0x7FC00000
  | .infinite negative => ((if negative then single.signWeight else 0) + single.infinity).toUInt32
  | .finite negative significand exponent =>
      let magnitude :=
        match exponent with
        | .ofNat e => single.round (significand <<< e) 1
        | .negSucc e => single.round significand (1 <<< (e + 1))
      ((if negative then single.signWeight else 0) + min magnitude single.infinity).toUInt32

end RecordWasm.Decimal
