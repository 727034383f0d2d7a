/-!
# Texts

Texts are taken apart at marks, trimmed of the blanks around them and written in hexadecimal digits.
-/

namespace RecordWasm.Text

/-- The pieces of a text between the marks in it; there is always one piece more than marks. -/
def splitChars (mark : Char) : List Char → List (List Char)
  | [] => [[]]
  | character :: rest =>
      match splitChars mark rest with
      | [] => [[]]
      | piece :: pieces =>
          if character = mark then [] :: piece :: pieces else (character :: piece) :: pieces

/-- The pieces of a text between the marks in it. -/
def split (mark : Char) (text : String) : List String :=
  (splitChars mark text.toList).map String.ofList

/-- The parts before and behind the first mark in a text. -/
def cut? (mark : Char) (text : String) : Option (String × String) :=
  match text.toList.dropWhile (· ≠ mark) with
  | [] => none
  | _ :: rest => some (String.ofList (text.toList.takeWhile (· ≠ mark)), String.ofList rest)

/-- What is behind a beginning of a text. -/
def dropChars? : (beginning text : List Char) → Option (List Char)
  | [], text => some text
  | letter :: beginning, character :: text =>
      if letter = character then dropChars? beginning text else none
  | _ :: _, [] => none

/-- What is behind a beginning of a text. -/
def after? (beginning text : String) : Option String :=
  (dropChars? beginning.toList text.toList).map String.ofList

/-- The characters with the property White_Space. -/
def isBlank (character : Char) : Bool :=
  let code := character.toNat
  (9 ≤ code && code ≤ 13) || code == 0x20 || code == 0x85 || code == 0xA0 || code == 0x1680 ||
  (0x2000 ≤ code && code ≤ 0x200A) || code == 0x2028 || code == 0x2029 || code == 0x202F ||
  code == 0x205F || code == 0x3000

/-- The text without the blanks at its ends. -/
def trim (text : String) : String :=
  String.ofList (((text.toList.dropWhile isBlank).reverse.dropWhile isBlank).reverse)

/-- The two lower-case hexadecimal digits of a byte. -/
def hexByte (byte : UInt8) : String :=
  String.ofList [Nat.digitChar (byte.toNat / 16), Nat.digitChar (byte.toNat % 16)]

/-- The lower-case hexadecimal digits of a byte string. -/
def hexBytes (bytes : List UInt8) : String := String.join (bytes.map hexByte)

/-- A hexadecimal numeral of at least `width` digits. -/
def hexPadded (width value : Nat) : String :=
  let digits := Nat.toDigits 16 value
  String.ofList (List.replicate (width - digits.length) '0' ++ digits)

end RecordWasm.Text
