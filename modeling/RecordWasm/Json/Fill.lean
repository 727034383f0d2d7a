import RecordWasm.Json.Value
import RecordWasm.Decimal.Reading

/-!
# Typed values from JSON

A value of a known shape is filled in from JSON: a member of an object is read over what the value
held before, so of repeated members the last one counts.  `null` leaves texts, numbers and objects
as they are and empties lists.  The items of a list are read over those of an earlier reading, also
over those that a shorter reading in between has left out.  Names of members are compared without
regard to case.
-/

namespace RecordWasm.Json

/-- Reads a JSON value over an earlier one; `none` if it has the wrong shape. -/
abbrev Fill (α : Type) := Value → α → Option α

/-- A list that may be read several times.  `items` is what the last reading gave; `spare` is what
stands behind it from longer readings before, and is read over if the list grows again. -/
structure Reread (α : Type) where
  items : List α := []
  spare : List α := []

namespace Fill

def string : Fill String
  | .null, old => some old
  | .string _ value, _ => some value
  | _, _ => none

/-- An integer of 64 bits, written without point and exponent. -/
def int : Fill Int
  | .null, old => some old
  | .number text, _ => (Decimal.readInt 64 text).toOption
  | _, _ => none

/-- Reads items over earlier ones, as far as there are any. -/
def itemsOver {α : Type} (item : Fill α) (blank : α) : List Value → List α → Option (List α)
  | [], _ => some []
  | value :: values, [] => do return (← item value blank) :: (← itemsOver item blank values [])
  | value :: values, old :: rest => do
      return (← item value old) :: (← itemsOver item blank values rest)

/-- A list; `null` and an empty array leave nothing behind. -/
def list {α : Type} (item : Fill α) (blank : α) : Fill (Reread α)
  | .null, _ | .array _ [], _ => some {}
  | .array _ values, old => do
      let places := old.items ++ old.spare
      return ⟨← itemsOver item blank values places, places.drop values.length⟩
  | _, _ => none

/-- A list of any values, kept as they are. -/
def values : Fill (List Value)
  | .null, _ => some []
  | .array _ items, _ => some items
  | _, _ => none

/-- The lower-case form of a letter in a name, two letters outside ASCII included that have an ASCII
letter as a case variant. -/
def foldChar (character : Char) : Char :=
  if character.toNat = 0x212A then 'k'
  else if character.toNat = 0x17F then 's'
  else character.toLower

def foldName (name : String) : String := String.ofList (name.toList.map foldChar)

/-- Reads the members of an object in turn; `member` is told the name in lower case. -/
def object {α : Type} (member : String → Fill α) : Fill α
  | .null, old => some old
  | .object _ members, old =>
      members.foldlM (fun value entry => member (foldName entry.1) entry.2 value) old
  | _, _ => none

end Fill

end RecordWasm.Json
