import RecordWasm.Text.Basic
import RecordWasm.Text.Quoted

/-!
# Templates

A template is a text with holes that are filled with arguments in turn.  A hole is a percent sign,
marks, a width, a precision and a letter that says how the argument is written: `%s` as it is, `%q`
quoted, `%x` as the hexadecimal digits of its bytes.  A doubled percent sign stands for one.  A
template that does not fit its arguments is filled all the same, and the text says what is wrong.
-/

namespace RecordWasm.Text

/-- What a hole asks for before its letter. -/
structure Hole where
  /-- Padding goes behind the argument. -/
  behind : Bool := false
  /-- Padding consists of zeros. -/
  zeros : Bool := false
  /-- The argument is written as a literal. -/
  sharp : Bool := false
  width : Nat := 0
  precision : Option Nat := none

namespace Hole

/-- The hole with a mark added in front of its width, if it is one. -/
def mark? (hole : Hole) : Char → Option Hole
  | '-' => some { hole with behind := true }
  | '0' => some { hole with zeros := true }
  | '#' => some { hole with sharp := true }
  | '+' | ' ' => some hole
  | _ => none

/-- The hole with a digit added to its width, or to its precision once that has begun. -/
def digit (hole : Hole) (digit : Nat) : Hole :=
  match hole.precision with
  | some precision => { hole with precision := some (precision * 10 + digit) }
  | none => { hole with width := hole.width * 10 + digit }

/-- The hole with a character added, unless the character is its letter. -/
def extend? (hole : Hole) (character : Char) : Option Hole :=
  let fresh := hole.width = 0 ∧ hole.precision.isNone
  match if fresh then hole.mark? character else none with
  | some hole => some hole
  | none =>
      if character.isDigit then some (hole.digit (character.toNat - '0'.toNat))
      else if character = '.' ∧ hole.precision.isNone then some { hole with precision := some 0 }
      else none

/-- The characters of an argument that the precision leaves. -/
def cut (hole : Hole) (argument : String) : String :=
  match hole.precision with
  | some precision => String.ofList (argument.toList.take precision)
  | none => argument

/-- Pads a text to the width. -/
def pad (hole : Hole) (text : String) : String :=
  let padding := hole.width - text.length
  if hole.behind then text ++ String.ofList (List.replicate padding ' ')
  else String.ofList (List.replicate padding (if hole.zeros then '0' else ' ')) ++ text

/-- An argument as the letter of the hole asks for it. -/
def write (hole : Hole) (letter : Char) (argument : String) : String :=
  let plain := hole.pad (hole.cut argument)
  let literal := hole.pad (quoted (hole.cut argument))
  match letter with
  | 's' => plain
  | 'v' => if hole.sharp then literal else plain
  | 'q' => literal
  | 'x' => hole.pad (hexBytes argument.toUTF8.toList)
  | 'X' => hole.pad (hexBytes argument.toUTF8.toList).toUpper
  | 'T' => hole.pad (hole.cut "string")
  | _ => s!"%!{letter}(string={plain})"

end Hole

/-- Fills the holes of a template, of which one may be open, and gives the arguments left over. -/
def fillHoles : (hole : Option Hole) → (template : List Char) → (arguments : List String) →
    String × List String
  | none, [], arguments => ("", arguments)
  | some _, [], arguments => ("%!(NOVERB)", arguments)
  | none, character :: rest, arguments =>
      if character = '%' then fillHoles (some {}) rest arguments
      else
        let (filled, left) := fillHoles none rest arguments
        (character.toString ++ filled, left)
  | some hole, character :: rest, arguments =>
      match hole.extend? character with
      | some hole => fillHoles (some hole) rest arguments
      | none =>
          let (piece, arguments) :=
            if character = '%' then ("%", arguments)
            else
              match arguments with
              | [] => (s!"%!{character}(MISSING)", [])
              | argument :: arguments => (hole.write character argument, arguments)
          let (filled, left) := fillHoles none rest arguments
          (piece ++ filled, left)

/-- Fills a template.  Without arguments it is taken as it is; arguments without a hole are listed
at the end. -/
def fill (template : String) (arguments : List String) : String :=
  if arguments.isEmpty then template
  else
    match fillHoles none template.toList arguments with
    | (filled, []) => filled
    | (filled, left) =>
        s!"{filled}%!(EXTRA " ++ ", ".intercalate (left.map ("string=" ++ ·)) ++ ")"

end RecordWasm.Text
