import RecordWasm.Text.Basic
import RecordWasm.Text.Printable

/-!
# Quoted texts

A quoted text stands between double quotes.  Quotes, backslashes and characters that do not print
are written as escapes.
-/

namespace RecordWasm.Text

/-- The escape of a control character that has a letter of its own. -/
def letterEscape? (character : Char) : Option Char :=
  match character.toNat with
  | 7 => some 'a'
  | 8 => some 'b'
  | 9 => some 't'
  | 10 => some 'n'
  | 11 => some 'v'
  | 12 => some 'f'
  | 13 => some 'r'
  | _ => none

/-- The form of one character inside quotes. -/
def quotedChar (character : Char) : String :=
  if character = '"' ∨ character = '\\' then String.ofList ['\\', character]
  else
    match letterEscape? character with
    | some letter => String.ofList ['\\', letter]
    | none =>
        let code := character.toNat
        if isPrintable character then character.toString
        else if code < 0x80 then "\\x" ++ hexPadded 2 code
        else if code < 0x10000 then "\\u" ++ hexPadded 4 code
        else "\\U" ++ hexPadded 8 code

/-- The text between double quotes, with escapes where it needs them. -/
def quoted (text : String) : String :=
  "\"" ++ String.join (text.toList.map quotedChar) ++ "\""

end RecordWasm.Text
