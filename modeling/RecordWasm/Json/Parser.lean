import RecordWasm.Json.Value

/-!
# Reading JSON

`parseFirst` reads the first value of a text and ignores what follows it.  Surrogate escapes that
form a pair are joined; one that stands alone becomes the replacement character.  A text that nests
arrays and objects too deeply is refused.
-/

namespace RecordWasm.Json

/-- What a reader found, how many characters it took, and the characters behind them. -/
structure Found (α : Type) where
  value : α
  used : Nat
  rest : List Char

def isBlank (character : Char) : Bool :=
  character == ' ' || character == '\t' || character == '\n' || character == '\r'

/-- The blanks at the front. -/
def blanks (text : List Char) : Found Unit :=
  let rest := text.dropWhile isBlank
  ⟨(), (text.takeWhile isBlank).length, rest⟩

/-- A fixed word at the front. -/
def word? : (word text : List Char) → Option (List Char)
  | [], text => some text
  | letter :: word, character :: text => if letter = character then word? word text else none
  | _ :: _, [] => none

/-- The digits at the front, at least one. -/
def digits? (text : List Char) : Option (Found (List Char)) :=
  let digits := text.takeWhile Char.isDigit
  if digits.isEmpty then none
  else some ⟨digits, digits.length, text.dropWhile Char.isDigit⟩

/-- The whole part of a number: a lone zero, or digits that do not start with one. -/
def whole? : List Char → Option (Found (List Char))
  | '0' :: rest => some ⟨['0'], 1, rest⟩
  | text => digits? text

/-- The part behind the point, which may be absent. -/
def fraction? : List Char → Option (Found (List Char))
  | '.' :: rest => (digits? rest).map fun found => ⟨'.' :: found.value, found.used + 1, found.rest⟩
  | text => some ⟨[], 0, text⟩

/-- The sign of an exponent, which may be absent. -/
def exponentSign : List Char → Found (List Char)
  | '+' :: rest => ⟨['+'], 1, rest⟩
  | '-' :: rest => ⟨['-'], 1, rest⟩
  | text => ⟨[], 0, text⟩

/-- The exponent of a number, which may be absent. -/
def exponent? : List Char → Option (Found (List Char))
  | [] => some ⟨[], 0, []⟩
  | mark :: rest =>
      if mark = 'e' ∨ mark = 'E' then
        let sign := exponentSign rest
        (digits? sign.rest).map fun digits =>
          ⟨mark :: sign.value ++ digits.value, sign.used + digits.used + 1, digits.rest⟩
      else some ⟨[], 0, mark :: rest⟩

/-- The minus sign in front of a number, which may be absent. -/
def minus : List Char → Found (List Char)
  | '-' :: rest => ⟨['-'], 1, rest⟩
  | text => ⟨[], 0, text⟩

/-- A number, as it is spelled. -/
def number? (text : List Char) : Option (Found (List Char)) := do
  let sign := minus text
  let whole ← whole? sign.rest
  let fraction ← fraction? whole.rest
  let exponent ← exponent? fraction.rest
  return ⟨sign.value ++ whole.value ++ fraction.value ++ exponent.value,
    sign.used + whole.used + fraction.used + exponent.used, exponent.rest⟩

def hexDigit? (character : Char) : Option Nat :=
  if character.isDigit then some (character.toNat - '0'.toNat)
  else if 'a' ≤ character ∧ character ≤ 'f' then some (character.toNat - 'a'.toNat + 10)
  else if 'A' ≤ character ∧ character ≤ 'F' then some (character.toNat - 'A'.toNat + 10)
  else none

/-- The number that four hexadecimal digits spell. -/
def hexWord? (first second third fourth : Char) : Option Nat := do
  let a ← hexDigit? first
  let b ← hexDigit? second
  let c ← hexDigit? third
  let d ← hexDigit? fourth
  return ((a * 16 + b) * 16 + c) * 16 + d

def replacement : Char := Char.ofNat 0xFFFD

def isHighSurrogate (code : Nat) : Bool := 0xD800 ≤ code && code < 0xDC00

def isLowSurrogate (code : Nat) : Bool := 0xDC00 ≤ code && code < 0xE000

/-- The character of one code unit, if it stands alone. -/
def unitChar (code : Nat) : Char :=
  if isHighSurrogate code || isLowSurrogate code then replacement else Char.ofNat code

/-- The character of a pair of code units, if they form one. -/
def pairChar? (high low : Nat) : Option Char :=
  if isHighSurrogate high && isLowSurrogate low then
    some (Char.ofNat (0x10000 + (high - 0xD800) * 0x400 + (low - 0xDC00)))
  else none

/-- The character that a letter stands for behind a backslash. -/
def escape? : Char → Option Char
  | '"' => some '"'
  | '\\' => some '\\'
  | '/' => some '/'
  | 'b' => some '\x08'
  | 'f' => some '\x0c'
  | 'n' => some '\n'
  | 'r' => some '\r'
  | 't' => some '\t'
  | _ => none

/-- A piece of a string: a character, or a code unit written as an escape. -/
inductive Piece where
  | char (character : Char)
  | unit (code : Nat)

/-- Puts a piece in front of others, counting the characters it was written with. -/
def Found.before (piece : Piece) (used : Nat) (found : Found (List Piece)) : Found (List Piece) :=
  ⟨piece :: found.value, found.used + used, found.rest⟩

/-- The pieces of a string up to its closing quote, the quote included. -/
def pieces? : List Char → Option (Found (List Piece))
  | '"' :: rest => some ⟨[], 1, rest⟩
  | '\\' :: 'u' :: a :: b :: c :: d :: rest => do
      let code ← hexWord? a b c d
      return (← pieces? rest).before (.unit code) 6
  | '\\' :: letter :: rest => do
      let character ← escape? letter
      return (← pieces? rest).before (.char character) 2
  | character :: rest =>
      if character.toNat < 32 ∨ character = '\\' then none
      else (pieces? rest).map (Found.before (.char character) 1)
  | [] => none

/-- The characters of pieces, with pairs of code units joined. -/
def joinPieces : List Piece → List Char
  | [] => []
  | .char character :: rest => character :: joinPieces rest
  | .unit high :: .unit low :: rest =>
      match pairChar? high low with
      | some character => character :: joinPieces rest
      | none => unitChar high :: joinPieces (.unit low :: rest)
  | .unit code :: rest => unitChar code :: joinPieces rest

/-- A string from behind its opening quote on. -/
def string? (text : List Char) : Option (Found String) :=
  (pieces? text).map fun found => ⟨String.ofList (joinPieces found.value), found.used, found.rest⟩

/-- The next character behind blanks, if it is the given one. -/
def mark? (mark : Char) (text : List Char) : Option (Found Unit) :=
  let lead := blanks text
  match lead.rest with
  | character :: rest => if character = mark then some ⟨(), lead.used + 1, rest⟩ else none
  | [] => none

/-- The number of arrays and objects that may be open at a time. -/
def maxNesting : Nat := 10000

mutual

/-- A value at the front of a text, with at most `levels` arrays and objects open inside it. -/
def value? : (fuel levels : Nat) → List Char → Option (Found Value)
  | 0, _, _ => none
  | fuel + 1, levels, text =>
      match text with
      | 'n' :: _ => (word? "null".toList text).map fun rest => ⟨.null, 4, rest⟩
      | 't' :: _ => (word? "true".toList text).map fun rest => ⟨.bool true, 4, rest⟩
      | 'f' :: _ => (word? "false".toList text).map fun rest => ⟨.bool false, 5, rest⟩
      | '"' :: rest => do
          let found ← string? rest
          let used := found.used + 1
          return ⟨.string ⟨text, used⟩ found.value, used, found.rest⟩
      | '[' :: rest =>
          if levels = 0 then none
          else
            match mark? ']' rest with
            | some close =>
                let used := close.used + 1
                some ⟨.array ⟨text, used⟩ [], used, close.rest⟩
            | none => do
                let found ← items? fuel (levels - 1) rest
                let used := found.used + 1
                return ⟨.array ⟨text, used⟩ found.value, used, found.rest⟩
      | '{' :: rest =>
          if levels = 0 then none
          else
            match mark? '}' rest with
            | some close =>
                let used := close.used + 1
                some ⟨.object ⟨text, used⟩ [], used, close.rest⟩
            | none => do
                let found ← members? fuel (levels - 1) rest
                let used := found.used + 1
                return ⟨.object ⟨text, used⟩ found.value, used, found.rest⟩
      | _ => (number? text).map fun found =>
          ⟨.number (String.ofList found.value), found.used, found.rest⟩

/-- The items of an array up to its closing bracket. -/
def items? : (fuel levels : Nat) → List Char → Option (Found (List Value))
  | 0, _, _ => none
  | fuel + 1, levels, text => do
      let lead := blanks text
      let first ← value? fuel levels lead.rest
      let used := lead.used + first.used
      match mark? ',' first.rest with
      | some comma =>
          let others ← items? fuel levels comma.rest
          return ⟨first.value :: others.value, used + comma.used + others.used, others.rest⟩
      | none =>
          let close ← mark? ']' first.rest
          return ⟨[first.value], used + close.used, close.rest⟩

/-- The members of an object up to its closing brace. -/
def members? : (fuel levels : Nat) → List Char → Option (Found (List (String × Value)))
  | 0, _, _ => none
  | fuel + 1, levels, text => do
      let quote ← mark? '"' text
      let name ← string? quote.rest
      let colon ← mark? ':' name.rest
      let lead := blanks colon.rest
      let first ← value? fuel levels lead.rest
      let used := quote.used + name.used + colon.used + lead.used + first.used
      match mark? ',' first.rest with
      | some comma =>
          let others ← members? fuel levels comma.rest
          return ⟨(name.value, first.value) :: others.value, used + comma.used + others.used,
            others.rest⟩
      | none =>
          let close ← mark? '}' first.rest
          return ⟨[(name.value, first.value)], used + close.used, close.rest⟩

end

/-- The first value of a text.  Every level of nesting takes a character, which bounds the fuel. -/
def parseFirst (text : String) : Option Value :=
  let characters := (blanks text.toList).rest
  (value? (2 * characters.length + 2) maxNesting characters).map Found.value

end RecordWasm.Json
