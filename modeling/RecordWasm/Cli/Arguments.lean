import RecordWasm.Decimal.Reading
import RecordWasm.Decimal.Shortest
import RecordWasm.Machine.Engine
import RecordWasm.Text.Basic

/-!
# Values as texts

The arguments of a call are read from texts at the types of the parameters, and its results are
written at their types.  Outside, every value is a 64-bit word.
-/

namespace RecordWasm.Cli

open Wasm Machine Decimal

/-- Why texts are no arguments. -/
inductive ArgumentError where
  | count (expected given : Nat)
  | malformed (index : Nat) (type : NumType) (text : String) (cause : NumberError)
  | unsupported (index : Nat) (type : ValType)
  deriving DecidableEq, Repr

/-- The name under which the reader of a type reports. -/
def readerName : NumType → String
  | .i32 | .i64 => "strconv.ParseInt"
  | .f32 | .f64 => "strconv.ParseFloat"

def ArgumentError.message : ArgumentError → String
  | count expected given => s!"expected {expected} arguments, got {given}"
  | malformed index type text cause =>
      s!"argument {index}: {readerName type}: parsing {Text.quoted text}: {cause.message}"
  | unsupported index type => s!"argument {index}: unsupported type {typeName type}"

/-- The word that a text without blanks around it stands for.  Truth values are numbers of the
narrow integer type. -/
def readWord (type : NumType) (text : String) : Except NumberError UInt64 :=
  match type with
  | .i32 =>
      if text = "true" then .ok 1
      else if text = "false" then .ok 0
      else (readInt 32 text).map fun value => (Int32.ofInt value).toUInt32.toUInt64
  | .i64 => (readInt 64 text).map fun value => (Int64.ofInt value).toUInt64
  | .f32 => (readSingle text).map UInt32.toUInt64
  | .f64 => readDouble text

/-- Reads one argument. -/
def readArgument (index : Nat) (type : ValType) (text : String) : Except ArgumentError UInt64 :=
  let text := Text.trim text
  match type.numType? with
  | none => .error (.unsupported index type)
  | some number => (readWord number text).mapError (.malformed index number text)

/-- Reads arguments in turn; `index` is the number of the first one. -/
def readArgumentsFrom : (index : Nat) → List ValType → List String →
    Except ArgumentError (List UInt64)
  | index, type :: types, text :: texts => do
      let word ← readArgument index type text
      return word :: (← readArgumentsFrom (index + 1) types texts)
  | _, _, _ => .ok []

/-- Reads as many arguments as there are parameters. -/
def readArguments (types : List ValType) (texts : List String) :
    Except ArgumentError (List UInt64) :=
  if texts.length = types.length then readArgumentsFrom 0 types texts
  else .error (.count types.length texts.length)

/-- The text of a word of a type. -/
def resultText (type : ValType) (word : UInt64) : String :=
  match type.numType? with
  | some .i32 => toString word.toUInt32.toInt32
  | some .i64 => toString word.toInt64
  | some .f32 => singleText word.toUInt32
  | some .f64 => doubleText word
  | none => toString word

/-- The text of the results of a call. -/
def resultsText (types : List ValType) (words : List UInt64) : String :=
  if words.isEmpty then "()"
  else ", ".intercalate ((types.zip words).map fun (type, word) => resultText type word)

/-- An exported function as a line of a listing. -/
def signatureText (sig : Signature) : String :=
  let result :=
    match sig.type.results with
    | [] => ""
    | first :: _ => " -> " ++ typeName first
  sig.name ++ "(" ++ ", ".intercalate (sig.type.params.map typeName) ++ ")" ++ result

end RecordWasm.Cli
