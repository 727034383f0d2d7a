import RecordWasm.Text.Basic

/-!
# Types of the source language
-/

namespace RecordWasm.Syntax

inductive Ty where
  | void | i32 | i64 | f32 | f64 | bool | string
  | record (name : String)
  | enum (name : String)
  deriving DecidableEq, Repr, Inhabited

namespace Ty

def isVoid : Ty → Bool
  | void => true
  | _ => false

def isFloat : Ty → Bool
  | f32 | f64 => true
  | _ => false

def isInteger : Ty → Bool
  | i32 | i64 => true
  | _ => false

/-- The name of a type in messages. -/
def text : Ty → String
  | void => "void"
  | i32 => "i32"
  | i64 => "i64"
  | f32 => "f32"
  | f64 => "f64"
  | bool => "bool"
  | string => "string"
  | record name => name
  | enum name => "enum:" ++ name

/-- The name of a type with records marked as such. -/
def tagged : Ty → String
  | record name => "record:" ++ name
  | other => other.text

/-- The type a text names.  A text that names nothing else names a record. -/
def ofText (text : String) : Ty :=
  if text = "" ∨ text = "void" ∨ text = "()" then void
  else if text = "i32" then i32
  else if text = "i64" ∨ text = "int" then i64
  else if text = "f32" then f32
  else if text = "f64" ∨ text = "float" then f64
  else if text = "bool" then bool
  else if text = "string" then string
  else
    match Text.after? "enum:" text, Text.after? "record:" text with
    | some name, _ => enum name
    | none, some name => record name
    | none, none => record text

end Ty

end RecordWasm.Syntax
