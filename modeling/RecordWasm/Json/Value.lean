/-!
# JSON values that remember their text

A value keeps the text it was read from, so that a number can be judged by its spelling and a
message can quote a value as it was written.  Objects keep all their members in order, repeated
names included.
-/

namespace RecordWasm.Json

/-- Where a value was read: it takes the first `length` characters of what followed. -/
structure Spelling where
  source : List Char
  length : Nat

def Spelling.text (spelling : Spelling) : String :=
  String.ofList (spelling.source.take spelling.length)

inductive Value where
  | null
  | bool (value : Bool)
  | number (text : String)
  | string (spelling : Spelling) (value : String)
  | array (spelling : Spelling) (items : List Value)
  | object (spelling : Spelling) (members : List (String × Value))

namespace Value

/-- The text a value was read from. -/
def text : Value → String
  | null => "null"
  | bool value => if value then "true" else "false"
  | number text => text
  | string spelling _ => spelling.text
  | array spelling _ => spelling.text
  | object spelling _ => spelling.text

def isNull : Value → Bool
  | null => true
  | _ => false

mutual

/-- The number of values nested in each other, the value itself included. -/
def depth : Value → Nat
  | array _ items => depthOfItems items + 1
  | object _ members => depthOfMembers members + 1
  | _ => 1

def depthOfItems : List Value → Nat
  | [] => 0
  | item :: rest => max (depth item) (depthOfItems rest)

def depthOfMembers : List (String × Value) → Nat
  | [] => 0
  | (_, value) :: rest => max (depth value) (depthOfMembers rest)

end

end Value

end RecordWasm.Json
