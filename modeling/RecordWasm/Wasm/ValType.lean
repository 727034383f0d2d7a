/-!
# Value types and signatures

A value type is one byte of the binary format.  Four bytes are number types; a module read from
outside may carry any other byte, so the type keeps the byte and `NumType` names the four.
-/

namespace RecordWasm.Wasm

/-- The number types. -/
inductive NumType where
  | i32 | i64 | f32 | f64
  deriving DecidableEq, Repr

/-- A value type as the binary format spells it. -/
structure ValType where
  byte : UInt8
  deriving DecidableEq, Repr

namespace NumType

def name : NumType → String
  | i32 => "i32"
  | i64 => "i64"
  | f32 => "f32"
  | f64 => "f64"

def valType : NumType → ValType
  | i32 => ⟨0x7F⟩
  | i64 => ⟨0x7E⟩
  | f32 => ⟨0x7D⟩
  | f64 => ⟨0x7C⟩

/-- The block type of a block that leaves one value of this type. -/
def blockType : NumType → Int32
  | i32 => -1
  | i64 => -2
  | f32 => -3
  | f64 => -4

def all : List NumType := [i32, i64, f32, f64]

end NumType

instance : Coe NumType ValType := ⟨NumType.valType⟩

/-- The block type of a block that leaves nothing. -/
def voidBlock : Int32 := -64

namespace ValType

abbrev i32 : ValType := ⟨0x7F⟩
abbrev i64 : ValType := ⟨0x7E⟩
abbrev f32 : ValType := ⟨0x7D⟩
abbrev f64 : ValType := ⟨0x7C⟩

/-- The number type a byte stands for, if it stands for one. -/
def numType? (type : ValType) : Option NumType :=
  NumType.all.find? fun candidate => candidate.valType == type

def name (type : ValType) : String :=
  match type.numType? with
  | some number => number.name
  | none => "unknown"

def blockType (type : ValType) : Int32 :=
  match type.numType? with
  | some number => number.blockType
  | none => voidBlock

end ValType

@[simp] theorem NumType.numType?_valType (type : NumType) : type.valType.numType? = some type := by
  cases type <;> rfl

@[simp] theorem NumType.name_valType (type : NumType) : type.valType.name = type.name := by
  simp [ValType.name]

/-- A function signature. -/
structure FuncType where
  params : List ValType
  results : List ValType
  deriving DecidableEq, Repr

/-- The text `(i32, i64) -> (i32)`. -/
def FuncType.text (type : FuncType) : String :=
  let list (types : List ValType) := ", ".intercalate (types.map ValType.name)
  s!"({list type.params}) -> ({list type.results})"

end RecordWasm.Wasm
