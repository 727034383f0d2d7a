import RecordWasm.Wasm.ValType

/-!
# Operations

The operations of the instruction set, grouped by what they do: an arithmetic operation is a width
and an operator, a memory access is a number type.  Each one has a byte in the binary format and a
mnemonic in the text format.
-/

namespace RecordWasm.Wasm

/-- The width of an integer or floating-point operation. -/
inductive Width where
  | w32 | w64
  deriving DecidableEq, Repr

/-- Comparisons of integers. -/
inductive IntRelation where
  | eq | ne | ltS | ltU | gtS | gtU | leS | leU | geS | geU
  deriving DecidableEq, Repr

/-- Comparisons of floating-point numbers. -/
inductive FloatRelation where
  | eq | ne | lt | gt | le | ge
  deriving DecidableEq, Repr

/-- Binary operators on integers. -/
inductive IntOperator where
  | add | sub | mul | divS | divU | remS | remU | and | or | xor | shl | shrS | shrU
  deriving DecidableEq, Repr

/-- Unary operators on floating-point numbers. -/
inductive FloatSign where
  | abs | neg
  deriving DecidableEq, Repr

/-- Binary operators on floating-point numbers. -/
inductive FloatOperator where
  | add | sub | mul | div
  deriving DecidableEq, Repr

inductive Opcode where
  | unreachable | nop | block | loop | ifThen | otherwise | close
  | br | brIf | ret | call | drop | select
  | localGet | localSet | localTee | globalGet | globalSet
  | load (type : NumType) | store (type : NumType) | memorySize | memoryGrow
  | const (type : NumType)
  | eqz (width : Width)
  | compareInt (width : Width) (relation : IntRelation)
  | compareFloat (width : Width) (relation : FloatRelation)
  | int (width : Width) (operator : IntOperator)
  | floatSign (width : Width) (operator : FloatSign)
  | float (width : Width) (operator : FloatOperator)
  | wrap | extendS | extendU | demote | promote | convertS
  deriving DecidableEq, Repr

namespace Width

def intName : Width → String
  | w32 => "i32"
  | w64 => "i64"

def floatName : Width → String
  | w32 => "f32"
  | w64 => "f64"

def intType : Width → NumType
  | w32 => .i32
  | w64 => .i64

def floatType : Width → NumType
  | w32 => .f32
  | w64 => .f64

def all : List Width := [w32, w64]

end Width

namespace IntRelation

def all : List IntRelation := [eq, ne, ltS, ltU, gtS, gtU, leS, leU, geS, geU]

def name : IntRelation → String
  | eq => "eq"
  | ne => "ne"
  | ltS => "lt_s"
  | ltU => "lt_u"
  | gtS => "gt_s"
  | gtU => "gt_u"
  | leS => "le_s"
  | leU => "le_u"
  | geS => "ge_s"
  | geU => "ge_u"

/-- The distance from the first comparison of a width. -/
def offset : IntRelation → UInt8
  | eq => 0
  | ne => 1
  | ltS => 2
  | ltU => 3
  | gtS => 4
  | gtU => 5
  | leS => 6
  | leU => 7
  | geS => 8
  | geU => 9

end IntRelation

namespace FloatRelation

def all : List FloatRelation := [eq, ne, lt, gt, le, ge]

def name : FloatRelation → String
  | eq => "eq"
  | ne => "ne"
  | lt => "lt"
  | gt => "gt"
  | le => "le"
  | ge => "ge"

def offset : FloatRelation → UInt8
  | eq => 0
  | ne => 1
  | lt => 2
  | gt => 3
  | le => 4
  | ge => 5

end FloatRelation

namespace IntOperator

def all : List IntOperator :=
  [add, sub, mul, divS, divU, remS, remU, and, or, xor, shl, shrS, shrU]

def name : IntOperator → String
  | add => "add"
  | sub => "sub"
  | mul => "mul"
  | divS => "div_s"
  | divU => "div_u"
  | remS => "rem_s"
  | remU => "rem_u"
  | and => "and"
  | or => "or"
  | xor => "xor"
  | shl => "shl"
  | shrS => "shr_s"
  | shrU => "shr_u"

def offset : IntOperator → UInt8
  | add => 0
  | sub => 1
  | mul => 2
  | divS => 3
  | divU => 4
  | remS => 5
  | remU => 6
  | and => 7
  | or => 8
  | xor => 9
  | shl => 10
  | shrS => 11
  | shrU => 12

end IntOperator

namespace FloatSign

def all : List FloatSign := [abs, neg]

def name : FloatSign → String
  | abs => "abs"
  | neg => "neg"

def offset : FloatSign → UInt8
  | abs => 0
  | neg => 1

end FloatSign

namespace FloatOperator

def all : List FloatOperator := [add, sub, mul, div]

def name : FloatOperator → String
  | add => "add"
  | sub => "sub"
  | mul => "mul"
  | div => "div"

def offset : FloatOperator → UInt8
  | add => 0
  | sub => 1
  | mul => 2
  | div => 3

end FloatOperator

/-- The distance from the first of four consecutive operations, one for each number type. -/
def NumType.offset : NumType → UInt8
  | i32 => 0
  | i64 => 1
  | f32 => 2
  | f64 => 3

namespace Opcode

/-- The byte of an operation in the binary format. -/
def byte : Opcode → UInt8
  | unreachable => 0x00
  | nop => 0x01
  | block => 0x02
  | loop => 0x03
  | ifThen => 0x04
  | otherwise => 0x05
  | close => 0x0B
  | br => 0x0C
  | brIf => 0x0D
  | ret => 0x0F
  | call => 0x10
  | drop => 0x1A
  | select => 0x1B
  | localGet => 0x20
  | localSet => 0x21
  | localTee => 0x22
  | globalGet => 0x23
  | globalSet => 0x24
  | load type => 0x28 + type.offset
  | store type => 0x36 + type.offset
  | memorySize => 0x3F
  | memoryGrow => 0x40
  | const type => 0x41 + type.offset
  | eqz .w32 => 0x45
  | eqz .w64 => 0x50
  | compareInt .w32 relation => 0x46 + relation.offset
  | compareInt .w64 relation => 0x51 + relation.offset
  | compareFloat .w32 relation => 0x5B + relation.offset
  | compareFloat .w64 relation => 0x61 + relation.offset
  | int .w32 operator => 0x6A + operator.offset
  | int .w64 operator => 0x7C + operator.offset
  | floatSign .w32 operator => 0x8B + operator.offset
  | floatSign .w64 operator => 0x99 + operator.offset
  | float .w32 operator => 0x92 + operator.offset
  | float .w64 operator => 0xA0 + operator.offset
  | wrap => 0xA7
  | extendS => 0xAC
  | extendU => 0xAD
  | demote => 0xB6
  | promote => 0xBB
  | convertS => 0xB9

/-- The mnemonic of an operation in the text format. -/
def mnemonic : Opcode → String
  | unreachable => "unreachable"
  | nop => "nop"
  | block => "block"
  | loop => "loop"
  | ifThen => "if"
  | otherwise => "else"
  | close => "end"
  | br => "br"
  | brIf => "br_if"
  | ret => "return"
  | call => "call"
  | drop => "drop"
  | select => "select"
  | localGet => "local.get"
  | localSet => "local.set"
  | localTee => "local.tee"
  | globalGet => "global.get"
  | globalSet => "global.set"
  | load type => type.name ++ ".load"
  | store type => type.name ++ ".store"
  | memorySize => "memory.size"
  | memoryGrow => "memory.grow"
  | const type => type.name ++ ".const"
  | eqz width => width.intName ++ ".eqz"
  | compareInt width relation => width.intName ++ "." ++ relation.name
  | compareFloat width relation => width.floatName ++ "." ++ relation.name
  | int width operator => width.intName ++ "." ++ operator.name
  | floatSign width operator => width.floatName ++ "." ++ operator.name
  | float width operator => width.floatName ++ "." ++ operator.name
  | wrap => "i32.wrap_i64"
  | extendS => "i64.extend_i32_s"
  | extendU => "i64.extend_i32_u"
  | demote => "f32.demote_f64"
  | promote => "f64.promote_f32"
  | convertS => "f64.convert_i64_s"

/-- Every operation, in no particular order. -/
def all : List Opcode :=
  [unreachable, nop, block, loop, ifThen, otherwise, close, br, brIf, ret, call, drop, select,
    localGet, localSet, localTee, globalGet, globalSet] ++
  NumType.all.map load ++ NumType.all.map store ++ [memorySize, memoryGrow] ++
  NumType.all.map const ++
  Width.all.flatMap (fun width =>
    eqz width :: (IntRelation.all.map (compareInt width) ++
      FloatRelation.all.map (compareFloat width) ++ IntOperator.all.map (int width) ++
      FloatSign.all.map (floatSign width) ++ FloatOperator.all.map (float width))) ++
  [wrap, extendS, extendU, demote, promote, convertS]

/-- The operation of a byte, if there is one. -/
def ofByte? (byte : UInt8) : Option Opcode := all.find? fun opcode => opcode.byte == byte

/-- The mnemonic of the operation of a byte. -/
def nameOf (byte : UInt8) : String :=
  match ofByte? byte with
  | some opcode => opcode.mnemonic
  | none => "unknown"

/-- No two operations share a byte. -/
theorem ofByte?_byte (opcode : Opcode) : ofByte? opcode.byte = some opcode := by
  cases opcode with
  | load type => cases type <;> decide
  | store type => cases type <;> decide
  | const type => cases type <;> decide
  | eqz width => cases width <;> decide
  | compareInt width relation => cases width <;> cases relation <;> decide
  | compareFloat width relation => cases width <;> cases relation <;> decide
  | int width operator => cases width <;> cases operator <;> decide
  | floatSign width operator => cases width <;> cases operator <;> decide
  | float width operator => cases width <;> cases operator <;> decide
  | _ => decide

end Opcode

end RecordWasm.Wasm
