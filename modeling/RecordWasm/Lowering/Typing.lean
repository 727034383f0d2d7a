import RecordWasm.Lowering.Context

/-!
# Types of expressions

The type an expression will yield, found without generating code.  An assigned type counts first;
locals, fields and signatures fill the gaps.
-/

namespace RecordWasm.Lowering

open Syntax Layout

/-- A number, possibly with minus signs in front of it. -/
def isNumericLit : Expr → Bool
  | .int _ _ | .float _ _ => true
  | .unary _ op operand => op == "-" && isNumericLit operand
  | _ => false

def isNumeric (type : Ty) : Bool := type.isInteger || type.isFloat

def orDefault (type default : Ty) : Ty := if type.isVoid then default else type

/-- The operators that compare two values. -/
def isComparison (op : String) : Bool := op ∈ ["==", "!=", "<", "<=", ">", ">="]

/-- The operators that join two truth values. -/
def isLogical (op : String) : Bool := op == "&&" || op == "||"

/-- The fields that an identifier names one after the other, starting at the receiver. -/
def receiverPath (name : String) : List String :=
  Text.split '.' ((Text.after? (selfName ++ ".") name).getD name)

/-- The type at the end of a path of fields. -/
def pathType? (env : Env) : Ty → List String → Option Ty
  | type, [] => some type
  | .record name, field :: rest =>
      match env.fieldType? name field with
      | some type => pathType? env type rest
      | none => none
  | _, _ :: _ => none

namespace Context

/-- The type of the field of the receiver that an identifier names. -/
def receiverPathType? (context : Context) (name : String) : Option Ty :=
  if context.receiver = "" then none
  else pathType? context.env (.record context.receiver) (receiverPath name)

/-- The type of an identifier that no local has. -/
def freeType (context : Context) (assigned : Ty) (name : String) : Ty :=
  if !assigned.isVoid then assigned
  else if context.receiver ≠ "" ∧ name = selfName then .record context.receiver
  else
    match context.receiverPathType? name, Text.cut? '.' name with
    | some type, _ => type
    | none, some (enum, _) => .enum enum
    | none, none => .void

def identType (context : Context) (assigned : Ty) (name : String) : Ty :=
  match context.lookup? name with
  | some slot => slot.type
  | none => context.freeType assigned name

/-- A method of the receiver. -/
def ownMethod? (context : Context) (name : String) : Option FuncRef :=
  if context.receiver = "" then none else context.env.method? context.receiver name

/-- The function that a call by name refers to: a free function or import, a method of the receiver,
or a constructor. -/
def callee? (context : Context) (name : String) : Option FuncRef :=
  match context.env.function? name, context.ownMethod? name with
  | some ref, _ => some ref
  | none, some ref => some ref
  | none, none => Text.after? constructorMark name >>= context.env.constructor?

/-- The method that a call on a value of a type refers to. -/
def methodOf? (context : Context) (type : Ty) (name : String) : Option FuncRef :=
  match type with
  | .record record => context.env.method? record name
  | _ => none

/-- The type both operands of an operator are brought to, given their own types.  A bare number
takes the type of the other side. -/
def joinTypes (left right : Expr) (leftType rightType : Ty) : Ty :=
  if isNumericLit left && !isNumericLit right && !rightType.isVoid then rightType
  else orDefault leftType rightType

mutual

/-- The type an expression yields. -/
def typeOf (context : Context) : Expr → Ty
  | .missing => .void
  | .int tag _ => orDefault tag.type .i64
  | .float tag _ => orDefault tag.type .f64
  | .bool _ _ => .bool
  | .ident tag name => context.identType tag.type name
  | .binary _ op left right =>
      if isComparison op || isLogical op then .bool
      else joinTypes left right (typeOf context left) (typeOf context right)
  | .unary _ op operand => if op = "!" then .bool else typeOf context operand
  | .call tag function _ =>
      match context.callee? function with
      | some ref => ref.result
      | none => tag.type
  | .methodCall tag receiver method _ =>
      match context.methodOf? (typeOf context receiver) method with
      | some ref => ref.result
      | none => tag.type
  | .branch tag _ body otherwise =>
      if !tag.type.isVoid || otherwise.isMissing then tag.type
      else orDefault (typeOf context body) (typeOf context otherwise)
  | .block tag _ tail => orDefault tag.type (typeOf context tail)
  | .cases tag _ arms => orDefault tag.type (typeOfArms context arms)
  | .member tag subject field =>
      match typeOf context subject with
      | .record record => (context.env.fieldType? record field).getD tag.type
      | _ => tag.type
  | .construct _ record _ => .record record
  | .variant _ enum _ => .enum enum
  | .string tag _ | .char tag _ | .null tag => tag.type
  | .lambda tag _ _ | .cast tag _ _ | .attempt tag _ | .quote tag _ | .eval tag _ => tag.type
  | .reflect tag _ | .macroCall tag _ _ | .list tag _ | .tuple tag _ => tag.type

/-- The type of the first arm that yields a value. -/
def typeOfArms (context : Context) : List Arm → Ty
  | [] => .void
  | .mk _ _ body :: rest => orDefault (typeOf context body) (typeOfArms context rest)

end

/-- The type both operands of an operator are brought to. -/
def operandType (context : Context) (left right : Expr) : Ty :=
  joinTypes left right (context.typeOf left) (context.typeOf right)

end Context

end RecordWasm.Lowering
