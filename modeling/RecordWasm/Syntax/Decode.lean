import RecordWasm.Syntax.Node
import RecordWasm.Syntax.Tree
import RecordWasm.Json.Parser

/-!
# Programs from JSON

Decoding goes on after something wrong has been found, but keeps only the first failure.  One thing
cannot be survived: the type of a block is that of its tail, and a tail that is there but decodes to
nothing crashes the decoder, whatever was recorded before.
-/

namespace RecordWasm.Syntax

open Json

/-- How decoding ends without a program. -/
inductive DecodeError where
  | crash
  | failed (failure : Failure)

/-- The type that was asked for of a tail that is not there. -/
inductive Crash where
  | untypedTail

/-- Decoding keeps the first failure as its state. -/
abbrev Decode := StateT (Option Report) (Except Crash)

/-- Records a failure, unless one has been recorded before. -/
def fail (path : List String) (pos : Position) (detail : String) : Decode Unit :=
  modify fun first =>
    match first with
    | some report => some report
    | none => some { phase := .decode, kind := .invalidData, path, pos, detail }

/-- The node in a place that may be empty or hold `null`. -/
def readNode (path : List String) (place : Option Value) : Decode (Option Node) :=
  match place with
  | none | some .null => return none
  | some value =>
      match Node.fill value {} with
      | some node => return some node
      | none => do
          fail path {} "malformed node"
          return none

def present (place : Option Value) : Bool :=
  match place with
  | none | some .null => false
  | some _ => true

/-- The text in a place as it was written; an empty place is printed as `null`, like the value. -/
def written (place : Option Value) : String :=
  match place with
  | none => "null"
  | some value => value.text

/-- The string in a place, empty if there is none. -/
def stringIn (place : Option Value) : String :=
  match place with
  | some (.string _ value) => value
  | _ => ""

/-- The type a text names, or another one if there is no text. -/
def typeOr (text : String) (otherwise : Ty) : Ty := if text = "" then otherwise else Ty.ofText text

def ParamNode.param (node : ParamNode) : Param := ⟨node.pos, node.name, Ty.ofText node.type⟩

/-- The operators that yield a truth value whatever type is assigned. -/
def yieldsBool (op : String) : Bool := op ∈ ["==", "!=", "<", "<=", ">", ">=", "&&", "||"]

/-- Decodes the items of a list, telling each its number. -/
def decodeItems {α β : Type} (item : Nat → α → Decode β) : (index : Nat) → List α → Decode (List β)
  | _, [] => return []
  | index, value :: rest => do
      let first ← item index value
      return first :: (← decodeItems item (index + 1) rest)

def decodeInt (path : List String) (node : Node) : Decode Expr := do
  let tag : Tag := ⟨node.pos, typeOr node.type .i64⟩
  match Decimal.readInt 64 (written node.value) with
  | .ok value => return .int tag (Int64.ofInt value)
  | .error _ => do
      fail path node.pos s!"invalid int literal {written node.value}"
      return .int tag 0

def decodeFloat (path : List String) (node : Node) : Decode Expr := do
  let tag : Tag := ⟨node.pos, typeOr node.type .f64⟩
  match Decimal.readDouble (written node.value) with
  | .ok bits => return .float tag bits
  | .error _ => do
      fail path node.pos s!"invalid float literal {written node.value}"
      return .float tag 0

def decodeBool (path : List String) (node : Node) : Decode Expr := do
  match node.value with
  | some (.bool value) => return .bool ⟨node.pos, .bool⟩ value
  | some .null => return .bool ⟨node.pos, .bool⟩ false
  | _ => do
      fail path node.pos s!"invalid bool literal {written node.value}"
      return .bool ⟨node.pos, .bool⟩ false

/-- Decodes statements, each under its number. -/
def decodeStmts (stmt : List String → Value → Decode Stmt) (path : List String)
    (places : List Value) : Decode (List Stmt) :=
  decodeItems (fun index value => stmt (path ++ [toString index]) value) 0 places

/-- Decodes expressions, each under the name of the list and its number. -/
def decodeExprs (expr : List String → Option Value → Decode Expr) (path : List String)
    (field : String) (places : List Value) : Decode (List Expr) :=
  decodeItems (fun index value => expr (path ++ [s!"{field}.{index}"]) (some value)) 0 places

mutual

def decodeStmt : (fuel : Nat) → (path : List String) → Value → Decode Stmt
  | 0, _, _ => return .missing
  | fuel + 1, path, value => do
      match ← readNode path (some value) with
      | none => do
          fail path {} "missing statement"
          return .missing
      | some node =>
          match node.kind with
          | "let" =>
              return .declare node.pos node.name (Ty.ofText node.type)
                (← decodeExpr fuel (path ++ ["value"]) node.value)
          | "assign" => do
              let target ← decodeExpr fuel (path ++ ["target"]) node.target
              return .assign node.pos target (← decodeExpr fuel (path ++ ["value"]) node.value)
          | "return" => do
              if present node.value then
                return .result node.pos (← decodeExpr fuel (path ++ ["value"]) node.value)
              return .result node.pos .missing
          | "expr" => return .eval node.pos (← decodeExpr fuel (path ++ ["expr"]) node.expr)
          | "while" => do
              let cond ← decodeExpr fuel (path ++ ["cond"]) node.cond
              return .whileLoop node.pos cond (← decodeBody fuel path node.body)
          | "for" => do
              let start ← decodeExpr fuel (path ++ ["start"]) node.start
              let stop ← decodeExpr fuel (path ++ ["end"]) node.stop
              return .forRange node.pos node.var start stop (← decodeBody fuel path node.body)
          | "loop" => return .forever node.pos (← decodeBody fuel path node.body)
          | "break" => return .leave node.pos
          | "continue" => return .next node.pos
          | "" => do
              fail path node.pos "statement without kind"
              return .missing
          | _ => return .eval node.pos (← decodeExprNode fuel path node)

/-- The statements of a loop. -/
def decodeBody : (fuel : Nat) → (path : List String) → Option Value → Decode (List Stmt)
  | 0, _, _ => return []
  | fuel + 1, path, place =>
      match place with
      | none | some .null => return []
      | some (.array _ items) => decodeStmts (decodeStmt fuel) (path ++ ["body"]) items
      | some _ => do
          fail path {} "body must be an array"
          return []

/-- The expression in a place; `path` leads to the place. -/
def decodeExpr : (fuel : Nat) → (path : List String) → Option Value → Decode Expr
  | 0, _, _ => return .missing
  | fuel + 1, path, place => do
      match ← readNode path place with
      | none => do
          fail path {} "missing expression"
          return .missing
      | some node => decodeExprNode fuel path node

/-- An expression that may be left out.  A malformed one is reported where it would be left out. -/
def decodeOptional : (fuel : Nat) → (path : List String) → Option Value → Decode Expr
  | 0, _, _ => return .missing
  | fuel + 1, path, place => do
      match ← readNode path place with
      | none => return .missing
      | some _ => decodeExpr fuel (path ++ ["expr"]) place

def decodeExprNode : (fuel : Nat) → (path : List String) → Node → Decode Expr
  | 0, _, _ => return .missing
  | fuel + 1, path, node => do
      let tag : Tag := ⟨node.pos, Ty.ofText node.type⟩
      match node.kind with
      | "int" => decodeInt path node
      | "float" => decodeFloat path node
      | "bool" => decodeBool path node
      | "string" => return .string ⟨node.pos, .string⟩ (stringIn node.value)
      | "char" =>
          return .char ⟨node.pos, .i32⟩ ((stringIn node.value).toList.headD replacement)
      | "null" => return .null tag
      | "ident" => return .ident tag node.name
      | "binary" => do
          let left ← decodeExpr fuel (path ++ ["left"]) node.left
          let right ← decodeExpr fuel (path ++ ["right"]) node.right
          let type :=
            if yieldsBool node.op then .bool
            else if node.type = "" ∧ ¬ left.isMissing then left.assigned
            else Ty.ofText node.type
          return .binary ⟨node.pos, type⟩ node.op left right
      | "unary" => do
          let operand ← decodeExpr fuel (path ++ ["operand"]) node.operand
          let type :=
            if node.type = "" ∧ ¬ operand.isMissing then operand.assigned else Ty.ofText node.type
          return .unary ⟨node.pos, type⟩ node.op operand
      | "call" => return .call tag node.func (← decodeExprs (decodeExpr fuel) path "args" node.args)
      | "method_call" => do
          let receiver ← decodeExpr fuel (path ++ ["receiver"]) node.receiver
          return .methodCall tag receiver node.method
            (← decodeExprs (decodeExpr fuel) path "args" node.args)
      | "if" => do
          let cond ← decodeExpr fuel (path ++ ["cond"]) node.cond
          let body ← decodeBlock fuel (path ++ ["then"]) node.consequent
          if present node.otherwise then
            return .branch tag cond body (← decodeExpr fuel (path ++ ["else"]) node.otherwise)
          return .branch tag cond body .missing
      | "block" => decodeBlockNode fuel path node
      | "match" => do
          let scrutinee ← decodeExpr fuel (path ++ ["scrutinee"]) node.scrutinee
          let arms ← decodeItems (fun index (arm : ArmNode) => do
            let path := path ++ ["arms", toString index]
            let pattern ← decodePattern fuel path arm.pattern
            return Arm.mk arm.pos pattern (← decodeExpr fuel (path ++ ["body"]) arm.body))
            0 node.arms.items
          return .cases tag scrutinee arms
      | "member" =>
          return .member tag (← decodeExpr fuel (path ++ ["object"]) node.object) node.field
      | "struct" => do
          let fields ← decodeItems (fun _ (field : FieldInitNode) => do
            return FieldInit.mk field.pos field.name
              (← decodeExpr fuel (path ++ [field.name]) field.value)) 0 node.fields.items
          return .construct ⟨node.pos, .record node.typeName⟩ node.typeName fields
      | "enum_variant" => return .variant ⟨node.pos, .enum node.enum⟩ node.enum node.variant
      | "lambda" =>
          return .lambda tag (node.params.items.map ParamNode.param)
            (← decodeOptional fuel path node.body)
      | "cast" =>
          let target := Ty.ofText node.castTo
          return .cast ⟨node.pos, target⟩ (← decodeExpr fuel (path ++ ["expr"]) node.expr) target
      | "try" => return .attempt tag (← decodeExpr fuel (path ++ ["expr"]) node.expr)
      | "quote" => return .quote tag (← decodeOptional fuel path node.expr)
      | "eval" => return .eval tag (← decodeOptional fuel path node.expr)
      | "reflect" => return .reflect tag node.typeName
      | "macro" =>
          return .macroCall tag node.name (← decodeExprs (decodeExpr fuel) path "args" node.args)
      | "list" => return .list tag (← decodeExprs (decodeExpr fuel) path "elems" node.elems)
      | "tuple" => return .tuple tag (← decodeExprs (decodeExpr fuel) path "elems" node.elems)
      | kind => do
          fail path node.pos s!"unknown expression kind {Text.quoted kind}"
          return .missing

/-- The block in a place, whatever the kind of its node. -/
def decodeBlock : (fuel : Nat) → (path : List String) → Option Value → Decode Expr
  | 0, _, _ => return .missing
  | fuel + 1, path, place => do
      match ← readNode path place with
      | none => do
          fail path {} "missing block"
          return .missing
      | some node => decodeBlockNode fuel path node

def decodeBlockNode : (fuel : Nat) → (path : List String) → Node → Decode Expr
  | 0, _, _ => return .missing
  | fuel + 1, path, node => do
      let stmts ← decodeStmts (decodeStmt fuel) path node.stmts
      if present node.tail then
        let tail ← decodeExpr fuel (path ++ ["tail"]) node.tail
        if tail.isMissing then throw .untypedTail
        return .block ⟨node.pos, typeOr node.type tail.assigned⟩ stmts tail
      return .block ⟨node.pos, Ty.ofText node.type⟩ stmts .missing

/-- The pattern in a place of the part that `path` leads to. -/
def decodePattern : (fuel : Nat) → (path : List String) → Option Value → Decode Pattern
  | 0, _, _ => return .missing
  | fuel + 1, path, place => do
      let path := path ++ ["pattern"]
      match ← readNode path place with
      | none => do
          fail path {} "missing pattern"
          return .missing
      | some node =>
          match node.kind with
          | "literal" =>
              return .literal node.pos (← decodeExpr fuel (path ++ ["value"]) node.value)
          | "wildcard" => return .wildcard node.pos
          | "bind" => return .bind node.pos node.name
          | "constructor" => do
              let args ← decodeItems (fun _ value => decodePattern fuel path (some value))
                0 node.args
              return .constructor node.pos node.name args
          | kind => do
              fail path node.pos s!"unknown pattern kind {Text.quoted kind}"
              return .missing

end

def decodeFunction (fuel : Nat) (path : List String) (receiver : String) (node : FuncNode) :
    Decode FuncDecl := do
  if node.name = "" then fail path node.pos "function without a name"
  let body ← decodeStmts (decodeStmt fuel) path node.body
  return {
    pos := node.pos
    name := node.name
    receiver
    params := node.params.items.map ParamNode.param
    result := Ty.ofText node.result
    body }

def decodeRecord (fuel : Nat) (path : List String) (node : RecordNode) : Decode RecordDecl := do
  let methods ← decodeItems (fun index method =>
    decodeFunction fuel (path ++ ["methods", toString index]) node.name method) 0 node.methods.items
  return {
    pos := node.pos
    name := node.name
    parent := node.parent
    fields := node.fields.items.map fun field => ⟨field.pos, field.name, Ty.ofText field.type⟩
    methods }

def decodeProgram (fuel : Nat) (node : ProgramNode) : Decode Program := do
  let records ← decodeItems (fun index record =>
    decodeRecord fuel ["records", toString index] record) 0 node.records.items
  let functions ← decodeItems (fun index function =>
    decodeFunction fuel ["functions", toString index] "" function) 0 node.functions.items
  return {
    name := node.name
    records
    enums := node.enums.items.map fun enum => ⟨enum.pos, enum.name, enum.variants.items⟩
    imports := node.imports.items.map fun item =>
      ⟨item.pos, item.module, item.name, item.params.items.map ParamNode.param,
        Ty.ofText item.result⟩
    functions }

/-- The failure of a text that is not of the form of a program. -/
def notAProgram : DecodeError :=
  .failed (Report.failure
    { phase := .decode, kind := .invalidData, detail := "parse program json" })

/-- The program that a text spells.  A value is entered at most four times before one of its parts
is, which bounds the fuel. -/
def decodeText (text : String) : Except DecodeError Program :=
  match parseFirst text with
  | none => .error notAProgram
  | some value =>
      match ProgramNode.fill value {} with
      | none => .error notAProgram
      | some node =>
          match decodeProgram (4 * value.depth + 4) node none with
          | .error .untypedTail => .error .crash
          | .ok (_, some report) => .error (.failed report.failure)
          | .ok (program, none) => .ok program

end RecordWasm.Syntax
