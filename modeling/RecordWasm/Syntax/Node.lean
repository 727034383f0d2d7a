import RecordWasm.Json.Fill
import RecordWasm.Failure

/-!
# The JSON form of programs

The shapes that a program text is read into before its statements and expressions are looked at.  A
node is the union of all members that statements, expressions and patterns use; which of them matter
depends on its kind.
-/

namespace RecordWasm.Syntax

open Json

/-- The members that hold a position. -/
def fillPosition (key : String) (value : Value) (pos : Position) : Option Position :=
  match key with
  | "line" => (Fill.int value pos.line).map fun line => { pos with line }
  | "col" => (Fill.int value pos.column).map fun column => { pos with column }
  | _ => some pos

structure ParamNode where
  pos : Position := {}
  name : String := ""
  type : String := ""

def ParamNode.fill : Fill ParamNode := Fill.object fun key value node =>
  match key with
  | "name" => (Fill.string value node.name).map fun name => { node with name }
  | "type" => (Fill.string value node.type).map fun type => { node with type }
  | _ => (fillPosition key value node.pos).map fun pos => { node with pos }

structure ArmNode where
  pos : Position := {}
  pattern : Option Value := none
  body : Option Value := none

def ArmNode.fill : Fill ArmNode := Fill.object fun key value node =>
  match key with
  | "pattern" => some { node with pattern := some value }
  | "body" => some { node with body := some value }
  | _ => (fillPosition key value node.pos).map fun pos => { node with pos }

structure FieldInitNode where
  pos : Position := {}
  name : String := ""
  value : Option Value := none

def FieldInitNode.fill : Fill FieldInitNode := Fill.object fun key value node =>
  match key with
  | "name" => (Fill.string value node.name).map fun name => { node with name }
  | "value" => some { node with value := some value }
  | _ => (fillPosition key value node.pos).map fun pos => { node with pos }

structure Node where
  pos : Position := {}
  kind : String := ""
  type : String := ""
  name : String := ""
  value : Option Value := none
  target : Option Value := none
  expr : Option Value := none
  cond : Option Value := none
  body : Option Value := none
  consequent : Option Value := none
  otherwise : Option Value := none
  var : String := ""
  start : Option Value := none
  stop : Option Value := none
  op : String := ""
  left : Option Value := none
  right : Option Value := none
  operand : Option Value := none
  func : String := ""
  args : List Value := []
  receiver : Option Value := none
  method : String := ""
  stmts : List Value := []
  tail : Option Value := none
  scrutinee : Option Value := none
  arms : Reread ArmNode := {}
  object : Option Value := none
  field : String := ""
  typeName : String := ""
  fields : Reread FieldInitNode := {}
  enum : String := ""
  variant : String := ""
  params : Reread ParamNode := {}
  castTo : String := ""
  elems : List Value := []

/-- The members of a node that hold a text. -/
def Node.fillText (key : String) (value : Value) (node : Node) : Option Node :=
  match key with
  | "kind" => (Fill.string value node.kind).map fun kind => { node with kind }
  | "type" => (Fill.string value node.type).map fun type => { node with type }
  | "name" => (Fill.string value node.name).map fun name => { node with name }
  | "var" => (Fill.string value node.var).map fun var => { node with var }
  | "op" => (Fill.string value node.op).map fun op => { node with op }
  | "func" => (Fill.string value node.func).map fun func => { node with func }
  | "method" => (Fill.string value node.method).map fun method => { node with method }
  | "field" => (Fill.string value node.field).map fun field => { node with field }
  | "type_name" => (Fill.string value node.typeName).map fun typeName => { node with typeName }
  | "enum" => (Fill.string value node.enum).map fun enum => { node with enum }
  | "variant" => (Fill.string value node.variant).map fun variant => { node with variant }
  | "to" => (Fill.string value node.castTo).map fun castTo => { node with castTo }
  | _ => (fillPosition key value node.pos).map fun pos => { node with pos }

/-- The members of a node that hold a list. -/
def Node.fillList (key : String) (value : Value) (node : Node) : Option Node :=
  match key with
  | "args" => (Fill.values value node.args).map fun args => { node with args }
  | "stmts" => (Fill.values value node.stmts).map fun stmts => { node with stmts }
  | "elems" => (Fill.values value node.elems).map fun elems => { node with elems }
  | "arms" => (Fill.list ArmNode.fill {} value node.arms).map fun arms => { node with arms }
  | "fields" =>
      (Fill.list FieldInitNode.fill {} value node.fields).map fun fields => { node with fields }
  | "params" => (Fill.list ParamNode.fill {} value node.params).map fun params =>
      { node with params }
  | _ => node.fillText key value

/-- The members of a node that hold another node or a literal. -/
def Node.fillMember (key : String) (value : Value) (node : Node) : Option Node :=
  match key with
  | "value" => some { node with value := some value }
  | "target" => some { node with target := some value }
  | "expr" => some { node with expr := some value }
  | "cond" => some { node with cond := some value }
  | "then" => some { node with consequent := some value }
  | "else" => some { node with otherwise := some value }
  | "body" => some { node with body := some value }
  | "start" => some { node with start := some value }
  | "end" => some { node with stop := some value }
  | "left" => some { node with left := some value }
  | "right" => some { node with right := some value }
  | "operand" => some { node with operand := some value }
  | "receiver" => some { node with receiver := some value }
  | "tail" => some { node with tail := some value }
  | "scrutinee" => some { node with scrutinee := some value }
  | "object" => some { node with object := some value }
  | _ => node.fillList key value

def Node.fill : Fill Node := Fill.object Node.fillMember

structure FuncNode where
  pos : Position := {}
  name : String := ""
  params : Reread ParamNode := {}
  result : String := ""
  body : List Value := []

def FuncNode.fill : Fill FuncNode := Fill.object fun key value node =>
  match key with
  | "name" => (Fill.string value node.name).map fun name => { node with name }
  | "params" => (Fill.list ParamNode.fill {} value node.params).map fun params =>
      { node with params }
  | "result" => (Fill.string value node.result).map fun result => { node with result }
  | "body" => (Fill.values value node.body).map fun body => { node with body }
  | _ => (fillPosition key value node.pos).map fun pos => { node with pos }

structure RecordNode where
  pos : Position := {}
  name : String := ""
  parent : String := ""
  fields : Reread ParamNode := {}
  methods : Reread FuncNode := {}

def RecordNode.fill : Fill RecordNode := Fill.object fun key value node =>
  match key with
  | "name" => (Fill.string value node.name).map fun name => { node with name }
  | "parent" => (Fill.string value node.parent).map fun parent => { node with parent }
  | "fields" => (Fill.list ParamNode.fill {} value node.fields).map fun fields =>
      { node with fields }
  | "methods" =>
      (Fill.list FuncNode.fill {} value node.methods).map fun methods => { node with methods }
  | _ => (fillPosition key value node.pos).map fun pos => { node with pos }

structure EnumNode where
  pos : Position := {}
  name : String := ""
  variants : Reread String := {}

def EnumNode.fill : Fill EnumNode := Fill.object fun key value node =>
  match key with
  | "name" => (Fill.string value node.name).map fun name => { node with name }
  | "variants" =>
      (Fill.list Fill.string "" value node.variants).map fun variants => { node with variants }
  | _ => (fillPosition key value node.pos).map fun pos => { node with pos }

structure ImportNode where
  pos : Position := {}
  module : String := ""
  name : String := ""
  params : Reread ParamNode := {}
  result : String := ""

def ImportNode.fill : Fill ImportNode := Fill.object fun key value node =>
  match key with
  | "module" => (Fill.string value node.module).map fun module => { node with module }
  | "name" => (Fill.string value node.name).map fun name => { node with name }
  | "params" => (Fill.list ParamNode.fill {} value node.params).map fun params =>
      { node with params }
  | "result" => (Fill.string value node.result).map fun result => { node with result }
  | _ => (fillPosition key value node.pos).map fun pos => { node with pos }

structure ProgramNode where
  name : String := ""
  records : Reread RecordNode := {}
  enums : Reread EnumNode := {}
  imports : Reread ImportNode := {}
  functions : Reread FuncNode := {}

def ProgramNode.fill : Fill ProgramNode := Fill.object fun key value node =>
  match key with
  | "name" => (Fill.string value node.name).map fun name => { node with name }
  | "records" =>
      (Fill.list RecordNode.fill {} value node.records).map fun records => { node with records }
  | "enums" => (Fill.list EnumNode.fill {} value node.enums).map fun enums => { node with enums }
  | "imports" =>
      (Fill.list ImportNode.fill {} value node.imports).map fun imports => { node with imports }
  | "functions" =>
      (Fill.list FuncNode.fill {} value node.functions).map fun functions => { node with functions }
  | _ => some node

end RecordWasm.Syntax
