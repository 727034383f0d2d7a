import RecordWasm.Syntax.Tree

/-!
# Complete trees

A tree is complete if nothing is missing in it but what may be left out: the value of a return, the
alternative of a branch, the tail of a block, the body of a function value, and the operands of
quoting and evaluating.
-/

namespace RecordWasm.Syntax

mutual

/-- A statement that is there, with all its parts. -/
inductive Stmt.Complete : Stmt → Prop where
  | declare {pos : Position} {name : String} {type : Ty} {value : Expr} :
      Expr.Complete value → Stmt.Complete (.declare pos name type value)
  | assign {pos : Position} {target value : Expr} :
      Expr.Complete target → Expr.Complete value → Stmt.Complete (.assign pos target value)
  | result {pos : Position} {value : Expr} :
      (value ≠ .missing → Expr.Complete value) → Stmt.Complete (.result pos value)
  | eval {pos : Position} {value : Expr} :
      Expr.Complete value → Stmt.Complete (.eval pos value)
  | whileLoop {pos : Position} {cond : Expr} {body : List Stmt} :
      Expr.Complete cond → (∀ stmt ∈ body, Stmt.Complete stmt) →
      Stmt.Complete (.whileLoop pos cond body)
  | forRange {pos : Position} {var : String} {start stop : Expr} {body : List Stmt} :
      Expr.Complete start → Expr.Complete stop → (∀ stmt ∈ body, Stmt.Complete stmt) →
      Stmt.Complete (.forRange pos var start stop body)
  | forever {pos : Position} {body : List Stmt} :
      (∀ stmt ∈ body, Stmt.Complete stmt) → Stmt.Complete (.forever pos body)
  | leave {pos : Position} : Stmt.Complete (.leave pos)
  | next {pos : Position} : Stmt.Complete (.next pos)

/-- An expression that is there, with all its parts. -/
inductive Expr.Complete : Expr → Prop where
  | int {tag : Tag} {value : Int64} : Expr.Complete (.int tag value)
  | float {tag : Tag} {bits : UInt64} : Expr.Complete (.float tag bits)
  | bool {tag : Tag} {value : Bool} : Expr.Complete (.bool tag value)
  | string {tag : Tag} {value : String} : Expr.Complete (.string tag value)
  | char {tag : Tag} {value : Char} : Expr.Complete (.char tag value)
  | null {tag : Tag} : Expr.Complete (.null tag)
  | ident {tag : Tag} {name : String} : Expr.Complete (.ident tag name)
  | binary {tag : Tag} {op : String} {left right : Expr} :
      Expr.Complete left → Expr.Complete right → Expr.Complete (.binary tag op left right)
  | unary {tag : Tag} {op : String} {operand : Expr} :
      Expr.Complete operand → Expr.Complete (.unary tag op operand)
  | call {tag : Tag} {function : String} {args : List Expr} :
      (∀ arg ∈ args, Expr.Complete arg) → Expr.Complete (.call tag function args)
  | methodCall {tag : Tag} {receiver : Expr} {method : String} {args : List Expr} :
      Expr.Complete receiver → (∀ arg ∈ args, Expr.Complete arg) →
      Expr.Complete (.methodCall tag receiver method args)
  | branch {tag : Tag} {cond body otherwise : Expr} :
      Expr.Complete cond → Expr.Complete body → (otherwise ≠ .missing → Expr.Complete otherwise) →
      Expr.Complete (.branch tag cond body otherwise)
  | block {tag : Tag} {stmts : List Stmt} {tail : Expr} :
      (∀ stmt ∈ stmts, Stmt.Complete stmt) → (tail ≠ .missing → Expr.Complete tail) →
      Expr.Complete (.block tag stmts tail)
  | cases {tag : Tag} {scrutinee : Expr} {arms : List Arm} :
      Expr.Complete scrutinee → (∀ arm ∈ arms, Arm.Complete arm) →
      Expr.Complete (.cases tag scrutinee arms)
  | member {tag : Tag} {subject : Expr} {field : String} :
      Expr.Complete subject → Expr.Complete (.member tag subject field)
  | construct {tag : Tag} {record : String} {fields : List FieldInit} :
      (∀ field ∈ fields, FieldInit.Complete field) → Expr.Complete (.construct tag record fields)
  | variant {tag : Tag} {enum variant : String} : Expr.Complete (.variant tag enum variant)
  | lambda {tag : Tag} {params : List Param} {body : Expr} :
      (body ≠ .missing → Expr.Complete body) → Expr.Complete (.lambda tag params body)
  | cast {tag : Tag} {operand : Expr} {target : Ty} :
      Expr.Complete operand → Expr.Complete (.cast tag operand target)
  | attempt {tag : Tag} {operand : Expr} :
      Expr.Complete operand → Expr.Complete (.attempt tag operand)
  | quote {tag : Tag} {operand : Expr} :
      (operand ≠ .missing → Expr.Complete operand) → Expr.Complete (.quote tag operand)
  | eval {tag : Tag} {operand : Expr} :
      (operand ≠ .missing → Expr.Complete operand) → Expr.Complete (.eval tag operand)
  | reflect {tag : Tag} {record : String} : Expr.Complete (.reflect tag record)
  | macroCall {tag : Tag} {name : String} {args : List Expr} :
      (∀ arg ∈ args, Expr.Complete arg) → Expr.Complete (.macroCall tag name args)
  | list {tag : Tag} {elems : List Expr} :
      (∀ elem ∈ elems, Expr.Complete elem) → Expr.Complete (.list tag elems)
  | tuple {tag : Tag} {elems : List Expr} :
      (∀ elem ∈ elems, Expr.Complete elem) → Expr.Complete (.tuple tag elems)

/-- A pattern that is there, with all its parts. -/
inductive Pattern.Complete : Pattern → Prop where
  | literal {pos : Position} {value : Expr} :
      Expr.Complete value → Pattern.Complete (.literal pos value)
  | wildcard {pos : Position} : Pattern.Complete (.wildcard pos)
  | bind {pos : Position} {name : String} : Pattern.Complete (.bind pos name)
  | constructor {pos : Position} {name : String} {args : List Pattern} :
      (∀ arg ∈ args, Pattern.Complete arg) → Pattern.Complete (.constructor pos name args)

inductive Arm.Complete : Arm → Prop where
  | mk {pos : Position} {pattern : Pattern} {body : Expr} :
      Pattern.Complete pattern → Expr.Complete body → Arm.Complete (.mk pos pattern body)

inductive FieldInit.Complete : FieldInit → Prop where
  | mk {pos : Position} {name : String} {value : Expr} :
      Expr.Complete value → FieldInit.Complete (.mk pos name value)

end

/-- A function whose statements are all there. -/
def FuncDecl.Complete (function : FuncDecl) : Prop := ∀ stmt ∈ function.body, stmt.Complete

/-- A program whose functions and methods are all there. -/
structure Program.Complete (program : Program) : Prop where
  functions : ∀ function ∈ program.functions, function.Complete
  methods : ∀ record ∈ program.records, ∀ method ∈ record.methods, method.Complete

end RecordWasm.Syntax
