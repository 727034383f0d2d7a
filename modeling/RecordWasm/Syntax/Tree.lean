import RecordWasm.Syntax.Ty
import RecordWasm.Failure

/-!
# Syntax trees

A program is a list of declarations whose types have been checked.  Expressions carry the type that
was assigned to them, `void` where none was.  A tree built by hand may have holes: `missing` stands
for a statement, expression or pattern that is not there, and also for the parts that are optional,
such as the value of a bare return.
-/

namespace RecordWasm.Syntax

/-- What every expression carries: its place and its assigned type. -/
structure Tag where
  pos : Position := {}
  type : Ty := .void
  deriving DecidableEq, Repr

structure Param where
  pos : Position := {}
  name : String
  type : Ty
  deriving DecidableEq, Repr

mutual

inductive Stmt where
  | missing
  | declare (pos : Position) (name : String) (type : Ty) (value : Expr)
  | assign (pos : Position) (target value : Expr)
  | result (pos : Position) (value : Expr)
  | eval (pos : Position) (value : Expr)
  | whileLoop (pos : Position) (cond : Expr) (body : List Stmt)
  | forRange (pos : Position) (var : String) (start stop : Expr) (body : List Stmt)
  | forever (pos : Position) (body : List Stmt)
  | leave (pos : Position)
  | next (pos : Position)

inductive Expr where
  | missing
  | int (tag : Tag) (value : Int64)
  | float (tag : Tag) (bits : UInt64)
  | bool (tag : Tag) (value : Bool)
  | string (tag : Tag) (value : String)
  | char (tag : Tag) (value : Char)
  | null (tag : Tag)
  | ident (tag : Tag) (name : String)
  | binary (tag : Tag) (op : String) (left right : Expr)
  | unary (tag : Tag) (op : String) (operand : Expr)
  | call (tag : Tag) (function : String) (args : List Expr)
  | methodCall (tag : Tag) (receiver : Expr) (method : String) (args : List Expr)
  | branch (tag : Tag) (cond body otherwise : Expr)
  | block (tag : Tag) (stmts : List Stmt) (tail : Expr)
  | cases (tag : Tag) (scrutinee : Expr) (arms : List Arm)
  | member (tag : Tag) (subject : Expr) (field : String)
  | construct (tag : Tag) (record : String) (fields : List FieldInit)
  | variant (tag : Tag) (enum variant : String)
  | lambda (tag : Tag) (params : List Param) (body : Expr)
  | cast (tag : Tag) (operand : Expr) (target : Ty)
  | attempt (tag : Tag) (operand : Expr)
  | quote (tag : Tag) (operand : Expr)
  | eval (tag : Tag) (operand : Expr)
  | reflect (tag : Tag) (record : String)
  | macroCall (tag : Tag) (name : String) (args : List Expr)
  | list (tag : Tag) (elems : List Expr)
  | tuple (tag : Tag) (elems : List Expr)

inductive Pattern where
  | missing
  | literal (pos : Position) (value : Expr)
  | wildcard (pos : Position)
  | bind (pos : Position) (name : String)
  | constructor (pos : Position) (name : String) (args : List Pattern)

inductive Arm where
  | mk (pos : Position) (pattern : Pattern) (body : Expr)

inductive FieldInit where
  | mk (pos : Position) (name : String) (value : Expr)

end

namespace FieldInit

def pos : FieldInit → Position
  | mk pos _ _ => pos

def name : FieldInit → String
  | mk _ name _ => name

def value : FieldInit → Expr
  | mk _ _ value => value

end FieldInit

namespace Arm

def pos : Arm → Position
  | mk pos _ _ => pos

def pattern : Arm → Pattern
  | mk _ pattern _ => pattern

def body : Arm → Expr
  | mk _ _ body => body

end Arm

/-- The place of a statement; a hole has none. -/
def Stmt.pos : Stmt → Position
  | missing => {}
  | declare pos .. | assign pos .. | result pos _ | eval pos _ | whileLoop pos .. => pos
  | forRange pos .. | forever pos _ | leave pos | next pos => pos

/-- The place and assigned type of an expression; a hole has neither. -/
def Expr.tag : Expr → Tag
  | missing => {}
  | int tag _ | float tag _ | bool tag _ | string tag _ | char tag _ | null tag => tag
  | ident tag _ | binary tag .. | unary tag .. | call tag .. | methodCall tag .. => tag
  | branch tag .. | block tag .. | cases tag .. | member tag .. | construct tag .. => tag
  | variant tag .. | lambda tag .. | cast tag .. | attempt tag _ | quote tag _ | eval tag _ => tag
  | reflect tag _ | macroCall tag .. | list tag _ | tuple tag _ => tag

def Expr.pos (expr : Expr) : Position := expr.tag.pos

/-- The type that was assigned to an expression. -/
def Expr.assigned (expr : Expr) : Ty := expr.tag.type

def Expr.isMissing : Expr → Bool
  | missing => true
  | _ => false

def Pattern.pos : Pattern → Position
  | missing => {}
  | literal pos _ | wildcard pos | bind pos _ | constructor pos .. => pos

structure FieldDecl where
  pos : Position := {}
  name : String
  type : Ty
  deriving DecidableEq, Repr

/-- A free function, or a method if it has a receiver. -/
structure FuncDecl where
  pos : Position := {}
  name : String
  receiver : String := ""
  params : List Param
  result : Ty
  body : List Stmt

structure RecordDecl where
  pos : Position := {}
  name : String
  parent : String := ""
  fields : List FieldDecl
  methods : List FuncDecl := []

/-- An enumeration; its variants are numbered from zero. -/
structure EnumDecl where
  pos : Position := {}
  name : String
  variants : List String
  deriving DecidableEq, Repr

/-- A function that the host provides. -/
structure ImportDecl where
  pos : Position := {}
  module : String
  name : String
  params : List Param
  result : Ty
  deriving DecidableEq, Repr

structure Program where
  name : String := ""
  records : List RecordDecl := []
  enums : List EnumDecl := []
  imports : List ImportDecl := []
  functions : List FuncDecl := []

namespace FuncDecl

def isMethod (function : FuncDecl) : Bool := function.receiver ≠ ""

/-- The name of a function, with its receiver in front if it has one. -/
def qualifiedName (function : FuncDecl) : String :=
  if function.isMethod then function.receiver ++ "." ++ function.name else function.name

end FuncDecl

/-- The number of a variant. -/
def EnumDecl.variantIndex? (decl : EnumDecl) (variant : String) : Option Nat :=
  decl.variants.idxOf? variant

/-- The first record of a name. -/
def Program.record? (program : Program) (name : String) : Option RecordDecl :=
  program.records.find? fun decl => decl.name == name

/-- The first enumeration of a name. -/
def Program.enum? (program : Program) (name : String) : Option EnumDecl :=
  program.enums.find? fun decl => decl.name == name

end RecordWasm.Syntax
