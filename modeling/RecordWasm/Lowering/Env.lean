import RecordWasm.Heap
import RecordWasm.Layout.Registry

/-!
# What functions refer to

The environment is shared by all functions of a program: the layouts of its records, the heap, and
the functions, methods and constructors that may be called, each with its index in the module.  A
later entry hides an earlier one of the same name.
-/

namespace RecordWasm.Lowering

open Syntax Layout Wasm

/-- The number type that represents values of a type; `void` has none. -/
def numType? : Ty → Option NumType
  | .void => none
  | .i64 => some .i64
  | .f32 => some .f32
  | .f64 => some .f64
  | _ => some .i32

/-- Whether values of two types are represented alike. -/
def sameRepr (left right : Ty) : Bool := numType? left == numType? right

/-- The block type of a block that yields a type. -/
def blockType (type : Ty) : Int32 :=
  match numType? type with
  | none => voidBlock
  | some number => number.blockType

/-- The signature of a function; values of type `void` are not passed. -/
def signature (params : List Ty) (result : Ty) : FuncType where
  params := params.filterMap fun type => (numType? type).map NumType.valType
  results := (numType? result).toList.map NumType.valType

/-- A function that can be called.  The parameters of a method start with its receiver. -/
structure FuncRef where
  name : String
  params : List Ty
  result : Ty
  index : UInt32
  deriving DecidableEq, Repr

def FuncRef.type (ref : FuncRef) : FuncType := signature ref.params ref.result

/-- The types of all parameters of a function, the receiver of a method first. -/
def paramTypes (decl : FuncDecl) : List Ty :=
  (if decl.isMethod then [Ty.record decl.receiver] else []) ++ decl.params.map Param.type

def FuncRef.ofDecl (decl : FuncDecl) (index : UInt32) : FuncRef :=
  ⟨decl.name, paramTypes decl, decl.result, index⟩

def FuncRef.ofImport (decl : ImportDecl) (index : UInt32) : FuncRef :=
  ⟨decl.name, decl.params.map Param.type, decl.result, index⟩

structure Env where
  registry : Registry
  heap : Heap.Handle
  /-- The records whose declared field types are known. -/
  records : List RecordDecl
  enums : List EnumDecl
  funcs : List FuncRef := []
  methods : List (String × FuncRef) := []
  constructors : List (String × FuncRef) := []

namespace Env

def ofProgram (program : Program) (registry : Registry) (heap : Heap.Handle) : Env :=
  { registry, heap, records := program.records, enums := program.enums }

def addFunction (env : Env) (ref : FuncRef) : Env := { env with funcs := ref :: env.funcs }

def addMethod (env : Env) (record : String) (ref : FuncRef) : Env :=
  { env with methods := (record, ref) :: env.methods }

def addConstructor (env : Env) (record : String) (ref : FuncRef) : Env :=
  { env with constructors := (record, ref) :: env.constructors }

/-- A free function or import. -/
def function? (env : Env) (name : String) : Option FuncRef :=
  env.funcs.find? fun ref => ref.name == name

/-- A method of a record or of its nearest ancestor that has one of the name. -/
def method? (env : Env) (record name : String) : Option FuncRef :=
  (env.registry.ancestors record).findSome? fun owner =>
    (env.methods.find? fun entry => entry.1 == owner && entry.2.name == name).map Prod.snd

def constructor? (env : Env) (record : String) : Option FuncRef :=
  (env.constructors.find? fun entry => entry.1 == record).map Prod.snd

/-- The declared type of a field, inherited or not. -/
def fieldType? (env : Env) (record field : String) : Option Ty :=
  (env.registry.ancestors record).findSome? fun owner => do
    let decl ← env.records.find? fun decl => decl.name == owner
    let found ← decl.fields.find? fun candidate => candidate.name == field
    return found.type

/-- An enumeration; of two with one name the later counts. -/
def enum? (env : Env) (name : String) : Option EnumDecl :=
  env.enums.reverse.find? fun decl => decl.name == name

/-- The number of a variant. -/
def variant? (env : Env) (enum variant : String) : Option Nat :=
  env.enum? enum >>= fun decl => decl.variantIndex? variant

end Env

/-- The type of a field whose declaration is not known. -/
def storedType : FieldType → Ty
  | .i64 => .i64
  | .f32 => .f32
  | .f64 => .f64
  | .bool => .bool
  | _ => .i32

/-- The declared type of a field, or what its stored form tells. -/
def Env.typeOfField (env : Env) (record : String) (field : Field) : Ty :=
  (env.fieldType? record field.name).getD (storedType field.type)

/-- What the names of constructors begin with. -/
def constructorMark : String := "new_"

def constructorName (record : String) : String := constructorMark ++ record

/-- The constructor of a record: it takes all fields, inherited ones first, and returns the address
of the new record. -/
def Env.constructorRef (env : Env) (record : Record) (index : UInt32) : FuncRef where
  name := constructorName record.name
  params := record.fields.map (env.typeOfField record.name)
  result := .record record.name
  index := index

/-- Registers all that a program declares under consecutive indices: imports, free functions,
methods by record, and then the constructors of the records that have a layout. -/
def Env.registerAll (env : Env) (program : Program) (first : Nat) : Env :=
  let entries : List (UInt32 → Env → Env) :=
    program.imports.map (fun decl index env => env.addFunction (.ofImport decl index)) ++
    program.functions.map (fun decl index env => env.addFunction (.ofDecl decl index)) ++
    program.records.flatMap (fun record => record.methods.map fun decl index env =>
      env.addMethod record.name (.ofDecl decl index)) ++
    env.registry.layouts.map (fun record index env =>
      env.addConstructor record.name (env.constructorRef record index))
  entries.zipIdx.foldl (fun env (register, offset) => register (first + offset).toUInt32 env) env

end RecordWasm.Lowering
