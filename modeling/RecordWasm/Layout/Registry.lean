import RecordWasm.Layout.Record
import RecordWasm.Graph
import RecordWasm.Syntax.Tree

/-!
# Layouts of all records of a program

Records are laid out in the order of declaration, but each behind its parent, which overtakes the
records in between if it is declared later.  The first thing found wrong is the only one reported.
-/

namespace RecordWasm.Layout

open Syntax

/-- The layouts of all records, parents before children. -/
structure Registry where
  layouts : List Record := []
  deriving DecidableEq, Repr

namespace Registry

def get? (registry : Registry) (name : String) : Option Record :=
  registry.layouts.find? fun record => record.name == name

def contains (registry : Registry) (name : String) : Bool := (registry.get? name).isSome

/-- The names of all records, parents before children. -/
def names (registry : Registry) : List String := registry.layouts.map Record.name

/-- The chain of registered records from `name` on, of at most `count` members. -/
def chain (registry : Registry) : (count : Nat) → (name : String) → List String
  | 0, _ => []
  | count + 1, name =>
      if name = "" then []
      else
        match registry.get? name with
        | none => []
        | some record => name :: chain registry count record.parent

/-- A record followed by its parent, that one's parent and so on. -/
def ancestors (registry : Registry) (name : String) : List String :=
  registry.chain (registry.layouts.length + 1) name

/-- Whether `ancestor` is met on the way up from `name`, within `count` steps.  The name counts even
if it is not registered. -/
def reaches (registry : Registry) (ancestor : String) : (count : Nat) → (name : String) → Bool
  | 0, _ => false
  | count + 1, name =>
      if name = "" then false
      else if name = ancestor then true
      else
        match registry.get? name with
        | none => false
        | some record => reaches registry ancestor count record.parent

/-- Whether a record has `ancestor` above it. -/
def descends (registry : Registry) (record : Record) (ancestor : String) : Bool :=
  registry.reaches ancestor (registry.layouts.length + 1) record.parent

end Registry

/-- Why records cannot be laid out. -/
inductive LayoutError where
  | duplicateType (record : RecordDecl)
  | unknownParent (record : RecordDecl)
  | unregisteredParent (record : RecordDecl)
  | cyclic (first : RecordDecl) (names : List String)
  /-- The records cannot be ordered, for some other reason. -/
  | unordered (cause : Graph.SortError)
  | duplicateField (record : RecordDecl) (field : FieldDecl)
  | inheritedField (record : RecordDecl) (field : FieldDecl)
  | unsupportedField (record : RecordDecl) (field : FieldDecl)

namespace LayoutError

def failure : LayoutError → Failure
  | duplicateType record =>
      Report.failure
        { phase := .layout, kind := .duplicateType, decl := record.name, pos := record.pos,
          detail := s!"record {record.name} declared more than once" }
  | unknownParent record =>
      Report.failure
        { phase := .layout, kind := .unknownParent, decl := record.name, pos := record.pos,
          value := some record.parent, detail := s!"parent {record.parent} is not declared" }
  | unregisteredParent record =>
      Report.failure
        { phase := .layout, kind := .unknownParent, decl := record.name, pos := record.pos,
          detail := s!"parent {record.parent} is not registered" }
  | cyclic first names =>
      Report.because
        { phase := .layout, kind := .cyclicInheritance, decl := first.name, pos := first.pos,
          path := names }
        (.plain (Graph.SortError.cycle names).message)
  | unordered cause =>
      Report.because { phase := .layout, kind := .invalidData, detail := "order records" }
        (.plain cause.message)
  | duplicateField record field =>
      Report.failure
        { phase := .layout, kind := .duplicateField, decl := record.name, pos := field.pos,
          path := [record.name, field.name], detail := "field declared twice" }
  | inheritedField record field =>
      Report.failure
        { phase := .layout, kind := .duplicateField, decl := record.name, pos := field.pos,
          path := [record.name, field.name],
          detail := s!"field already inherited from {record.parent}" }
  | unsupportedField record field =>
      Report.failure
        { phase := .layout, kind := .unsupportedFieldType, decl := record.name, pos := field.pos,
          path := [record.name, field.name], value := some field.type.text,
          detail := s!"type {field.type.text} has no field representation" }

end LayoutError

/-- Places one field behind the fields already placed, with the offset where free space starts and
the largest alignment so far. -/
def placeField (decl : RecordDecl) (inherited : Nat) (placed : List Field × UInt32 × UInt32)
    (field : FieldDecl) : Except LayoutError (List Field × UInt32 × UInt32) :=
  let (fields, free, align) := placed
  match fields.findIdx? fun earlier => earlier.name == field.name with
  | some index =>
      .error (if index < inherited then .inheritedField decl field else .duplicateField decl field)
  | none =>
      match FieldType.ofTy? field.type with
      | none => .error (.unsupportedField decl field)
      | some type =>
          let offset := alignTo free type.align
          .ok (fields ++ [⟨field.name, type, offset⟩], offset + type.size, max align type.align)

/-- The parent's fields, the offset behind them and their alignment. -/
def inheritedFields (registry : Registry) (decl : RecordDecl) :
    Except LayoutError (List Field × UInt32 × UInt32) :=
  if decl.parent = "" then .ok ([], 0, 1)
  else
    match registry.get? decl.parent with
    | none => .error (.unregisteredParent decl)
    | some parent => .ok (parent.fields, parent.fieldsEnd, parent.align)

/-- The layout of a record whose parent is registered. -/
def layoutOf (registry : Registry) (decl : RecordDecl) : Except LayoutError Record := do
  let start ← inheritedFields registry decl
  let inherited := start.1.length
  let (fields, free, align) ← decl.fields.foldlM (placeField decl inherited) start
  return {
    name := decl.name
    parent := decl.parent
    fields
    size := alignTo free align
    align
    inherited }

/-- The first record whose name an earlier one has. -/
def firstDuplicate? : (seen : List String) → List RecordDecl → Option RecordDecl
  | _, [] => none
  | seen, decl :: rest =>
      if decl.name ∈ seen then some decl else firstDuplicate? (decl.name :: seen) rest

/-- The graph in which a record depends on its parent. -/
def inheritance (decls : List RecordDecl) : Graph :=
  let nodes := decls.foldl (fun graph decl => graph.addNode decl.name) {}
  decls.foldl (fun graph decl =>
    if decl.parent = "" then graph else graph.addDep decl.name decl.parent) nodes

/-- The failure to order the records, told about the record it concerns. -/
def orderError (decls : List RecordDecl) (cause : Graph.SortError) : LayoutError :=
  let declOf (name : String) : RecordDecl :=
    (decls.find? fun decl => decl.name == name).getD { name, fields := [] }
  match cause with
  | .missing node _ => .unknownParent (declOf node)
  | .cycle names => .cyclic (declOf (names.headD "")) names
  | .other _ => .unordered cause

/-- Lays out records in the order of their names. -/
def layoutAll (decls : List RecordDecl) (order : List String) : Except LayoutError Registry :=
  order.foldlM (fun registry name =>
    match decls.find? fun decl => decl.name == name with
    | none => .ok registry
    | some decl => do
        let record ← layoutOf registry decl
        return ⟨registry.layouts ++ [record]⟩) {}

/-- Lays out all records of a program. -/
def compute (decls : List RecordDecl) : Except LayoutError Registry :=
  match firstDuplicate? [] decls with
  | some decl => .error (.duplicateType decl)
  | none =>
      match (inheritance decls).sort with
      | .error cause => .error (orderError decls cause)
      | .ok order => layoutAll decls order

end RecordWasm.Layout
