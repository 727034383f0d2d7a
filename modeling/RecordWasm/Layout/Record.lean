import RecordWasm.Layout.FieldType

/-!
# Layouts of records

A record starts with the fields of its parent, at the same offsets, so that code for the parent
works on it unchanged.
-/

namespace RecordWasm.Layout

structure Field where
  name : String
  type : FieldType
  offset : UInt32
  deriving DecidableEq, Repr

/-- The offset behind a field. -/
def Field.stop (field : Field) : UInt32 := field.offset + field.type.size

/-- The layout of one record; the first `inherited` fields are the parent's. -/
structure Record where
  name : String
  parent : String
  fields : List Field
  size : UInt32
  align : UInt32
  inherited : Nat
  deriving DecidableEq, Repr

namespace Record

def field? (record : Record) (name : String) : Option Field :=
  record.fields.find? fun field => field.name == name

/-- The fields that the record declares itself. -/
def ownFields (record : Record) : List Field := record.fields.drop record.inherited

/-- The fields that hold addresses. -/
def references (record : Record) : List Field :=
  record.fields.filter fun field => field.type.isReference

/-- The offset behind the last field. -/
def fieldsEnd (record : Record) : UInt32 :=
  match record.fields.getLast? with
  | some field => field.stop
  | none => 0

end Record

/-- The 32-bit FNV-1a hash of the bytes of a name. -/
def typeId (name : String) : UInt32 :=
  name.toUTF8.toList.foldl (fun hash byte => (hash ^^^ byte.toUInt32) * 16777619) 2166136261

end RecordWasm.Layout
