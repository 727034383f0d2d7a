import RecordWasm.Text.Quoted

/-!
# Failures

A failure is a plain message or a report.  A report says in which phase of the work it arose and of
which kind it is, and may name the declaration, the path inside it, the place in the source text and
the offending value; another failure may stand behind it as its cause.
-/

namespace RecordWasm

/-- The phase of the work in which a failure arose. -/
structure Phase where
  name : String
  deriving DecidableEq, Repr

namespace Phase

def layout : Phase := ⟨"layout"⟩
def alloc : Phase := ⟨"alloc"⟩
def codegen : Phase := ⟨"codegen"⟩
def assemble : Phase := ⟨"assemble"⟩
def decode : Phase := ⟨"decode"⟩
def runtime : Phase := ⟨"runtime"⟩

end Phase

/-- The kind of a failure. -/
structure Kind where
  name : String
  deriving DecidableEq, Repr

namespace Kind

def cyclicInheritance : Kind := ⟨"cyclic_inheritance"⟩
def unknownParent : Kind := ⟨"unknown_parent"⟩
def duplicateField : Kind := ⟨"duplicate_field"⟩
def duplicateType : Kind := ⟨"duplicate_type"⟩
def unsupportedFieldType : Kind := ⟨"unsupported_field_type"⟩
def invalidConfig : Kind := ⟨"invalid_config"⟩
def unsupported : Kind := ⟨"unsupported"⟩
def breakOutsideLoop : Kind := ⟨"break_outside_loop"⟩
def continueOutsideLoop : Kind := ⟨"continue_outside_loop"⟩
def unknownIdentifier : Kind := ⟨"unknown_identifier"⟩
def unknownFunction : Kind := ⟨"unknown_function"⟩
def unknownType : Kind := ⟨"unknown_type"⟩
def unknownField : Kind := ⟨"unknown_field"⟩
def missingField : Kind := ⟨"missing_field"⟩
def typeMismatch : Kind := ⟨"type_mismatch"⟩
def arityMismatch : Kind := ⟨"arity_mismatch"⟩
def missingBody : Kind := ⟨"missing_body"⟩
def duplicateExport : Kind := ⟨"duplicate_export"⟩
def invalidModule : Kind := ⟨"invalid_module"⟩
def invalidData : Kind := ⟨"invalid_data"⟩
def invalidInput : Kind := ⟨"invalid_input"⟩
def notFound : Kind := ⟨"not_found"⟩
def instantiation : Kind := ⟨"instantiation"⟩
def trap : Kind := ⟨"trap"⟩

end Kind

/-- A place in a source text, counted from one.  Without a positive line it is unknown. -/
structure Position where
  line : Int := 0
  column : Int := 0
  deriving DecidableEq, Repr

namespace Position

def known (position : Position) : Bool := 0 < position.line

def lineColumn (position : Position) : String := s!"{position.line}:{position.column}"

def text (position : Position) : String := if position.known then position.lineColumn else "-"

end Position

/-- What a failure says about itself. -/
structure Report where
  phase : Phase
  kind : Kind
  decl : String := ""
  path : List String := []
  pos : Position := {}
  detail : String := ""
  value : Option String := none
  deriving DecidableEq, Repr

/-- Something in front of a text, unless the text is empty. -/
def lead (intro text : String) : String := if text = "" then "" else intro ++ text

/-- The report as text, without its cause. -/
def Report.text (report : Report) : String :=
  s!"[{report.phase.name}] {report.kind.name}" ++ lead " in " report.decl ++
  (if report.path.isEmpty then "" else " at " ++ ".".intercalate report.path) ++
  (if report.pos.known then s!" ({report.pos.lineColumn})" else "") ++
  lead ": " report.detail

inductive Failure where
  | plain (message : String)
  | coded (report : Report) (cause : Option Failure)

namespace Failure

/-- The message, with the chain of causes at its end. -/
def message : Failure → String
  | plain message => message
  | coded report none => report.text
  | coded report (some cause) => s!"{report.text} (caused by: {cause.message})"

def cause? : Failure → Option Failure
  | plain _ => none
  | coded _ cause => cause

/-- Whether the failure, or one behind it, is of a phase and kind. -/
def isOf (phase : Phase) (kind : Kind) : Failure → Bool
  | plain _ => false
  | coded report none => report.phase == phase && report.kind == kind
  | coded report (some cause) =>
      (report.phase == phase && report.kind == kind) || cause.isOf phase kind

/-- Attributes a report to a declaration, unless it names one already. -/
def within (decl : String) : Failure → Failure
  | plain message => plain message
  | coded report cause =>
      coded (if report.decl = "" then { report with decl := decl } else report) cause

end Failure

namespace Report

def failure (report : Report) : Failure := .coded report none

def because (report : Report) (cause : Failure) : Failure := .coded report (some cause)

/-- A bare report of a phase and kind. -/
def bare (phase : Phase) (kind : Kind) : Report := { phase, kind }

/-- Something the phase cannot deal with. -/
def unsupported (phase : Phase) (construct : String) : Report :=
  { phase, kind := .unsupported, detail := construct, value := some construct }

def notFound (phase : Phase) (what name : String) : Report :=
  { phase, kind := .notFound, detail := s!"{what} {Text.quoted name} not found",
    value := some name }

def invalidInput (phase : Phase) (detail : String) : Report :=
  { phase, kind := .invalidInput, detail }

def invalidData (phase : Phase) (path : List String) (detail : String) : Report :=
  { phase, kind := .invalidData, path, detail }

def instantiation : Report :=
  { phase := .runtime, kind := .instantiation, detail := "instantiate module" }

/-- A call of an exported function that trapped. -/
def trap (name : String) : Report :=
  { phase := .runtime, kind := .trap, detail := s!"call {Text.quoted name} trapped",
    value := some name }

end Report

/-- The failures of several independent pieces of work, in their order. -/
abbrev Failures := List Failure

/-- The messages of all failures on one line. -/
def Failures.message (failures : Failures) : String :=
  "; ".intercalate (failures.map Failure.message)

end RecordWasm
