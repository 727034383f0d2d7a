import RecordWasm.Cli.Arguments
import RecordWasm.Cli.Field
import RecordWasm.Machine.Instance

/-!
# Interactive sessions

A session lists the exported functions of a module; one is selected, its arguments are typed into a
form, and the result of the call is shown.  `press` answers one key.  A call is not made by the key
itself: the key leaves it pending, `perform` makes it in the session as it is then, and `deliver`
shows what came of it.
-/

namespace RecordWasm.Cli

open Machine

inductive Screen where
  | select
  | input
  | result
  deriving DecidableEq, Repr

structure Session where
  loaded : Option Loaded := none
  exports : List Signature := []
  inst : Option Instance := none
  screen : Screen := .select
  selected : Nat := 0
  /-- The number of the field that has the focus. -/
  focus : Nat := 0
  fields : List Field := []
  result : String := ""
  failure : Option Failure := none

/-- What a key leads to. -/
inductive Response where
  | stay (session : Session)
  | call (session : Session)
  | quit

namespace Session

/-- The engine of a session offers no functions to import. -/
def engine : Engine := {}

/-- A session over the bytes of a module. -/
def start (binary : List UInt8) : Session :=
  match engine.load binary with
  | .ok loaded => { loaded := some loaded, exports := loaded.exports }
  | .error failure => { failure := some failure }

/-- An empty form for a function: one field for each parameter, the first of which has the focus. -/
def form (sig : Signature) : List Field :=
  sig.type.params.zipIdx.map fun (_, index) => { focused := index == 0 }

/-- Moves the focus from one field to another. -/
def moveFocus (fields : List Field) (source target : Nat) : List Field :=
  (fields.modify source fun field => { field with focused := false }).modify target
    fun field => { field with focused := true }

/-- Back to the list of functions. -/
def dismiss (session : Session) : Session :=
  { session with screen := .select, result := "", failure := none }

/-- What the key for entering does. -/
def enter (session : Session) : Response :=
  match session.screen with
  | .select =>
      match session.exports[session.selected]? with
      | none => .stay session
      | some sig =>
          let session := { session with fields := form sig, focus := 0 }
          if session.fields.isEmpty then .call session
          else .stay { session with screen := .input }
  | .input => .call session
  | .result => .stay session.dismiss

/-- What a key does before the fields see it. -/
def respond (session : Session) (key : Key) : Response :=
  match key, session.screen with
  | .interrupt, _ => .quit
  | .enter, _ => session.enter
  | .typed "q", .select | .typed "q", .result => .quit
  | .up, .select | .typed "k", .select => .stay { session with selected := session.selected - 1 }
  | .down, .select | .typed "j", .select =>
      if session.selected + 1 < session.exports.length then
        .stay { session with selected := session.selected + 1 }
      else .stay session
  | .typed "r", .select => .stay { session with inst := none }
  | .tab, .input =>
      if 1 < session.fields.length then
        let next := (session.focus + 1) % session.fields.length
        .stay { session with focus := next
                             fields := moveFocus session.fields session.focus next }
      else .stay session
  | .escape, .input => .stay { session with screen := .select, fields := [] }
  | .escape, .result => .stay session.dismiss
  | _, _ => .stay session

/-- Answers a key.  In a form every field sees the key afterwards. -/
def press (session : Session) (key : Key) : Response :=
  match session.respond key with
  | .stay session =>
      if session.screen = .input then
        .stay { session with fields := session.fields.map (·.press key) }
      else .stay session
  | other => other

/-- Calls the selected function with the texts of the form, starting an instance if there is
none. -/
def perform (session : Session) : Session × Except Failure String :=
  let started : Except Failure Instance :=
    match session.inst, session.loaded with
    | some inst, _ => .ok inst
    | none, some loaded => (engine.start loaded).result
    | none, none => .error (.plain "module not loaded")
  match started with
  | .error failure => (session, .error failure)
  | .ok inst =>
      let session := { session with inst := some inst }
      match session.exports[session.selected]? with
      | none => (session, .error (.plain "no function selected"))
      | some sig =>
          match readArguments sig.type.params (session.fields.map Field.text) with
          | .error cause => (session, .error (.plain cause.message))
          | .ok words =>
              let called := inst.call sig.name words
              ({ session with inst := some called.after },
                called.results.map (resultsText sig.type.results))

/-- Shows what came of a call. -/
def deliver (session : Session) (outcome : Except Failure String) : Session :=
  match outcome with
  | .ok result => { session with screen := .result, result, failure := none }
  | .error failure => { session with screen := .result, result := "", failure := some failure }

/-- Answers a key and waits for the call that it leaves pending; `none` if the session ends. -/
def pressAndWait (session : Session) (key : Key) : Option Session :=
  match session.press key with
  | .quit => none
  | .stay session => some session
  | .call session =>
      let (session, outcome) := session.perform
      some (session.deliver outcome)

end Session

end RecordWasm.Cli
