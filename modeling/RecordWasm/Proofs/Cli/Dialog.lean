import RecordWasm.Cli.Session

/-!
# Dialogs

A dialog is what a session shows, with the inputs of a form from a library of widgets.  It answers
messages: a key or another event of the terminal, what came of loading the module, and what came of
a call.  Lists are read by index, and an index that a list does not have ends the program.

`Session` is the dialog of a module that has been loaded, with text fields for inputs.
-/

namespace RecordWasm.Cli

open Wasm Machine

/-- An index that a list does not have. -/
structure OutOfRange where
  index : Nat
  length : Nat
  deriving DecidableEq, Repr

section Checked

variable {α : Type}

/-- The item at an index. -/
def checked (items : List α) (index : Nat) : Except OutOfRange α :=
  match items[index]? with
  | some item => .ok item
  | none => .error ⟨index, items.length⟩

/-- The items after a change of the one at an index. -/
def changed (items : List α) (index : Nat) (change : α → α) : Except OutOfRange (List α) :=
  if index < items.length then .ok (items.modify index change) else .error ⟨index, items.length⟩

theorem checked_eq {items : List α} {index : Nat} {item : α} (hItem : items[index]? = some item) :
    checked items index = .ok item := by
  rw [checked, hItem]

theorem changed_eq {items : List α} {index : Nat} {change : α → α} (hIndex : index < items.length) :
    changed items index change = .ok (items.modify index change) :=
  if_pos hIndex

end Checked

/-- What came of loading a module: the module and its exported functions, or why there is none. -/
abbrev LoadOutcome := Except Failure (Loaded × List Signature)

/-- What a dialog is told. -/
inductive Message (ε : Type) where
  | event (event : ε)
  | loaded (outcome : LoadOutcome)
  | called (outcome : Except Failure String)

/-- Inputs as a library has them, and the keys among its events.  Only `focus` and `blur` change
whether an input has the focus. -/
structure Widget (ι ε : Type) where
  key? : ε → Option Key
  fresh : Nat → ValType → ι
  focus : ι → ι
  blur : ι → ι
  update : Message ε → ι → ι
  text : ι → String
  focused : ι → Bool
  focused_fresh : ∀ index type, focused (fresh index type) = false
  focused_focus : ∀ input, focused (focus input) = true
  focused_blur : ∀ input, focused (blur input) = false
  focused_update : ∀ message input, focused (update message input) = focused input

/-- The text fields of a session. -/
def textField : Widget Field Key where
  key? := some
  fresh _ _ := {}
  focus field := { field with focused := true }
  blur field := { field with focused := false }
  update
    | .event key, field => field.press key
    | _, field => field
  text := Field.text
  focused := Field.focused
  focused_fresh _ _ := rfl
  focused_focus _ := rfl
  focused_blur _ := rfl
  focused_update
    | .event key, field => Field.focused_press field key
    | .loaded _, _ => rfl
    | .called _, _ => rfl

/-! ## Dialogs -/

structure Dialog (ι : Type) where
  loaded : Option Loaded := none
  exports : List Signature := []
  inst : Option Instance := none
  screen : Screen := .select
  selected : Nat := 0
  /-- The number of the input that has the focus. -/
  focus : Nat := 0
  inputs : List ι := []
  result : String := ""
  failure : Option Failure := none

/-- What is done before the next message. -/
inductive Command where
  | idle
  | call
  | quit
  deriving DecidableEq, Repr

namespace Dialog

variable {ι ε : Type} (widget : Widget ι ε) (dialog : Dialog ι)

/-- The inputs for a function, the first of which has the focus. -/
def form (sig : Signature) : List ι :=
  sig.type.params.zipIdx.map fun (type, index) =>
    if index = 0 then widget.focus (widget.fresh index type) else widget.fresh index type

/-- Makes the form of the selected function. -/
def prepare : Except OutOfRange (Dialog ι) := do
  let sig ← checked dialog.exports dialog.selected
  return { dialog with inputs := form widget sig, focus := 0 }

/-- Back to the list of functions. -/
def dismiss : Dialog ι := { dialog with screen := .select, result := "", failure := none }

/-- What the key for entering does. -/
def enter : Except OutOfRange (Dialog ι × Option Command) :=
  match dialog.screen with
  | .select =>
      if dialog.exports.isEmpty then .ok (dialog, some .idle)
      else do
        let dialog ← dialog.prepare widget
        if dialog.inputs.isEmpty then return (dialog, some .call)
        else return ({ dialog with screen := .input }, none)
  | .input => .ok (dialog, some .call)
  | .result => .ok (dialog.dismiss, none)

/-- Gives the focus to the next input. -/
def tab : Except OutOfRange (Dialog ι) := do
  let inputs ← changed dialog.inputs dialog.focus widget.blur
  let next := (dialog.focus + 1) % dialog.inputs.length
  let inputs ← changed inputs next widget.focus
  return { dialog with focus := next, inputs }

/-- What a key does before the inputs see it; they do not see it if there is a command. -/
def press (key : Key) : Except OutOfRange (Dialog ι × Option Command) :=
  match key, dialog.screen with
  | .interrupt, _ => .ok (dialog, some .quit)
  | .enter, _ => dialog.enter widget
  | .typed "q", .select | .typed "q", .result => .ok (dialog, some .quit)
  | .up, .select | .typed "k", .select =>
      .ok ({ dialog with selected := dialog.selected - 1 }, none)
  | .down, .select | .typed "j", .select =>
      if dialog.selected + 1 < dialog.exports.length then
        .ok ({ dialog with selected := dialog.selected + 1 }, none)
      else .ok (dialog, none)
  | .typed "r", .select => .ok ({ dialog with inst := none }, none)
  | .tab, .input =>
      if 1 < dialog.inputs.length then do return (← dialog.tab widget, none)
      else .ok (dialog, none)
  | .escape, .input => .ok ({ dialog with screen := .select, inputs := [] }, none)
  | .escape, .result => .ok (dialog.dismiss, none)
  | _, _ => .ok (dialog, none)

/-- In a form every input sees the message. -/
def showInputs (message : Message ε) : Dialog ι :=
  if dialog.screen = .input then
    { dialog with inputs := dialog.inputs.map (widget.update message) }
  else dialog

/-- Shows what came of a call. -/
def deliver (outcome : Except Failure String) : Dialog ι :=
  match outcome with
  | .ok result => { dialog with screen := .result, result, failure := none }
  | .error failure => { dialog with screen := .result, result := "", failure := some failure }

/-- Answers a message. -/
def update (message : Message ε) : Except OutOfRange (Dialog ι × Command) :=
  match message with
  | .event event =>
      match widget.key? event with
      | none => .ok (dialog.showInputs widget message, .idle)
      | some key => do
          match ← dialog.press widget key with
          | (dialog, some command) => return (dialog, command)
          | (dialog, none) => return (dialog.showInputs widget message, .idle)
  | .loaded (.error failure) => .ok ({ dialog with failure := some failure }, .idle)
  | .loaded (.ok (loaded, exports)) =>
      .ok (showInputs widget { dialog with loaded := some loaded, exports } message, .idle)
  | .called outcome => .ok ((dialog.deliver outcome).showInputs widget message, .idle)

/-- The instance that is called: the one there is, or a new one. -/
def started : Except Failure Instance :=
  match dialog.inst, dialog.loaded with
  | some inst, _ => .ok inst
  | none, some loaded => (Session.engine.start loaded).result
  | none, none => .error (.plain "module not loaded")

/-- Calls a function of an instance with the texts of the inputs. -/
def callWith (inst : Instance) (sig : Signature) : Dialog ι × Except Failure String :=
  match readArguments sig.type.params (dialog.inputs.map widget.text) with
  | .error cause => ({ dialog with inst := some inst }, .error (.plain cause.message))
  | .ok words =>
      let called := inst.call sig.name words
      ({ dialog with inst := some called.after },
        called.results.map (resultsText sig.type.results))

/-- Calls the selected function, starting an instance if there is none. -/
def perform : Except OutOfRange (Dialog ι × Except Failure String) :=
  match dialog.started with
  | .error failure => .ok (dialog, .error failure)
  | .ok inst => do
      let sig ← checked dialog.exports dialog.selected
      return dialog.callWith widget inst sig

variable {widget : Widget ι ε} {dialog : Dialog ι} {sig : Signature}

theorem prepare_eq (hSig : dialog.exports[dialog.selected]? = some sig) :
    dialog.prepare widget = .ok { dialog with inputs := form widget sig, focus := 0 } := by
  rw [prepare, checked_eq hSig]
  rfl

/-- Entering makes the form of the selected function, and calls a function without parameters. -/
theorem enter_eq (hScreen : dialog.screen = .select)
    (hSig : dialog.exports[dialog.selected]? = some sig) :
    dialog.enter widget =
      let prepared := { dialog with inputs := form widget sig, focus := 0 }
      if (form widget sig).isEmpty then .ok (prepared, some .call)
      else .ok ({ prepared with screen := .input }, none) := by
  have hSome : dialog.exports.isEmpty = false :=
    List.isEmpty_eq_false_iff.2 (List.ne_nil_of_mem (List.mem_of_getElem? hSig))
  rw [enter]
  simp only [hScreen, hSome, prepare_eq hSig, bind, Except.bind, pure, Except.pure,
    Bool.false_eq_true, if_false]

theorem tab_eq (hFocus : dialog.focus < dialog.inputs.length) :
    dialog.tab widget = .ok { dialog with
      focus := (dialog.focus + 1) % dialog.inputs.length
      inputs := (dialog.inputs.modify dialog.focus widget.blur).modify
        ((dialog.focus + 1) % dialog.inputs.length) widget.focus } := by
  have hNext := Nat.mod_lt (dialog.focus + 1) (Nat.zero_lt_of_lt hFocus)
  rw [tab, changed_eq hFocus]
  simp only [bind, Except.bind]
  rw [changed_eq (by rw [List.length_modify]; exact hNext)]
  rfl

theorem perform_error {failure : Failure} (hStarted : dialog.started = .error failure) :
    dialog.perform widget = .ok (dialog, .error failure) := by
  rw [perform, hStarted]

theorem perform_ok {inst : Instance} (hStarted : dialog.started = .ok inst)
    (hSig : dialog.exports[dialog.selected]? = some sig) :
    dialog.perform widget = .ok (dialog.callWith widget inst sig) := by
  rw [perform, hStarted]
  simp only [checked_eq hSig, bind, Except.bind, pure, Except.pure]

/-- A call of the selected function changes nothing but the instance. -/
theorem perform_eq (hSig : dialog.exports[dialog.selected]? = some sig) :
    ∃ inst outcome, dialog.perform widget = .ok ({ dialog with inst }, outcome) := by
  cases hStarted : dialog.started with
  | error failure => exact ⟨dialog.inst, _, perform_error hStarted⟩
  | ok inst =>
      rw [perform_ok hStarted hSig, callWith]
      split <;> exact ⟨_, _, rfl⟩

end Dialog

/-- The dialogs between messages.  The outcome of loading comes once, and a command is done, with
its outcome delivered, before anything else comes; nothing comes after the command to quit. -/
inductive Reaches {ι ε : Type} (widget : Widget ι ε) :
    Option LoadOutcome → Dialog ι → Command → Prop where
  | start : Reaches widget none {} .idle
  | event {load : Option LoadOutcome} {dialog after : Dialog ι} {event : ε} {command : Command} :
      Reaches widget load dialog .idle →
      dialog.update widget (.event event) = .ok (after, command) →
      Reaches widget load after command
  | loaded {dialog after : Dialog ι} {outcome : LoadOutcome} {command : Command} :
      Reaches widget none dialog .idle →
      dialog.update widget (.loaded outcome) = .ok (after, command) →
      Reaches widget (some outcome) after command
  | called {load : Option LoadOutcome} {dialog performed after : Dialog ι}
      {outcome : Except Failure String} {command : Command} :
      Reaches widget load dialog .call →
      dialog.perform widget = .ok (performed, outcome) →
      performed.update widget (.called outcome) = .ok (after, command) →
      Reaches widget load after command

end RecordWasm.Cli
