import RecordWasm.Proofs.Cli.Interaction

/-!
# Sessions as dialogs

A session answers keys like the dialog of text fields that has been told its module, with every call
waited for.  What is shown of dialogs therefore holds of sessions.
-/

namespace RecordWasm.Cli

open Wasm Machine

namespace Session

/-- A session as a dialog of text fields. -/
def dialog (session : Session) : Dialog Field where
  loaded := session.loaded
  exports := session.exports
  inst := session.inst
  screen := session.screen
  selected := session.selected
  focus := session.focus
  inputs := session.fields
  result := session.result
  failure := session.failure

@[simp] theorem dialog_screen (session : Session) : session.dialog.screen = session.screen := rfl

@[simp] theorem dialog_exports (session : Session) : session.dialog.exports = session.exports := rfl

@[simp] theorem dialog_selected (session : Session) :
    session.dialog.selected = session.selected := rfl

@[simp] theorem dialog_inputs (session : Session) : session.dialog.inputs = session.fields := rfl

/-- What came of loading the module of a session. -/
def outcome (binary : List UInt8) : LoadOutcome :=
  (engine.load binary).map fun loaded => (loaded, loaded.exports)

variable {load : Option LoadOutcome} {session : Session}

theorem dialog_form (sig : Signature) : Dialog.form textField sig = form sig := by
  apply List.map_congr_left
  rintro ⟨type, index⟩ -
  by_cases hFirst : index = 0 <;> simp [textField, hFirst]

/-- A response to a key as the answer of a dialog. -/
inductive Agrees (session : Session) : Response → Dialog Field × Option Command → Prop where
  | stay (next : Session) : Agrees session (.stay next) (next.dialog, none)
  | call (next : Session) : Agrees session (.call next) (next.dialog, some .call)
  | quit : Agrees session .quit (session.dialog, some .quit)
  | listing (hScreen : session.screen = .select) :
      Agrees session (.stay session) (session.dialog, some .idle)

theorem tab_dialog (hFocus : session.focus < session.fields.length) :
    let next := (session.focus + 1) % session.fields.length
    session.dialog.tab textField = .ok { session with
      focus := next, fields := moveFocus session.fields session.focus next }.dialog :=
  Dialog.tab_eq hFocus

theorem enter_agrees (hSound : Sound textField load session.dialog) :
    ∃ answer, session.dialog.enter textField = .ok answer ∧
      Agrees session session.enter answer := by
  fun_cases enter session
  case case1 hScreen hNone =>
      have hExports : session.exports = [] := by
        by_contra hSome
        obtain ⟨sig, hSig⟩ := hSound.exists_selected hSome
        rw [dialog_exports, dialog_selected, hNone] at hSig
        cases hSig
      refine ⟨_, ?_, .listing hScreen⟩
      simp [Dialog.enter, hScreen, hExports]
  case case2 hScreen sig hSig after hInputs =>
      refine ⟨_, ?_, .call after⟩
      rw [Dialog.enter_eq hScreen hSig, dialog_form, if_pos hInputs]
      rfl
  case case3 hScreen sig hSig after hInputs =>
      refine ⟨_, ?_, .stay { after with screen := .input }⟩
      rw [Dialog.enter_eq hScreen hSig, dialog_form, if_neg hInputs]
      rfl
  case case4 hScreen =>
      exact ⟨_, by rw [Dialog.enter, dialog_screen, hScreen], .call session⟩
  case case5 hScreen =>
      exact ⟨_, by rw [Dialog.enter, dialog_screen, hScreen]; rfl, .stay session.dismiss⟩

theorem respond_agrees (hSound : Sound textField load session.dialog) (key : Key) :
    ∃ answer, session.dialog.press textField key = .ok answer ∧
      Agrees session (session.respond key) answer := by
  unfold Dialog.press
  fun_cases respond session key
  case case2 => exact enter_agrees hSound
  case case12 hScreen hMany next =>
      obtain ⟨sig, -, hFilling⟩ := hSound.form hScreen
      refine ⟨_, ?_, .stay { session with
        focus := next, fields := moveFocus session.fields session.focus next }⟩
      simp only [dialog_screen, hScreen, dialog_inputs, hMany, if_true,
        tab_dialog hFilling.focus_lt]
      rfl
  -- what is left is decided by the key, the screen and the number of functions alone
  all_goals
    simp only [dialog_screen, dialog_exports, dialog_selected, dialog_inputs, *, if_true, if_false,
      Except.ok.injEq, exists_eq_left']
    first | exact .quit | exact .stay _

theorem showInputs_dialog (key : Key) :
    session.dialog.showInputs textField (.event key) =
      (if session.screen = .input then { session with fields := session.fields.map (·.press key) }
        else session).dialog := by
  rw [Dialog.showInputs, dialog_screen]
  split <;> rfl

/-- The response to a key as what the dialog is left with. -/
def answer (session : Session) : Response → Dialog Field × Command
  | .stay next => (next.dialog, .idle)
  | .call next => (next.dialog, .call)
  | .quit => (session.dialog, .quit)

theorem update_event (hSound : Sound textField load session.dialog) (key : Key) :
    session.dialog.update textField (.event key) = .ok (session.answer (session.press key)) := by
  obtain ⟨pressed, hPress, hAgrees⟩ := respond_agrees hSound key
  rw [Dialog.update]
  simp only [show textField.key? key = some key from rfl, hPress, bind, Except.bind, press]
  generalize session.respond key = response at hAgrees
  cases hAgrees with
  | stay next =>
      simp only [showInputs_dialog, pure, Except.pure]
      split <;> rfl
  | call next => rfl
  | quit => rfl
  | listing hScreen =>
      simp only [hScreen]
      rfl

theorem callWith_error {inst : Instance} {sig : Signature} {cause : ArgumentError}
    (hArguments : readArguments sig.type.params (session.fields.map Field.text) = .error cause) :
    session.dialog.callWith textField inst sig =
      ({ session with inst := some inst }.dialog, .error (.plain cause.message)) := by
  rw [← show textField.text = Field.text from rfl] at hArguments
  rw [Dialog.callWith, dialog_inputs, hArguments]
  rfl

theorem callWith_ok {inst : Instance} {sig : Signature} {words : List UInt64}
    (hArguments : readArguments sig.type.params (session.fields.map Field.text) = .ok words) :
    session.dialog.callWith textField inst sig =
      ({ session with inst := some (inst.call sig.name words).after }.dialog,
        (inst.call sig.name words).results.map (resultsText sig.type.results)) := by
  rw [← show textField.text = Field.text from rfl] at hArguments
  rw [Dialog.callWith, dialog_inputs, hArguments]
  rfl

theorem perform_dialog {sig : Signature} (hSig : session.exports[session.selected]? = some sig) :
    session.dialog.perform textField = .ok (session.perform.1.dialog, session.perform.2) := by
  fun_cases perform session
  case case1 hStarted => exact Dialog.perform_error hStarted
  case case2 hNone => exact absurd (hSig.symm.trans hNone) nofun
  case case3 inst hStarted left sig hSig cause hArguments =>
      rw [@Dialog.perform_ok _ _ _ session.dialog sig inst hStarted hSig,
        @callWith_error session inst sig cause hArguments]
  case case4 inst hStarted left sig hSig words hArguments called =>
      rw [@Dialog.perform_ok _ _ _ session.dialog sig inst hStarted hSig,
        @callWith_ok session inst sig words hArguments]

theorem update_called (session : Session) (outcome : Except Failure String) :
    session.dialog.update textField (.called outcome) =
      .ok ((session.deliver outcome).dialog, .idle) := by
  cases outcome <;> rfl

theorem update_loaded (binary : List UInt8) :
    ({} : Dialog Field).update textField (.loaded (outcome binary)) =
      .ok ((start binary).dialog, .idle) := by
  rw [start, outcome]
  cases engine.load binary with
  | error failure => rfl
  | ok loaded => rfl

theorem reaches_start (binary : List UInt8) :
    Reaches textField (some (outcome binary)) (start binary).dialog .idle :=
  .loaded .start (update_loaded binary)

theorem reaches_pressAndWait (hReaches : Reaches textField load session.dialog .idle) {key : Key}
    {next : Session} (hNext : session.pressAndWait key = some next) :
    Reaches textField load next.dialog .idle := by
  have hUpdate := update_event hReaches.sound.1 key
  rw [pressAndWait] at hNext
  cases hPress : session.press key with
  | quit =>
      rw [hPress] at hNext
      cases hNext
  | stay after =>
      rw [hPress] at hUpdate hNext
      cases hNext
      exact hReaches.event hUpdate
  | call pending =>
      rw [hPress] at hUpdate hNext
      cases hNext
      have hPending := hReaches.event hUpdate
      obtain ⟨sig, hCallable⟩ := hPending.sound.2 rfl
      exact hPending.called (perform_dialog hCallable.selected) (update_called _ _)

theorem reaches_foldlM {next : Session} {keys : List Key}
    (hReaches : Reaches textField load session.dialog .idle)
    (hRun : keys.foldlM pressAndWait session = some next) :
    Reaches textField load next.dialog .idle := by
  induction keys generalizing session with
  | nil =>
      cases hRun
      exact hReaches
  | cons key keys ih =>
      rw [List.foldlM_cons, Option.bind_eq_bind, Option.bind_eq_some_iff] at hRun
      obtain ⟨after, hAfter, hRest⟩ := hRun
      exact ih (reaches_pressAndWait hReaches hAfter) hRest

end Session

/-! ## In range -/

/-- What holds of a dialog between messages: what its fields say of each other, that it answers
every message without an index out of range, and that a pending call is made with as many texts as
the function has parameters. -/
structure InRange {ι ε : Type} (widget : Widget ι ε) (load : Option LoadOutcome) (dialog : Dialog ι)
    (command : Command) : Prop where
  selected : dialog.selected = 0 ∨ dialog.selected < dialog.exports.length
  form : dialog.screen = .input → ∃ sig, dialog.exports[dialog.selected]? = some sig ∧
    dialog.inputs ≠ [] ∧ dialog.inputs.length = sig.type.params.length ∧
    dialog.focus < dialog.inputs.length ∧
    ∀ index input, dialog.inputs[index]? = some input →
      (widget.focused input = true ↔ index = dialog.focus)
  answered : ∀ message, ∃ answer, dialog.update widget message = .ok answer
  performed : command = .call → (∃ answer, dialog.perform widget = .ok answer) ∧
    ∃ sig, dialog.exports[dialog.selected]? = some sig ∧ ∀ expected given,
      readArguments sig.type.params (dialog.inputs.map widget.text) ≠ .error (.count expected given)
  clean : dialog.screen = .select → ∀ loaded, load = some (.ok loaded) →
    dialog.failure = none ∧ dialog.result = ""

theorem Sound.update_answered {ι ε : Type} {widget : Widget ι ε} {load : Option LoadOutcome}
    {dialog : Dialog ι} (hSound : Sound widget load dialog) (message : Message ε) :
    ∃ answer, dialog.update widget message = .ok answer := by
  match message with
  | .event event =>
      obtain ⟨after, command, hAnswer, -⟩ := event_answers hSound event
      exact ⟨(after, command), hAnswer⟩
  | .loaded (.error _) => exact ⟨_, rfl⟩
  | .loaded (.ok _) => exact ⟨_, rfl⟩
  | .called _ => exact ⟨_, rfl⟩

/-- Whatever messages come, in whatever order, a dialog stays in range, with any library of inputs
whose focus only its own functions change.  Sessions are such dialogs. -/
theorem dialogs_stay_in_range {ι ε : Type} (widget : Widget ι ε) (load : Option LoadOutcome)
    (dialog : Dialog ι) (command : Command) (hReaches : Reaches widget load dialog command) :
    InRange widget load dialog command ∧
    ∀ (binary : List UInt8) (keys : List Key) (session : Session),
      keys.foldlM Session.pressAndWait (Session.start binary) = some session →
        Reaches textField (some (Session.outcome binary)) session.dialog .idle := by
  obtain ⟨hSound, hCall⟩ := hReaches.sound
  refine ⟨?_, fun binary _ _ hRun =>
    Session.reaches_foldlM (Session.reaches_start binary) hRun⟩
  exact {
    selected := hSound.selected
    form := fun hScreen => by
      obtain ⟨sig, hSig, hFilling⟩ := hSound.form hScreen
      exact ⟨sig, hSig, List.ne_nil_of_length_pos (Nat.zero_lt_of_lt hFilling.focus_lt),
        hFilling.count, hFilling.focus_lt, hFilling.focused⟩
    answered := hSound.update_answered
    performed := fun hPending => by
      obtain ⟨sig, hCallable⟩ := hCall hPending
      obtain ⟨_, _, hPerform⟩ := @Dialog.perform_eq _ _ widget _ _ hCallable.selected
      exact ⟨⟨_, hPerform⟩, sig, hCallable.selected, hCallable.readArguments_ne_count⟩
    clean := fun hScreen loaded hLoaded => by
      obtain ⟨hResult, hFailure⟩ := hSound.clean (by rw [hScreen]; decide)
      rw [hFailure, hLoaded]
      exact ⟨rfl, hResult⟩ }

/-- The form of a function of two parameters, with the focus on the second input. -/
theorem dialogs_stay_in_range_form :
    let sig : Signature := ⟨"add", ⟨[.i32, .i32], [.i32]⟩⟩
    let loaded : Loaded := { module := {}, bodies := [] }
    let dialog : Dialog Field :=
      { loaded := some loaded, exports := [sig], screen := .input, focus := 1
        inputs := [{}, { focused := true }] }
    Reaches textField (some (.ok (loaded, [sig]))) dialog .idle ∧
      InRange textField (some (.ok (loaded, [sig]))) dialog .idle := by
  intro sig loaded dialog
  have hLoaded : Reaches textField (some (.ok (loaded, [sig])))
      { loaded := some loaded, exports := [sig] } .idle := .loaded .start rfl
  have hForm : Reaches textField (some (.ok (loaded, [sig])))
      { loaded := some loaded, exports := [sig], screen := .input
        inputs := [{ focused := true }, {}] } .idle :=
    @Reaches.event _ _ _ _ _ _ Key.enter _ hLoaded rfl
  have hMoved : Reaches textField (some (.ok (loaded, [sig]))) dialog .idle :=
    @Reaches.event _ _ _ _ _ _ Key.tab _ hForm rfl
  exact ⟨hMoved, (dialogs_stay_in_range textField _ dialog _ hMoved).1⟩

end RecordWasm.Cli
