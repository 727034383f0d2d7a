import RecordWasm.Proofs.Cli.Sessions
import Mathlib.Data.List.Induction

/-!
# Calls that are pending

An event that asks for a call leaves it pending.  The call is made at some later time, other events
may be answered before that, and what came of it is shown later still.  A pending call carries
nothing of its own: it calls what is selected when it is made, with the texts that the inputs hold
then.  This is the call that was asked for as long as no event has changed the selection or the
form.
-/

namespace RecordWasm.Cli

open Wasm Machine

/-- A function and the texts of its arguments. -/
structure Request where
  sig : Signature
  texts : List String
  deriving DecidableEq, Repr

section Definitions

variable {ι ε : Type} (widget : Widget ι ε) (dialog : Dialog ι)

/-- An event that leaves the texts of inputs alone when it is shown to them, and when it moves the
focus. -/
structure Widget.Spares (event : ε) : Prop where
  shown : ∀ input, widget.text (widget.update (.event event) input) = widget.text input
  moved : widget.key? event = some .tab → ∀ input,
    widget.text (widget.focus input) = widget.text input ∧
    widget.text (widget.blur input) = widget.text input

namespace Dialog

/-- The call that would be made now, if a function is selected. -/
def request? : Option Request :=
  dialog.exports[dialog.selected]?.map fun sig => ⟨sig, dialog.inputs.map widget.text⟩

/-- Makes a call as requested, starting an instance if there is none. -/
def make (request : Request) : Dialog ι × Except Failure String :=
  match dialog.started with
  | .error failure => (dialog, .error failure)
  | .ok inst =>
      match readArguments request.sig.type.params request.texts with
      | .error cause => ({ dialog with inst := some inst }, .error (.plain cause.message))
      | .ok words =>
          let called := inst.call request.sig.name words
          ({ dialog with inst := some called.after },
            called.results.map (resultsText request.sig.type.results))

/-- What an event asks for: the selected function, with the texts of its form, or with none if the
function takes none. -/
inductive Asks : Request → Prop
  | form {sig : Signature} : dialog.screen = .input →
      dialog.exports[dialog.selected]? = some sig → Asks ⟨sig, dialog.inputs.map widget.text⟩
  | plain {sig : Signature} : dialog.screen = .select →
      dialog.exports[dialog.selected]? = some sig → sig.type.params = [] → Asks ⟨sig, []⟩

/-- Whether a key can change the selection, or open or give up a form. -/
def disturbs (key : Key) : Bool :=
  match dialog.screen, key with
  | .select, .up | .select, .down | .select, .typed "k" | .select, .typed "j"
  | .select, .enter | .input, .escape => true
  | _, _ => false

/-- An event that changes neither the selection nor the form of a dialog.  The key for entering is
not shown to inputs. -/
structure Undisturbed (event : ε) : Prop where
  key : ∀ key, widget.key? event = some key → dialog.disturbs key = false
  texts : dialog.screen = .input → widget.key? event ≠ some .enter → widget.Spares event

end Dialog

/-- The function of a request is called by a dialog, with the texts of the request as arguments. -/
def Request.Called (request : Request) : Prop :=
  ∃ inst words, dialog.started = .ok inst ∧
    readArguments request.sig.type.params request.texts = .ok words ∧
    dialog.perform widget = .ok
      ({ dialog with inst := some (inst.call request.sig.name words).after },
        (inst.call request.sig.name words).results.map (resultsText request.sig.type.results))

/-- A call that a dialog makes is the one requested.  The function is called if there is an
instance, or one can be started, and the texts can be read. -/
structure Fulfils (request : Request) : Prop where
  made : dialog.perform widget = .ok (dialog.make request)
  called : request.Called widget dialog ↔ (∃ inst, dialog.started = .ok inst) ∧
    ∃ words, readArguments request.sig.type.params request.texts = .ok words

/-- A dialog, what came of loading its module, the number of calls pending, and what came of calls
but is not shown yet. -/
structure Traffic (ι : Type) where
  dialog : Dialog ι := {}
  load : Option LoadOutcome := none
  pending : Nat := 0
  outcomes : List (Except Failure String) := []

inductive Event (ε : Type) where
  | terminal (event : ε)
  /-- The module has been loaded, or cannot be. -/
  | load (outcome : LoadOutcome)
  /-- A pending call is made. -/
  | perform
  /-- What came of a call is shown. -/
  | deliver (index : Nat)

namespace Traffic

variable (traffic : Traffic ι)

/-- A call has been asked for and left pending. -/
def ask (dialog : Dialog ι) : Traffic ι := { traffic with dialog, pending := traffic.pending + 1 }

/-- What an event leads to; `none` if the program ends or the event is not possible. -/
def step : Event ε → Option (Traffic ι)
  | .terminal event =>
      match traffic.dialog.update widget (.event event) with
      | .ok (dialog, .idle) => some { traffic with dialog }
      | .ok (dialog, .call) => some (traffic.ask dialog)
      | _ => none
  | .load outcome =>
      match traffic.load, traffic.dialog.update widget (.loaded outcome) with
      | none, .ok (dialog, _) => some { traffic with dialog, load := some outcome }
      | _, _ => none
  | .perform =>
      match traffic.pending, traffic.dialog.perform widget with
      | pending + 1, .ok (dialog, outcome) =>
          some { traffic with dialog, pending, outcomes := traffic.outcomes ++ [outcome] }
      | _, _ => none
  | .deliver index =>
      match traffic.outcomes[index]? with
      | none => none
      | some outcome =>
          match traffic.dialog.update widget (.called outcome) with
          | .ok (dialog, _) =>
              some { traffic with dialog, outcomes := traffic.outcomes.eraseIdx index }
          | .error _ => none

/-- What events lead to, in their order. -/
def run (events : List (Event ε)) : Option (Traffic ι) := events.foldlM (step widget) traffic

/-- No event of a run disturbs the dialog that it comes to. -/
def Quiet (events : List (Event ε)) : Prop :=
  ∀ done event rest next, events = done ++ .terminal event :: rest →
    traffic.run widget done = some next → next.dialog.Undisturbed widget event

end Traffic

end Definitions

variable {ι ε : Type} {widget : Widget ι ε} {dialog next : Dialog ι} {load : Option LoadOutcome}
variable {event : ε} {request : Request}

namespace Dialog

theorem request?_eq_some : dialog.request? widget = some request ↔
    dialog.exports[dialog.selected]? = some request.sig ∧
      dialog.inputs.map widget.text = request.texts := by
  rw [request?, Option.map_eq_some_iff]
  constructor
  · rintro ⟨sig, hSig, rfl⟩
    exact ⟨hSig, rfl⟩
  · intro hRequest
    exact ⟨request.sig, hRequest.1, by rw [hRequest.2]⟩

/-- The call that is made is always the one of the moment. -/
theorem perform_eq_make (hRequest : dialog.request? widget = some request) :
    dialog.perform widget = .ok (dialog.make request) := by
  obtain ⟨hSig, hTexts⟩ := request?_eq_some.1 hRequest
  cases hStarted : dialog.started with
  | error failure => rw [perform_error hStarted, make, hStarted]
  | ok inst =>
      rw [perform_ok hStarted hSig]
      cases hWords : readArguments request.sig.type.params request.texts <;>
        simp only [make, callWith, hStarted, hTexts, hWords]

theorem fulfils (hMade : dialog.perform widget = .ok (dialog.make request)) :
    Fulfils widget dialog request where
  made := hMade
  called := by
    constructor
    · intro hCalled
      obtain ⟨inst, words, hStarted, hRead, -⟩ := hCalled
      exact ⟨⟨inst, hStarted⟩, words, hRead⟩
    · intro hReady
      obtain ⟨⟨inst, hStarted⟩, words, hRead⟩ := hReady
      refine ⟨inst, words, hStarted, hRead, ?_⟩
      rw [hMade, make, hStarted]
      simp only [hRead]

theorem perform_of_called (hCalled : request.Called widget dialog) :
    dialog.perform widget = .ok (dialog.make request) := by
  obtain ⟨inst, words, hStarted, hRead, hPerform⟩ := hCalled
  rw [hPerform, make, hStarted]
  simp only [hRead]

theorem enter_call (hSound : Sound widget load dialog)
    (hEnter : dialog.enter widget = .ok (next, some .call)) :
    ∃ asked, next.request? widget = some asked ∧ dialog.Asks widget asked := by
  cases hScreen : dialog.screen with
  | select =>
      by_cases hNone : dialog.exports = []
      · rw [enter, hScreen] at hEnter
        simp [hNone] at hEnter
      · obtain ⟨sig, hSig⟩ := hSound.exists_selected hNone
        rw [enter_eq hScreen hSig] at hEnter
        dsimp only at hEnter
        split at hEnter
        · rename_i hForm
          cases hEnter
          have hInputs : form widget sig = [] := List.isEmpty_iff.1 hForm
          have hParams : sig.type.params = [] := by simpa [form] using hInputs
          exact ⟨⟨sig, []⟩, request?_eq_some.2 ⟨hSig, congrArg (List.map widget.text) hInputs⟩,
            .plain hScreen hSig hParams⟩
        · cases hEnter
  | input =>
      obtain ⟨sig, hSig, -⟩ := hSound.form hScreen
      rw [enter, hScreen] at hEnter
      cases hEnter
      exact ⟨_, request?_eq_some.2 ⟨hSig, rfl⟩, .form hScreen hSig⟩
  | result =>
      rw [enter, hScreen] at hEnter
      cases hEnter

theorem press_call {key : Key} (hPress : dialog.press widget key = .ok (next, some .call)) :
    key = .enter ∧ dialog.enter widget = .ok (next, some .call) := by
  revert hPress
  fun_cases press widget dialog key
  case case2 => exact fun hEnter => ⟨rfl, hEnter⟩
  case case12 =>
      cases dialog.tab widget <;> intro hTab <;> cases hTab
  all_goals
    intro hOther
    cases hOther

/-- How an event is answered: a key may give a command, and otherwise the inputs see the event. -/
theorem update_event_ok {command : Command}
    (hAnswer : dialog.update widget (.event event) = .ok (next, command)) :
    (widget.key? event = none ∧ next = dialog.showInputs widget (.event event) ∧ command = .idle) ∨
    ∃ key, widget.key? event = some key ∧ (dialog.press widget key = .ok (next, some command) ∨
      ∃ pressed, dialog.press widget key = .ok (pressed, none) ∧
        next = pressed.showInputs widget (.event event) ∧ command = .idle) := by
  rw [update] at hAnswer
  split at hAnswer
  · rename_i hKey
    cases hAnswer
    exact .inl ⟨hKey, rfl, rfl⟩
  · rename_i key hKey
    refine .inr ⟨key, hKey, ?_⟩
    cases hPress : dialog.press widget key with
    | error range =>
        rw [hPress] at hAnswer
        cases hAnswer
    | ok answer =>
        obtain ⟨pressed, given⟩ := answer
        rw [hPress] at hAnswer
        cases given <;> cases hAnswer
        · exact .inr ⟨pressed, rfl, rfl, rfl⟩
        · exact .inl rfl

/-- Only the key for entering asks for a call, that of the selected function. -/
theorem update_call (hSound : Sound widget load dialog)
    (hAnswer : dialog.update widget (.event event) = .ok (next, .call)) :
    widget.key? event = some .enter ∧
      ∃ asked, next.request? widget = some asked ∧ dialog.Asks widget asked := by
  rcases update_event_ok hAnswer with ⟨-, -, hIdle⟩ | ⟨key, hKey, hPress | ⟨_, -, -, hIdle⟩⟩
  · cases hIdle
  · obtain ⟨rfl, hEnter⟩ := press_call hPress
    exact ⟨hKey, enter_call hSound hEnter⟩
  · cases hIdle

theorem request?_perform {performed : Dialog ι} {outcome : Except Failure String}
    (hRequest : dialog.request? widget = some request)
    (hPerform : dialog.perform widget = .ok (performed, outcome)) :
    performed.request? widget = dialog.request? widget := by
  obtain ⟨inst, made, hMade⟩ := @perform_eq _ _ widget _ _ (request?_eq_some.1 hRequest).1
  cases hPerform.symm.trans hMade
  rfl

theorem request?_called {outcome : Except Failure String} {command : Command}
    (hAnswer : dialog.update widget (.called outcome) = .ok (next, command)) :
    next.request? widget = dialog.request? widget := by
  cases outcome <;> cases hAnswer <;> rfl

theorem texts_modify {inputs : List ι} {index : Nat} {change : ι → ι}
    (hChange : ∀ input, widget.text (change input) = widget.text input) :
    (inputs.modify index change).map widget.text = inputs.map widget.text := by
  apply List.ext_getElem?
  intro place
  rw [List.getElem?_map, List.getElem?_map, List.getElem?_modify]
  cases inputs[place]? with
  | none => rfl
  | some input =>
      by_cases hPlace : index = place
      · simp [hPlace, hChange]
      · simp [hPlace]

theorem request?_showInputs (hTexts : dialog.screen = .input → ∀ input,
      widget.text (widget.update (.event event) input) = widget.text input) :
    (dialog.showInputs widget (.event event)).request? widget = dialog.request? widget := by
  rw [showInputs]
  split
  · rename_i hScreen
    simp only [request?, List.map_map, Function.comp_def, hTexts hScreen]
  · rfl

/-- A key that does not disturb a dialog leaves alone what would be called, and opens no form. -/
theorem press_undisturbed (hSound : Sound widget load dialog) {key : Key} {given : Option Command}
    (hKey : widget.key? event = some key) (hQuiet : dialog.Undisturbed widget event)
    (hPress : dialog.press widget key = .ok (next, given)) :
    next.request? widget = dialog.request? widget ∧
      (given = none → next.screen = .input → dialog.screen = .input ∧ key ≠ .enter) := by
  have hCalm := hQuiet.key key hKey
  revert hPress
  fun_cases press widget dialog key
  case case2 =>
      intro hEnter
      cases hScreen : dialog.screen with
      | select => exact absurd hCalm (by simp [disturbs, hScreen])
      | input =>
          rw [enter, hScreen] at hEnter
          cases hEnter
          exact ⟨rfl, by simp⟩
      | result =>
          rw [enter, hScreen] at hEnter
          cases hEnter
          exact ⟨rfl, by simp [dismiss]⟩
  case case5 hScreen | case6 hScreen | case14 hScreen =>
      exact absurd hCalm (by simp [disturbs, hScreen])
  case case7 hScreen _ | case8 hScreen _ | case9 hScreen _ | case10 hScreen _ =>
      exact absurd hCalm (by simp [disturbs, hScreen])
  case case12 hScreen _ =>
      obtain ⟨sig, -, hFilling⟩ := hSound.form hScreen
      have hMoved := (hQuiet.texts hScreen (by simp [hKey])).moved hKey
      intro hTab
      rw [tab_eq hFilling.focus_lt] at hTab
      cases hTab
      refine ⟨?_, fun _ _ => ⟨hScreen, by simp⟩⟩
      simp only [request?, texts_modify fun input => (hMoved input).1,
        texts_modify fun input => (hMoved input).2]
  case case1 | case3 | case4 | case15 =>
      rintro ⟨⟩
      exact ⟨rfl, by simp [dismiss]⟩
  case case11 | case13 =>
      rintro ⟨⟩
      exact ⟨rfl, fun _ hScreen => ⟨hScreen, by simp⟩⟩
  case case16 =>
      rintro ⟨⟩
      exact ⟨rfl, fun _ hScreen => ⟨hScreen, by assumption⟩⟩

/-- An event that does not disturb a dialog leaves alone what would be called. -/
theorem request?_event (hSound : Sound widget load dialog) {command : Command}
    (hQuiet : dialog.Undisturbed widget event)
    (hAnswer : dialog.update widget (.event event) = .ok (next, command)) :
    next.request? widget = dialog.request? widget := by
  rcases update_event_ok hAnswer with
    ⟨hKey, rfl, -⟩ | ⟨key, hKey, hPress | ⟨pressed, hPress, rfl, -⟩⟩
  · exact request?_showInputs fun hScreen => (hQuiet.texts hScreen (by simp [hKey])).shown
  · exact (press_undisturbed hSound hKey hQuiet hPress).1
  · obtain ⟨hSame, hInput⟩ := press_undisturbed hSound hKey hQuiet hPress
    rw [← hSame]
    apply request?_showInputs
    intro hScreen
    obtain ⟨hBefore, hEnter⟩ := hInput rfl hScreen
    exact (hQuiet.texts hBefore (by simpa [hKey] using hEnter)).shown

end Dialog

/-! ## Runs -/

namespace Traffic

variable {traffic later : Traffic ι} {happening : Event ε} {events : List (Event ε)}

/-- What an event can do. -/
inductive Step (widget : Widget ι ε) (traffic : Traffic ι) : Event ε → Traffic ι → Prop
  | stay {event : ε} {dialog : Dialog ι} :
      traffic.dialog.update widget (.event event) = .ok (dialog, .idle) →
      Step widget traffic (.terminal event) { traffic with dialog }
  | call {event : ε} {dialog : Dialog ι} :
      traffic.dialog.update widget (.event event) = .ok (dialog, .call) →
      Step widget traffic (.terminal event) (traffic.ask dialog)
  | load {outcome : LoadOutcome} {dialog : Dialog ι} {command : Command} :
      traffic.load = none → traffic.dialog.update widget (.loaded outcome) = .ok (dialog, command) →
      Step widget traffic (.load outcome) { traffic with dialog, load := some outcome }
  | perform {dialog : Dialog ι} {outcome : Except Failure String} {pending : Nat} :
      traffic.pending = pending + 1 → traffic.dialog.perform widget = .ok (dialog, outcome) →
      Step widget traffic .perform
        { traffic with dialog, pending, outcomes := traffic.outcomes ++ [outcome] }
  | deliver {index : Nat} {dialog : Dialog ι} {outcome : Except Failure String}
      {command : Command} :
      traffic.outcomes[index]? = some outcome →
      traffic.dialog.update widget (.called outcome) = .ok (dialog, command) →
      Step widget traffic (.deliver index)
        { traffic with dialog, outcomes := traffic.outcomes.eraseIdx index }

theorem step_some (hStep : traffic.step widget happening = some later) :
    Step widget traffic happening later := by
  revert hStep
  fun_cases step widget traffic happening
  case case1 hAnswer =>
      rintro ⟨⟩
      exact .stay hAnswer
  case case2 hAnswer =>
      rintro ⟨⟩
      exact .call hAnswer
  case case4 hAnswer hNone =>
      rintro ⟨⟩
      exact .load hNone hAnswer
  case case6 hPerform hPending =>
      rintro ⟨⟩
      exact .perform hPending hPerform
  case case9 hOutcome _ _ hAnswer =>
      rintro ⟨⟩
      exact .deliver hOutcome hAnswer
  all_goals
    intro hNone
    cases hNone

/-- What holds at the start of a run and is kept by its events holds at the end. -/
theorem run_induction {motive : Traffic ι → Prop} (hStart : motive traffic)
    (hStep : ∀ done happening rest before after, events = done ++ happening :: rest →
      traffic.run widget done = some before → motive before → Step widget before happening after →
      motive after)
    (hRun : traffic.run widget events = some later) : motive later := by
  induction events using List.reverseRecOn generalizing later with
  | nil =>
      cases hRun
      exact hStart
  | append_singleton done happening ih =>
      rw [run, List.foldlM_append, Option.bind_eq_bind, Option.bind_eq_some_iff] at hRun
      obtain ⟨before, hDone, hLast⟩ := hRun
      rw [List.foldlM_cons, Option.bind_eq_bind, Option.bind_eq_some_iff] at hLast
      obtain ⟨after, hAfter, ⟨⟩⟩ := hLast
      have hBefore := ih (fun done' happening' rest before after hEvents =>
        hStep done' happening' (rest ++ [happening]) before after (by simp [hEvents])) hDone
      exact hStep done happening [] before later rfl hDone hBefore (step_some hAfter)

/-- What every event keeps: the dialog is in range, and nothing is underway unless there are
functions. -/
structure Steady (widget : Widget ι ε) (traffic : Traffic ι) : Prop where
  sound : Sound widget traffic.load traffic.dialog
  listed : traffic.pending ≠ 0 ∨ traffic.outcomes ≠ [] → loadedExports traffic.load ≠ []

theorem steady_start : Steady widget {} where
  sound := .start
  listed hUnderway := by
    rcases hUnderway with hPending | hOutcomes
    · exact absurd rfl hPending
    · exact absurd rfl hOutcomes

/-- A dialog that asks for a call has functions. -/
theorem Steady.exports_ne_nil (hSteady : Steady widget traffic)
    (hAnswer : traffic.dialog.update widget (.event event) = .ok (next, .call)) :
    loadedExports traffic.load ≠ [] := by
  obtain ⟨after, command, hAfter, hSound, hCall⟩ := event_answers hSteady.sound event
  cases hAnswer.symm.trans hAfter
  obtain ⟨sig, hCallable⟩ := hCall rfl
  rw [← hSound.exports]
  exact List.ne_nil_of_mem (List.mem_of_getElem? hCallable.selected)

/-- In a dialog with functions there is a call that would be made. -/
theorem exists_request (hSound : Sound widget load dialog) (hListed : loadedExports load ≠ []) :
    ∃ request, dialog.request? widget = some request := by
  rw [← hSound.exports] at hListed
  obtain ⟨sig, hSig⟩ := hSound.exists_selected hListed
  exact ⟨⟨sig, _⟩, Dialog.request?_eq_some.2 ⟨hSig, rfl⟩⟩

theorem Steady.step (hSteady : Steady widget traffic)
    (hStep : Step widget traffic happening later) :
    Steady widget later := by
  cases hStep with
  | stay hAnswer => exact ⟨(event_answers hSteady.sound _).sound hAnswer, hSteady.listed⟩
  | call hAnswer =>
      exact ⟨(event_answers hSteady.sound _).sound hAnswer, fun _ => hSteady.exports_ne_nil hAnswer⟩
  | load hNone hAnswer =>
      have hSound := hSteady.sound
      rw [hNone] at hSound
      refine ⟨(loaded_answers hSound _).sound hAnswer,
        fun hUnderway => absurd ?_ (hSteady.listed hUnderway)⟩
      rw [hNone]
      rfl
  | perform hPending hPerform =>
      have hListed := hSteady.listed (.inl (by simp [hPending]))
      obtain ⟨request, hRequest⟩ := exists_request hSteady.sound hListed
      obtain ⟨inst, made, hMade⟩ :=
        @Dialog.perform_eq _ _ widget _ _ (Dialog.request?_eq_some.1 hRequest).1
      cases hPerform.symm.trans hMade
      exact ⟨hSteady.sound.withInst inst, fun _ => hListed⟩
  | deliver hOutcome hAnswer =>
      have hListed := hSteady.listed (.inr (List.ne_nil_of_mem (List.mem_of_getElem? hOutcome)))
      refine ⟨?_, fun _ => hListed⟩
      rw [← hSteady.sound.exports] at hListed
      exact (called_answers hSteady.sound hListed _).sound hAnswer

theorem run_steady (hSteady : Steady widget traffic)
    (hRun : traffic.run widget events = some later) :
    Steady widget later :=
  run_induction hSteady (fun _ _ _ _ _ _ _ => Steady.step) hRun

/-- What came of loading a module is told once. -/
theorem load_step (hTold : traffic.load ≠ none) (hStep : Step widget traffic happening later) :
    later.load = traffic.load := by
  cases hStep with
  | load hNone => exact absurd hNone hTold
  | stay | call | perform | deliver => rfl

theorem request?_step (hSteady : Steady widget traffic) (hTold : traffic.load ≠ none)
    (hQuiet : ∀ event, happening = .terminal event → traffic.dialog.Undisturbed widget event)
    (hStep : Step widget traffic happening later) :
    later.dialog.request? widget = traffic.dialog.request? widget := by
  cases hStep with
  | stay hAnswer | call hAnswer => exact Dialog.request?_event hSteady.sound (hQuiet _ rfl) hAnswer
  | load hNone => exact absurd hNone hTold
  | perform hPending hPerform =>
      obtain ⟨request, hRequest⟩ :=
        exists_request hSteady.sound (hSteady.listed (.inl (by simp [hPending])))
      exact Dialog.request?_perform hRequest hPerform
  | deliver _ hAnswer => exact Dialog.request?_called hAnswer

theorem run_told (hTold : traffic.load ≠ none) (hRun : traffic.run widget events = some later) :
    later.load = traffic.load := by
  refine run_induction (motive := fun met => met.load = traffic.load) rfl ?_ hRun
  intro done happening rest before after _ _ hBefore hStep
  rw [← hBefore] at hTold ⊢
  exact load_step hTold hStep

/-- What would be called stays the same as long as no event disturbs it. -/
theorem run_request? (hSteady : Steady widget traffic) (hTold : traffic.load ≠ none)
    (hQuiet : traffic.Quiet widget events) (hRun : traffic.run widget events = some later) :
    later.dialog.request? widget = traffic.dialog.request? widget := by
  refine run_induction (motive := fun met =>
    met.dialog.request? widget = traffic.dialog.request? widget) rfl ?_ hRun
  intro done happening rest before after hEvents hDone hBefore hStep
  rw [← hBefore]
  apply request?_step (run_steady hSteady hDone) (by rwa [run_told hTold hDone]) _ hStep
  rintro event rfl
  exact hQuiet done event rest before hEvents hDone

end Traffic

/-! ## Sessions -/

/-- Only what is typed or taken back changes the text of a field. -/
theorem textField_spares {key : Key} (hTyped : ∀ text, key ≠ .typed text)
    (hBackspace : key ≠ .backspace) : textField.Spares key where
  shown field := by
    change (field.press key).text = field.text
    rw [Field.press]
    split
    · fun_cases Field.edit field key
      case case1 text => exact absurd rfl (hTyped text)
      case case2 => exact absurd rfl hBackspace
      case case3 hBefore | case4 hBehind => simp [Field.text, *]
      case case5 => rfl
    · rfl
  moved _ _ := ⟨rfl, rfl⟩

/-- A session that answers and calls as a dialog of text fields does. -/
structure Session.Mirrors (session : Session) (dialog : Dialog Field) : Prop where
  dialog_eq : dialog = session.dialog
  press : ∀ key, dialog.update textField (.event key) = .ok (session.answer (session.press key))
  perform : dialog.exports ≠ [] →
    dialog.perform textField = .ok (session.perform.1.dialog, session.perform.2)
  deliver : ∀ outcome,
    dialog.update textField (.called outcome) = .ok ((session.deliver outcome).dialog, .idle)

theorem Session.exists_answer (session : Session) (response : Response) :
    ∃ after : Session, (session.answer response).1 = after.dialog := by
  cases response <;> exact ⟨_, rfl⟩

namespace Traffic

/-- The traffic of a session before its first key. -/
def opened (binary : List UInt8) : Traffic Field where
  dialog := (Session.start binary).dialog
  load := some (Session.outcome binary)

/-- A session starts when its module has been loaded. -/
theorem run_load (binary : List UInt8) :
    run textField {} [.load (Session.outcome binary)] = some (opened binary) := by
  rw [run, List.foldlM_cons, step, Session.update_loaded]
  rfl

theorem steady_opened (binary : List UInt8) : Steady textField (opened binary) :=
  run_steady steady_start (run_load binary)

/-- The dialog of a session stays one of a session. -/
theorem session_step {traffic later : Traffic Field} {happening : Event Key} {session : Session}
    (hSteady : Steady textField traffic) (hTold : traffic.load ≠ none)
    (hDialog : traffic.dialog = session.dialog) (hStep : Step textField traffic happening later) :
    ∃ after : Session, later.dialog = after.dialog := by
  have hSound := hSteady.sound
  rw [hDialog] at hSound
  cases hStep with
  | stay hAnswer | call hAnswer =>
      rw [hDialog, Session.update_event hSound] at hAnswer
      obtain ⟨after, hAfter⟩ := session.exists_answer (session.press _)
      rw [Except.ok.inj hAnswer] at hAfter
      exact ⟨after, hAfter⟩
  | load hNone => exact absurd hNone hTold
  | perform hPending hPerform =>
      have hListed := hSteady.listed (.inl (by simp [hPending]))
      rw [← hSound.exports] at hListed
      obtain ⟨sig, hSig⟩ := hSound.exists_selected hListed
      rw [hDialog, Session.perform_dialog hSig] at hPerform
      cases hPerform
      exact ⟨_, rfl⟩
  | deliver _ hAnswer =>
      rw [hDialog, Session.update_called] at hAnswer
      cases hAnswer
      exact ⟨_, rfl⟩

theorem session_run {binary : List UInt8} {events : List (Event Key)} {later : Traffic Field}
    (hRun : (opened binary).run textField events = some later) :
    ∃ session : Session, session.Mirrors later.dialog := by
  have hTold : (opened binary).load ≠ none := Option.some_ne_none _
  have hDialogs : ∃ session : Session, later.dialog = session.dialog := by
    refine run_induction (motive := fun met => ∃ session : Session, met.dialog = session.dialog)
      ⟨Session.start binary, rfl⟩ ?_ hRun
    rintro done happening rest before after - hDone ⟨session, hDialog⟩ hStep
    refine session_step (run_steady (steady_opened binary) hDone) ?_ hDialog hStep
    rwa [run_told hTold hDone]
  obtain ⟨session, hDialog⟩ := hDialogs
  have hSound := (run_steady (steady_opened binary) hRun).sound
  rw [hDialog] at hSound ⊢
  refine ⟨session, rfl, Session.update_event hSound, fun hListed => ?_,
    Session.update_called session⟩
  obtain ⟨sig, hSig⟩ := hSound.exists_selected hListed
  exact Session.perform_dialog hSig

end Traffic

/-! ## Pending calls -/

/-- Only the key for entering asks for a call, of the function that is selected and with the texts
of its form.  Whatever happens before the call is made, nothing is out of range, and the call that
is made is that of the moment.  It is the one asked for if no event has moved the selection, opened
or given up a form or changed the texts of one.  This holds of dialogs with any library of inputs.
Sessions are such dialogs, in which no key but what is typed or taken back changes a text. -/
theorem pending_calls {ι ε : Type} {widget : Widget ι ε} {events : List (Event ε)}
    {traffic : Traffic ι} {event : ε} {dialog : Dialog ι}
    (hRun : Traffic.run widget {} events = some traffic)
    (hAnswer : traffic.dialog.update widget (.event event) = .ok (dialog, .call)) :
    (widget.key? event = some .enter ∧
      ∃ asked, dialog.request? widget = some asked ∧ traffic.dialog.Asks widget asked ∧
        ∀ between later, (traffic.ask dialog).run widget between = some later →
          (∀ message, ∃ answer, later.dialog.update widget message = .ok answer) ∧
          (∃ current, later.dialog.request? widget = some current ∧
            Fulfils widget later.dialog current) ∧
          ((traffic.ask dialog).Quiet widget between → Fulfils widget later.dialog asked)) ∧
    (∀ binary, Traffic.run textField {} [.load (Session.outcome binary)] =
        some (Traffic.opened binary) ∧
      ∀ others later, (Traffic.opened binary).run textField others = some later →
        ∃ session : Session, session.Mirrors later.dialog) ∧
    ∀ key : Key, (∀ text, key ≠ .typed text) → key ≠ .backspace → textField.Spares key := by
  refine ⟨?_, fun binary => ⟨Traffic.run_load binary, fun _ _ => Traffic.session_run⟩,
    fun _ => textField_spares⟩
  have hSteady := Traffic.run_steady Traffic.steady_start hRun
  have hListed := hSteady.exports_ne_nil hAnswer
  obtain ⟨hKey, asked, hAsked, hAsks⟩ := Dialog.update_call hSteady.sound hAnswer
  refine ⟨hKey, asked, hAsked, hAsks, ?_⟩
  intro between later hBetween
  have hTold : (traffic.ask dialog).load ≠ none := by
    intro hNone
    rw [show traffic.load = none from hNone] at hListed
    exact hListed rfl
  have hPending := hSteady.step (.call hAnswer)
  have hLater := Traffic.run_steady hPending hBetween
  have hFunctions : loadedExports later.load ≠ [] := by
    rwa [Traffic.run_told hTold hBetween]
  obtain ⟨current, hCurrent⟩ := Traffic.exists_request hLater.sound hFunctions
  refine ⟨hLater.sound.update_answered,
    ⟨current, hCurrent, Dialog.fulfils (Dialog.perform_eq_make hCurrent)⟩, ?_⟩
  intro hQuiet
  apply Dialog.fulfils
  apply Dialog.perform_eq_make
  rw [Traffic.run_request? hPending hTold hQuiet hBetween]
  exact hAsked

/-- A session starts out with the functions that its module exports, in the order of their names. -/
theorem Session.start_eq {binary : List UInt8} {listed : List Signature}
    (hListed : (engine.load binary).toOption.map
      (fun loaded => loaded.module.exports.filterMap loaded.signature?) = some listed)
    (hSorted : listed.Pairwise fun first second => first.name ≤ second.name) :
    start binary = { loaded := (engine.load binary).toOption, exports := listed } := by
  rw [start]
  cases hLoad : engine.load binary with
  | error failure =>
      rw [hLoad] at hListed
      cases hListed
  | ok loaded =>
      rw [hLoad] at hListed
      simp only [Except.toOption, Option.map_some, Option.some.injEq] at hListed ⊢
      rw [Loaded.exports, hListed, List.mergeSort_of_pairwise]
      simpa using hSorted

/-- A module whose functions "a" and "b" give 1 and 2. -/
def twoConstants : List UInt8 :=
  [0x00, 0x61, 0x73, 0x6D, 0x01, 0x00, 0x00, 0x00,
   0x01, 0x05, 0x01, 0x60, 0x00, 0x01, 0x7F,
   0x03, 0x03, 0x02, 0x00, 0x00,
   0x07, 0x09, 0x02, 0x01, 0x61, 0x00, 0x00, 0x01, 0x62, 0x00, 0x01,
   0x0A, 0x0B, 0x02, 0x04, 0x00, 0x41, 0x01, 0x0B, 0x04, 0x00, 0x41, 0x02, 0x0B]

/-- The session that lists these two functions. -/
def twoListed : Session :=
  { loaded := (Session.engine.load twoConstants).toOption
    exports := [⟨"a", ⟨[], [.i32]⟩⟩, ⟨"b", ⟨[], [.i32]⟩⟩] }

/-- A dialog that shows the session, with calls pending. -/
def twoTraffic (pending : Nat) : Traffic Field where
  dialog := twoListed.dialog
  load := some (Session.outcome twoConstants)
  pending := pending

theorem run_twoConstants :
    Traffic.run textField {} [.load (Session.outcome twoConstants)] = some (twoTraffic 0) := by
  have hStart : Session.start twoConstants = twoListed :=
    Session.start_eq (by decide +kernel) (by decide +kernel)
  rw [Traffic.run_load, Traffic.opened, hStart]
  rfl

/-- A new instance is asked for in front of the call, which is still the one of "a". -/
theorem pending_calls_undisturbed :
    Traffic.run textField {} [.load (Session.outcome twoConstants)] = some (twoTraffic 0) ∧
      twoListed.dialog.update textField (.event .enter) = .ok (twoListed.dialog, .call) ∧
      (twoTraffic 1).run textField [.terminal (.typed "r")] = some (twoTraffic 1) ∧
      Fulfils textField twoListed.dialog ⟨⟨"a", ⟨[], [.i32]⟩⟩, []⟩ := by
  have hAnswer : twoListed.dialog.update textField (.event .enter) =
      .ok (twoListed.dialog, .call) := rfl
  have hBetween : (twoTraffic 1).run textField [.terminal (.typed "r")] = some (twoTraffic 1) := rfl
  have hQuiet : (twoTraffic 1).Quiet textField [.terminal (.typed "r")] := by
    intro done event rest next hEvents hDone
    cases done with
    | nil =>
        cases hEvents
        cases hDone
        refine ⟨?_, nofun⟩
        rintro _ ⟨⟩
        rfl
    | cons event done => simp at hEvents
  obtain ⟨⟨-, asked, hAsked, -, hLater⟩, -⟩ := pending_calls run_twoConstants hAnswer
  cases hAsked
  exact ⟨run_twoConstants, hAnswer, hBetween, (hLater _ _ hBetween).2.2 hQuiet⟩

/-- If the selection moves before the call of "a" is made, "b" is called instead, though "a" could
be. -/
theorem pending_call_strays :
    ¬ ∀ (events between : List (Event Key)) (traffic later : Traffic Field) (event : Key)
        (dialog : Dialog Field) (asked : Request),
      Traffic.run textField {} events = some traffic →
      traffic.dialog.update textField (.event event) = .ok (dialog, .call) →
      dialog.request? textField = some asked →
      (traffic.ask dialog).run textField between = some later →
      (∃ inst, later.dialog.started = .ok inst) →
      (∃ words, readArguments asked.sig.type.params asked.texts = .ok words) →
      asked.Called textField later.dialog := by
  intro hClaim
  obtain ⟨inst, hStarted, -⟩ : ∃ inst,
      ({ twoListed with selected := 1 } : Session).dialog.started = .ok inst ∧ true = true :=
    ok_of_any (by decide +kernel)
  have hCalled := hClaim [.load (Session.outcome twoConstants)] [.terminal .down] (twoTraffic 0)
    { twoTraffic 1 with dialog := ({ twoListed with selected := 1 } : Session).dialog } .enter
    twoListed.dialog ⟨⟨"a", ⟨[], [.i32]⟩⟩, []⟩ run_twoConstants rfl rfl rfl ⟨inst, hStarted⟩
    ⟨[], rfl⟩
  have hResult := congrArg (fun made => made.toOption.map (·.2.toOption))
    (Dialog.perform_of_called hCalled)
  exact absurd hResult (by decide +kernel)

end RecordWasm.Cli
