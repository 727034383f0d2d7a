import RecordWasm.Proofs.Cli.Dialog
import RecordWasm.Proofs.Success

/-!
# Dialogs stay in range

What is kept between messages is `Sound`: the selection is that of a function unless there is none,
a form belongs to the selected function and exactly one of its inputs has the focus, and what a call
left behind is shown on the screen for results only.  One lemma per change of a dialog keeps it, and
no index is out of range where it holds.
-/

namespace RecordWasm.Cli

open Wasm Machine

variable {ι ε : Type} {widget : Widget ι ε} {load : Option LoadOutcome} {dialog : Dialog ι}
variable {sig : Signature}

/-- The exported functions of a module, as far as it has been loaded. -/
def loadedExports : Option LoadOutcome → List Signature
  | some (.ok (_, exports)) => exports
  | _ => []

/-- The failure that loading came to. -/
def loadFailure : Option LoadOutcome → Option Failure
  | some (.error failure) => some failure
  | _ => none

/-- A module with functions has been loaded without a failure. -/
theorem loadFailure_eq_none (hExports : loadedExports load ≠ []) : loadFailure load = none := by
  match load with
  | none => rfl
  | some (.ok _) => rfl
  | some (.error _) => exact absurd rfl hExports

/-- Inputs for the parameters of a function, one of which has the focus. -/
structure Filling (widget : Widget ι ε) (sig : Signature) (inputs : List ι)
    (focus : Nat) : Prop where
  count : inputs.length = sig.type.params.length
  focus_lt : focus < inputs.length
  focused : ∀ index input, inputs[index]? = some input →
    (widget.focused input = true ↔ index = focus)

/-- A function is selected, and there are as many inputs as it has parameters. -/
structure Callable (dialog : Dialog ι) (sig : Signature) : Prop where
  selected : dialog.exports[dialog.selected]? = some sig
  count : dialog.inputs.length = sig.type.params.length

/-- What is kept between messages. -/
structure Sound (widget : Widget ι ε) (load : Option LoadOutcome) (dialog : Dialog ι) : Prop where
  exports : dialog.exports = loadedExports load
  selected : dialog.selected = 0 ∨ dialog.selected < dialog.exports.length
  listed : dialog.screen ≠ .select → dialog.exports ≠ []
  form : dialog.screen = .input → ∃ sig, dialog.exports[dialog.selected]? = some sig ∧
    Filling widget sig dialog.inputs dialog.focus
  clean : dialog.screen ≠ .result → dialog.result = "" ∧ dialog.failure = loadFailure load

/-- A new form has the focus on its first input. -/
theorem filling_form (hSome : (Dialog.form widget sig).isEmpty = false) :
    Filling widget sig (Dialog.form widget sig) 0 where
  count := by simp [Dialog.form]
  focus_lt := by
    rw [List.isEmpty_eq_false_iff] at hSome
    exact List.length_pos_iff.2 hSome
  focused := by
    intro index input hInput
    simp only [Dialog.form, List.getElem?_map, List.getElem?_zipIdx, Option.map_map,
      Option.map_eq_some_iff, Function.comp_apply, Nat.zero_add] at hInput
    obtain ⟨type, -, rfl⟩ := hInput
    by_cases hFirst : index = 0
    · simp [hFirst, widget.focused_focus]
    · simp [hFirst, widget.focused_fresh]

variable {inputs : List ι} {focus : Nat}

/-- Messages to the inputs do not move the focus. -/
theorem Filling.map_update (hFilling : Filling widget sig inputs focus) (message : Message ε) :
    Filling widget sig (inputs.map (widget.update message)) focus where
  count := by rw [List.length_map, hFilling.count]
  focus_lt := by rw [List.length_map]; exact hFilling.focus_lt
  focused := by
    intro index input hInput
    simp only [List.getElem?_map, Option.map_eq_some_iff] at hInput
    obtain ⟨before, hBefore, rfl⟩ := hInput
    rw [widget.focused_update, hFilling.focused index before hBefore]

/-- The focus moves to another input by taking it from the one and giving it to the other. -/
theorem Filling.move (hFilling : Filling widget sig inputs focus) {next : Nat}
    (hNext : next < inputs.length) :
    Filling widget sig ((inputs.modify focus widget.blur).modify next widget.focus) next where
  count := by rw [List.length_modify, List.length_modify, hFilling.count]
  focus_lt := by rw [List.length_modify, List.length_modify]; exact hNext
  focused := by
    intro index input hInput
    simp only [List.getElem?_modify, Option.map_eq_map, Option.map_map, Option.map_eq_some_iff,
      Function.comp_apply] at hInput
    obtain ⟨before, hBefore, rfl⟩ := hInput
    by_cases hTarget : next = index
    · simp [hTarget, widget.focused_focus]
    · by_cases hSource : focus = index
      · simp [hTarget, hSource, widget.focused_blur, Ne.symm hTarget]
      · simp [hTarget, hSource, hFilling.focused index before hBefore, Ne.symm hTarget,
          Ne.symm hSource]

namespace Sound

theorem start : Sound widget none {} where
  exports := rfl
  selected := .inl rfl
  listed hScreen := absurd rfl hScreen
  form hScreen := nomatch hScreen
  clean _ := ⟨rfl, rfl⟩

theorem withInst (hSound : Sound widget load dialog) (inst : Option Instance) :
    Sound widget load { dialog with inst } where
  exports := hSound.exports
  selected := hSound.selected
  listed := hSound.listed
  form := hSound.form
  clean := hSound.clean

/-- The list of functions shows no form: the selection moves, or a form is made to be shown next. -/
theorem listing (hSound : Sound widget load dialog) (hScreen : dialog.screen = .select)
    {selected : Nat} (hSelected : selected = 0 ∨ selected < dialog.exports.length)
    (inputs : List ι) (focus : Nat) :
    Sound widget load { dialog with selected, inputs, focus } where
  exports := hSound.exports
  selected := hSelected
  listed := hSound.listed
  form hInput := by
    rw [show dialog.screen = .input from hInput] at hScreen
    cases hScreen
  clean := hSound.clean

/-- A form for the selected function is shown. -/
theorem opened (hSound : Sound widget load dialog) (hScreen : dialog.screen ≠ .result)
    (hSig : dialog.exports[dialog.selected]? = some sig)
    (hFilling : Filling widget sig inputs focus) :
    Sound widget load { dialog with inputs, focus, screen := .input } where
  exports := hSound.exports
  selected := hSound.selected
  listed _ := List.ne_nil_of_mem (List.mem_of_getElem? hSig)
  form _ := ⟨sig, hSig, hFilling⟩
  clean _ := hSound.clean hScreen

/-- The inputs of a form change. -/
theorem refilled (hSound : Sound widget load dialog)
    (hSig : dialog.exports[dialog.selected]? = some sig)
    (hFilling : Filling widget sig inputs focus) :
    Sound widget load { dialog with inputs, focus } where
  exports := hSound.exports
  selected := hSound.selected
  listed := hSound.listed
  form _ := ⟨sig, hSig, hFilling⟩
  clean := hSound.clean

/-- The form is given up. -/
theorem escaped (hSound : Sound widget load dialog) (hScreen : dialog.screen = .input) :
    Sound widget load { dialog with screen := .select, inputs := [] } where
  exports := hSound.exports
  selected := hSound.selected
  listed hSelect := absurd rfl hSelect
  form hInput := nomatch hInput
  clean _ := hSound.clean (by rw [hScreen]; decide)

/-- A result is given up; there was one only because a module has been loaded. -/
theorem dismiss (hSound : Sound widget load dialog) (hScreen : dialog.screen = .result) :
    Sound widget load dialog.dismiss where
  exports := hSound.exports
  selected := hSound.selected
  listed hSelect := absurd rfl hSelect
  form hInput := nomatch hInput
  clean _ := by
    have hListed := hSound.listed (by rw [hScreen]; decide)
    rw [hSound.exports] at hListed
    exact ⟨rfl, (loadFailure_eq_none hListed).symm⟩

/-- The outcome of a call is shown. -/
theorem deliver (hSound : Sound widget load dialog) (hListed : dialog.exports ≠ [])
    (outcome : Except Failure String) : Sound widget load (dialog.deliver outcome) := by
  cases outcome <;> exact {
    exports := hSound.exports
    selected := hSound.selected
    listed := fun _ => hListed
    form := fun hInput => nomatch hInput
    clean := fun hResult => absurd rfl hResult }

theorem showInputs (hSound : Sound widget load dialog) (message : Message ε) :
    Sound widget load (dialog.showInputs widget message) := by
  rw [Dialog.showInputs]
  split
  · rename_i hScreen
    obtain ⟨sig, hSig, hFilling⟩ := hSound.form hScreen
    exact hSound.refilled hSig (hFilling.map_update message)
  · exact hSound

/-- Nothing but the list is shown before a module has been loaded. -/
theorem unloaded (hSound : Sound widget none dialog) :
    dialog.screen = .select ∧ dialog.selected = 0 := by
  constructor
  · by_contra hScreen
    exact hSound.listed hScreen hSound.exports
  · rcases hSound.selected with hFirst | hLess
    · exact hFirst
    · rw [hSound.exports] at hLess
      exact absurd hLess (Nat.not_lt_zero _)

/-- There is a selected function if there are any. -/
theorem exists_selected (hSound : Sound widget load dialog) (hSome : dialog.exports ≠ []) :
    ∃ sig, dialog.exports[dialog.selected]? = some sig := by
  have hLess : dialog.selected < dialog.exports.length := by
    rcases hSound.selected with hFirst | hLess
    · rw [hFirst]
      exact List.length_pos_iff.2 hSome
    · exact hLess
  exact ⟨_, List.getElem?_eq_getElem hLess⟩

/-- In a form the selected function can be called. -/
theorem callable (hSound : Sound widget load dialog) (hScreen : dialog.screen = .input) :
    ∃ sig, Callable dialog sig := by
  obtain ⟨sig, hSig, hFilling⟩ := hSound.form hScreen
  exact ⟨sig, hSig, hFilling.count⟩

end Sound

/-! ## One message -/

/-- No index was out of range, what is kept holds of the dialog, and the selected function can be
called if it is to be called. -/
def Answers {κ : Type} (widget : Widget ι ε) (load : Option LoadOutcome) (call : κ)
    (answer : Except OutOfRange (Dialog ι × κ)) : Prop :=
  ∃ after command, answer = .ok (after, command) ∧ Sound widget load after ∧
    (command = call → ∃ sig, Callable after sig)

section Answers

variable {κ : Type} {call command : κ}

theorem Answers.sound {next : Dialog ι} {answer : Except OutOfRange (Dialog ι × κ)}
    (hAnswers : Answers widget load call answer) (hAnswer : answer = .ok (next, command)) :
    Sound widget load next := by
  obtain ⟨after, given, hAfter, hSound, -⟩ := hAnswers
  cases hAnswer.symm.trans hAfter
  exact hSound

theorem answers_other (hSound : Sound widget load dialog) (hOther : command ≠ call) :
    Answers widget load call (.ok (dialog, command)) :=
  ⟨dialog, command, rfl, hSound, fun hCall => absurd hCall hOther⟩

theorem answers_call (hSound : Sound widget load dialog) (hCallable : Callable dialog sig) :
    Answers widget load call (.ok (dialog, command)) :=
  ⟨dialog, command, rfl, hSound, fun _ => ⟨sig, hCallable⟩⟩

end Answers

theorem enter_answers (hSound : Sound widget load dialog) :
    Answers widget load (some .call) (dialog.enter widget) := by
  cases hScreen : dialog.screen with
  | select =>
      by_cases hNone : dialog.exports = []
      · rw [Dialog.enter, hScreen]
        simp only [hNone, List.isEmpty_nil, if_true]
        exact answers_other hSound (by decide)
      · obtain ⟨sig, hSig⟩ := hSound.exists_selected hNone
        rw [Dialog.enter_eq hScreen hSig]
        split
        · have hCount : (Dialog.form widget sig).length = sig.type.params.length := by
            simp [Dialog.form]
          exact answers_call (hSound.listing hScreen hSound.selected _ _) ⟨hSig, hCount⟩
        · rename_i hInputs
          rw [Bool.not_eq_true] at hInputs
          refine answers_other ?_ (by simp)
          exact hSound.opened (by rw [hScreen]; decide) hSig (filling_form hInputs)
  | input =>
      obtain ⟨sig, hCallable⟩ := hSound.callable hScreen
      rw [Dialog.enter, hScreen]
      exact answers_call hSound hCallable
  | result =>
      rw [Dialog.enter, hScreen]
      exact answers_other (hSound.dismiss hScreen) (by simp)

theorem tab_sound (hSound : Sound widget load dialog) (hScreen : dialog.screen = .input) :
    ∃ after, dialog.tab widget = .ok after ∧ Sound widget load after := by
  obtain ⟨sig, hSig, hFilling⟩ := hSound.form hScreen
  have hNext : (dialog.focus + 1) % dialog.inputs.length < dialog.inputs.length :=
    Nat.mod_lt _ (Nat.zero_lt_of_lt hFilling.focus_lt)
  exact ⟨_, Dialog.tab_eq hFilling.focus_lt, hSound.refilled hSig (hFilling.move hNext)⟩

/-- Every key is answered in range. -/
theorem press_answers (hSound : Sound widget load dialog) (key : Key) :
    Answers widget load (some .call) (dialog.press widget key) := by
  fun_cases Dialog.press widget dialog key
  case case1 | case3 | case4 => exact answers_other hSound (by decide)
  case case2 => exact enter_answers hSound
  case case5 hScreen | case6 hScreen =>
      have hUp : dialog.selected - 1 = 0 ∨ dialog.selected - 1 < dialog.exports.length := by
        have := hSound.selected
        omega
      exact answers_other (hSound.listing hScreen hUp _ _) (by simp)
  case case7 hScreen hLess | case9 hScreen hLess =>
      exact answers_other (hSound.listing hScreen (.inr hLess) _ _) (by simp)
  case case11 => exact answers_other (hSound.withInst none) (by simp)
  case case12 hScreen _ =>
      obtain ⟨after, hTab, hAfter⟩ := tab_sound hSound hScreen
      rw [hTab]
      exact answers_other hAfter (by simp)
  case case14 hScreen => exact answers_other (hSound.escaped hScreen) (by simp)
  case case15 hScreen => exact answers_other (hSound.dismiss hScreen) (by simp)
  case case8 | case10 | case13 | case16 => exact answers_other hSound (by simp)

/-- Every event is answered in range. -/
theorem event_answers (hSound : Sound widget load dialog) (event : ε) :
    Answers widget load .call (dialog.update widget (.event event)) := by
  rw [Dialog.update]
  split
  · exact answers_other (hSound.showInputs _) (by decide)
  · rename_i key _
    obtain ⟨after, command, hPress, hAfter, hCall⟩ := press_answers hSound key
    rw [hPress]
    cases command with
    | none => exact answers_other (hAfter.showInputs _) (by decide)
    | some command => exact ⟨after, command, rfl, hAfter, fun hCommand => hCall (by rw [hCommand])⟩

/-- A module that has been loaded is listed, and a failure to load it is shown. -/
theorem loaded_answers (hSound : Sound widget none dialog) (outcome : LoadOutcome) :
    Answers widget (some outcome) .call (dialog.update widget (.loaded outcome)) := by
  obtain ⟨hScreen, hSelected⟩ := hSound.unloaded
  have hClean := hSound.clean (by rw [hScreen]; decide)
  match outcome with
  | .error failure =>
      refine answers_other ?_ (by decide)
      exact {
        exports := hSound.exports
        selected := hSound.selected
        listed := hSound.listed
        form := hSound.form
        clean := fun _ => ⟨hClean.1, rfl⟩ }
  | .ok (loaded, exports) =>
      refine answers_other (Sound.showInputs ?_ _) (by decide)
      exact {
        exports := rfl
        selected := .inl hSelected
        listed := fun hOther => absurd hScreen hOther
        form := fun hInput => by
          rw [show dialog.screen = .input from hInput] at hScreen
          cases hScreen
        clean := fun _ => hClean }

/-- What came of a call is shown. -/
theorem called_answers (hSound : Sound widget load dialog) (hListed : dialog.exports ≠ [])
    (outcome : Except Failure String) :
    Answers widget load .call (dialog.update widget (.called outcome)) :=
  answers_other ((hSound.deliver hListed outcome).showInputs _) (by decide)

/-- What is kept by every message holds between all messages. -/
theorem Reaches.sound {command : Command} (hReaches : Reaches widget load dialog command) :
    Sound widget load dialog ∧ (command = .call → ∃ sig, Callable dialog sig) := by
  induction hReaches with
  | start => exact ⟨.start, nofun⟩
  | event _ hUpdate ih =>
      obtain ⟨_, _, hAnswer, hSound, hCall⟩ := event_answers ih.1 _
      cases hUpdate.symm.trans hAnswer
      exact ⟨hSound, hCall⟩
  | loaded _ hUpdate ih =>
      obtain ⟨_, _, hAnswer, hSound, hCall⟩ := loaded_answers ih.1 _
      cases hUpdate.symm.trans hAnswer
      exact ⟨hSound, hCall⟩
  | called _ hPerform hUpdate ih =>
      obtain ⟨sig, hCallable⟩ := ih.2 rfl
      obtain ⟨inst, _, hPerformed⟩ := Dialog.perform_eq hCallable.selected
      cases hPerform.symm.trans hPerformed
      have hListed := List.ne_nil_of_mem (List.mem_of_getElem? hCallable.selected)
      obtain ⟨_, _, hAnswer, hSound, hCall⟩ := called_answers (ih.1.withInst inst) hListed _
      cases hUpdate.symm.trans hAnswer
      exact ⟨hSound, hCall⟩

theorem readArgument_ne_count {index expected given : Nat} {type : ValType} {text : String} :
    readArgument index type text ≠ .error (.count expected given) := by
  rw [readArgument]
  cases type.numType? with
  | none => simp
  | some number => cases hWord : readWord number (Text.trim text) <;> simp [hWord, Except.mapError]

/-- Only the number of all arguments is compared with the number of the parameters. -/
theorem readArgumentsFrom_ne_count {index expected given : Nat} {types : List ValType}
    {texts : List String} : readArgumentsFrom index types texts ≠
    .error (.count expected given) := by
  fun_induction readArgumentsFrom index types texts with
  | case1 index type types text texts ih =>
      cases hFirst : readArgument index type text with
      | error cause =>
          rintro ⟨⟩
          exact readArgument_ne_count hFirst
      | ok word =>
          cases hRest : readArgumentsFrom (index + 1) types texts with
          | error cause =>
              rintro ⟨⟩
              exact ih hRest
          | ok words => nofun
  | case2 => nofun

theorem Callable.readArguments_ne_count (hCallable : Callable dialog sig) (expected given : Nat) :
    readArguments sig.type.params (dialog.inputs.map widget.text) ≠
      .error (.count expected given) := by
  rw [readArguments, if_pos (by rw [List.length_map, hCallable.count])]
  exact readArgumentsFrom_ne_count

end RecordWasm.Cli
