import RecordWasm.Machine.Code

/-!
# Reading nested code

Code that opens and closes its own frames is read as the same steps wherever it stands.  `Reads`
says so, and has one rule for every way in which such code is put together.
-/

namespace RecordWasm.Machine

open Wasm

variable {types : List FuncType}

/-- Operations that are performed in place: they neither open, close or leave a frame nor call. -/
def isPlain : Opcode → Bool
  | .block | .loop | .ifThen | .otherwise | .close => false
  | .br | .brIf | .ret | .call | .unreachable => false
  | _ => true

/-- The step that an operation is read as, whatever frames are open. -/
def stepOf? : Opcode → Immediate → Option Step
  | .br, .branch label => some (.br label.toNat)
  | .brIf, .branch label => some (.brIf label.toNat)
  | .ret, _ => some .ret
  | .call, .call function => some (.call function.toNat)
  | .unreachable, _ => some .unreachable
  | opcode, immediate => if isPlain opcode then some (.plain opcode immediate) else none

/-- What an operation opens. -/
def opens? : Opcode → Option Step.Opening
  | .block => some .block
  | .loop => some .loop
  | .ifThen => some .yes
  | _ => none

/-- Code is read as steps, whatever stands around it. -/
def Reads (types : List FuncType) (code : List Instr) (steps : List Step) : Prop :=
  ∀ (frames : List Step.Frame) (done : List Step) (rest : List Instr),
    Step.ofInstrsFrom? types frames done (code ++ rest) =
      Step.ofInstrsFrom? types frames (steps.reverse ++ done) rest

namespace Reads

variable {code left right body yes no : List Instr}
variable {steps leftSteps rightSteps yesSteps noSteps : List Step}

theorem nil : Reads types [] [] := fun _ _ _ => rfl

theorem append (hLeft : Reads types left leftSteps) (hRight : Reads types right rightSteps) :
    Reads types (left ++ right) (leftSteps ++ rightSteps) := by
  intro frames done rest
  rw [List.append_assoc, hLeft, hRight, List.reverse_append, List.append_assoc]

/-- An operation that leaves the frames as they are is one step. -/
theorem single {opcode : Opcode} {immediate : Immediate} {step : Step}
    (hStep : stepOf? opcode immediate = some step) :
    Reads types [opcode.with immediate] [step] := by
  intro frames done rest
  rw [List.singleton_append, Step.ofInstrsFrom?.eq_def]
  simp only [Opcode.with, Opcode.ofByte?_byte]
  cases opcode with
  | br | brIf | call =>
      cases immediate <;> cases hStep
      rfl
  | block | loop | ifThen | otherwise | close => cases hStep
  | _ =>
      cases hStep
      rfl

theorem plain {opcode : Opcode} {immediate : Immediate} (hPlain : isPlain opcode = true) :
    Reads types [opcode.with immediate] [.plain opcode immediate] := by
  refine single ?_
  cases opcode <;> first | rfl | cases hPlain

theorem br (label : UInt32) : Reads types [.br label] [.br label.toNat] := single rfl

theorem brIf (label : UInt32) : Reads types [.brIf label] [.brIf label.toNat] := single rfl

theorem call (function : UInt32) : Reads types [.call function] [.call function.toNat] := single rfl

theorem ret : Reads types [Opcode.ret.instr] [.ret] := @single types .ret .none _ rfl

theorem unreachable : Reads types [Opcode.unreachable.instr] [.unreachable] :=
  @single types .unreachable .none _ rfl

section Frames

variable {type : Int32} {arity : Arity} {frames : List Step.Frame} {done : List Step}
variable {rest : List Instr}

/-- Behind an operation that opens a frame, the steps are those inside it. -/
theorem enter {opcode : Opcode} {opening : Step.Opening} (hOpens : opens? opcode = some opening)
    (hArity : Arity.ofBlockType? types type = some arity) :
    Step.ofInstrsFrom? types frames done (opcode.with (.block type) :: rest) =
      Step.ofInstrsFrom? types (⟨opening, arity, done⟩ :: frames) [] rest := by
  rw [Step.ofInstrsFrom?.eq_def]
  simp only [Opcode.with, Opcode.ofByte?_byte]
  cases opcode <;> cases hOpens <;> simp only [hArity, Option.bind_eq_bind, Option.bind_some]

/-- The second arm of a conditional stands where the first one stood. -/
theorem otherwise {before : List Step} :
    Step.ofInstrsFrom? types (⟨.yes, arity, before⟩ :: frames) done
      (Opcode.otherwise.instr :: rest) =
      Step.ofInstrsFrom? types (⟨.no done.reverse, arity, before⟩ :: frames) [] rest := by
  rw [Step.ofInstrsFrom?.eq_def]
  simp only [Opcode.instr, Opcode.ofByte?_byte]

/-- Closing a frame turns the steps inside it into one step. -/
theorem close (frame : Step.Frame) (frames : List Step.Frame) (done : List Step)
    (rest : List Instr) :
    Step.ofInstrsFrom? types (frame :: frames) done (.close :: rest) =
      Step.ofInstrsFrom? types frames (frame.close done.reverse :: frame.before) rest := by
  rw [Step.ofInstrsFrom?.eq_def]
  simp only [Instr.close, Opcode.instr, Opcode.ofByte?_byte]

/-- Code in a frame is the step that the frame becomes. -/
theorem framed (opcode : Opcode) {opening : Step.Opening} (hOpens : opens? opcode = some opening)
    (hArity : Arity.ofBlockType? types type = some arity) (hBody : Reads types body steps) :
    Reads types (opcode.with (.block type) :: body ++ [.close])
      [Step.Frame.close ⟨opening, arity, []⟩ steps] := by
  intro frames done rest
  rw [List.cons_append, List.cons_append, enter hOpens hArity, List.append_assoc, hBody,
    List.singleton_append, close, List.append_nil, List.reverse_reverse]
  rfl

theorem block (hArity : Arity.ofBlockType? types type = some arity)
    (hBody : Reads types body steps) :
    Reads types (.block type :: body ++ [.close]) [.block arity steps] :=
      framed .block rfl hArity hBody

theorem loop (hArity : Arity.ofBlockType? types type = some arity)
    (hBody : Reads types body steps) :
    Reads types (.loop type :: body ++ [.close]) [.loop arity steps] :=
      framed .loop rfl hArity hBody

theorem ifThen (hArity : Arity.ofBlockType? types type = some arity)
    (hYes : Reads types yes yesSteps) :
    Reads types (.ifThen type :: yes ++ [.close]) [.choose arity yesSteps []] :=
  framed .ifThen rfl hArity hYes

theorem ifElse (hArity : Arity.ofBlockType? types type = some arity)
    (hYes : Reads types yes yesSteps) (hNo : Reads types no noSteps) :
    Reads types (.ifThen type :: yes ++ Opcode.otherwise.instr :: no ++ [.close])
      [.choose arity yesSteps noSteps] := by
  intro frames done rest
  have hEnter := @enter types type arity frames done
    (yes ++ Opcode.otherwise.instr :: (no ++ .close :: rest)) .ifThen .yes rfl hArity
  rw [hYes, otherwise, hNo, close] at hEnter
  simpa [Instr.ifThen, Step.Frame.close] using hEnter

end Frames

/-- A body that is closed at its end is read as the steps of what stands before. -/
theorem ofInstrs? (hCode : Reads types code steps) :
    Step.ofInstrs? types (code ++ [.close]) = some steps := by
  rw [Step.ofInstrs?, hCode, Step.ofInstrsFrom?.eq_def]
  simp only [Instr.close, Opcode.instr, Opcode.ofByte?_byte]
  simp

/-- Code is read in one way only. -/
theorem unique {others : List Step} (hCode : Reads types code steps)
    (hOthers : Reads types code others) : steps = others :=
  Option.some.inj (hCode.ofInstrs?.symm.trans hOthers.ofInstrs?)

end Reads

/-- A block without a result takes and leaves nothing. -/
@[simp] theorem Arity.ofBlockType?_void : Arity.ofBlockType? types voidBlock = some ⟨0, 0⟩ := rfl

/-- A block with a result leaves one value. -/
@[simp] theorem Arity.ofBlockType?_number (type : NumType) :
    Arity.ofBlockType? types type.blockType = some ⟨0, 1⟩ := by
  cases type <;> rfl

end RecordWasm.Machine
