import RecordWasm.Proofs.Validation.Checker
import Mathlib.Tactic.Common

/-!
# Typing rules

`Types` says that a piece of code takes operands and leaves others wherever it stands, be the code
around it reached or not.  There is one rule for every instruction and one for every way to put code
together; the algorithm itself is opened here and nowhere else.
-/

namespace RecordWasm.Validation

open Wasm

/-- The operands of a frame stand for a stack of types, latest first.  In code that is never reached
the operands may run out before the types. -/
inductive Stands (unreachable : Bool) : List Operand → List ValType → Prop where
  | empty : Stands unreachable [] []
  | anything {stack : List ValType} : unreachable = true → Stands unreachable [] stack
  | cons {operand : Operand} {type : ValType} {operands : List Operand} {stack : List ValType} :
      operand = none ∨ operand = some type → Stands unreachable operands stack →
      Stands unreachable (operand :: operands) (type :: stack)

/-- A checker has the given frames open, up to whether the innermost is reached; below that frame
are the operands `below`, and in it the operands stand for `stack`. -/
def Checker.At (checker : Checker) (frames : List Frame) (below : List Operand)
    (stack : List ValType) : Prop :=
  ∃ unreachable inner outer above, frames = inner :: outer ∧ inner.height = below.length ∧
    checker = ⟨above ++ below, { inner with unreachable } :: outer⟩ ∧ Stands unreachable above stack

namespace Checker.At

variable {checker : Checker} {frames : List Frame} {below : List Operand} {stack : List ValType}
  {type : ValType}

theorem push (hAt : checker.At frames below stack) (type : ValType) :
    (checker.push (some type)).At frames below (type :: stack) := by
  obtain ⟨unreachable, inner, outer, above, rfl, hHeight, rfl, hStands⟩ := hAt
  exact ⟨unreachable, inner, outer, some type :: above, rfl, hHeight, rfl, .cons (.inr rfl) hStands⟩

theorem pushAll (hAt : checker.At frames below stack) (types : List ValType) :
    (checker.pushAll types).At frames below (types.reverse ++ stack) := by
  obtain ⟨unreachable, inner, outer, above, rfl, hHeight, rfl, hStands⟩ := hAt
  refine ⟨unreachable, inner, outer, types.reverse.map some ++ above, rfl, hHeight, ?_, ?_⟩
  · simp [Checker.pushAll]
  · generalize types.reverse = more
    induction more with
    | nil => exact hStands
    | cons type rest ih => exact .cons (.inr rfl) ih

theorem pop (hAt : checker.At frames below (type :: stack)) :
    ∃ operand after, checker.pop? = some (operand, after) ∧
      (operand = none ∨ operand = some type) ∧ after.At frames below stack := by
  obtain ⟨unreachable, inner, outer, above, rfl, hHeight, rfl, hStands⟩ := hAt
  cases hStands with
  | anything hDry =>
      subst hDry
      refine ⟨none, _, ?_, .inl rfl, true, inner, outer, [], rfl, hHeight, rfl, .anything rfl⟩
      simp [pop?, hHeight]
  | @cons operand _ operands _ hOperand hRest =>
      refine ⟨operand, ⟨operands ++ below, _⟩, ?_, hOperand, unreachable, inner, outer,
        operands, rfl, hHeight, rfl, hRest⟩
      have hMore : (operand :: operands ++ below).length ≠ inner.height := by
        rw [List.length_append, List.length_cons, hHeight]
        omega
      simp only [pop?]
      rw [if_neg hMore]
      rfl

theorem take (hAt : checker.At frames below (type :: stack)) :
    ∃ after, checker.take? type = some after ∧ after.At frames below stack := by
  obtain ⟨operand, after, hPop, hOperand, hAfter⟩ := hAt.pop
  exact ⟨after, by simp [take?, hPop, hOperand], hAfter⟩

theorem takeDown {types : List ValType} (hAt : checker.At frames below (types ++ stack)) :
    ∃ after, checker.takeDown? types = some after ∧ after.At frames below stack := by
  induction types generalizing checker with
  | nil => exact ⟨checker, rfl, hAt⟩
  | cons type rest ih =>
      obtain ⟨middle, hTake, hMiddle⟩ := hAt.take
      obtain ⟨after, hRest, hAfter⟩ := ih hMiddle
      exact ⟨after, by simp [takeDown?, hTake, hRest], hAfter⟩

theorem takeAll {types : List ValType} (hAt : checker.At frames below (types.reverse ++ stack)) :
    ∃ after, checker.takeAll? types = some after ∧ after.At frames below stack :=
  hAt.takeDown

/-- Behind a jump the operands stand for anything. -/
theorem stop (hAt : checker.At frames below stack) (other : List ValType) :
    ∃ after, checker.stop? = some after ∧ after.At frames below other := by
  obtain ⟨unreachable, inner, outer, above, rfl, hHeight, rfl, -⟩ := hAt
  exact ⟨_, rfl, true, inner, outer, [], rfl, hHeight, by simp [hHeight], .anything rfl⟩

/-- Opening a frame, the operands of the outer ones stay. -/
theorem enter (checker : Checker) (opcode : Opcode) (leaves : List ValType) :
    (checker.enter opcode [] leaves).At
      (⟨opcode, [], leaves, checker.operands.length, false⟩ :: checker.frames)
        checker.operands [] :=
  ⟨false, _, _, [], rfl, rfl, rfl, .empty⟩

/-- Closing a frame gives back what was there before it was opened. -/
theorem leave {outer : Checker} {frame : Frame}
    (hAt : checker.At (frame :: outer.frames) outer.operands frame.leaves.reverse) :
    ∃ unreachable, checker.leave? = some ({ frame with unreachable }, outer) := by
  rw [← List.append_nil frame.leaves.reverse] at hAt
  obtain ⟨after, hTake, hAfter⟩ := hAt.takeAll
  obtain ⟨unreachable, inner, frames, above, hFrames, -, rfl, -⟩ := hAt
  obtain ⟨flag, same, others, rest, hSame, hHeight, rfl, hStands⟩ := hAfter
  cases hFrames
  cases hSame
  have hNone : rest = [] := by cases hStands <;> rfl
  subst hNone
  refine ⟨unreachable, ?_⟩
  simp only [leave?, hTake, Option.bind_eq_bind, Option.bind_some, List.nil_append]
  rw [if_pos hHeight.symm]
  rfl

end Checker.At

/-- What the branches of a piece of code carry: to the frames around it, innermost first, and out of
the function. -/
structure Exits where
  labels : List (List ValType)
  results : List ValType

/-- The exits inside one more frame. -/
def Exits.inside (exits : Exits) (label : List ValType) : Exits :=
  { exits with labels := label :: exits.labels }

/-- Frames have the given exits. -/
def Exits.Of (exits : Exits) (frames : List Frame) : Prop :=
  frames.map Frame.label = exits.labels ∧ frames.getLast?.map Frame.leaves = some exits.results

/-- Code takes operands and leaves others, given latest first, wherever it has the given exits. -/
def Types (scope : Scope) (exits : Exits) (code : List Instr)
    (takes leaves : List ValType) : Prop :=
  ∀ checker frames below stack, exits.Of frames → Checker.At checker frames below (takes ++ stack) →
    ∃ after, checker.run? scope code = some after ∧ after.At frames below (leaves ++ stack)

variable {scope : Scope} {exits : Exits} {first second code : List Instr}
  {before middle after takes leaves rest : List ValType}

/-- The frames of a checker have the exits of the frames that it is known to have. -/
theorem Exits.Of.frames {checker : Checker} {frames : List Frame} {below : List Operand}
    {stack : List ValType} (hOf : exits.Of frames) (hAt : checker.At frames below stack) :
    exits.Of checker.frames := by
  obtain ⟨unreachable, inner, outer, above, rfl, -, rfl, -⟩ := hAt
  obtain ⟨hLabels, hResults⟩ := hOf
  refine ⟨hLabels, ?_⟩
  cases outer with
  | nil => exact hResults
  | cons next outer => simpa using hResults

theorem Exits.Of.inside {frames : List Frame} (hOf : exits.Of frames) (frame : Frame) :
    (exits.inside frame.label).Of (frame :: frames) := by
  obtain ⟨hLabels, hResults⟩ := hOf
  cases frames with
  | nil => cases hResults
  | cons next outer =>
      exact ⟨by simp [Exits.inside, hLabels], by simpa [Exits.inside] using hResults⟩

/-- The frame that a label refers to. -/
theorem Exits.Of.label {frames : List Frame} {index : Nat} {types : List ValType}
    (hOf : exits.Of frames) (hLabel : exits.labels[index]? = some types) :
    ∃ frame, frames[index]? = some frame ∧ frame.label = types := by
  rw [← hOf.1, List.getElem?_map] at hLabel
  exact Option.map_eq_some_iff.1 hLabel

namespace Checker

theorem run?_append (checker : Checker) (first second : List Instr) :
    checker.run? scope (first ++ second) =
      (checker.run? scope first).bind fun middle => middle.run? scope second := by
  induction first generalizing checker with
  | nil => rfl
  | cons instr rest ih =>
      simp only [List.cons_append, run?]
      split
      · rfl
      · cases checker.step? scope instr with
        | none => rfl
        | some next => exact ih next

theorem step?_with (checker : Checker) (opcode : Opcode) (immediate : Immediate) :
    checker.step? scope (opcode.with immediate) = checker.check? scope opcode immediate := by
  simp only [step?, Opcode.with, Opcode.ofByte?_byte, Option.bind_eq_bind, Option.bind_some]

theorem At.run?_cons {checker : Checker} {frames : List Frame} {below : List Operand}
    {stack : List ValType} (hAt : checker.At frames below stack) (instr : Instr)
    (rest : List Instr) :
    checker.run? scope (instr :: rest) =
      (checker.step? scope instr).bind fun next => next.run? scope rest := by
  obtain ⟨unreachable, inner, outer, above, rfl, -, rfl, -⟩ := hAt
  rw [run?, if_neg (by simp)]
  rfl

end Checker

namespace Types

theorem nil : Types scope exits [] takes takes :=
  fun checker _ _ _ _ hAt => ⟨checker, rfl, hAt⟩

theorem append (hFirst : Types scope exits first before middle)
    (hSecond : Types scope exits second middle after) :
    Types scope exits (first ++ second) before after := by
  intro checker frames below stack hOf hAt
  obtain ⟨between, hRun, hBetween⟩ := hFirst checker frames below stack hOf hAt
  obtain ⟨last, hLast, hAfter⟩ := hSecond between frames below stack hOf hBetween
  exact ⟨last, by rw [Checker.run?_append, hRun, Option.bind_some, hLast], hAfter⟩

theorem cons {instr : Instr} (hFirst : Types scope exits [instr] before middle)
    (hSecond : Types scope exits second middle after) :
    Types scope exits (instr :: second) before after :=
  hFirst.append hSecond

/-- Operands below those that code takes do not matter. -/
theorem above (hTypes : Types scope exits code takes leaves) (rest : List ValType) :
    Types scope exits code (takes ++ rest) (leaves ++ rest) := by
  intro checker frames below stack hOf hAt
  rw [List.append_assoc] at hAt ⊢
  exact hTypes checker frames below (rest ++ stack) hOf hAt

/-- An operation that the algorithm lets pass. -/
theorem of_check {opcode : Opcode} {immediate : Immediate}
    (hCheck : ∀ (checker : Checker) frames below stack, exits.Of checker.frames →
      checker.At frames below (takes ++ stack) →
      ∃ next, checker.check? scope opcode immediate = some next ∧
        next.At frames below (leaves ++ stack)) :
    Types scope exits [opcode.with immediate] takes leaves := by
  intro checker frames below stack hOf hAt
  obtain ⟨next, hNext, hAfter⟩ := hCheck checker frames below stack (hOf.frames hAt) hAt
  exact ⟨next, by rw [hAt.run?_cons, Checker.step?_with, hNext]; rfl, hAfter⟩

/-! ## Operations on operands -/

theorem unreachable : Types scope exits [Opcode.unreachable.instr] takes leaves :=
  of_check fun _ _ _ _ _ hAt => hAt.stop _

theorem const {type : NumType} {immediate : Immediate} {result : ValType}
    (hConstant : constant? type immediate = some result) :
    Types scope exits [(Opcode.const type).with immediate] [] [result] :=
  of_check fun checker _ _ _ _ hAt => by
    refine ⟨checker.push (some result), ?_, hAt.push result⟩
    change (constant? type immediate >>= fun found => some (checker.push (some found))) = _
    rw [hConstant]
    rfl

theorem drop {type : ValType} : Types scope exits [Opcode.drop.instr] [type] [] :=
  of_check fun checker _ _ _ _ hAt => by
    obtain ⟨operand, next, hPop, -, hNext⟩ := hAt.pop
    refine ⟨next, ?_, hNext⟩
    change (checker.pop? >>= fun popped => some popped.2) = _
    rw [hPop]
    rfl

theorem localGet {index : UInt32} {type : ValType}
    (hLocal : scope.locals[index.toNat]? = some type) :
    Types scope exits [.localGet index] [] [type] :=
  of_check fun checker _ _ _ _ hAt => by
    refine ⟨checker.push (some type), ?_, hAt.push type⟩
    change (scope.locals[index.toNat]? >>= fun found => some (checker.push (some found))) = _
    rw [hLocal]
    rfl

theorem localSet {index : UInt32} {type : ValType}
    (hLocal : scope.locals[index.toNat]? = some type) :
    Types scope exits [.localSet index] [type] [] :=
  of_check fun checker _ _ _ _ hAt => by
    obtain ⟨next, hTake, hNext⟩ := hAt.take
    refine ⟨next, ?_, hNext⟩
    change (scope.locals[index.toNat]? >>= checker.take?) = _
    rw [hLocal]
    exact hTake

theorem localTee {index : UInt32} {type : ValType}
    (hLocal : scope.locals[index.toNat]? = some type) :
    Types scope exits [.localTee index] [type] [type] :=
  of_check fun checker _ _ _ _ hAt => by
    obtain ⟨next, hTake, hNext⟩ := hAt.take
    refine ⟨next.push (some type), ?_, hNext.push type⟩
    change (scope.locals[index.toNat]? >>= fun found =>
      checker.take? found >>= fun taken => some (taken.push (some found))) = _
    rw [hLocal, Option.bind_eq_bind, Option.bind_some, hTake]
    rfl

theorem globalGet {index : UInt32} {type : GlobalType} (hGlobal : scope.global? index = some type) :
    Types scope exits [.globalGet index] [] [type.valType] :=
  of_check fun checker _ _ _ _ hAt => by
    refine ⟨checker.push (some type.valType), ?_, hAt.push type.valType⟩
    change (scope.global? index >>= fun found => some (checker.push (some found.valType))) = _
    rw [hGlobal]
    rfl

theorem globalSet {index : UInt32} {type : GlobalType} (hGlobal : scope.global? index = some type)
    (hMutable : type.mutable = true) :
    Types scope exits [.globalSet index] [type.valType] [] :=
  of_check fun checker _ _ _ _ hAt => by
    obtain ⟨next, hTake, hNext⟩ := hAt.take
    refine ⟨next, ?_, hNext⟩
    change (scope.global? index >>= fun found =>
      if found.mutable then checker.take? found.valType else none) = _
    rw [hGlobal, Option.bind_eq_bind, Option.bind_some, if_pos hMutable, hTake]

theorem memoryGrow (hMemory : 0 < scope.memories) :
    Types scope exits [.memoryGrow] [.i32] [.i32] :=
  of_check fun checker _ _ _ _ hAt => by
    obtain ⟨next, hTake, hNext⟩ := hAt.take
    refine ⟨next.push (some .i32), ?_, hNext.push .i32⟩
    change (if 0 < scope.memories then
      checker.take? .i32 >>= fun taken => some (taken.push (some .i32)) else none) = _
    rw [if_pos hMemory, hTake]
    rfl

theorem load {type : NumType} {arg : MemArg} (hAdmits : scope.admits type arg = true) :
    Types scope exits [(Opcode.load type).with (.mem arg)] [.i32] [type.valType] :=
  of_check fun checker _ _ _ _ hAt => by
    obtain ⟨next, hTake, hNext⟩ := hAt.take
    refine ⟨next.push (some type.valType), ?_, hNext.push type.valType⟩
    change (if scope.admits type arg then
      checker.take? .i32 >>= fun taken => some (taken.push (some type.valType)) else none) = _
    rw [if_pos hAdmits, hTake]
    rfl

theorem store {type : NumType} {arg : MemArg} (hAdmits : scope.admits type arg = true) :
    Types scope exits [(Opcode.store type).with (.mem arg)] [type.valType, .i32] [] :=
  of_check fun checker _ _ _ _ hAt => by
    obtain ⟨middle, hValue, hMiddle⟩ := hAt.take
    obtain ⟨next, hAddress, hNext⟩ := hMiddle.take
    refine ⟨next, ?_, hNext⟩
    change (if scope.admits type arg then
      checker.take? type.valType >>= fun taken => taken.take? .i32 else none) = _
    rw [if_pos hAdmits, hValue]
    exact hAddress

theorem operation {opcode : Opcode} {operands : List NumType} {result : NumType}
    (hOperation : operation? opcode = some (operands, result)) :
    Types scope exits [opcode.instr] (operands.map NumType.valType).reverse [result.valType] :=
  of_check fun checker _ _ _ _ hAt => by
    obtain ⟨next, hTake, hNext⟩ := hAt.takeAll
    refine ⟨next.push (some result.valType), ?_, hNext.push result.valType⟩
    have hCheck : checker.check? scope opcode .none = (operation? opcode >>= fun found =>
        checker.takeAll? (found.1.map NumType.valType) >>= fun taken =>
          some (taken.push (some found.2.valType))) := by
      cases opcode <;> first | rfl | cases hOperation
    rw [hCheck, hOperation, Option.bind_eq_bind, Option.bind_some, hTake]
    rfl

/-- A call takes the arguments, the last of which is on top, and leaves the results. -/
theorem call {function : UInt32} {type : FuncType}
    (hFunction : scope.function? function = some type) :
    Types scope exits [.call function] type.params.reverse type.results.reverse :=
  of_check fun checker _ _ _ _ hAt => by
    obtain ⟨next, hTake, hNext⟩ := hAt.takeAll
    refine ⟨next.pushAll type.results, ?_, hNext.pushAll type.results⟩
    change (scope.function? function >>= fun found =>
      checker.takeAll? found.params >>= fun taken => some (taken.pushAll found.results)) = _
    rw [hFunction, Option.bind_eq_bind, Option.bind_some, hTake]
    rfl

theorem br {label : UInt32} {types : List ValType}
    (hLabel : exits.labels[label.toNat]? = some types) :
    Types scope exits [.br label] types.reverse leaves :=
  of_check fun checker frames below stack hOf hAt => by
    obtain ⟨frame, hFrame, hTypes⟩ := hOf.label hLabel
    obtain ⟨taken, hTake, hTaken⟩ := hAt.takeAll
    obtain ⟨next, hStop, hNext⟩ := hTaken.stop (leaves ++ stack)
    refine ⟨next, ?_, hNext⟩
    change (checker.frames[label.toNat]? >>= fun found =>
      checker.takeAll? found.label >>= Checker.stop?) = _
    rw [hFrame, Option.bind_eq_bind, Option.bind_some, hTypes, hTake]
    exact hStop

theorem brIf {label : UInt32} {types : List ValType}
    (hLabel : exits.labels[label.toNat]? = some types) :
    Types scope exits [.brIf label] (.i32 :: types.reverse) types.reverse :=
  of_check fun checker frames below stack hOf hAt => by
    obtain ⟨frame, hFrame, hTypes⟩ := hOf.label hLabel
    obtain ⟨tested, hTest, hTested⟩ := hAt.take
    obtain ⟨taken, hTake, hTaken⟩ := hTested.takeAll
    refine ⟨taken.pushAll types, ?_, hTaken.pushAll types⟩
    change (checker.frames[label.toNat]? >>= fun found => checker.take? .i32 >>= fun tested =>
      tested.takeAll? found.label >>= fun taken => some (taken.pushAll found.label)) = _
    rw [hFrame, Option.bind_eq_bind, Option.bind_some, hTest, Option.bind_eq_bind, Option.bind_some,
      hTypes, hTake]
    rfl

theorem ret : Types scope exits [Opcode.ret.instr] exits.results.reverse leaves :=
  of_check fun checker frames below stack hOf hAt => by
    obtain ⟨frame, hFrame, hResults⟩ := Option.map_eq_some_iff.1 hOf.2
    obtain ⟨taken, hTake, hTaken⟩ := hAt.takeAll
    obtain ⟨next, hStop, hNext⟩ := hTaken.stop (leaves ++ stack)
    refine ⟨next, ?_, hNext⟩
    change (checker.frames.getLast? >>= fun found =>
      checker.takeAll? found.leaves >>= Checker.stop?) = _
    rw [hFrame, Option.bind_eq_bind, Option.bind_some, hResults, hTake]
    exact hStop

/-- A frame that takes nothing, as it is opened over some operands. -/
def opened (opcode : Opcode) (leaves : List ValType) (height : Nat) : Frame :=
  ⟨opcode, [], leaves, height, false⟩

/-- The body of a frame gets to the instruction behind it, where the frame can be left. -/
theorem enclosed (opcode : Opcode) (leaves : List ValType) {outer : Checker} {body : List Instr}
    (hOf : exits.Of outer.frames)
    (hBody : Types scope (exits.inside (opened opcode leaves outer.operands.length).label) body []
      leaves.reverse) (instr : Instr) (rest : List Instr) :
    ∃ (inner : Checker) (unreachable : Bool),
      (outer.enter opcode [] leaves).run? scope (body ++ instr :: rest) =
        ((inner.step? scope instr).bind fun next => next.run? scope rest) ∧
      inner.leave? =
        some ({ opened opcode leaves outer.operands.length with unreachable }, outer) := by
  obtain ⟨inner, hRun, hInner⟩ := hBody _ _ _ [] (hOf.inside _) (.enter outer opcode leaves)
  rw [List.append_nil] at hInner
  obtain ⟨unreachable, hLeave⟩ := Checker.At.leave hInner
  refine ⟨inner, unreachable, ?_, hLeave⟩
  rw [Checker.run?_append, hRun, Option.bind_some, hInner.run?_cons]

/-- Closing a frame that leaves what it has to. -/
theorem step?_close {inner outer : Checker} {frame : Frame}
    (hLeave : inner.leave? = some (frame, outer))
    (hMatches : frame.opcode = .ifThen → frame.takes = frame.leaves) :
    inner.step? scope .close = some (outer.pushAll frame.leaves) := by
  refine (Checker.step?_with inner .close .none).trans ?_
  change (inner.leave? >>= fun found =>
    if found.1.opcode = .ifThen ∧ found.1.takes ≠ found.1.leaves then none
    else some (found.2.pushAll found.1.leaves)) = _
  rw [hLeave, Option.bind_eq_bind, Option.bind_some, if_neg (by simpa using hMatches)]

theorem block {type : Int32} {body : List Instr} (hType : scope.block? type = some ([], leaves))
    (hBody : Types scope (exits.inside leaves) body [] leaves.reverse) :
    Types scope exits (.block type :: body ++ [.close]) [] leaves.reverse := by
  intro checker frames below stack hOf hAt
  have hOpen : checker.step? scope (.block type) = some (checker.enter .block [] leaves) := by
    refine (Checker.step?_with checker .block (.block type)).trans ?_
    change (scope.block? type >>= fun found =>
      checker.takeAll? found.1 >>= fun taken => some (taken.enter .block found.1 found.2)) = _
    rw [hType]
    rfl
  obtain ⟨inner, flag, hRun, hLeave⟩ := enclosed .block leaves (hOf.frames hAt) hBody .close []
  refine ⟨checker.pushAll leaves, ?_, hAt.pushAll leaves⟩
  rw [List.cons_append, hAt.run?_cons, hOpen, Option.bind_some, hRun,
    step?_close hLeave (fun hIf => by cases hIf)]
  rfl

/-- A branch to a loop starts it again, with nothing on the stack. -/
theorem loop {type : Int32} {body : List Instr} (hType : scope.block? type = some ([], leaves))
    (hBody : Types scope (exits.inside []) body [] leaves.reverse) :
    Types scope exits (.loop type :: body ++ [.close]) [] leaves.reverse := by
  intro checker frames below stack hOf hAt
  have hOpen : checker.step? scope (.loop type) = some (checker.enter .loop [] leaves) := by
    refine (Checker.step?_with checker .loop (.block type)).trans ?_
    change (scope.block? type >>= fun found =>
      checker.takeAll? found.1 >>= fun taken => some (taken.enter .loop found.1 found.2)) = _
    rw [hType]
    rfl
  obtain ⟨inner, flag, hRun, hLeave⟩ := enclosed .loop leaves (hOf.frames hAt) hBody .close []
  refine ⟨checker.pushAll leaves, ?_, hAt.pushAll leaves⟩
  rw [List.cons_append, hAt.run?_cons, hOpen, Option.bind_some, hRun,
    step?_close hLeave (fun hIf => by cases hIf)]
  rfl

/-- The test of a conditional is taken before its frame is opened. -/
theorem step?_ifThen {type : Int32} (hType : scope.block? type = some ([], leaves))
    {checker : Checker} {frames : List Frame} {below : List Operand} {stack : List ValType}
    (hAt : checker.At frames below (.i32 :: stack)) :
    ∃ outer : Checker, checker.step? scope (.ifThen type) = some (outer.enter .ifThen [] leaves) ∧
      outer.At frames below stack := by
  obtain ⟨outer, hTake, hOuter⟩ := hAt.take
  refine ⟨outer, (Checker.step?_with checker .ifThen (.block type)).trans ?_, hOuter⟩
  change (scope.block? type >>= fun found => checker.take? .i32 >>= fun tested =>
    tested.takeAll? found.1 >>= fun taken => some (taken.enter .ifThen found.1 found.2)) = _
  rw [hType, Option.bind_eq_bind, Option.bind_some, hTake]
  rfl

/-- A conditional without an alternative leaves nothing. -/
theorem ifThen {type : Int32} {body : List Instr} (hType : scope.block? type = some ([], []))
    (hBody : Types scope (exits.inside []) body [] []) :
    Types scope exits (.ifThen type :: body ++ [.close]) [.i32] [] := by
  intro checker frames below stack hOf hAt
  obtain ⟨outer, hOpen, hOuter⟩ := step?_ifThen hType hAt
  obtain ⟨inner, flag, hRun, hLeave⟩ := enclosed .ifThen [] (hOf.frames hOuter) hBody .close []
  refine ⟨outer.pushAll [], ?_, hOuter.pushAll []⟩
  rw [List.cons_append, hAt.run?_cons, hOpen, Option.bind_some, hRun,
    step?_close hLeave (fun _ => rfl)]
  rfl

theorem ifElse {type : Int32} {yes no : List Instr} (hType : scope.block? type = some ([], leaves))
    (hYes : Types scope (exits.inside leaves) yes [] leaves.reverse)
    (hNo : Types scope (exits.inside leaves) no [] leaves.reverse) :
    Types scope exits (.ifThen type :: yes ++ Opcode.otherwise.instr :: no ++ [.close]) [.i32]
      leaves.reverse := by
  intro checker frames below stack hOf hAt
  obtain ⟨outer, hOpen, hOuter⟩ := step?_ifThen hType hAt
  obtain ⟨inner, flag, hRun, hLeave⟩ := enclosed .ifThen leaves (hOf.frames hOuter) hYes
    Opcode.otherwise.instr (no ++ [.close])
  have hTurn : inner.step? scope Opcode.otherwise.instr =
      some (outer.enter .otherwise [] leaves) := by
    refine (Checker.step?_with inner .otherwise .none).trans ?_
    change (inner.leave? >>= fun found => if found.1.opcode = .ifThen then
      some (found.2.enter .otherwise found.1.takes found.1.leaves) else none) = _
    rw [hLeave]
    rfl
  obtain ⟨last, other, hLast, hDone⟩ := enclosed .otherwise leaves (hOf.frames hOuter) hNo .close []
  refine ⟨outer.pushAll leaves, ?_, hOuter.pushAll leaves⟩
  rw [List.cons_append, List.cons_append, List.append_assoc, List.cons_append, hAt.run?_cons, hOpen,
    Option.bind_some, hRun, hTurn, Option.bind_some, hLast,
    step?_close hDone (fun hIf => by cases hIf)]
  rfl

end Types

/-- A body that leaves the results of its function passes. -/
theorem valid_of_types {results : List ValType}
    (hTypes : Types scope ⟨[results], results⟩ code [] results.reverse) :
    valid scope results (code ++ [.close]) = true := by
  have hAt : Checker.At ⟨[], [⟨.block, [], results, 0, false⟩]⟩ [⟨.block, [], results, 0, false⟩] []
      ([] ++ []) := ⟨false, _, _, [], rfl, rfl, rfl, .empty⟩
  obtain ⟨inner, hRun, hInner⟩ := hTypes _ _ _ [] ⟨rfl, rfl⟩ hAt
  rw [List.append_nil] at hInner
  obtain ⟨flag, hLeave⟩ := @Checker.At.leave inner ⟨[], []⟩ _ hInner
  rw [valid, Checker.run?_append, hRun, Option.bind_some, hInner.run?_cons,
    Types.step?_close hLeave (fun hIf => by cases hIf)]
  rfl

end RecordWasm.Validation
