import RecordWasm.Proofs.Lowering.Bodies
import RecordWasm.Proofs.Machine.Reading

/-!
# Generated code as steps

The instructions that lowering puts around the code of its parts, read as steps.  Every construct
closes the frames that it opens, so its code is read as steps wherever it stands.
-/

namespace RecordWasm.Lowering

open Syntax Layout Wasm Machine

variable {types : List FuncType}

/-- The constant that an integer becomes at a type. -/
def constStep (type : Ty) (value : Int64) : Step :=
  match type with
  | .i64 => .plain (.const .i64) (.i64 value)
  | .f32 => .plain (.const .f32) (.f32 (Ieee.single.ofInt value.toInt).toUInt32)
  | .f64 => .plain (.const .f64) (.f64 (Ieee.double.ofInt value.toInt).toUInt64)
  | _ => .plain (.const .i32) (.i32 value.toInt32)

theorem reads_constInt (type : Ty) (value : Int64) :
    Reads types [constInt type value] [constStep type value] := by
  cases type <;> exact Reads.plain rfl

theorem reads_operation {opcode : Opcode} (hPlain : isPlain opcode = true) :
    Reads types [opcode.instr] [.plain opcode .none] := Reads.plain hPlain

theorem reads_localGet (index : UInt32) :
    Reads types [.localGet index] [.plain .localGet (.local index)] := Reads.plain rfl

theorem reads_localSet (index : UInt32) :
    Reads types [.localSet index] [.plain .localSet (.local index)] := Reads.plain rfl

theorem reads_localTee (index : UInt32) :
    Reads types [.localTee index] [.plain .localTee (.local index)] := Reads.plain rfl

theorem reads_i32Const (value : Int32) :
    Reads types [.i32Const value] [.plain (.const .i32) (.i32 value)] := Reads.plain rfl

theorem isPlain_equality (type : Ty) : isPlain (equality type) = true := by
  rw [equality]
  split <;> rfl

theorem isPlain_operator {type : Ty} {op : String} {opcode : Opcode}
    (hOperator : operator? type op = some opcode) : isPlain opcode = true := by
  unfold operator? intOperator? floatOperator? at hOperator
  split at hOperator <;> split at hOperator <;> cases hOperator <;> rfl

/-- How many values a block leaves that yields a type. -/
def blockArity (type : Ty) : Arity := ⟨0, (numType? type).toList.length⟩

theorem ofBlockType?_blockType (type : Ty) :
    Arity.ofBlockType? types (blockType type) = some (blockArity type) := by
  rw [blockType, blockArity]
  cases numType? type with
  | none => rfl
  | some number => exact Arity.ofBlockType?_number number

section Loops

variable (context : Context) {test body first last : Code}
variable {testSteps bodySteps firstSteps lastSteps : List Step}

/-- From inside a loop, the block around it is one frame further out. -/
theorem label_leave : (context.inLoop.label context.frames).toNat = 1 := by
  have hFrames : context.inLoop.frames - 1 - context.frames = 1 := by
    simp only [Context.inLoop, Context.inFrame]
    omega
  rw [Context.label, hFrames]
  rfl

theorem label_again : (context.inLoop.label (context.frames + 1)).toNat = 0 := by
  have hFrames : context.inLoop.frames - 1 - (context.frames + 1) = 0 := by
    simp only [Context.inLoop, Context.inFrame]
    omega
  rw [Context.label, hFrames]
  rfl

/-- The two frames of a loop around steps, which go on with the next turn at their end. -/
def loopSteps (inside : List Step) : List Step :=
  [.block ⟨0, 0⟩ [.loop ⟨0, 0⟩ (inside ++ [.br 0])]]

/-- The two frames of a loop around code. -/
theorem reads_loop {code : Code} {inside : List Step} (hCode : Reads types code inside) :
    Reads types ([.block voidBlock, .loop voidBlock] ++ code ++
      [.br (context.inLoop.label (context.frames + 1)), .close, .close]) (loopSteps inside) := by
  have hInside := hCode.append (Reads.br (context.inLoop.label (context.frames + 1)))
  rw [label_again] at hInside
  have hLoop := Reads.block Arity.ofBlockType?_void (Reads.loop Arity.ofBlockType?_void hInside)
  simpa [loopSteps] using hLoop

/-- The steps that leave a loop unless a condition holds. -/
def guardSteps (test : List Step) : List Step := test ++ [.plain (.eqz .w32) .none, .brIf 1]

theorem reads_guard (hTest : Reads types test testSteps) :
    Reads types (test ++ [(Opcode.eqz .w32).instr, .brIf (context.inLoop.label context.frames)])
      (guardSteps testSteps) := by
  have hLeave := @Reads.brIf types (context.inLoop.label context.frames)
  rw [label_leave] at hLeave
  exact hTest.append ((reads_operation rfl).append hLeave)

theorem reads_while (hTest : Reads types test testSteps) (hBody : Reads types body bodySteps) :
    Reads types (whileCode context test body) (loopSteps (guardSteps testSteps ++ bodySteps)) := by
  have hCode := reads_loop context ((reads_guard context hTest).append hBody)
  simpa [whileCode] using hCode

theorem reads_forever (hBody : Reads types body bodySteps) :
    Reads types (foreverCode context body) (loopSteps bodySteps) := reads_loop context hBody

/-- The steps that leave a loop when a counter has reached its limit. -/
def limitSteps (type : Ty) (counter limit : UInt32) : List Step :=
  [.plain .localGet (.local counter), .plain .localGet (.local limit),
    .plain (.compareInt (intWidth type) .geS) .none, .brIf 1]

/-- The steps that raise a counter by one. -/
def raiseSteps (type : Ty) (counter : UInt32) : List Step :=
  [.plain .localGet (.local counter), constStep type 1, .plain (.int (intWidth type) .add) .none,
    .plain .localSet (.local counter)]

/-- The steps inside a loop that counts. -/
def turnSteps (type : Ty) (counter limit : UInt32) (body : List Step) : List Step :=
  limitSteps type counter limit ++ .block ⟨0, 0⟩ body :: raiseSteps type counter

theorem reads_limit (type : Ty) (counter limit : UInt32) :
    Reads types [.localGet counter, .localGet limit, (Opcode.compareInt (intWidth type) .geS).instr,
      .brIf (context.inLoop.label context.frames)] (limitSteps type counter limit) := by
  have hLeave := @Reads.brIf types (context.inLoop.label context.frames)
  rw [label_leave] at hLeave
  exact (reads_localGet counter).append ((reads_localGet limit).append
    ((reads_operation rfl).append hLeave))

theorem reads_raise (type : Ty) (counter : UInt32) :
    Reads types [.localGet counter, constInt type 1, (Opcode.int (intWidth type) .add).instr,
      .localSet counter] (raiseSteps type counter) :=
  (reads_localGet counter).append ((reads_constInt type 1).append
    ((reads_operation rfl).append (reads_localSet counter)))

theorem reads_range {type : Ty} {counter limit : UInt32} (hFirst : Reads types first firstSteps)
    (hLast : Reads types last lastSteps) (hBody : Reads types body bodySteps) :
    Reads types (rangeCode context type counter limit first last body)
      (firstSteps ++ .plain .localSet (.local counter) :: lastSteps ++
        .plain .localSet (.local limit) :: loopSteps (turnSteps type counter limit bodySteps)) := by
  have hTurn := (Reads.block Arity.ofBlockType?_void hBody).append
    (reads_raise type counter)
  have hLoop := reads_loop context ((reads_limit context type counter limit).append hTurn)
  have hCode := hFirst.append ((reads_localSet counter).append (hLast.append
    ((reads_localSet limit).append hLoop)))
  simpa [rangeCode, turnSteps] using hCode

end Loops

section Choices

variable {test yes no : Code} {testSteps yesSteps noSteps : List Step}

/-- The steps of an arm that is taken for one value. -/
def literalArmSteps (slot : Slot) (type : Ty) (constant yes no : List Step) : List Step :=
  .plain .localGet (.local slot.index) :: constant ++
    [.plain (equality slot.type) .none, .choose (blockArity type) yes no]

theorem reads_literalArm (slot : Slot) (type : Ty) (hTest : Reads types test testSteps)
    (hYes : Reads types yes yesSteps) (hNo : Reads types no noSteps) :
    Reads types (literalArmCode slot type test yes no)
      (literalArmSteps slot type testSteps yesSteps noSteps) := by
  have hSame := (reads_localGet slot.index).append (hTest.append
    (reads_operation (isPlain_equality slot.type)))
  have hCode := hSame.append (Reads.ifElse (ofBlockType?_blockType type) hYes hNo)
  simpa [literalArmCode, literalArmSteps] using hCode

end Choices

/-- The steps that allocate a record and keep its address in a local. -/
def allocSteps (env : Env) (record : Record) (address : UInt32) : List Step :=
  [.plain (.const .i32) (.i32 record.size.toInt32),
    .plain (.const .i32) (.i32 record.align.toInt32), .call env.heap.allocFunc.toNat,
    .plain .localTee (.local address), .plain (.eqz .w32) .none, .choose ⟨0, 0⟩ [.unreachable] []]

theorem reads_alloc {env : Env} {decl : String} {record : Record} {address : UInt32} {code : Code}
    (hAlloc : allocCode env decl record address = .ok code) :
    Reads types code (allocSteps env record address) := by
  rw [allocCode] at hAlloc
  split at hAlloc
  · cases hAlloc
  · cases hAlloc
    exact (reads_i32Const _).append ((reads_i32Const _).append ((Reads.call _).append
      ((reads_localTee _).append ((reads_operation rfl).append
        (Reads.ifThen Arity.ofBlockType?_void .unreachable)))))

/-! ## All code -/

/-- Code that closes the frames that it opens. -/
def Nests (types : List FuncType) (code : Code) : Prop := ∃ steps, Reads types code steps

theorem Nests.append {first second : Code} (hFirst : Nests types first)
    (hSecond : Nests types second) : Nests types (first ++ second) := by
  obtain ⟨steps, hSteps⟩ := hFirst
  obtain ⟨others, hOthers⟩ := hSecond
  exact ⟨_, hSteps.append hOthers⟩

theorem Nests.cons {instr : Instr} {code : Code} (hFirst : Nests types [instr])
    (hRest : Nests types code) : Nests types (instr :: code) := hFirst.append hRest

theorem nests_operation {opcode : Opcode} (hPlain : isPlain opcode = true) :
    Nests types [opcode.instr] := ⟨_, reads_operation hPlain⟩

theorem nests_localGet (index : UInt32) : Nests types [.localGet index] := ⟨_, reads_localGet index⟩

theorem nests_localSet (index : UInt32) : Nests types [.localSet index] := ⟨_, reads_localSet index⟩

theorem nests_call (function : UInt32) : Nests types [.call function] := ⟨_, .call function⟩

theorem nests_load (field : Field) : Nests types [loadInstr field] :=
  ⟨_, @Reads.plain _ (.load _) (.mem _) rfl⟩

theorem nests_store (field : Field) : Nests types [storeInstr field] :=
  ⟨_, @Reads.plain _ (.store _) (.mem _) rfl⟩

theorem Loads.nests {env : Env} {base : Ty} {path : List String} {lowered : Lowered}
    (hLoads : Loads env base path lowered) : Nests types lowered.code := by
  induction hLoads with
  | here => exact ⟨[], .nil⟩
  | field _ _ _ ih => exact (nests_load _).cons ih

theorem Derives.nests {before after : Slots} {judgement : Judgement}
    (hDerives : Derives before judgement after) : Nests types judgement.code := by
  induction hDerives with
  | nil | noArgs | stored => exact ⟨[], .nil⟩
  | leaveVoid => exact ⟨_, .ret⟩
  | leave | next => exact ⟨_, .br _⟩
  | int => exact ⟨_, reads_constInt _ _⟩
  | @float _ _ _ type => cases type <;> exact ⟨_, Reads.plain rfl⟩
  | bool | named | variant => exact ⟨_, reads_i32Const _⟩
  | bound | self => exact nests_localGet _
  | path _ _ _ hLoads => exact (nests_localGet 0).cons hLoads.nests
  | noArm => exact ⟨_, .unreachable⟩
  | eval _ ih | value _ _ ih | kept _ _ _ ih | wildcard _ ih => exact ih
  | declare _ _ _ ih | assign _ _ ih => exact ih.append (nests_localSet _)
  | leaveWith _ _ ih => exact ih.append ⟨_, .ret⟩
  | not _ ih | negateFloat _ _ _ ih => exact ih.append (nests_operation rfl)
  | negateInt _ _ _ ih =>
      exact Nests.append (Nests.cons ⟨_, reads_constInt _ 0⟩ ih) (nests_operation rfl)
  | discarded _ _ ih =>
      simp only [Judgement.code, discard]
      split
      · exact ih
      · exact Nests.append ih (nests_operation rfl)
  | blockOnly _ _ ih =>
      simp only [Judgement.code]
      split
      · exact ih
      · exact Nests.append ih ⟨_, .unreachable⟩
  | call _ _ ih => exact ih.append (nests_call _)
  | ownCall _ _ _ ih => exact (nests_localGet 0).cons (ih.append (nests_call _))
  | member _ _ _ _ ih => exact ih.append (nests_load _)
  | cons _ _ ihFirst ihRest | arg _ _ ihFirst ihRest | block _ _ _ _ ihFirst ihRest =>
      exact ihFirst.append ihRest
  | logical _ _ _ ihLeft ihRight =>
      simp only [Judgement.code]
      split <;> exact (Nests.append ihLeft ihRight).append (nests_operation rfl)
  | binary _ _ _ _ _ hOperator ihLeft ihRight =>
      exact (ihLeft.append ihRight).append (nests_operation (isPlain_operator hOperator))
  | methodCall _ _ _ _ ihReceiver ihArgs => exact (ihReceiver.append ihArgs).append (nests_call _)
  | whileLoop _ _ ihTest ihBody =>
      obtain ⟨test, hTest⟩ := ihTest
      obtain ⟨body, hBody⟩ := ihBody
      exact ⟨_, reads_while _ hTest hBody⟩
  | forever _ ih =>
      obtain ⟨body, hBody⟩ := ih
      exact ⟨_, reads_forever _ hBody⟩
  | forRange _ _ _ _ _ ihStart ihStop ihBody =>
      obtain ⟨start, hStart⟩ := ihStart
      obtain ⟨stop, hStop⟩ := ihStop
      obtain ⟨body, hBody⟩ := ihBody
      exact ⟨_, reads_range _ hStart hStop hBody⟩
  | branchOnly _ _ ihTest ihBody =>
      obtain ⟨body, hBody⟩ := ihBody
      simpa [Judgement.code] using
        Nests.append ihTest ⟨_, Reads.ifThen Arity.ofBlockType?_void hBody⟩
  | @branch _ _ _ _ _ _ type _ _ _ _ _ _ _ _ _ _ _ _ _ ihTest ihYes ihNo =>
      obtain ⟨yes, hYes⟩ := ihYes
      obtain ⟨no, hNo⟩ := ihNo
      simpa [Judgement.code] using
        Nests.append ihTest ⟨_, Reads.ifElse (ofBlockType?_blockType type) hYes hNo⟩
  | cases _ _ _ _ _ _ ihScrutinee ihArms =>
      exact ihScrutinee.append ((nests_localSet _).cons ihArms)
  | bind _ ih => exact (nests_localGet _).cons ((nests_localSet _).cons ih)
  | literal _ _ _ ihValue ihBody ihRest =>
      obtain ⟨value, hValue⟩ := ihValue
      obtain ⟨body, hBody⟩ := ihBody
      obtain ⟨rest, hRest⟩ := ihRest
      exact ⟨_, reads_literalArm _ _ hValue hBody hRest⟩
  | construct _ _ hAlloc _ ih =>
      exact (Nests.append ⟨_, reads_alloc hAlloc⟩ ih).append (nests_localGet _)
  | store _ _ _ ihValue ihRest =>
      exact ((nests_localGet _).cons ihValue).append ((nests_store _).cons ihRest)

end RecordWasm.Lowering
