import RecordWasm.Proofs.Binary.Instructions
import RecordWasm.Proofs.Lowering.Bodies

/-!
# Generated code is well formed

All code that is generated passes the structural check of a module: frames nest, labels reach open
frames, and locals, functions and the memory are there.  `Passes` speaks of code that stands inside
some open frames and closes those that it opens.
-/

namespace RecordWasm.Lowering

open Syntax Layout Wasm

/-- Code passes inside so many frames besides the function's own: its instructions are well formed,
and checking goes on behind it inside the same frames. -/
structure Passes (place : BodyContext) (frames : Nat) (code : Code) : Prop where
  formed : ∀ instr ∈ code, instr.wellFormed = true
  checked : ∀ pc rest, place.checkFrom pc (frames + 1) (code ++ rest) =
    place.checkFrom (pc + code.length) (frames + 1) rest

variable {place : BodyContext} {frames : Nat}

theorem checkFrom_cons {pc depth after : Nat} {instr : Instr} {rest : Code}
    (hStep : place.step pc (depth + 1) instr = .ok after) :
    place.checkFrom pc (depth + 1) (instr :: rest) = place.checkFrom (pc + 1) after rest := by
  rw [BodyContext.checkFrom, hStep, require, if_pos (Nat.succ_ne_zero depth)]
  rfl

namespace Passes

variable {code first second yes no : Code} {instr : Instr}

theorem nil : Passes place frames [] := ⟨nofun, fun _ _ => rfl⟩

theorem append (hFirst : Passes place frames first) (hSecond : Passes place frames second) :
    Passes place frames (first ++ second) where
  formed := fun instr hInstr => (List.mem_append.1 hInstr).elim (hFirst.formed instr)
    (hSecond.formed instr)
  checked := fun pc rest => by
    rw [List.append_assoc, hFirst.checked, hSecond.checked, List.length_append, Nat.add_assoc]

/-- An instruction that leaves the frames as they are. -/
theorem single (hFormed : instr.wellFormed = true)
    (hStep : ∀ pc, place.step pc (frames + 1) instr = .ok (frames + 1)) :
    Passes place frames [instr] where
  formed := fun other hOther => by rwa [List.mem_singleton.1 hOther]
  checked := fun pc rest => checkFrom_cons (hStep pc)

theorem cons (hFirst : Passes place frames [instr]) (hRest : Passes place frames code) :
    Passes place frames (instr :: code) := hFirst.append hRest

/-- Code inside a frame that one instruction opens and another closes. -/
theorem frame (hFormed : instr.wellFormed = true)
    (hOpen : ∀ pc, place.step pc (frames + 1) instr = .ok (frames + 1 + 1))
    (hBody : Passes place (frames + 1) code) :
    Passes place frames (instr :: code ++ [.close]) where
  formed := by
    intro other hOther
    rw [List.cons_append, List.mem_cons, List.mem_append, List.mem_singleton] at hOther
    rcases hOther with rfl | hInside | rfl
    · exact hFormed
    · exact hBody.formed other hInside
    · rfl
  checked := by
    intro pc rest
    have hClose (pc : Nat) : place.step pc (frames + 1 + 1) .close = .ok (frames + 1) := rfl
    rw [List.cons_append, List.cons_append, List.append_assoc, checkFrom_cons (hOpen pc),
      hBody.checked, List.singleton_append, checkFrom_cons (hClose _)]
    simp [Nat.add_comm, Nat.add_left_comm]

theorem block (type : Int32) (hBody : Passes place (frames + 1) code) :
    Passes place frames (.block type :: code ++ [.close]) := hBody.frame rfl fun _ => rfl

theorem loop (type : Int32) (hBody : Passes place (frames + 1) code) :
    Passes place frames (.loop type :: code ++ [.close]) := hBody.frame rfl fun _ => rfl

theorem ifThen (type : Int32) (hYes : Passes place (frames + 1) yes) :
    Passes place frames (.ifThen type :: yes ++ [.close]) := hYes.frame rfl fun _ => rfl

theorem ifElse (type : Int32) (hYes : Passes place (frames + 1) yes)
    (hNo : Passes place (frames + 1) no) :
    Passes place frames (.ifThen type :: yes ++ Opcode.otherwise.instr :: no ++ [.close]) := by
  have hElse : Passes place (frames + 1) [Opcode.otherwise.instr] := by
    refine single rfl fun pc => ?_
    have hStep : place.step pc (frames + 1 + 1) Opcode.otherwise.instr =
        (require (2 ≤ frames + 1 + 1) (.elseOutside pc) >>= fun _ => pure (frames + 1 + 1)) := rfl
    rw [hStep, require, if_pos (by omega)]
    rfl
  exact (hYes.append (hElse.cons hNo)).ifThen type

/-- An operation that refers to nothing outside its operands. -/
theorem operation {opcode : Opcode} {immediate : Immediate}
    (hAdmits : opcode.admits immediate = true)
    (hAlone : match opcode with
      | .block | .loop | .ifThen | .otherwise | .close | .br | .brIf | .call => False
      | .localGet | .localSet | .localTee | .globalGet | .globalSet => False
      | .load _ | .store _ | .memorySize | .memoryGrow => False
      | _ => True) :
    Passes place frames [opcode.with immediate] := by
  refine single (by simpa using hAdmits) fun pc => ?_
  simp only [BodyContext.step, Opcode.with, Opcode.ofByte?_byte]
  cases opcode <;> first | rfl | cases hAlone

theorem unreachable : Passes place frames [Opcode.unreachable.instr] := operation rfl trivial

theorem ret : Passes place frames [Opcode.ret.instr] := operation rfl trivial

theorem drop : Passes place frames [Opcode.drop.instr] := operation rfl trivial

theorem eqz : Passes place frames [(Opcode.eqz .w32).instr] := operation rfl trivial

theorem int (width : Width) (operator : IntOperator) :
    Passes place frames [(Opcode.int width operator).instr] := operation rfl trivial

theorem compareInt (width : Width) (relation : IntRelation) :
    Passes place frames [(Opcode.compareInt width relation).instr] := operation rfl trivial

theorem i32Const (value : Int32) : Passes place frames [.i32Const value] := operation rfl trivial

theorem constInt (type : Ty) (value : Int64) : Passes place frames [constInt type value] := by
  cases type <;> exact operation rfl trivial

theorem constFloat (type : Ty) (bits : UInt64) : Passes place frames [constFloat type bits] := by
  cases type <;> exact operation rfl trivial

theorem equality (type : Ty) : Passes place frames [(equality type).instr] := by
  rw [Lowering.equality]
  split <;> exact operation rfl trivial

theorem operator {type : Ty} {op : String} {opcode : Opcode}
    (hOperator : operator? type op = some opcode) : Passes place frames [opcode.instr] := by
  unfold operator? intOperator? floatOperator? at hOperator
  split at hOperator <;> split at hOperator <;> cases hOperator <;> exact operation rfl trivial

/-- A condition that is met lets the check go on. -/
theorem of_require {condition : Prop} [Decidable condition] {cause : Nat → BodyError}
    (hFormed : instr.wellFormed = true) (hCondition : condition)
    (hStep : ∀ pc, place.step pc (frames + 1) instr =
      (require condition (cause pc) >>= fun _ => pure (frames + 1))) :
    Passes place frames [instr] := by
  refine single hFormed fun pc => ?_
  rw [hStep, require, if_pos hCondition]
  rfl

theorem br {label : UInt32} (hLabel : label.toNat < frames + 1) :
    Passes place frames [.br label] := of_require rfl hLabel fun _ => rfl

theorem brIf {label : UInt32} (hLabel : label.toNat < frames + 1) :
    Passes place frames [.brIf label] := of_require rfl hLabel fun _ => rfl

theorem call {function : UInt32} (hFunction : function.toNat < place.funcs) :
    Passes place frames [.call function] := of_require rfl hFunction fun _ => rfl

theorem localGet {index : UInt32} (hIndex : index.toNat < place.locals) :
    Passes place frames [.localGet index] := of_require rfl hIndex fun _ => rfl

theorem localSet {index : UInt32} (hIndex : index.toNat < place.locals) :
    Passes place frames [.localSet index] := of_require rfl hIndex fun _ => rfl

theorem localTee {index : UInt32} (hIndex : index.toNat < place.locals) :
    Passes place frames [.localTee index] := of_require rfl hIndex fun _ => rfl

theorem globalGet {index : UInt32} (hIndex : index.toNat < place.globals.length) :
    Passes place frames [.globalGet index] := of_require rfl hIndex fun _ => rfl

theorem globalSet {index : UInt32} {type : GlobalType}
    (hGlobal : place.globals[index.toNat]? = some (some type)) (hMutable : type.mutable = true) :
    Passes place frames [.globalSet index] := by
  refine single rfl fun pc => ?_
  have hIndex := (List.getElem?_eq_some_iff.1 hGlobal).1
  simp only [BodyContext.step, Instr.globalSet, Opcode.with, Opcode.ofByte?_byte, hGlobal,
    Option.join_some, require, if_pos hIndex, if_pos hMutable]
  rfl

theorem memoryGrow (hMemory : place.hasMemory = true) : Passes place frames [.memoryGrow] :=
  of_require rfl hMemory fun _ => rfl

/-- The alignment of a field never looks like the announcement of a memory. -/
theorem alignLog2_clear (type : FieldType) : type.alignLog2 &&& Immediate.memoryFlag = 0 := by
  cases type <;> decide

theorem load (hMemory : place.hasMemory = true) (field : Field) :
    Passes place frames [loadInstr field] := by
  have hFormed : (loadInstr field).wellFormed = true := by
    have hClear := alignLog2_clear field.type
    rw [loadInstr, Instr.access, ← Opcode.with, Instr.wellFormed_with]
    simpa [Opcode.admits] using hClear
  refine single hFormed fun pc => ?_
  simp only [BodyContext.step, loadInstr, Instr.access, Opcode.ofByte?_byte, require,
    if_pos hMemory]
  rfl

theorem store (hMemory : place.hasMemory = true) (field : Field) :
    Passes place frames [storeInstr field] := by
  have hFormed : (storeInstr field).wellFormed = true := by
    have hClear := alignLog2_clear field.type
    rw [storeInstr, Instr.access, ← Opcode.with, Instr.wellFormed_with]
    simpa [Opcode.admits] using hClear
  refine single hFormed fun pc => ?_
  simp only [BodyContext.step, storeInstr, Instr.access, Opcode.ofByte?_byte, require,
    if_pos hMemory]
  rfl

end Passes

/-- The functions that an environment knows are those of the module. -/
structure Admits (place : BodyContext) (env : Env) : Prop where
  memory : place.hasMemory = true
  alloc : env.heap.allocFunc.toNat < place.funcs
  funcs : ∀ ref ∈ env.funcs, ref.index.toNat < place.funcs
  methods : ∀ entry ∈ env.methods, entry.2.index.toNat < place.funcs
  constructors : ∀ entry ∈ env.constructors, entry.2.index.toNat < place.funcs

/-- A context has the names of its locals and its receiver in a body. -/
structure Sits (place : BodyContext) (context : Context) : Prop where
  admits : Admits place context.env
  scope : ∀ entry ∈ context.scope, entry.2.index.toNat < place.locals
  receiver : context.receiver ≠ "" → 0 < place.locals

namespace Sits

variable {context : Context}

theorem inFrame (hSits : Sits place context) : Sits place context.inFrame :=
  ⟨hSits.admits, hSits.scope, hSits.receiver⟩

theorem inLoop (hSits : Sits place context) : Sits place context.inLoop := hSits.inFrame.inFrame

theorem looping (hSits : Sits place context) (leave next : Nat) :
    Sits place (context.looping leave next) :=
  ⟨hSits.admits, hSits.scope, hSits.receiver⟩

theorem bind (hSits : Sits place context) (name : String) {slot : Slot}
    (hSlot : slot.index.toNat < place.locals) : Sits place (context.bind name slot) where
  admits := hSits.admits
  scope := by
    intro entry hEntry
    rcases List.mem_cons.1 hEntry with rfl | hOld
    · exact hSlot
    · exact hSits.scope entry hOld
  receiver := hSits.receiver

theorem lookup (hSits : Sits place context) {name : String} {slot : Slot}
    (hLookup : context.lookup? name = some slot) : slot.index.toNat < place.locals := by
  rw [Context.lookup?, Option.map_eq_some_iff] at hLookup
  obtain ⟨entry, hFind, rfl⟩ := hLookup
  exact hSits.scope entry (List.mem_of_find?_eq_some hFind)

theorem method (hSits : Sits place context) {record name : String} {ref : FuncRef}
    (hMethod : context.env.method? record name = some ref) : ref.index.toNat < place.funcs := by
  rw [Env.method?, List.findSome?_eq_some_iff] at hMethod
  obtain ⟨_, owner, _, -, hOwner, -⟩ := hMethod
  obtain ⟨entry, hFind, rfl⟩ := Option.map_eq_some_iff.1 hOwner
  exact hSits.admits.methods entry (List.mem_of_find?_eq_some hFind)

/-- Whatever a name is resolved to is a function of the module. -/
theorem callee (hSits : Sits place context) {function : String} {ref : FuncRef}
    (hCallee : context.callee? function = some ref) : ref.index.toNat < place.funcs := by
  rw [Context.callee?] at hCallee
  split at hCallee
  · rename_i found hFound
    cases hCallee
    exact hSits.admits.funcs _ (List.mem_of_find?_eq_some hFound)
  · rename_i hOwn
    cases hCallee
    rw [Context.ownMethod?] at hOwn
    split at hOwn
    · cases hOwn
    · exact hSits.method hOwn
  · obtain ⟨record, -, hRecord⟩ := Option.bind_eq_some_iff.1 hCallee
    obtain ⟨entry, hFind, rfl⟩ := Option.map_eq_some_iff.1 hRecord
    exact hSits.admits.constructors entry (List.mem_of_find?_eq_some hFind)

end Sits

/-- The number of slots that are handed out. -/
def Slots.size (slots : Slots) : Nat := slots.params + slots.locals.length

theorem Slots.Grows.size_le {before after : Slots} {count : Nat}
    (hGrows : before.Grows after count) :
    before.size ≤ after.size := by
  have hLocals := hGrows.locals.length_le
  rw [Slots.size, Slots.size, hGrows.params]
  omega

theorem Slots.next_lt (slots : Slots) (type : Ty) :
    (slots.next type).index.toNat < (slots.push type).size := by
  have hIndex : (slots.next type).index.toNat ≤ slots.size := toNat_toUInt32_le _
  simp only [Slots.size, Slots.push, List.length_append, List.length_singleton] at hIndex ⊢
  omega

/-- No label of an open frame leads further than the frames that are open. -/
theorem Context.label_lt (context : Context) (frame : Nat) :
    (context.label frame).toNat < context.frames + 1 := by
  have hLow : (context.label frame).toNat ≤ context.frames - 1 - frame := toNat_toUInt32_le _
  omega

/-! ## All code passes -/

/-- What is to be shown of a judgement: its code passes where it stands, and a statement leaves a
context that sits where it stood. -/
def Judgement.Passes (place : BodyContext) : Judgement → Prop
  | stmts context _ code after | stmt context _ code after => Sits place context →
      Lowering.Passes place context.frames code ∧ Sits place after ∧ after.frames = context.frames
  | expr context _ _ _ lowered => Sits place context →
      Lowering.Passes place context.frames lowered.code
  | value context _ _ code | settled context _ _ _ code | args context _ _ code =>
      Sits place context → Lowering.Passes place context.frames code
  | arms context slot _ _ code => Sits place context → slot.index.toNat < place.locals →
      Lowering.Passes place context.frames code
  | stores context _ address _ _ code => Sits place context → address.toNat < place.locals →
      Lowering.Passes place context.frames code

theorem receiver_of_path {context : Context} {name : String} {type : Ty}
    (hPath : context.receiverPathType? name = some type) : context.receiver ≠ "" := by
  rintro hNone
  rw [Context.receiverPathType?, if_pos hNone] at hPath
  cases hPath

theorem receiver_of_own {context : Context} {name : String} {ref : FuncRef}
    (hOwn : context.ownMethod? name = some ref) : context.receiver ≠ "" := by
  rintro hNone
  rw [Context.ownMethod?, if_pos hNone] at hOwn
  cases hOwn

/-- The receiver is the first local of a method. -/
theorem Passes.receiver {context : Context} (hSits : Sits place context)
    (hReceiver : context.receiver ≠ "") : Passes place frames [.localGet 0] :=
  .localGet (hSits.receiver hReceiver)

theorem Loads.passes {env : Env} {base : Ty} {path : List String} {lowered : Lowered}
    (hLoads : Loads env base path lowered) (hMemory : place.hasMemory = true) :
    Passes place frames lowered.code := by
  induction hLoads with
  | here => exact .nil
  | field _ _ _ ih => exact (Passes.load hMemory _).cons ih

theorem passes_alloc {env : Env} {decl : String} {record : Record} {address : UInt32} {code : Code}
    (hAdmits : Admits place env) (hAddress : address.toNat < place.locals)
    (hAlloc : allocCode env decl record address = .ok code) : Passes place frames code := by
  rw [allocCode] at hAlloc
  split at hAlloc
  · cases hAlloc
  · cases hAlloc
    have hTrap :
        Passes place frames (.ifThen voidBlock :: [Opcode.unreachable.instr] ++ [.close]) :=
      Passes.unreachable.ifThen voidBlock
    exact (Passes.i32Const _).cons ((Passes.i32Const _).cons ((Passes.call hAdmits.alloc).cons
      ((Passes.localTee hAddress).cons (Passes.eqz.cons hTrap))))

section Loops

variable {context : Context} {test first last body : Code}

/-- The two frames of a loop around code. -/
theorem passes_frames (hInside : Passes place (frames + 2) body) :
    Passes place frames ([.block voidBlock, .loop voidBlock] ++ body ++ [.close, .close]) := by
  have hBoth := (hInside.loop voidBlock).block voidBlock
  simpa using hBoth

theorem passes_while (hTest : Passes place (context.frames + 2) test)
    (hBody : Passes place (context.frames + 2) body) :
    Passes place context.frames (whileCode context test body) := by
  have hLeave : Passes place (context.frames + 2)
      [(Opcode.eqz .w32).instr, .brIf (context.inLoop.label context.frames)] :=
    Passes.eqz.cons (.brIf (Context.label_lt context.inLoop _))
  have hAgain :
      Passes place (context.frames + 2) [.br (context.inLoop.label (context.frames + 1))] :=
    .br (Context.label_lt context.inLoop _)
  have hCode := passes_frames (hTest.append (hLeave.append (hBody.append hAgain)))
  simpa [whileCode] using hCode

theorem passes_forever (hBody : Passes place (context.frames + 2) body) :
    Passes place context.frames (foreverCode context body) := by
  have hAgain :
      Passes place (context.frames + 2) [.br (context.inLoop.label (context.frames + 1))] :=
    .br (Context.label_lt context.inLoop _)
  have hCode := passes_frames (hBody.append hAgain)
  simpa [foreverCode] using hCode

theorem passes_range {type : Ty} {counter limit : UInt32} (hCounter : counter.toNat < place.locals)
    (hLimit : limit.toNat < place.locals) (hFirst : Passes place context.frames first)
    (hLast : Passes place context.frames last) (hBody : Passes place (context.frames + 3) body) :
    Passes place context.frames (rangeCode context type counter limit first last body) := by
  have hTest : Passes place (context.frames + 2)
      [.localGet counter, .localGet limit, (Opcode.compareInt (intWidth type) .geS).instr,
        .brIf (context.inLoop.label context.frames)] :=
    (Passes.localGet hCounter).cons ((Passes.localGet hLimit).cons ((Passes.compareInt _ _).cons
      (.brIf (Context.label_lt context.inLoop _))))
  have hTurn : Passes place (context.frames + 2)
      [.localGet counter, constInt type 1, (Opcode.int (intWidth type) .add).instr,
        .localSet counter, .br (context.inLoop.label (context.frames + 1))] :=
    (Passes.localGet hCounter).cons ((Passes.constInt _ _).cons ((Passes.int _ _).cons
      ((Passes.localSet hCounter).cons (.br (Context.label_lt context.inLoop _)))))
  have hLoop := passes_frames (hTest.append ((hBody.block voidBlock).append hTurn))
  have hCode := hFirst.append ((Passes.localSet hCounter).append (hLast.append
    ((Passes.localSet hLimit).append hLoop)))
  simpa [rangeCode] using hCode

end Loops

section Choices

variable {test yes no : Code}

theorem passes_branchOnly {type : Int32} (hTest : Passes place frames test)
    (hYes : Passes place (frames + 1) yes) :
    Passes place frames (test ++ .ifThen type :: yes ++ [.close]) := by
  simpa using hTest.append (hYes.ifThen type)

theorem passes_branch {type : Int32} (hTest : Passes place frames test)
    (hYes : Passes place (frames + 1) yes) (hNo : Passes place (frames + 1) no) :
    Passes place frames
      (test ++ .ifThen type :: yes ++ Opcode.otherwise.instr :: no ++ [.close]) := by
  simpa using hTest.append (hYes.ifElse type hNo)

theorem passes_literalArm {slot : Slot} {type : Ty} (hSlot : slot.index.toNat < place.locals)
    (hTest : Passes place frames test) (hYes : Passes place (frames + 1) yes)
    (hNo : Passes place (frames + 1) no) :
    Passes place frames (literalArmCode slot type test yes no) := by
  have hSame := (Passes.localGet hSlot).cons (hTest.append (.equality slot.type))
  simpa [literalArmCode] using hSame.append (hYes.ifElse (blockType type) hNo)

end Choices

/-- Code that has a derivation passes wherever there is room for its slots. -/
theorem Derives.passes {before after : Slots} {judgement : Judgement}
    (hDerives : Derives before judgement after) (hRoom : after.size ≤ place.locals) :
    judgement.Passes place := by
  induction hDerives with
  | nil => exact fun hSits => ⟨.nil, hSits, rfl⟩
  | cons _ hRest ihFirst ihRest =>
      intro hSits
      obtain ⟨hFirst, hMiddle, hFrames⟩ := ihFirst (hRest.grows.size_le.trans hRoom) hSits
      obtain ⟨hOthers, hAfter, hSame⟩ := ihRest hRoom hMiddle
      exact ⟨hFirst.append (hFrames ▸ hOthers), hAfter, hSame.trans hFrames⟩
  | declare _ _ _ ih =>
      intro hSits
      have hSlot := Nat.lt_of_lt_of_le (Slots.next_lt _ _) hRoom
      exact ⟨(ih ((Slots.Grows.push _ _).size_le.trans hRoom) hSits).append (.localSet hSlot),
        hSits.bind _ hSlot, rfl⟩
  | assign hLookup _ ih =>
      intro hSits
      exact ⟨(ih hRoom hSits).append (.localSet (hSits.lookup hLookup)), hSits, rfl⟩
  | leaveVoid _ => exact fun hSits => ⟨.ret, hSits, rfl⟩
  | leaveWith _ _ ih => exact fun hSits => ⟨(ih hRoom hSits).append .ret, hSits, rfl⟩
  | eval _ ih => exact fun hSits => ⟨ih hRoom hSits, hSits, rfl⟩
  | whileLoop _ hBody ihTest ihBody =>
      intro hSits
      have hTest := ihTest (hBody.grows.size_le.trans hRoom) hSits.inLoop
      exact ⟨passes_while hTest (ihBody hRoom (hSits.inLoop.looping _ _)).1, hSits, rfl⟩
  | forever _ ih =>
      intro hSits
      exact ⟨passes_forever (ih hRoom (hSits.inLoop.looping _ _)).1, hSits, rfl⟩
  | forRange _ _ _ hStop hBody ihStart ihStop ihBody =>
      intro hSits
      have hPushed := hBody.grows.size_le.trans hRoom
      have hSecond := (Slots.Grows.push _ _).size_le.trans hPushed
      have hFirst := hStop.grows.size_le.trans hSecond
      have hCounter := Nat.lt_of_lt_of_le (Slots.next_lt _ _) hFirst
      have hLimit := Nat.lt_of_lt_of_le (Slots.next_lt _ _) hPushed
      have hCounting (var : String) := hSits.bind var hCounter
      exact ⟨passes_range hCounter hLimit
        (ihStart ((Slots.Grows.push _ _).size_le.trans hFirst) hSits) (ihStop hSecond (hCounting _))
        (ihBody hRoom ((hCounting _).inLoop.inFrame.looping _ _)).1, hSits, rfl⟩
  | leave _ | next _ => exact fun hSits => ⟨.br (Context.label_lt _ _), hSits, rfl⟩
  | value _ _ ih | kept _ _ _ ih => exact ih hRoom
  | discarded _ _ ih =>
      intro hSits
      rw [discard]
      split
      · exact ih hRoom hSits
      · exact (ih hRoom hSits).append .drop
  | int _ => exact fun _ => .constInt _ _
  | float _ => exact fun _ => .constFloat _ _
  | bool | named | variant => exact fun _ => .i32Const _
  | bound hLookup => exact fun hSits => .localGet (hSits.lookup hLookup)
  | self _ hReceiver => exact fun hSits => .receiver hSits hReceiver
  | path _ _ hPath hLoads =>
      intro hSits
      exact (Passes.receiver hSits (receiver_of_path hPath)).cons
        (hLoads.passes hSits.admits.memory)
  | logical _ _ hRight ihLeft ihRight =>
      intro hSits
      refine ((ihLeft (hRight.grows.size_le.trans hRoom) hSits).append
        (ihRight hRoom hSits)).append ?_
      split <;> exact .int _ _
  | binary _ _ _ _ hRight hOperator ihLeft ihRight =>
      intro hSits
      exact ((ihLeft (hRight.grows.size_le.trans hRoom) hSits).append (ihRight hRoom hSits)).append
        (.operator hOperator)
  | not _ ih => exact fun hSits => (ih hRoom hSits).append .eqz
  | negateFloat _ _ _ ih => exact fun hSits => (ih hRoom hSits).append (.operation rfl trivial)
  | negateInt _ _ _ ih =>
      exact fun hSits => ((Passes.constInt _ _).cons (ih hRoom hSits)).append (.int _ _)
  | call hCalls _ ih =>
      exact fun hSits => (ih hRoom hSits).append (.call (hSits.callee hCalls.1))
  | ownCall hNone hOwn _ ih =>
      intro hSits
      exact ((Passes.receiver hSits (receiver_of_own hOwn)).cons (ih hRoom hSits)).append
        (.call (hSits.callee (Context.callee?_own hNone hOwn)))
  | methodCall _ hMethod _ hArgs ihReceiver ihArgs =>
      intro hSits
      exact ((ihReceiver (hArgs.grows.size_le.trans hRoom) hSits).append
        (ihArgs hRoom hSits)).append (.call (hSits.method hMethod))
  | noArgs => exact fun _ => .nil
  | arg _ hRest ihFirst ihRest =>
      intro hSits
      exact (ihFirst (hRest.grows.size_le.trans hRoom) hSits).append (ihRest hRoom hSits)
  | branchOnly _ hBody ihTest ihBody =>
      intro hSits
      exact passes_branchOnly (ihTest (hBody.grows.size_le.trans hRoom) hSits)
        (ihBody hRoom hSits.inFrame)
  | branch _ _ _ hYes hNo ihTest ihYes ihNo =>
      intro hSits
      have hSecond := hNo.grows.size_le.trans hRoom
      exact passes_branch (ihTest (hYes.grows.size_le.trans hSecond) hSits)
        (ihYes hSecond hSits.inFrame) (ihNo hRoom hSits.inFrame)
  | blockOnly _ _ ih =>
      intro hSits
      simp only
      split
      · exact (ih hRoom hSits).1
      · exact (ih hRoom hSits).1.append .unreachable
  | block _ _ _ hTail ihStmts ihTail =>
      intro hSits
      obtain ⟨hStmts, hInner, hFrames⟩ := ihStmts (hTail.grows.size_le.trans hRoom) hSits
      exact hStmts.append (hFrames ▸ ihTail hRoom hInner)
  | cases _ _ _ _ _ hArms ihScrutinee ihArms =>
      intro hSits
      have hPushed := hArms.grows.size_le.trans hRoom
      have hSlot := Nat.lt_of_lt_of_le (Slots.next_lt _ _) hPushed
      exact (ihScrutinee ((Slots.Grows.push _ _).size_le.trans hPushed) hSits).append
        ((Passes.localSet hSlot).cons (ihArms hRoom hSits hSlot))
  | noArm => exact fun _ _ => .unreachable
  | wildcard _ ih => exact fun hSits _ => ih hRoom hSits
  | bind hBody ih =>
      intro hSits hSlot
      have hBound := Nat.lt_of_lt_of_le (Slots.next_lt _ _) (hBody.grows.size_le.trans hRoom)
      exact (Passes.localGet hSlot).cons ((Passes.localSet hBound).cons
        (ih hRoom (hSits.bind _ hBound)))
  | literal _ hBody hRest ihValue ihBody ihRest =>
      intro hSits hSlot
      have hSecond := hRest.grows.size_le.trans hRoom
      exact passes_literalArm hSlot (ihValue (hBody.grows.size_le.trans hSecond) hSits)
        (ihBody hSecond hSits.inFrame) (ihRest hRoom hSits.inFrame hSlot)
  | member _ _ _ _ ih =>
      exact fun hSits => (ih hRoom hSits).append (.load hSits.admits.memory _)
  | construct _ _ hAlloc hStores ih =>
      intro hSits
      have hSlot := Nat.lt_of_lt_of_le (Slots.next_lt _ _) (hStores.grows.size_le.trans hRoom)
      exact ((passes_alloc hSits.admits hSlot hAlloc).append (ih hRoom hSits hSlot)).append
        (.localGet hSlot)
  | stored => exact fun _ _ => .nil
  | store _ _ hRest ihValue ihRest =>
      intro hSits hAddress
      exact (Passes.localGet hAddress).cons
        ((ihValue (hRest.grows.size_le.trans hRoom) hSits).append
        ((Passes.store hSits.admits.memory _).cons (ihRest hRoom hSits hAddress)))

/-- The statements of a function pass. -/
theorem Body.passes {context : Context} {stmts : List Stmt} {before after : Slots} {code : Code}
    (hBody : Body context stmts before code after) (hRoom : after.size ≤ place.locals)
    (hSits : Sits place context) : Passes place context.frames code := by
  cases hBody with
  | value _ _ hFront hValue =>
      obtain ⟨hCode, hInner, hFrames⟩ := hFront.passes (hValue.grows.size_le.trans hRoom) hSits
      exact hCode.append (hFrames ▸ hValue.passes hRoom hInner)
  | void _ hStmts => exact (hStmts.passes hRoom hSits).1
  | trap _ _ hStmts => exact (hStmts.passes hRoom hSits).1.append .unreachable

end RecordWasm.Lowering
