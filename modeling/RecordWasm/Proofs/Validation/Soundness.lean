import RecordWasm.Proofs.Validation.Rules
import RecordWasm.Proofs.Validation.Tags

/-!
# Generated code passes

Code that has a derivation leaves what the type that comes with it says, wherever it stands.  The
proof is by induction over the derivation; `Fits` is what has to be known of the place.
-/

namespace RecordWasm.Validation

open Syntax Layout Lowering Wasm

/-- The values that represent a type on the stack: one, or none for `void`. -/
def reprs (type : Ty) : List ValType := (numType? type).toList.map NumType.valType

theorem reprs_of_numType? {type : Ty} {number : NumType} (hNumber : numType? type = some number) :
    reprs type = [number.valType] := by
  rw [reprs, hNumber]
  rfl

theorem reprs_of_isVoid {type : Ty} (hVoid : type.isVoid = true) : reprs type = [] := by
  cases type <;> first | rfl | cases hVoid

/-- A type that is not `void` is represented by a number. -/
theorem numType?_of_isVoid {type : Ty} (hSome : type.isVoid = false) :
    ∃ number, numType? type = some number := by
  cases type <;> first | exact ⟨_, rfl⟩ | cases hSome

theorem reverse_reprs (type : Ty) : (reprs type).reverse = reprs type := by
  rw [reprs]
  cases numType? type <;> rfl

theorem reprs_of_sameRepr {left right : Ty} (hSame : sameRepr left right = true) :
    reprs left = reprs right := by
  rw [sameRepr, beq_iff_eq] at hSame
  rw [reprs, reprs, hSame]

theorem params_signature (params : List Ty) (result : Ty) :
    (signature params result).params = params.flatMap reprs := by
  rw [signature]
  induction params with
  | nil => rfl
  | cons type rest ih =>
      simp only [List.filterMap_cons, List.flatMap_cons, reprs]
      cases numType? type <;> simp [← ih]

/-- The block of a type leaves the values that represent it. -/
theorem block?_blockType (scope : Scope) (type : Ty) :
    scope.block? (blockType type) = some ([], reprs type) := by
  rw [blockType, reprs]
  cases numType? type with
  | none => rfl
  | some number => cases number <;> rfl

theorem block?_void (scope : Scope) : scope.block? voidBlock = some ([], []) := rfl

theorem constant?_constInt {type : Ty} (hSome : type.isVoid = false) (value : Int64) :
    ∃ number immediate, constInt type value = (Opcode.const number).with immediate ∧
      numType? type = some number ∧ constant? number immediate = some number.valType := by
  cases type with
  | void => cases hSome
  | i64 => exact ⟨.i64, _, rfl, rfl, rfl⟩
  | f32 => exact ⟨.f32, _, rfl, rfl, rfl⟩
  | f64 => exact ⟨.f64, _, rfl, rfl, rfl⟩
  | i32 | bool | string | record | enum => exact ⟨.i32, _, rfl, rfl, rfl⟩

/-- The accesses of fields are admitted where there is a memory. -/
theorem admits_field {scope : Scope} (hMemory : 0 < scope.memories) (field : Field) :
    scope.admits field.type.numType ⟨field.type.alignLog2, field.offset.toUInt64, 0⟩ = true := by
  have hOffset : field.offset.toUInt64 ≤ 0xFFFFFFFF := by
    rw [UInt64.le_iff_toNat_le, UInt32.toNat_toUInt64]
    exact Nat.le_of_lt_succ field.offset.toNat_lt
  have hAlign : field.type.alignLog2 ≤ Machine.naturalAlign field.type.numType := by
    cases field.type <;> decide
  simp [Scope.admits, hMemory, hAlign, hOffset]

theorem operation?_intOperator {width : Width} {op : String} {opcode : Opcode}
    (hOperator : intOperator? width op = some opcode) :
    operation? opcode =
      some ([width.intType, width.intType], if isComparison op then .i32 else width.intType) := by
  unfold intOperator? at hOperator
  split at hOperator <;> cases hOperator <;> rfl

theorem operation?_floatOperator {width : Width} {op : String} {opcode : Opcode}
    (hOperator : floatOperator? width op = some opcode) :
    operation? opcode =
      some ([width.floatType, width.floatType], if isComparison op then .i32
        else width.floatType) := by
  unfold floatOperator? at hOperator
  split at hOperator <;> cases hOperator <;> rfl

/-- An operator takes two values of its type and leaves one, or a truth value. -/
theorem operation?_operator {type : Ty} {number : NumType} {op : String} {opcode : Opcode}
    (hNumber : numType? type = some number) (hOperator : operator? type op = some opcode) :
    operation? opcode = some ([number, number], if isComparison op then .i32 else number) := by
  rw [operator?, hNumber] at hOperator
  cases number with
  | i32 => exact operation?_intOperator hOperator
  | i64 => exact operation?_intOperator hOperator
  | f32 => exact operation?_floatOperator hOperator
  | f64 => exact operation?_floatOperator hOperator

theorem operation?_equality {type : Ty} {number : NumType} (hNumber : numType? type = some number) :
    operation? (equality type) = some ([number, number], .i32) := by
  rw [equality, hNumber]
  cases number <;> rfl

/-! ## The place where code stands -/

/-- The functions that the code of an environment calls are those of the module. -/
structure Known (env : Env) (scope : Scope) : Prop where
  lays : env.registry.Lays env.records
  typed : env.Typed
  funcs : ∀ ref ∈ env.funcs, scope.function? ref.index = some ref.type
  methods : ∀ entry ∈ env.methods, scope.function? entry.2.index = some entry.2.type ∧
    ∃ params, entry.2.params = .record entry.1 :: params
  constructors : ∀ entry ∈ env.constructors, scope.function? entry.2.index = some entry.2.type
  alloc : scope.function? env.heap.allocFunc = some Heap.allocType
  memory : 0 < scope.memories

/-- A slot is a local that holds values of its type. -/
def Held (scope : Scope) (slot : Slot) : Prop :=
  ∃ number, numType? slot.type = some number ∧
    scope.locals[slot.index.toNat]? = some number.valType

/-- A frame that is left with nothing on the stack. -/
def Empties (context : Context) (exits : Exits) (frame : Nat) : Prop :=
  frame < context.frames ∧ exits.labels[context.frames - 1 - frame]? = some []

/-- Inside one more frame, all others are one further away. -/
theorem Empties.inFrame {context : Context} {exits : Exits} {frame : Nat}
    (hFrame : Empties context exits frame) (label : List ValType) :
    Empties context.inFrame (exits.inside label) frame := by
  obtain ⟨hInside, hLabel⟩ := hFrame
  refine ⟨Nat.lt_succ_of_lt hInside, ?_⟩
  have hIndex : context.inFrame.frames - 1 - frame = (context.frames - 1 - frame) + 1 := by
    simp only [Context.inFrame]
    omega
  rw [hIndex]
  exact hLabel

/-- A context describes the place where code stands. -/
structure Describes (context : Context) (scope : Scope) (exits : Exits) : Prop where
  slots : ∀ entry ∈ context.scope, Held scope entry.2
  receiver : context.receiver ≠ "" → scope.locals[0]? = some .i32
  results : exits.results = reprs context.result
  frames : exits.labels.length = context.frames + 1
  loop : ∀ targets, context.loop = some targets →
    Empties context exits targets.leave ∧ Empties context exits targets.next

/-- A context describes a place in a module that has the functions of its environment. -/
structure Fits (context : Context) (scope : Scope) (exits : Exits) : Prop extends
    Describes context scope exits where
  known : Known context.env scope

namespace Fits

variable {context : Context} {scope : Scope} {exits : Exits} (hFits : Fits context scope exits)
include hFits

theorem bind {slot : Slot} (hSlot : Held scope slot) (name : String) :
    Fits (context.bind name slot) scope exits :=
  { hFits with
    slots := fun entry hEntry => by
      rcases List.mem_cons.1 hEntry with rfl | hOld
      · exact hSlot
      · exact hFits.slots entry hOld }

theorem lookup {name : String} {slot : Slot} (hLookup : context.lookup? name = some slot) :
    Held scope slot := by
  rw [Context.lookup?] at hLookup
  obtain ⟨entry, hEntry, rfl⟩ := Option.map_eq_some_iff.1 hLookup
  exact hFits.slots entry (List.mem_of_find?_eq_some hEntry)

theorem inFrame (label : List ValType) : Fits context.inFrame scope (exits.inside label) where
  known := hFits.known
  slots := hFits.slots
  receiver := hFits.receiver
  results := hFits.results
  frames := by
    rw [Exits.inside, List.length_cons, hFits.frames]
    rfl
  loop := fun targets hTargets => by
    obtain ⟨hLeave, hNext⟩ := hFits.loop targets hTargets
    exact ⟨hLeave.inFrame label, hNext.inFrame label⟩

theorem looping {leave next : Nat} (hLeave : Empties context exits leave)
    (hNext : Empties context exits next) : Fits (context.looping leave next) scope exits :=
  { hFits with
    loop := fun targets hTargets => by
      cases hTargets
      exact ⟨hLeave, hNext⟩ }

omit hFits in
/-- The label of a frame refers to it. -/
theorem label {frame : Nat} (hFrame : Empties context exits frame)
    (hRoom : context.frames < 2 ^ 32) :
    exits.labels[(context.label frame).toNat]? = some [] := by
  rw [Context.label, toNat_toUInt32 (by omega)]
  exact hFrame.2

end Fits

/-- All slots are among the locals of the function. -/
def Within (slots : Slots) (locals : List ValType) : Prop :=
  ∃ front, front.length = slots.params ∧ front ++ slots.locals.map NumType.valType <+: locals ∧
    locals.length < 2 ^ 32

theorem Within.before {before after : Slots} {count : Nat} {locals : List ValType}
    (hGrows : before.Grows after count) (hWithin : Within after locals) : Within before locals := by
  obtain ⟨front, hFront, hPrefix, hFew⟩ := hWithin
  refine ⟨front, hFront.trans hGrows.params, ?_, hFew⟩
  exact ((List.prefix_append_right_inj front).2 (hGrows.locals.map _)).trans hPrefix

/-- A slot that was handed out is a local. -/
theorem Within.next {slots : Slots} {type : Ty} {scope : Scope} (hSome : type.isVoid = false)
    (hWithin : Within (slots.push type) scope.locals) : Held scope (slots.next type) := by
  obtain ⟨number, hNumber⟩ := numType?_of_isVoid hSome
  obtain ⟨front, hFront, ⟨rest, hLocals⟩, hFew⟩ := hWithin
  refine ⟨number, hNumber, ?_⟩
  have hLength : slots.params + slots.locals.length < scope.locals.length := by
    rw [← hLocals]
    simp [Slots.push, hFront]
  rw [Slots.next, toNat_toUInt32 (by omega), ← hLocals]
  simp [Slots.push, hNumber, hFront]

/-! ## Code of single constructs -/

section Constructs

variable {context : Context} {scope : Scope} {exits : Exits}

/-- The exits inside the two frames of a loop. -/
def Exits.inLoop (exits : Exits) : Exits := (exits.inside []).inside []

theorem Fits.inLoop (hFits : Fits context scope exits) : Fits context.inLoop scope exits.inLoop :=
  (hFits.inFrame []).inFrame []

theorem empties_outer : Empties context.inLoop exits.inLoop context.frames := by
  refine ⟨Nat.lt_succ_of_lt (Nat.lt_succ_self _), ?_⟩
  have hIndex : context.inLoop.frames - 1 - context.frames = 1 := by
    simp only [Context.inLoop, Context.inFrame]
    omega
  rw [hIndex]
  rfl

theorem empties_inner : Empties context.inLoop exits.inLoop (context.frames + 1) := by
  refine ⟨Nat.lt_succ_self _, ?_⟩
  have hIndex : context.inLoop.frames - 1 - (context.frames + 1) = 0 := by
    simp only [Context.inLoop, Context.inFrame]
    omega
  rw [hIndex]
  rfl

theorem empties_body : Empties context.inFrame (exits.inside []) context.frames := by
  refine ⟨Nat.lt_succ_self _, ?_⟩
  have hIndex : context.inFrame.frames - 1 - context.frames = 0 := by
    simp only [Context.inFrame]
    omega
  rw [hIndex]
  rfl

theorem types_eqz : Types scope exits [(Opcode.eqz .w32).instr] [.i32] [.i32] :=
  @Types.operation scope exits (.eqz .w32) [.i32] .i32 rfl

/-- Two frames around code that ends by starting again. -/
theorem types_again {code : Code} (hRoom : context.frames + 2 < 2 ^ 32)
    (hCode : Types scope exits.inLoop code [] []) :
    Types scope exits ([.block voidBlock, .loop voidBlock] ++ code ++
      [.br (context.inLoop.label (context.frames + 1)), .close, .close]) [] [] := by
  have hAgain : Types scope exits.inLoop [.br (context.inLoop.label (context.frames + 1))] [] [] :=
    .br (Fits.label empties_inner hRoom)
  have hLoop :=
    Types.block (block?_void scope) (Types.loop (block?_void scope) (hCode.append hAgain))
  simpa using hLoop

theorem types_while {test body : Code} (hRoom : context.frames + 2 < 2 ^ 32)
    (hTest : Types scope exits.inLoop test [] [.i32])
    (hBody : Types scope exits.inLoop body [] []) :
    Types scope exits (whileCode context test body) [] [] := by
  have hLeave : Types scope exits.inLoop [.brIf (context.inLoop.label context.frames)] [.i32] [] :=
    .brIf (Fits.label empties_outer hRoom)
  have hWhole := types_again hRoom (hTest.append (types_eqz.append (hLeave.append hBody)))
  simpa [whileCode] using hWhole

theorem types_forever {body : Code} (hRoom : context.frames + 2 < 2 ^ 32)
    (hBody : Types scope exits.inLoop body [] []) :
    Types scope exits (foreverCode context body) [] [] :=
  types_again hRoom hBody

/-- The width of an integer type is that of the number that represents it. -/
theorem numType?_of_isInteger {type : Ty} (hInteger : type.isInteger = true) :
    numType? type = some (intWidth type).intType := by
  cases type <;> first | rfl | cases hInteger

theorem types_constInt {type : Ty} (hSome : type.isVoid = false) (value : Int64) :
    Types scope exits [constInt type value] [] (reprs type) := by
  obtain ⟨number, immediate, hConst, hNumber, hConstant⟩ := constant?_constInt hSome value
  rw [hConst, reprs_of_numType? hNumber]
  exact .const hConstant

theorem types_constFloat {type : Ty} (hFloat : type.isFloat = true) (bits : UInt64) :
    Types scope exits [constFloat type bits] [] (reprs type) := by
  cases type with
  | f32 => exact @Types.const _ _ .f32 _ _ rfl
  | f64 => exact @Types.const _ _ .f64 _ _ rfl
  | _ => cases hFloat

/-- The type of a literal with a fraction. -/
theorem isFloat_of_tagged {hint assigned type : Ty}
    (hType : type = if hint.isFloat then hint else orDefault assigned .f64)
    (hTagged : assigned.isVoid = true ∨ assigned.isFloat = true) : type.isFloat = true := by
  rw [hType]
  split
  · assumption
  · rw [orDefault]
    split
    · rfl
    · rename_i hSome
      exact hTagged.resolve_left hSome

theorem Held.get {slot : Slot} (hHeld : Held scope slot) :
    Types scope exits [.localGet slot.index] [] (reprs slot.type) := by
  obtain ⟨number, hNumber, hLocal⟩ := hHeld
  rw [reprs_of_numType? hNumber]
  exact .localGet hLocal

theorem Held.set {slot : Slot} (hHeld : Held scope slot) :
    Types scope exits [.localSet slot.index] (reprs slot.type) [] := by
  obtain ⟨number, hNumber, hLocal⟩ := hHeld
  rw [reprs_of_numType? hNumber]
  exact .localSet hLocal

theorem types_range {type : Ty} {counter limit : Slot} {first last body : Code}
    (hInteger : type.isInteger = true) (hCounter : Held scope counter) (hLimit : Held scope limit)
    (hCounterType : counter.type = type) (hLimitType : limit.type = type)
    (hRoom : context.frames + 2 < 2 ^ 32) (hFirst : Types scope exits first [] (reprs type))
    (hLast : Types scope exits last [] (reprs type))
    (hBody : Types scope (exits.inLoop.inside []) body [] []) :
    Types scope exits (rangeCode context type counter.index limit.index first last body) [] [] := by
  subst hCounterType
  have hNumber := reprs_of_numType? (numType?_of_isInteger hInteger)
  have hSome := isVoid_of_isInteger hInteger
  have hSetLimit := hLast.append (hLimitType ▸ hLimit.set)
  have hGetLimit : Types scope exits.inLoop [.localGet limit.index] [] (reprs counter.type) :=
    hLimitType ▸ hLimit.get
  rw [hNumber] at hGetLimit
  have hCompare : Types scope exits.inLoop [(Opcode.compareInt (intWidth counter.type) .geS).instr]
      [(intWidth counter.type).intType.valType, (intWidth counter.type).intType.valType] [.i32] :=
    @Types.operation _ _ (.compareInt _ _) [_, _] .i32 rfl
  have hLeave : Types scope exits.inLoop [.brIf (context.inLoop.label context.frames)] [.i32] [] :=
    .brIf (Fits.label empties_outer hRoom)
  have hInner := Types.block (block?_void scope) hBody
  have hOne : Types scope exits.inLoop [constInt counter.type 1] [] (reprs counter.type) :=
    types_constInt hSome 1
  have hGet : Types scope exits.inLoop [.localGet counter.index] [] (reprs counter.type) :=
    hCounter.get
  have hSet : Types scope exits.inLoop [.localSet counter.index] (reprs counter.type) [] :=
    hCounter.set
  rw [hNumber] at hOne hGet hSet
  have hAdd : Types scope exits.inLoop [(Opcode.int (intWidth counter.type) .add).instr]
      [(intWidth counter.type).intType.valType, (intWidth counter.type).intType.valType]
      [(intWidth counter.type).intType.valType] := @Types.operation _ _ (.int _ _) [_, _] _ rfl
  have hRound := hGet.append ((hGetLimit.above _).append (hCompare.append (hLeave.append
    (hInner.append (hGet.append ((hOne.above _).append (hAdd.append hSet)))))))
  have hWhole := (hFirst.append hCounter.set).append (hSetLimit.append (types_again hRoom hRound))
  simpa [rangeCode] using hWhole

/-- A load of a field leaves what its declared type says. -/
theorem types_load (hKnown : Known context.env scope) {name field : String} {record : Record}
    {found : Field} (hGet : context.env.registry.get? name = some record)
    (hField : record.field? field = some found) :
    Types scope exits [loadInstr found] [.i32] (reprs (context.env.typeOfField name found)) := by
  rw [reprs_of_numType? (numType?_typeOfField hKnown.lays hGet (List.mem_of_find?_eq_some hField))]
  exact .load (admits_field hKnown.memory found)

theorem types_loads (hKnown : Known context.env scope) {base : Ty} {path : List String}
    {lowered : Lowered} (hLoads : Loads context.env base path lowered) :
    Types scope exits lowered.code (reprs base) (reprs lowered.type) := by
  induction hLoads with
  | here => exact .nil
  | field hGet hField _ ih => exact (types_load hKnown hGet hField).cons ih

/-- Allocating a record leaves nothing but its address in a local. -/
theorem types_alloc (hKnown : Known context.env scope) {decl : String} {record : Record}
    {address : UInt32} {alloc : Code} (hAddress : scope.locals[address.toNat]? = some .i32)
    (hAlloc : allocCode context.env decl record address = .ok alloc) :
    Types scope exits alloc [] [] := by
  rw [allocCode] at hAlloc
  split at hAlloc
  · cases hAlloc
  · cases hAlloc
    have hWord (value : Int32) : Types scope exits [.i32Const value] [] [.i32] := .const rfl
    have hCall : Types scope exits [.call context.env.heap.allocFunc] [.i32, .i32] [.i32] :=
      .call hKnown.alloc
    have hTest := types_eqz.append (@Types.ifThen scope exits _ _ (block?_void scope) .unreachable)
    exact (hWord _).append (((hWord _).above [.i32]).append (hCall.append
      ((Types.localTee hAddress).append hTest)))

theorem types_ifElse {type : Ty} {yes no : Code}
    (hYes : Types scope (exits.inside (reprs type)) yes [] (reprs type))
    (hNo : Types scope (exits.inside (reprs type)) no [] (reprs type)) :
    Types scope exits (.ifThen (blockType type) :: yes ++ Opcode.otherwise.instr :: no ++ [.close])
      [.i32] (reprs type) := by
  have hIf := @Types.ifElse scope exits _ _ yes no (block?_blockType scope type)
  rw [reverse_reprs] at hIf
  exact hIf hYes hNo

/-- The first arm of a match whose pattern is a literal. -/
theorem types_literalArm {slot : Slot} {type : Ty} {constant code others : Code}
    (hSlot : Held scope slot) (hConstant : Types scope exits constant [] (reprs slot.type))
    (hCode : Types scope (exits.inside (reprs type)) code [] (reprs type))
    (hOthers : Types scope (exits.inside (reprs type)) others [] (reprs type)) :
    Types scope exits (literalArmCode slot type constant code others) [] (reprs type) := by
  have hGet : Types scope exits [.localGet slot.index] [] (reprs slot.type) := hSlot.get
  obtain ⟨number, hNumber, -⟩ := hSlot
  rw [reprs_of_numType? hNumber] at hGet hConstant
  have hTest : Types scope exits [(equality slot.type).instr] [number.valType, number.valType]
      [.i32] := @Types.operation _ _ _ [_, _] .i32 (operation?_equality hNumber)
  have hWhole :=
    hGet.append ((hConstant.above _).append (hTest.append (types_ifElse hCode hOthers)))
  simpa [literalArmCode] using hWhole

end Constructs

/-! ## All code -/

/-- Code leaves values wherever its context fits, if the source is tagged as it has to be. -/
def Leaves (scope : Scope) (context : Context) (tagged : Bool) (code : Code)
    (types : List ValType) : Prop :=
  ∀ exits, Fits context scope exits → context.frames + code.length < 2 ^ 32 → tagged = true →
    Types scope exits code [] types

/-- The context behind statements differs in the names that are bound, each to a local. -/
def Continues (scope : Scope) (context after : Context) (names : List String) : Prop :=
  ∃ bound, after = { context with scope := bound } ∧ bound.map Prod.fst = names ∧
    ((∀ entry ∈ context.scope, Held scope entry.2) → ∀ entry ∈ bound, Held scope entry.2)

theorem Continues.refl (scope : Scope) (context : Context) :
    Continues scope context context context.names :=
  ⟨context.scope, rfl, rfl, id⟩

/-- What has to hold of a judgement: its code leaves what its type says. -/
def Sound (scope : Scope) : Judgement → Prop
  | .stmts context stmts code after =>
      Leaves scope context (stmtsTagged context.receiverPathType? context.names stmts) code [] ∧
        Continues scope context after (stmts.foldl boundBehind context.names)
  | .stmt context stmt code after =>
      Leaves scope context (stmtTagged context.receiverPathType? context.names stmt) code [] ∧
        Continues scope context after (boundBehind context.names stmt)
  | .expr context _ _ expr lowered =>
      Leaves scope context (context.tagged expr) lowered.code (reprs lowered.type)
  | .value context want expr code | .settled context want _ expr code =>
      Leaves scope context (context.tagged expr) code (reprs want)
  | .args context params args code =>
      Leaves scope context (argsTagged context.receiverPathType? context.names args) code
        (params.flatMap reprs).reverse
  | .arms context slot type arms code =>
      Held scope slot →
        Leaves scope context (armsTagged context.receiverPathType? context.names arms) code
          (reprs type)
  | .stores context name address inits fields code =>
      scope.locals[address.toNat]? = some .i32 →
        (∀ field ∈ fields,
          numType? (context.env.typeOfField name field) = some field.type.numType) →
        Leaves scope context (initsTagged context.receiverPathType? context.names inits) code []

section Cases

variable {scope : Scope} {before first middle second after : Slots} {context inner : Context}

theorem sound_cons {stmt : Stmt} {rest : List Stmt} {outer : Context} {code others : Code}
    (hFirst : Sound scope (.stmt context stmt code inner))
    (hRest : Sound scope (.stmts inner rest others outer)) :
    Sound scope (.stmts context (stmt :: rest) (code ++ others) outer) := by
  obtain ⟨hCode, names, rfl, hNames, hSlots⟩ := hFirst
  obtain ⟨hOthers, more, rfl, hMore, hHeld⟩ := hRest
  refine ⟨fun exits hFits hRoom hTagged => ?_, more, rfl, ?_, hHeld ∘ hSlots⟩
  · rw [stmtsTagged, Bool.and_eq_true] at hTagged
    rw [List.length_append] at hRoom
    refine (hCode exits hFits (by omega) hTagged.1).append
      (hOthers exits { hFits with slots := hSlots hFits.slots } (by simp only; omega) ?_)
    rw [Context.names, hNames]
    exact hTagged.2
  · rw [hMore, Context.names, hNames]
    rfl

theorem sound_declare {pos : Position} {name : String} {given type : Ty} {value : Expr}
    {code : Code} {slot : Slot} (hSlot : Held scope slot) (hType : slot.type = type)
    (hValue : Sound scope (.value context type value code)) :
    Sound scope (.stmt context (.declare pos name given value) (code ++ [.localSet slot.index])
      (context.bind name slot)) := by
  refine ⟨fun exits hFits hRoom hTagged => ?_, _, rfl, rfl, fun hScope entry hEntry => ?_⟩
  · rw [List.length_append] at hRoom
    exact (hValue exits hFits (by omega) hTagged).append (hType ▸ hSlot.set)
  · rcases List.mem_cons.1 hEntry with rfl | hOld
    · exact hSlot
    · exact hScope entry hOld

theorem sound_whileLoop {pos : Position} {cond : Expr} {body : List Stmt} {test code : Code}
    (hCond : Sound scope (.value context.inLoop .bool cond test))
    (hBody : Sound scope
      (.stmts (context.inLoop.looping context.frames (context.frames + 1)) body code inner)) :
    Sound scope (.stmt context (.whileLoop pos cond body) (whileCode context test code)
      context) := by
  refine ⟨fun exits hFits hRoom hTagged => ?_, .refl _ _⟩
  rw [stmtTagged, Bool.and_eq_true] at hTagged
  simp only [whileCode, List.length_append, List.length_cons] at hRoom
  refine types_while (by omega) (hCond _ hFits.inLoop ?_ hTagged.1)
    (hBody.1 _ (hFits.inLoop.looping empties_outer empties_inner) ?_ hTagged.2)
  · simp only [Context.inLoop, Context.inFrame]
    omega
  · simp only [Context.looping, Context.inLoop, Context.inFrame]
    omega

theorem sound_forever {pos : Position} {body : List Stmt} {code : Code}
    (hBody : Sound scope
      (.stmts (context.inLoop.looping context.frames (context.frames + 1)) body code inner)) :
    Sound scope (.stmt context (.forever pos body) (foreverCode context code) context) := by
  refine ⟨fun exits hFits hRoom hTagged => ?_, .refl _ _⟩
  simp only [foreverCode, List.length_append, List.length_cons] at hRoom
  refine types_forever (by omega)
    (hBody.1 _ (hFits.inLoop.looping empties_outer empties_inner) ?_ hTagged)
  simp only [Context.looping, Context.inLoop, Context.inFrame]
  omega

theorem sound_forRange {pos : Position} {var : String} {start stop : Expr} {body : List Stmt}
    {type : Ty} {counter limit : Slot} {lower upper code : Code} (hInteger : type.isInteger = true)
    (hCounter : Held scope counter) (hLimit : Held scope limit) (hCounterType : counter.type = type)
    (hLimitType : limit.type = type) (hStart : Sound scope (.value context type start lower))
    (hStop : Sound scope (.value (context.bind var counter) type stop upper))
    (hBody : Sound scope (.stmts ((context.bind var counter).inLoop.inFrame.looping context.frames
      (context.frames + 2)) body code inner)) :
    Sound scope (.stmt context (.forRange pos var start stop body)
      (rangeCode context type counter.index limit.index lower upper code) context) := by
  refine ⟨fun exits hFits hRoom hTagged => ?_, .refl _ _⟩
  rw [stmtTagged, Bool.and_eq_true, Bool.and_eq_true] at hTagged
  simp only [rangeCode, List.length_append, List.length_cons] at hRoom
  have hInner := hFits.bind hCounter var
  refine types_range hInteger hCounter hLimit hCounterType hLimitType (by omega)
    (hStart _ hFits (by omega) hTagged.1.1)
    (hStop _ hInner (by simp only [Context.bind]; omega) hTagged.1.2)
    (hBody.1 _ ((hInner.inLoop.inFrame []).looping ?_ ?_) ?_ hTagged.2)
  · exact @Empties.inFrame (context.bind var counter).inLoop exits.inLoop _ empties_outer []
  · exact @empties_body (context.bind var counter).inLoop exits.inLoop
  · simp only [Context.looping, Context.inLoop, Context.inFrame, Context.bind]
    omega

/-- A value of one type stands for any type that is represented alike. -/
theorem Leaves.same {tagged : Bool} {code : Code} {left right : Ty}
    (hLeaves : Leaves scope context tagged code (reprs left)) (hSame : sameRepr left right = true) :
    Leaves scope context tagged code (reprs right) :=
  reprs_of_sameRepr hSame ▸ hLeaves

theorem sound_discarded {want : Ty} {asArm : Bool} {expr : Expr} {lowered : Lowered}
    (hVoid : want.isVoid = true) (hExpr : Sound scope (.expr context want asArm expr lowered)) :
    Sound scope (.settled context want asArm expr (discard lowered)) := by
  intro exits hFits hRoom hTagged
  rw [reprs_of_isVoid hVoid]
  rw [Lowering.discard] at hRoom ⊢
  split at hRoom
  · rename_i hNothing
    rw [if_pos hNothing]
    have hCode := hExpr exits hFits hRoom hTagged
    rw [reprs_of_isVoid hNothing] at hCode
    exact hCode
  · rename_i hSome
    rw [if_neg hSome]
    rw [List.length_append] at hRoom
    obtain ⟨number, hNumber⟩ := numType?_of_isVoid (Bool.eq_false_iff.2 hSome)
    have hCode := hExpr exits hFits (by omega) hTagged
    rw [reprs_of_numType? hNumber] at hCode
    exact hCode.append .drop

theorem sound_path {hint type : Ty} {asArm : Bool} {tag : Tag} {name : String} {path : Lowered}
    (hPath : context.receiverPathType? name = some type)
    (hLoads : Loads context.env (.record context.receiver) (receiverPath name) path) :
    Sound scope (.expr context hint asArm (.ident tag name)
      ⟨.localGet 0 :: path.code, path.type⟩) := by
  intro exits hFits _ _
  have hReceiver : context.receiver ≠ "" := by
    intro hNone
    rw [Context.receiverPathType?, if_pos hNone] at hPath
    cases hPath
  exact (Types.localGet (hFits.receiver hReceiver)).append (types_loads hFits.known hLoads)

/-- Two operands and the operation on them. -/
theorem leaves_operands {left right : Expr} {code others : Code} {opcode : Opcode} {type : Ty}
    {number result : NumType} (hNumber : numType? type = some number)
    (hOperation : operation? opcode = some ([number, number], result))
    (hLeft : Sound scope (.value context type left code))
    (hRight : Sound scope (.value context type right others)) :
    Leaves scope context (context.tagged left && context.tagged right)
      (code ++ others ++ [opcode.instr]) [result.valType] := by
  intro exits hFits hRoom hTagged
  rw [Bool.and_eq_true] at hTagged
  simp only [List.length_append] at hRoom
  have hFirst := hLeft exits hFits (by omega) hTagged.1
  have hSecond := hRight exits hFits (by omega) hTagged.2
  rw [reprs_of_numType? hNumber] at hFirst hSecond
  exact (hFirst.append (hSecond.above _)).append
    (@Types.operation scope exits opcode [number, number] result hOperation)

theorem sound_binary {hint type : Ty} {asArm : Bool} {tag : Tag} {op : String} {left right : Expr}
    {code others : Code} {opcode : Opcode} (hSome : type.isVoid = false)
    (hOperator : operator? type op = some opcode)
    (hLeft : Sound scope (.value context type left code))
    (hRight : Sound scope (.value context type right others)) :
    Sound scope (.expr context hint asArm (.binary tag op left right)
      ⟨code ++ others ++ [opcode.instr], if isComparison op then .bool else type⟩) := by
  obtain ⟨number, hNumber⟩ := numType?_of_isVoid hSome
  have hLeaves := leaves_operands hNumber (operation?_operator hNumber hOperator) hLeft hRight
  have hResult : reprs (if isComparison op then .bool else type) =
      [(if isComparison op then .i32 else number : NumType).valType] := by
    split
    · rfl
    · exact reprs_of_numType? hNumber
  intro exits hFits hRoom hTagged
  rw [hResult]
  exact hLeaves exits hFits hRoom hTagged

theorem sound_negateInt {hint type : Ty} {asArm : Bool} {tag : Tag} {operand : Expr} {code : Code}
    (hInteger : type.isInteger = true) (hOperand : Sound scope (.value context type operand code)) :
    Sound scope (.expr context hint asArm (.unary tag "-" operand)
      ⟨constInt type 0 :: code ++ [(Opcode.int (intWidth type) .sub).instr], type⟩) := by
  intro exits hFits hRoom hTagged
  have hNumber := reprs_of_numType? (numType?_of_isInteger hInteger)
  have hZero : Types scope exits [constInt type 0] [] (reprs type) :=
    types_constInt (isVoid_of_isInteger hInteger) 0
  simp only [List.length_append, List.length_cons] at hRoom
  have hCode := hOperand exits hFits (by omega) hTagged
  rw [hNumber] at hZero hCode ⊢
  exact (hZero.append (hCode.above _)).append (@Types.operation _ _ (.int _ .sub) [_, _] _ rfl)

theorem Known.callee {function : String} {ref : FuncRef} (hKnown : Known context.env scope)
    (hCalls : context.Calls function ref) : scope.function? ref.index = some ref.type := by
  obtain ⟨hCallee, hFree | ⟨hNoFunction, hNoMethod⟩⟩ := hCalls
  · exact hKnown.funcs ref (List.mem_of_find?_eq_some hFree)
  · rw [Context.callee?, hNoFunction, hNoMethod] at hCallee
    obtain ⟨record, -, hConstructor⟩ := Option.bind_eq_some_iff.1 hCallee
    rw [Env.constructor?] at hConstructor
    obtain ⟨entry, hEntry, rfl⟩ := Option.map_eq_some_iff.1 hConstructor
    exact hKnown.constructors entry (List.mem_of_find?_eq_some hEntry)

/-- A method is called with its receiver first. -/
theorem Known.method {env : Env} {record name : String} {ref : FuncRef} (hKnown : Known env scope)
    (hMethod : env.method? record name = some ref) :
    scope.function? ref.index = some ref.type ∧
      ∃ owner, ref.params = .record owner :: ref.params.drop 1 := by
  rw [Env.method?] at hMethod
  obtain ⟨owner, -, hOwner⟩ := List.exists_of_findSome?_eq_some hMethod
  obtain ⟨entry, hEntry, rfl⟩ := Option.map_eq_some_iff.1 hOwner
  obtain ⟨hFunction, params, hParams⟩ := hKnown.methods entry (List.mem_of_find?_eq_some hEntry)
  exact ⟨hFunction, entry.1, by rw [hParams]; rfl⟩

theorem types_call {exits : Exits} {ref : FuncRef}
    (hFunction : scope.function? ref.index = some ref.type) :
    Types scope exits [.call ref.index] (ref.params.flatMap reprs).reverse (reprs ref.result) := by
  have hCall :
      Types scope exits [.call ref.index] ref.type.params.reverse (reprs ref.result).reverse :=
    .call hFunction
  rw [FuncRef.type, params_signature, reverse_reprs] at hCall
  exact hCall

theorem sound_call {hint : Ty} {asArm : Bool} {tag : Tag} {function : String} {args : List Expr}
    {ref : FuncRef} {code : Code} (hCalls : context.Calls function ref)
    (hArgs : Sound scope (.args context ref.params args code)) :
    Sound scope (.expr context hint asArm (.call tag function args) (callCode ref code)) := by
  intro exits hFits hRoom hTagged
  simp only [callCode, List.length_append] at hRoom
  exact (hArgs exits hFits (by omega) hTagged).append (types_call (hFits.known.callee hCalls))

/-- A method call: the code of the receiver, of the other arguments and the call. -/
theorem types_methodCall {exits : Exits} {record name : String} {ref : FuncRef}
    {address code : Code} (hKnown : Known context.env scope)
    (hMethod : context.env.method? record name = some ref)
    (hAddress : Types scope exits address [] [.i32])
    (hArgs : Types scope exits code [] ((ref.params.drop 1).flatMap reprs).reverse) :
    Types scope exits (address ++ code ++ [.call ref.index]) [] (reprs ref.result) := by
  obtain ⟨hFunction, owner, hParams⟩ := hKnown.method hMethod
  have hCall := @types_call scope exits ref hFunction
  rw [hParams, List.flatMap_cons, List.reverse_append] at hCall
  exact (hAddress.append (hArgs.above _)).append hCall

theorem sound_ownCall {hint : Ty} {asArm : Bool} {tag : Tag} {function : String} {args : List Expr}
    {ref : FuncRef} {code : Code} (hOwn : context.ownMethod? function = some ref)
    (hArgs : Sound scope (.args context (ref.params.drop 1) args code)) :
    Sound scope (.expr context hint asArm (.call tag function args)
      (callCode ref (.localGet 0 :: code))) := by
  intro exits hFits hRoom hTagged
  rw [Context.ownMethod?] at hOwn
  split at hOwn
  · cases hOwn
  · rename_i hReceiver
    simp only [callCode, List.length_append, List.length_cons] at hRoom
    exact types_methodCall hFits.known hOwn
      (@Types.localGet scope exits 0 .i32 (hFits.receiver hReceiver))
      (hArgs exits hFits (by omega) hTagged)

theorem sound_methodCall {hint : Ty} {asArm : Bool} {tag : Tag} {receiver : Expr}
    {method record : String} {args : List Expr} {ref : FuncRef} {address : Lowered} {code : Code}
    (hType : context.typeOf receiver = .record record)
    (hMethod : context.env.method? record method = some ref)
    (hDerives : Derives before (.expr context (.record record) false receiver address) middle)
    (hAddress : Sound scope (.expr context (.record record) false receiver address))
    (hArgs : Sound scope (.args context (ref.params.drop 1) args code)) :
    Sound scope (.expr context hint asArm (.methodCall tag receiver method args)
      (callCode ref (address.code ++ code))) := by
  intro exits hFits hRoom hTagged
  rw [Context.tagged, exprTagged, Bool.and_eq_true] at hTagged
  simp only [callCode, List.length_append] at hRoom
  have hWord := hDerives.receiver_word hFits.known.typed hType hTagged.1
  have hReceiver := hAddress exits hFits (by omega) hTagged.1
  rw [reprs_of_numType? hWord] at hReceiver
  exact types_methodCall hFits.known hMethod hReceiver (hArgs exits hFits (by omega) hTagged.2)

theorem sound_arg {want : Ty} {params : List Ty} {arg : Expr} {args : List Expr}
    {code others : Code} (hArg : Sound scope (.value context want arg code))
    (hArgs : Sound scope (.args context params args others)) :
    Sound scope (.args context (want :: params) (arg :: args) (code ++ others)) := by
  intro exits hFits hRoom hTagged
  rw [argsTagged, Bool.and_eq_true] at hTagged
  rw [List.length_append] at hRoom
  rw [List.flatMap_cons, List.reverse_append, reverse_reprs]
  exact (hArg exits hFits (by omega) hTagged.1).append
    ((hArgs exits hFits (by omega) hTagged.2).above _)

theorem sound_branchOnly {hint : Ty} {asArm : Bool} {tag : Tag} {cond body : Expr}
    {test code : Code} (hCond : Sound scope (.value context .bool cond test))
    (hBody : Sound scope (.settled context.inFrame .void true body code)) :
    Sound scope (.expr context hint asArm (.branch tag cond body .missing)
      ⟨test ++ .ifThen voidBlock :: code ++ [.close], .void⟩) := by
  intro exits hFits hRoom hTagged
  simp only [Context.tagged, exprTagged, Bool.and_eq_true] at hTagged
  simp only [List.length_append, List.length_cons] at hRoom
  have hInner := hBody _ (hFits.inFrame []) (by simp only [Context.inFrame]; omega) hTagged.1.2
  have hWhole := (hCond exits hFits (by omega) hTagged.1.1.2).append
    (Types.ifThen (block?_void scope) hInner)
  rw [reprs_of_isVoid rfl]
  simpa using hWhole

theorem sound_branch {hint type : Ty} {asArm : Bool} {tag : Tag} {cond body otherwise : Expr}
    {test yes no : Code} (hCond : Sound scope (.value context .bool cond test))
    (hYes : Sound scope (.settled context.inFrame type true body yes))
    (hNo : Sound scope (.settled context.inFrame type true otherwise no)) :
    Sound scope (.expr context hint asArm (.branch tag cond body otherwise)
      ⟨test ++ .ifThen (blockType type) :: yes ++ Opcode.otherwise.instr :: no ++ [.close],
        type⟩) := by
  intro exits hFits hRoom hTagged
  simp only [Context.tagged, exprTagged, Bool.and_eq_true] at hTagged
  simp only [List.length_append, List.length_cons] at hRoom
  have hFrame := hFits.inFrame (reprs type)
  have hFirst := hYes _ hFrame (by simp only [Context.inFrame]; omega) hTagged.1.2
  have hSecond := hNo _ hFrame (by simp only [Context.inFrame]; omega) hTagged.2
  have hWhole := (hCond exits hFits (by omega) hTagged.1.1.2).append (types_ifElse hFirst hSecond)
  simpa using hWhole

theorem sound_blockOnly {hint want : Ty} {asArm : Bool} {tag : Tag} {stmts : List Stmt}
    {code : Code} (hStmts : Sound scope (.stmts context stmts code inner)) :
    Sound scope (.expr context hint asArm (.block tag stmts .missing)
      ⟨if want.isVoid then code else code ++ [Opcode.unreachable.instr], want⟩) := by
  intro exits hFits hRoom hTagged
  simp only [Context.tagged, exprTagged, Bool.and_eq_true] at hTagged
  simp only at hRoom ⊢
  split at hRoom
  · rename_i hVoid
    rw [if_pos hVoid, reprs_of_isVoid hVoid]
    exact hStmts.1 exits hFits hRoom hTagged.1
  · rename_i hSome
    rw [if_neg hSome]
    rw [List.length_append] at hRoom
    exact (hStmts.1 exits hFits (by omega) hTagged.1).append .unreachable

theorem sound_block {hint want : Ty} {asArm : Bool} {tag : Tag} {stmts : List Stmt} {tail : Expr}
    {code last : Code} (hStmts : Sound scope (.stmts context stmts code inner))
    (hTail : Sound scope (.settled inner want false tail last)) :
    Sound scope (.expr context hint asArm (.block tag stmts tail) ⟨code ++ last, want⟩) := by
  obtain ⟨hCode, names, rfl, hNames, hSlots⟩ := hStmts
  intro exits hFits hRoom hTagged
  simp only [Context.tagged, exprTagged, Bool.and_eq_true] at hTagged
  simp only [List.length_append] at hRoom
  refine (hCode exits hFits (by omega) hTagged.1).append
    (hTail exits { hFits with slots := hSlots hFits.slots } (by simp only; omega) ?_)
  rw [Context.tagged, Context.names, hNames]
  exact hTagged.2

theorem sound_cases {hint subject type : Ty} {asArm : Bool} {tag : Tag} {scrutinee : Expr}
    {arms : List Arm} {slot : Slot} {code others : Code} (hSlot : Held scope slot)
    (hSlotType : slot.type = subject)
    (hScrutinee : Sound scope (.value context subject scrutinee code))
    (hArms : Sound scope (.arms context slot type arms others)) :
    Sound scope (.expr context hint asArm (.cases tag scrutinee arms)
      ⟨code ++ .localSet slot.index :: others, type⟩) := by
  intro exits hFits hRoom hTagged
  simp only [Context.tagged, exprTagged, Bool.and_eq_true] at hTagged
  simp only [List.length_append, List.length_cons] at hRoom
  exact (hScrutinee exits hFits (by omega) hTagged.1).append
    ((hSlotType ▸ hSlot.set).append (hArms hSlot exits hFits (by omega) hTagged.2))

theorem sound_bind {slot bound : Slot} {type : Ty} {pos place : Position} {name : String}
    {body : Expr} {rest : List Arm} {code : Code} (hBound : Held scope bound)
    (hType : bound.type = slot.type)
    (hBody : Sound scope (.settled (context.bind name bound) type true body code)) :
    Sound scope (.arms context slot type (.mk pos (.bind place name) body :: rest)
      (.localGet slot.index :: .localSet bound.index :: code)) := by
  intro hSlot exits hFits hRoom hTagged
  simp only [armsTagged, Bool.and_eq_true] at hTagged
  simp only [List.length_cons] at hRoom
  exact hSlot.get.append ((hType ▸ hBound.set).append
    (hBody exits (hFits.bind hBound name) (by simp only [Context.bind]; omega) hTagged.1))

theorem sound_literal {slot : Slot} {type : Ty} {pos place : Position} {value body : Expr}
    {rest : List Arm} {constant code others : Code}
    (hValue : Sound scope (.value context slot.type value constant))
    (hBody : Sound scope (.settled context.inFrame type true body code))
    (hRest : Sound scope (.arms context.inFrame slot type rest others)) :
    Sound scope (.arms context slot type (.mk pos (.literal place value) body :: rest)
      (literalArmCode slot type constant code others)) := by
  intro hSlot exits hFits hRoom hTagged
  simp only [armsTagged, Bool.and_eq_true] at hTagged
  simp only [literalArmCode, List.length_append, List.length_cons] at hRoom
  have hFrame := hFits.inFrame (reprs type)
  exact types_literalArm hSlot (hValue exits hFits (by omega) hTagged.1.1)
    (hBody _ hFrame (by simp only [Context.inFrame]; omega) hTagged.1.2)
    (hRest hSlot _ hFrame (by simp only [Context.inFrame]; omega) hTagged.2)

theorem sound_member {hint : Ty} {asArm : Bool} {tag : Tag} {subject : Expr} {name field : String}
    {record : Record} {found : Field} {code : Code}
    (hGet : context.env.registry.get? name = some record)
    (hField : record.field? field = some found)
    (hSubject : Sound scope (.value context (.record name) subject code)) :
    Sound scope (.expr context hint asArm (.member tag subject field)
      ⟨code ++ [loadInstr found], context.env.typeOfField name found⟩) := by
  intro exits hFits hRoom hTagged
  simp only [List.length_append] at hRoom
  exact (hSubject exits hFits (by omega) hTagged).append (types_load hFits.known hGet hField)

theorem sound_construct {hint : Ty} {asArm : Bool} {tag : Tag} {name : String} {record : Record}
    {inits : List FieldInit} {slot : Slot} {alloc code : Code} (hSlot : Held scope slot)
    (hType : slot.type = .record name) (hGet : context.env.registry.get? name = some record)
    (hAlloc : allocCode context.env context.name record slot.index = .ok alloc)
    (hStores : Sound scope (.stores context name slot.index inits record.fields code)) :
    Sound scope (.expr context hint asArm (.construct tag name inits)
      ⟨alloc ++ code ++ [.localGet slot.index], .record name⟩) := by
  intro exits hFits hRoom hTagged
  simp only [List.length_append] at hRoom
  have hAddress : scope.locals[slot.index.toNat]? = some .i32 := by
    obtain ⟨number, hNumber, hLocal⟩ := hSlot
    rw [hType] at hNumber
    cases hNumber
    exact hLocal
  have hFields : ∀ field ∈ record.fields,
      numType? (context.env.typeOfField name field) = some field.type.numType :=
    fun field hField => numType?_typeOfField hFits.known.lays hGet hField
  exact ((types_alloc hFits.known hAddress hAlloc).append
    (hStores hAddress hFields exits hFits (by omega) hTagged)).append (.localGet hAddress)

theorem sound_store {name : String} {address : UInt32} {inits : List FieldInit} {init : FieldInit}
    {field : Field} {rest : List Field} {code others : Code} (hInit : init ∈ inits)
    (hValue : Sound scope (.value context (context.env.typeOfField name field) init.value code))
    (hRest : Sound scope (.stores context name address inits rest others)) :
    Sound scope (.stores context name address inits (field :: rest)
      (.localGet address :: code ++ storeInstr field :: others)) := by
  intro hAddress hFields exits hFits hRoom hTagged
  simp only [List.length_append, List.length_cons] at hRoom
  have hNumber := hFields field List.mem_cons_self
  have hOthers := hRest hAddress (fun other hOther => hFields other (List.mem_cons_of_mem _ hOther))
    exits hFits (by omega) hTagged
  have hCode := hValue exits hFits (by omega) (exprTagged_of_mem hTagged hInit)
  rw [reprs_of_numType? hNumber] at hCode
  have hStore : Types scope exits [storeInstr field] [field.type.numType.valType, .i32] [] :=
    .store (admits_field hFits.known.memory field)
  exact ((Types.localGet hAddress).append (hCode.above _)).append (hStore.append hOthers)

end Cases

/-- Every judgement that is derived is sound, if its slots are locals of the function. -/
theorem Derives.sound {scope : Scope} {before after : Slots} {judgement : Judgement}
    (hDerives : Derives before judgement after) (hWithin : Within after scope.locals) :
    Sound scope judgement := by
  induction hDerives with
  | nil => exact ⟨fun _ _ _ _ => .nil, .refl _ _⟩
  | cons _ hRest ihFirst ihRest =>
      exact sound_cons (ihFirst (hWithin.before hRest.grows)) (ihRest hWithin)
  | declare hType hSome _ ih =>
      exact sound_declare (hWithin.next hSome) rfl (ih (hWithin.before (.push _ _)))
  | assign hLookup _ ih =>
      refine ⟨fun exits hFits hRoom hTagged => ?_, .refl _ _⟩
      rw [List.length_append] at hRoom
      exact (ih hWithin exits hFits (by omega) hTagged).append (hFits.lookup hLookup).set
  | leaveVoid hVoid =>
      refine ⟨fun exits hFits _ _ => ?_, .refl _ _⟩
      have hReturn := @Types.ret scope exits []
      rw [hFits.results, reprs_of_isVoid hVoid] at hReturn
      exact hReturn
  | leaveWith _ _ ih =>
      refine ⟨fun exits hFits hRoom hTagged => ?_, .refl _ _⟩
      rw [List.length_append] at hRoom
      have hReturn := @Types.ret scope exits []
      rw [hFits.results, reverse_reprs] at hReturn
      exact (ih hWithin exits hFits (by omega) hTagged).append hReturn
  | eval _ ih => exact ⟨ih hWithin, .refl _ _⟩
  | whileLoop _ hBody ihCond ihBody =>
      exact sound_whileLoop (ihCond (hWithin.before hBody.grows)) (ihBody hWithin)
  | forever _ ih => exact sound_forever (ih hWithin)
  | forRange hType hInteger _ hStop hBody ihStart ihStop ihBody =>
      have hLimit := hWithin.before hBody.grows
      have hSecond := hLimit.before (.push _ _)
      have hCounter := hSecond.before hStop.grows
      have hSome := isVoid_of_isInteger hInteger
      exact sound_forRange hInteger (hCounter.next hSome) (hLimit.next hSome) rfl rfl
        (ihStart (hCounter.before (.push _ _))) (ihStop hSecond) (ihBody hWithin)
  | leave hLoop =>
      refine ⟨fun exits hFits hRoom _ => ?_, .refl _ _⟩
      exact .br (Fits.label (hFits.loop _ hLoop).1 (by omega))
  | next hLoop =>
      refine ⟨fun exits hFits hRoom _ => ?_, .refl _ _⟩
      exact .br (Fits.label (hFits.loop _ hLoop).2 (by omega))
  | value _ hSame ih | kept _ _ hSame ih => exact (ih hWithin).same hSame
  | discarded hVoid _ ih => exact sound_discarded hVoid (ih hWithin)
  | int hType =>
      intro exits _ _ _
      refine types_constInt (hType ▸ Bool.eq_false_iff.2 fun hVoid => ?_) _
      cases (isVoid_orDefault.1 hVoid).2
  | float hType =>
      intro exits _ _ hTagged
      simp only [Context.tagged, exprTagged, Bool.or_eq_true] at hTagged
      exact types_constFloat (isFloat_of_tagged hType hTagged) _
  | bool | named | variant => exact fun _ _ _ _ => @Types.const _ _ .i32 _ _ rfl
  | bound hLookup => exact fun _ hFits _ _ => (hFits.lookup hLookup).get
  | self _ hReceiver => exact fun _ hFits _ _ => .localGet (hFits.receiver hReceiver)
  | path _ _ hPath hLoads => exact sound_path hPath hLoads
  | logical _ _ hRight ihLeft ihRight =>
      refine leaves_operands rfl ?_ (ihLeft (hWithin.before hRight.grows)) (ihRight hWithin)
      split <;> rfl
  | binary _ _ hSome _ hRight hOperator ihLeft ihRight =>
      exact sound_binary hSome hOperator (ihLeft (hWithin.before hRight.grows)) (ihRight hWithin)
  | not _ ih =>
      intro exits hFits hRoom hTagged
      simp only [List.length_append] at hRoom
      exact (ih hWithin exits hFits (by omega) hTagged).append types_eqz
  | @negateFloat _ _ _ _ _ _ _ _ _ width _ hNumber _ ih =>
      intro exits hFits hRoom hTagged
      simp only [List.length_append] at hRoom
      have hCode := ih hWithin exits hFits (by omega) hTagged
      rw [reprs_of_numType? hNumber] at hCode ⊢
      exact hCode.append (@Types.operation _ _ (.floatSign width .neg) [_] _ rfl)
  | negateInt _ hInteger _ ih => exact sound_negateInt hInteger (ih hWithin)
  | call hCalls _ ih => exact sound_call hCalls (ih hWithin)
  | ownCall _ hOwn _ ih => exact sound_ownCall hOwn (ih hWithin)
  | methodCall hType hMethod hAddress hArgs ihAddress ihArgs =>
      exact sound_methodCall hType hMethod hAddress (ihAddress (hWithin.before hArgs.grows))
        (ihArgs hWithin)
  | noArgs => exact fun _ _ _ _ => .nil
  | arg _ hArgs ihArg ihArgs =>
      exact sound_arg (ihArg (hWithin.before hArgs.grows)) (ihArgs hWithin)
  | branchOnly _ hBody ihCond ihBody =>
      exact sound_branchOnly (ihCond (hWithin.before hBody.grows)) (ihBody hWithin)
  | branch _ _ _ hYes hNo ihCond ihYes ihNo =>
      have hSecond := hWithin.before hNo.grows
      exact sound_branch (ihCond (hSecond.before hYes.grows)) (ihYes hSecond) (ihNo hWithin)
  | blockOnly _ _ ih => exact sound_blockOnly (ih hWithin)
  | block _ _ _ hTail ihStmts ihTail =>
      exact sound_block (ihStmts (hWithin.before hTail.grows)) (ihTail hWithin)
  | cases _ hSome _ _ _ hArms ihScrutinee ihArms =>
      have hSlot := hWithin.before hArms.grows
      exact sound_cases (hSlot.next hSome) rfl (ihScrutinee (hSlot.before (.push _ _)))
        (ihArms hWithin)
  | noArm => exact fun _ _ _ _ _ => .unreachable
  | wildcard _ ih =>
      intro _ exits hFits hRoom hTagged
      simp only [armsTagged, Bool.and_eq_true] at hTagged
      exact ih hWithin exits hFits hRoom hTagged.1
  | @bind _ _ _ slot _ _ _ _ _ _ _ hBody ih =>
      intro hSlot
      have hSome : slot.type.isVoid = false := by
        obtain ⟨number, hNumber, -⟩ := hSlot
        cases hType : slot.type <;> first | rfl | (rw [hType] at hNumber; cases hNumber)
      exact sound_bind ((hWithin.before hBody.grows).next hSome) rfl (ih hWithin) hSlot
  | literal _ hBody hRest ihValue ihBody ihRest =>
      have hSecond := hWithin.before hRest.grows
      exact sound_literal (ihValue (hSecond.before hBody.grows)) (ihBody hSecond) (ihRest hWithin)
  | member _ hGet hField _ ih => exact sound_member hGet hField (ih hWithin)
  | construct hGet _ hAlloc hStores ih =>
      exact sound_construct ((hWithin.before hStores.grows).next rfl) rfl hGet hAlloc (ih hWithin)
  | stored => exact fun _ _ _ _ _ _ => .nil
  | store hInit _ hRest ihValue ihRest =>
      exact sound_store (List.mem_of_find?_eq_some hInit) (ihValue (hWithin.before hRest.grows))
        (ihRest hWithin)

end RecordWasm.Validation
