import RecordWasm.Proofs.Assembly.Module
import RecordWasm.Proofs.Compile.Stages
import RecordWasm.Proofs.Validation.Soundness

/-!
# All bodies of a module pass

The functions of the heap, the declared functions and the constructors are checked against the
signatures, locals and globals of the module that they stand in.
-/

namespace RecordWasm.Validation

open Syntax Layout Lowering Compile Assembly Wasm

section Heap

variable {scope : Scope} {exits : Exits} {handle : Heap.Handle}

theorem types_word (value : Int32) : Types scope exits [.i32Const value] [] [.i32] := .const rfl

theorem types_operator (operator : IntOperator) :
    Types scope exits [(Opcode.int .w32 operator).instr] [.i32, .i32] [.i32] :=
  @Types.operation scope exits (.int .w32 operator) [.i32, .i32] .i32 rfl

theorem types_relation (relation : IntRelation) :
    Types scope exits [(Opcode.compareInt .w32 relation).instr] [.i32, .i32] [.i32] :=
  @Types.operation scope exits (.compareInt .w32 relation) [.i32, .i32] .i32 rfl

/-- The globals of a heap are words that may be set. -/
structure HasGlobals (scope : Scope) (handle : Heap.Handle) : Prop where
  cursor : scope.global? handle.cursorGlobal = some ⟨.i32, true⟩
  limit : scope.global? handle.limitGlobal = some ⟨.i32, true⟩

theorem valid_alloc (hGlobals : HasGlobals scope handle) (hMemory : 0 < scope.memories)
    (hLocals : scope.locals = List.replicate 5 .i32) :
    valid scope [.i32] handle.allocInstrs = true := by
  have hLocal (index : UInt32) (hIndex : index.toNat < 5) :
      scope.locals[index.toNat]? = some .i32 := by
    rw [hLocals, List.getElem?_replicate, if_pos hIndex]
  have hGet (exits : Exits) (index : UInt32) (hIndex : index.toNat < 5) :
      Types scope exits [.localGet index] [] [.i32] := .localGet (hLocal index hIndex)
  have hTee (exits : Exits) (index : UInt32) (hIndex : index.toNat < 5) :
      Types scope exits [.localTee index] [.i32] [.i32] := .localTee (hLocal index hIndex)
  have hCursor (exits : Exits) : Types scope exits [.globalGet handle.cursorGlobal] [] [.i32] :=
    .globalGet hGlobals.cursor
  have hLimit (exits : Exits) : Types scope exits [.globalGet handle.limitGlobal] [] [.i32] :=
    .globalGet hGlobals.limit
  have hAligned (exits : Exits) : Types scope exits
      [.globalGet handle.cursorGlobal, .localGet 1, Heap.add32, .i32Const 1, Heap.sub32,
        .i32Const 0, .localGet 1, Heap.sub32, (Opcode.int .w32 .and).instr] [] [.i32] :=
    (hCursor _).cons (((hGet _ 1 (by decide)).above [.i32]).cons ((types_operator .add).cons
      (((types_word 1).above [.i32]).cons ((types_operator .sub).cons
      (((types_word 0).above [.i32]).cons (((hGet _ 1 (by decide)).above [.i32, .i32]).cons
      (((types_operator .sub).above [.i32]).cons (types_operator .and))))))))
  have hTest (exits : Exits) : Types scope exits
      [.localTee 2, .localGet 0, Heap.add32, .localTee 3, .globalGet handle.limitGlobal,
        (Opcode.compareInt .w32 .gtU).instr] [.i32] [.i32] :=
    (hTee _ 2 (by decide)).cons (((hGet _ 0 (by decide)).above [.i32]).cons
      ((types_operator .add).cons ((hTee _ 3 (by decide)).cons
      (((hLimit _).above [.i32]).cons (types_relation .gtU)))))
  have hPages (exits : Exits) : Types scope exits
      [.localGet 3, .globalGet handle.limitGlobal, Heap.sub32,
        .i32Const (Heap.pageBytes - 1).toInt32, Heap.add32, .i32Const 16,
        (Opcode.int .w32 .shrU).instr, .localTee 4, .memoryGrow, .i32Const (-1),
        (Opcode.compareInt .w32 .eq).instr] [] [.i32] :=
    (hGet _ 3 (by decide)).cons (((hLimit _).above [.i32]).cons ((types_operator .sub).cons
      (((types_word _).above [.i32]).cons ((types_operator .add).cons
      (((types_word 16).above [.i32]).cons ((types_operator .shrU).cons
      ((hTee _ 4 (by decide)).cons ((Types.memoryGrow hMemory).cons
      (((types_word (-1)).above [.i32]).cons (types_relation .eq))))))))))
  have hFailed : Types scope (((Exits.mk [[.i32]] [.i32]).inside []).inside [])
      [.i32Const 0, Opcode.ret.instr] [] [] := (types_word 0).cons .ret
  have hRaised (exits : Exits) : Types scope exits
      [.globalGet handle.limitGlobal, .localGet 4, .i32Const 16, (Opcode.int .w32 .shl).instr,
        Heap.add32, .globalSet handle.limitGlobal] [] [] :=
    (hLimit _).cons (((hGet _ 4 (by decide)).above [.i32]).cons
      (((types_word 16).above [.i32, .i32]).cons (((types_operator .shl).above [.i32]).cons
      ((types_operator .add).cons (.globalSet hGlobals.limit rfl)))))
  have hGrown := (hPages _).append ((Types.ifThen (block?_void scope) hFailed).append (hRaised _))
  have hMoved : Types scope ⟨[[.i32]], [.i32]⟩
      [.localGet 3, .globalSet handle.cursorGlobal, .localGet 2] [] [.i32] :=
    (hGet _ 3 (by decide)).cons ((Types.globalSet hGlobals.cursor rfl).cons (hGet _ 2 (by decide)))
  have hWhole := ((hAligned ⟨[[.i32]], [.i32]⟩).append (hTest _)).append
    ((Types.ifThen (block?_void scope) hGrown).append hMoved)
  exact valid_of_types hWhole

theorem valid_reset (hGlobals : HasGlobals scope handle) :
    valid scope [] handle.resetInstrs = true :=
  @valid_of_types scope [_, _] [] ((types_word _).cons (.globalSet hGlobals.cursor rfl))

end Heap

section Module

variable {assembled : Assembled} {program : Program} {module : Module}

/-- An import refers to its place. -/
theorem mem_importRefs {first : Nat} {decls : List ImportDecl} {ref : FuncRef}
    (hRef : ref ∈ importRefs first decls) :
    ∃ place decl, decls[place]? = some decl ∧ ref = .ofImport decl (first + place).toUInt32 := by
  induction decls generalizing first with
  | nil => cases hRef
  | cons decl rest ih =>
      rcases List.mem_cons.1 hRef with rfl | hRest
      · exact ⟨0, decl, rfl, rfl⟩
      · obtain ⟨place, other, hOther, rfl⟩ := ih hRest
        exact ⟨place + 1, other, hOther, by rw [Nat.add_assoc, Nat.add_comm 1]⟩

/-- The signatures of the functions of a program that is compiled. -/
structure Signed (assembled : Assembled) (program : Program) (module : Module) : Prop where
  fits : assembled.Fits program
  holds : Holds module assembled.builder.imports assembled.builder.funcs
  globals : module.globals = assembled.builder.globals
  memories : module.memories.length = 1
  types : module.types.length ≤ 2 ^ 32
  funcs : assembled.builder.numFunctions < 2 ^ 32

namespace Signed

variable (hSigned : Signed assembled program module)
include hSigned

/-- A function of the module, at its place behind the imports. -/
theorem funcType?_own {place : Nat} {function : Assembly.Function} {index : UInt32}
    (hFunction : assembled.builder.funcs[place]? = some function)
    (hIndex : index.toNat = assembled.builder.imports.length + place) :
    module.funcType? index = some function.type := by
  rw [hSigned.holds.funcType? hSigned.types, hIndex, List.getElem?_append_right (by simp),
    List.length_map, Nat.add_sub_cancel_left, List.getElem?_map, hFunction]
  rfl

theorem funcType?_import {place : Nat} {decl : ImportDecl}
    (hDecl : program.imports[place]? = some decl) :
    module.funcType? place.toUInt32 = some (FuncRef.ofImport decl place.toUInt32).type := by
  have hBound := (List.getElem?_eq_some_iff.1 hDecl).1
  have hImports := hSigned.fits.imports
  have hFew := hSigned.funcs
  rw [Builder.numFunctions, hImports, List.length_map] at hFew
  rw [hSigned.holds.funcType? hSigned.types, toNat_toUInt32 (by omega), hImports,
    List.getElem?_append_left (by simpa using hBound), List.map_map, List.getElem?_map, hDecl]
  rfl

theorem funcType?_declared {item : Declared} (hItem : item ∈ assembled.declared) :
    module.funcType? item.index = some (jobType assembled.env item.job) := by
  obtain ⟨body, place, hCompile, hFunction, hIndex⟩ := hSigned.fits.placed hItem
  rw [hSigned.funcType?_own hFunction hIndex, bodied, compileJob_type hCompile]

theorem funcType?_alloc : module.funcType? assembled.handle.allocFunc = some Heap.allocType := by
  obtain ⟨-, -, hAlloc, -⟩ := hSigned.fits.handle
  have hFirst : assembled.builder.funcs[0]? = assembled.handle.functions[0]? := by
    rw [hSigned.fits.funcs]
    rfl
  exact hSigned.funcType?_own hFirst (by rw [hAlloc, hSigned.fits.imports, List.length_map]; rfl)

/-- The functions of the module are those that the code of the program refers to. -/
theorem known (hNames : ∀ record ∈ program.records, record.name ≠ "") (locals : List ValType) :
    Known assembled.env (Scope.ofModule module locals) where
  lays := hSigned.fits.lays
  typed := fun name record field hGet hField =>
    isSome_fieldType? hSigned.fits.lays (by rwa [hSigned.fits.same.records]) hGet hField
  funcs := fun ref hRef => by
    rcases hSigned.fits.referred.funcs ref hRef with hImport | ⟨decl, -, hEq, hItem⟩
    · obtain ⟨place, decl, hDecl, rfl⟩ := mem_importRefs (List.mem_reverse.1 hImport)
      rw [Nat.zero_add]
      exact hSigned.funcType?_import hDecl
    · refine (hSigned.funcType?_declared hItem).trans ?_
      rw [hEq]
      rfl
  methods := fun entry hEntry => by
    rcases hSigned.fits.referred.methods entry.1 entry.2 hEntry with hNone |
      ⟨decl, ⟨owner, hOwner, hName, -⟩, hReceiver, hEq, hItem⟩
    · cases hNone
    · have hMethod : decl.isMethod = true := by
        simpa [FuncDecl.isMethod, hReceiver, ← hName] using hNames owner hOwner
      refine ⟨(hSigned.funcType?_declared hItem).trans ?_, decl.params.map Param.type, ?_⟩
      · rw [hEq]
        rfl
      · rw [hEq, FuncRef.ofDecl, paramTypes, if_pos hMethod, hReceiver]
        rfl
  constructors := fun entry hEntry => by
    rcases hSigned.fits.referred.constructors entry.1 entry.2 hEntry with hNone |
      ⟨found, hFound, hEq, hItem⟩
    · cases hNone
    · refine (hSigned.funcType?_declared hItem).trans ?_
      have hSame := hSigned.fits.same
      rw [hSame.jobType, jobType, hFound, hEq]
      rfl
  alloc := by
    have hHeap : assembled.env.heap = assembled.handle := hSigned.fits.same.heap
    rw [hHeap]
    exact hSigned.funcType?_alloc
  memory := by
    rw [Scope.ofModule, Module.numMemories, hSigned.memories]
    exact Nat.succ_pos _

theorem hasGlobals (locals : List ValType) :
    HasGlobals (Scope.ofModule module locals) assembled.handle := by
  obtain ⟨hCursor, hLimit, -, -⟩ := hSigned.fits.handle
  have hSpace : module.globalSpace = [some ⟨.i32, true⟩, some ⟨.i32, true⟩] := by
    rw [Module.globalSpace, hSigned.holds.globals, hSigned.globals, hSigned.fits.globals]
    rfl
  constructor
  · rw [hCursor, Scope.ofModule]
    simp only [Module.globalType?, hSpace]
    rfl
  · rw [hLimit, Scope.ofModule]
    simp only [Module.globalType?, hSpace]
    rfl

end Signed

end Module

section Functions

variable {scope : Scope} {env : Env} {decl : FuncDecl} {context : Context}

/-- The body of a function leaves its result. -/
theorem Body.types {stmts : List Stmt} {before after : Slots} {code : Code}
    (hBody : Lowering.Body context stmts before code after) (hWithin : Within after scope.locals)
    {exits : Exits} (hFits : Fits context scope exits)
    (hRoom : context.frames + code.length < 2 ^ 32)
    (hTagged : stmtsTagged context.receiverPathType? context.names stmts = true) :
    Types scope exits code [] (reprs context.result) := by
  cases hBody with
  | @value front pos value _ middle _ inner code last _ _ hFront hValue =>
      obtain ⟨hCode, names, rfl, hNames, hSlots⟩ :=
        Derives.sound hFront (hWithin.before hValue.grows)
      rw [stmtsTagged_append, Bool.and_eq_true, ← hNames] at hTagged
      simp only [stmtsTagged, stmtTagged, Bool.and_true] at hTagged
      rw [List.length_append] at hRoom
      exact (hCode exits hFits (by omega) hTagged.1).append
        (Derives.sound hValue hWithin exits { hFits with slots := hSlots hFits.slots }
          (by simp only; omega) hTagged.2)
  | void hVoid hStmts =>
      rw [reprs_of_isVoid hVoid]
      exact (Derives.sound hStmts hWithin).1 exits hFits hRoom hTagged
  | trap _ _ hStmts =>
      rw [List.length_append] at hRoom
      exact ((Derives.sound hStmts hWithin).1 exits hFits (by omega) hTagged).append .unreachable

/-- Values are represented by one number each. -/
theorem flatMap_reprs {types : List Ty} (hSome : ∀ type ∈ types, type.isVoid = false) :
    types.flatMap reprs = types.map fun type => ((numType? type).getD .i32).valType := by
  induction types with
  | nil => rfl
  | cons type rest ih =>
      obtain ⟨hType, hRest⟩ := List.forall_mem_cons.1 hSome
      obtain ⟨number, hNumber⟩ := numType?_of_isVoid hType
      rw [List.flatMap_cons, List.map_cons, ih hRest, reprs_of_numType? hNumber, hNumber]
      rfl

theorem length_flatMap_reprs {types : List Ty} (hSome : ∀ type ∈ types, type.isVoid = false) :
    (types.flatMap reprs).length = types.length := by
  rw [flatMap_reprs hSome, List.length_map]

/-- A value that is passed is found at its place. -/
theorem getElem?_flatMap_reprs {types : List Ty} (hSome : ∀ type ∈ types, type.isVoid = false)
    {place : Nat} {type : Ty} (hPlace : types[place]? = some type) :
    ∃ number, numType? type = some number ∧
      (types.flatMap reprs)[place]? = some number.valType := by
  obtain ⟨number, hNumber⟩ := numType?_of_isVoid (hSome type (List.mem_of_getElem? hPlace))
  refine ⟨number, hNumber, ?_⟩
  rw [flatMap_reprs hSome, List.getElem?_map, hPlace, Option.map_some, hNumber]
  rfl

/-- Where a function starts, its parameters are the first locals. -/
theorem fits_entryPoint {more : List ValType} (hKnown : Known env scope)
    (hTypes : ∀ type ∈ paramTypes decl, type.isVoid = false)
    (hLocals : scope.locals = (paramTypes decl).flatMap reprs ++ more)
    (hFew : (paramTypes decl).length < 2 ^ 32) :
    Fits (entryPoint env decl) scope ⟨[reprs decl.result], reprs decl.result⟩ := by
  have hParam (place : Nat) (type : Ty) (hPlace : (paramTypes decl)[place]? = some type) :
      ∃ number, numType? type = some number ∧ scope.locals[place]? = some number.valType := by
    obtain ⟨number, hNumber, hLocal⟩ := getElem?_flatMap_reprs hTypes hPlace
    refine ⟨number, hNumber, ?_⟩
    rw [hLocals, List.getElem?_append_left (List.getElem?_eq_some_iff.1 hLocal).1, hLocal]
  refine ⟨⟨fun entry hEntry => ?_, fun hReceiver => ?_, rfl, rfl, fun _ hNone => ?_⟩, hKnown⟩
  · obtain ⟨place, hIndex, hPlace⟩ := mem_entryScope hEntry
    obtain ⟨number, hNumber, hLocal⟩ := hParam place _ hPlace
    have hBound := (List.getElem?_eq_some_iff.1 hPlace).1
    exact ⟨number, hNumber, by rwa [hIndex, toNat_toUInt32 (by omega)]⟩
  · have hMethod : decl.isMethod = true := by simpa [FuncDecl.isMethod, entryPoint] using hReceiver
    obtain ⟨number, hNumber, hLocal⟩ := hParam 0 (.record decl.receiver)
      (by rw [paramTypes, if_pos hMethod]; rfl)
    cases hNumber
    exact hLocal
  · cases hNone

/-- Whether the types that matter are as they have to be in a function. -/
def Tagged (env : Env) (decl : FuncDecl) : Bool :=
  stmtsTagged (entryPoint env decl).receiverPathType? (entryPoint env decl).names decl.body

/-- A function or method passes. -/
theorem valid_function {body : FunctionBody} (hLower : lowerFunction env decl = .ok body)
    (hKnown : Known env scope) (hLocals : scope.locals = body.type.params ++ body.locals)
    (hFew : body.type.params.length + body.instrs.length < 2 ^ 32)
    (hTagged : Tagged env decl = true) : valid scope body.type.results body.instrs = true := by
  obtain ⟨code, after, hType, hBodyLocals, hInstrs, hBody, hTypes⟩ := lowerFunction_derives hLower
  rw [hType, params_signature] at hLocals hFew
  rw [hInstrs, List.length_append, length_flatMap_reprs hTypes] at hFew
  have hGrows := hBody.grows
  have hLength := hGrows.length
  have hParams := hGrows.params
  simp only [List.length_nil, Nat.zero_add] at hLength hParams
  have hWithin : Within after scope.locals := by
    refine ⟨(paramTypes decl).flatMap reprs, by rw [length_flatMap_reprs hTypes, hParams], ?_, ?_⟩
    · simp only [hLocals, hBodyLocals, List.prefix_rfl]
    · rw [hLocals, hBodyLocals, List.length_append, List.length_map, length_flatMap_reprs hTypes]
      omega
  have hCode := Body.types hBody hWithin (fits_entryPoint hKnown hTypes hLocals (by omega))
    (by simp only [entryPoint]; omega) hTagged
  rw [hType, hInstrs]
  exact @valid_of_types scope code (reprs decl.result) (by rwa [reverse_reprs])

/-- Storing the parameters of a constructor leaves nothing. -/
theorem types_storeParams {exits : Exits} {address : UInt32} {index : Nat} {fields : List Field}
    (hMemory : 0 < scope.memories) (hAddress : scope.locals[address.toNat]? = some .i32)
    (hFew : index + fields.length < 2 ^ 32)
    (hLocals : ∀ place field, fields[place]? = some field →
      scope.locals[index + place]? = some field.type.numType.valType) :
    Types scope exits (storeParams address index fields) [] [] := by
  induction fields generalizing index with
  | nil => exact .nil
  | cons field rest ih =>
      rw [List.length_cons] at hFew
      have hParam : Types scope exits [.localGet index.toUInt32] [] [field.type.numType.valType] :=
        .localGet (by rw [toNat_toUInt32 (by omega)]; exact hLocals 0 field rfl)
      have hStore : Types scope exits [storeInstr field] [field.type.numType.valType, .i32] [] :=
        .store (admits_field hMemory field)
      have hRest := @ih (index + 1) (by omega) fun place other hOther => by
        rw [Nat.add_assoc, Nat.add_comm 1]
        exact hLocals (place + 1) other hOther
      exact (Types.localGet hAddress).cons ((hParam.above _).cons (hStore.cons hRest))

/-- A constructor passes. -/
theorem valid_constructor {name : String} {body : FunctionBody}
    (hLower : lowerConstructor env name = .ok body) (hKnown : Known env scope)
    (hLocals : scope.locals = body.type.params ++ body.locals)
    (hFew : body.type.params.length + body.instrs.length < 2 ^ 32) :
    valid scope body.type.results body.instrs = true := by
  obtain ⟨record, alloc, hGet, hAlloc, rfl⟩ := lowerConstructor_eq_ok.1 hLower
  simp only [params_constructorRef hKnown.lays hGet, List.length_map] at hLocals hFew ⊢
  have hCount : record.fields.length < 2 ^ 32 := by omega
  have hAddress : scope.locals[record.fields.length.toUInt32.toNat]? = some .i32 := by
    rw [hLocals, toNat_toUInt32 hCount]
    simp
  have hRoom := @types_alloc { env, name := "", result := .void } scope
    ⟨[reprs (.record record.name)], reprs (.record record.name)⟩ hKnown _ record _ alloc hAddress
    hAlloc
  have hStores := @types_storeParams scope
    ⟨[reprs (.record record.name)], reprs (.record record.name)⟩ _ 0 record.fields hKnown.memory
    hAddress (by omega) fun place field hField => by
      have hBound := (List.getElem?_eq_some_iff.1 hField).1
      rw [hLocals, Nat.zero_add, List.getElem?_append_left (by simpa using hBound),
        List.getElem?_map, hField]
      rfl
  have hWhole := (hRoom.append hStores).append (Types.localGet hAddress)
  have hValid := @valid_of_types scope _ (reprs (.record record.name)) hWhole
  rw [List.append_assoc] at hValid
  exact hValid

end Functions

/-! ## Whole programs -/

/-- A program that is compiled into a binary of less than 2^32 bytes has signatures for all of its
functions. -/
theorem signed_of_compiled {config : CompileConfig} {cancelled : Bool} {program : Program}
    {assembled : Assembled} {compiled : Compiled}
    (hCompile : Compile.program config cancelled program = .ok compiled)
    (hAssemble : assemble config cancelled program = .ok assembled)
    (hSmall : compiled.binary.length < 2 ^ 32) :
    ∃ module, assembled.builder.module = .ok module ∧ compiled.binary = module.encode ∧
      Signed assembled program module := by
  obtain ⟨hBuild, -⟩ := program_ok hCompile hAssemble
  obtain ⟨module, hModule, hTypes, hFuncs, -⟩ := Builder.build_length hBuild
  obtain ⟨hHolds, hGlobals, hMemories⟩ := Builder.module_holds hModule
  refine ⟨module, hModule, ?_, assemble_fits hAssemble (by omega), hHolds, hGlobals, ?_, by omega,
    by omega⟩
  · simp only [Builder.build, hModule, bind_ok, mapError_ok, pure_ok] at hBuild
    obtain ⟨_, hSame, -, -, hBinary⟩ := hBuild
    cases hSame
    exact hBinary.symm
  · rw [hMemories]
    rfl

/-- The free functions and the methods of a program. -/
def declsOf (program : Program) : List FuncDecl :=
  program.functions ++ program.records.flatMap methodsOf

/-- The parameters, locals and instructions of a function pass, whatever it was compiled from. -/
theorem Signed.valid_own {assembled : Assembled} {program : Program} {module : Module}
    (hSigned : Signed assembled program module)
    (hNames : ∀ record ∈ program.records, record.name ≠ "")
    (hTagged : ∀ decl ∈ declsOf program, Tagged assembled.env decl = true)
    {function : Assembly.Function} {body : Assembly.Body}
    (hFunction : function ∈ assembled.builder.funcs) (hBody : function.body = some body)
    (hFew : function.type.params.length + body.instrs.length < 2 ^ 32) :
    valid (Scope.ofModule module (function.type.params ++ body.locals)) function.type.results
      body.instrs = true := by
  have hKnown := hSigned.known hNames (function.type.params ++ body.locals)
  have hGlobals := hSigned.hasGlobals (function.type.params ++ body.locals)
  rw [hSigned.fits.funcs, List.mem_append] at hFunction
  rcases hFunction with hHeap | hDeclared
  · -- The functions of the heap are `alloc` and `reset`.
    rcases List.mem_cons.1 hHeap with rfl | hReset
    · cases hBody
      exact valid_alloc hGlobals hKnown.memory rfl
    · obtain rfl := List.mem_singleton.1 hReset
      cases hBody
      exact valid_reset hGlobals
  · obtain ⟨place, hPlace⟩ := List.getElem?_of_mem hDeclared
    rw [List.getElem?_zipWith_eq_some] at hPlace
    obtain ⟨item, compiled, hItem, hCompiled, rfl⟩ := hPlace
    cases hBody
    have hArises := hSigned.fits.arises item (List.mem_of_getElem? hItem)
    obtain ⟨hBound, rfl⟩ := List.getElem?_eq_some_iff.1 hItem
    obtain ⟨hOther, rfl⟩ := List.getElem?_eq_some_iff.1 hCompiled
    have hCompile := hSigned.fits.compiled.get hBound hOther
    rw [List.get_eq_getElem, List.get_eq_getElem] at hCompile
    cases hJob : assembled.declared[place].job with
    | function decl =>
        rw [hJob] at hCompile hArises
        refine valid_function hCompile hKnown rfl hFew (hTagged decl ?_)
        rw [declsOf, List.mem_append, List.mem_flatMap]
        rcases hArises with ⟨hFree, -⟩ | ⟨hMethod, -⟩
        · exact .inl hFree
        · exact .inr hMethod
    | constructor record =>
        rw [hJob] at hCompile
        exact valid_constructor hCompile hKnown rfl hFew

/-- If a program is compiled, all functions of the module pass the check of their operands.  The
code of an expression leaves what represents the type that comes with it, wherever it stands. -/
theorem compiled_functions_valid {config : CompileConfig} {cancelled : Bool} {program : Program}
    {assembled : Assembled} {compiled : Compiled}
    (hCompile : Compile.program config cancelled program = .ok compiled)
    (hAssemble : assemble config cancelled program = .ok assembled)
    (hSmall : compiled.binary.length < 2 ^ 32)
    (hNames : ∀ record ∈ program.records, record.name ≠ "")
    (hTagged : ∀ decl ∈ declsOf program, Tagged assembled.env decl = true) :
    ∃ module, assembled.builder.module = .ok module ∧ compiled.binary = module.encode ∧
      (∀ (place : Nat) (code : FuncBody), module.code[place]? = some code →
        ∃ function body, assembled.builder.funcs[place]? = some function ∧
          function.body = some body ∧
          code = ⟨LocalRun.compact body.locals, Instr.encodeAll body.instrs⟩ ∧
          module.funcType? (assembled.builder.imports.length + place).toUInt32 =
            some function.type ∧
          valid (Scope.ofModule module (function.type.params ++ body.locals)) function.type.results
            body.instrs = true) ∧
      ∀ locals context exits hint asArm expr before lowered after,
        lowerExpr context hint asArm expr before = .ok (lowered, after) →
        Fits context (Scope.ofModule module locals) exits → Within after locals →
        context.frames + lowered.code.length < 2 ^ 32 → context.tagged expr = true →
        Types (Scope.ofModule module locals) exits lowered.code [] (reprs lowered.type) := by
  obtain ⟨module, hModule, hBinary, hSigned⟩ := signed_of_compiled hCompile hAssemble hSmall
  refine ⟨module, hModule, hBinary, fun place code hCode => ?_, ?_⟩
  · obtain ⟨hPlace, rfl⟩ := List.getElem?_eq_some_iff.1 hCode
    have hBound : place < assembled.builder.funcs.length := by
      rwa [hSigned.holds.coded.length_eq]
    have hFunction := List.getElem?_eq_getElem hBound
    have hMem := List.mem_of_getElem? hFunction
    obtain ⟨body, hBody, hCoded⟩ := hSigned.holds.coded.get hBound hPlace
    obtain ⟨-, -, -, -, hBodies⟩ := Builder.build_length (program_ok hCompile hAssemble).1
    obtain ⟨other, hOther, hLength⟩ := hBodies _ hMem
    obtain rfl := Option.some.inj (hBody.symm.trans hOther)
    have hFew := hSigned.funcs
    rw [Builder.numFunctions] at hFew
    exact ⟨_, body, hFunction, hBody, hCoded,
      hSigned.funcType?_own hFunction (toNat_toUInt32 (by omega)),
      hSigned.valid_own hNames hTagged hMem hBody (by omega)⟩
  · intro locals context exits hint asArm expr before lowered after hLower hFits hWithin hRoom hOk
    exact Derives.sound (lowerExpr_derives expr hLower) hWithin exits hFits hRoom hOk

/-- A program with a record that has a method.  The method adds up, in a loop, a field of its
receiver that is named by a path. -/
def counters : Program where
  records := [{
    name := "Counter"
    fields := [⟨{}, "step", .i32⟩, ⟨{}, "scale", .f64⟩]
    methods := [{
      name := "total"
      params := [⟨{}, "times", .i32⟩]
      result := .i32
      body := [
        .declare {} "sum" .i32 (.int {} 0),
        .forRange {} "turn" (.int {} 0) (.ident {} "times") [
          .assign {} (.ident {} "sum")
            (.binary {} "+" (.ident {} "sum") (.ident { type := .i32 } "step"))],
        .eval {} (.ident {} "sum")] }] }]
  functions := [{
    name := "half"
    params := [⟨{}, "value", .f64⟩]
    result := .f64
    body := [.result {} (.binary {} "*" (.ident {} "value") (.float {} 0x3FE0000000000000))] }]

/-- All of its functions pass: two of the heap, one that is free, one method and one constructor. -/
theorem compiled_functions_valid_counters :
    ∃ (compiled : Compiled) (assembled : Assembled) (module : Module),
      Compile.program {} false counters = .ok compiled ∧
      assemble {} false counters = .ok assembled ∧ assembled.builder.module = .ok module ∧
      assembled.builder.funcs.length = 5 ∧
      ∀ (place : Nat) (code : FuncBody), module.code[place]? = some code →
        ∃ function body, assembled.builder.funcs[place]? = some function ∧
          function.body = some body ∧
          valid (Scope.ofModule module (function.type.params ++ body.locals)) function.type.results
            body.instrs = true := by
  obtain ⟨compiled, hCompile, hCompiled⟩ := @ok_of_any _ _ (Compile.program {} false counters)
    (fun compiled => compiled.binary.length < 2 ^ 32) (by decide +kernel)
  obtain ⟨assembled, hAssemble, hAssembled⟩ := @ok_of_any _ _ (assemble {} false counters)
    (fun assembled => assembled.builder.funcs.length == 5 &&
      (declsOf counters).all (Tagged assembled.env)) (by decide +kernel)
  simp only [decide_eq_true_eq] at hCompiled
  simp only [Bool.and_eq_true, List.all_eq_true, beq_iff_eq] at hAssembled
  obtain ⟨module, hModule, -, hFunctions, -⟩ :=
    compiled_functions_valid hCompile hAssemble hCompiled (by decide) hAssembled.2
  refine ⟨compiled, assembled, module, hCompile, hAssemble, hModule, hAssembled.1,
    fun place code hCode => ?_⟩
  obtain ⟨function, body, hFunction, hBody, -, -, hValid⟩ := hFunctions place code hCode
  exact ⟨function, body, hFunction, hBody, hValid⟩

end RecordWasm.Validation
