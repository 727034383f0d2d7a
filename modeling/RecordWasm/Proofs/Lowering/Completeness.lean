import RecordWasm.Proofs.Lowering.Generation

/-!
# Derived code is generated

A derivation leaves nothing open: lowering gives just the code that is derived.  With the converse,
that generated code is derived, what is proved by induction over derivations can be said of the
functions that generate code.
-/

namespace RecordWasm.Lowering

open Syntax Layout Wasm

/-- Lowering gives what a judgement says, from one state of the slots to another. -/
def Judgement.Generated (before after : Slots) : Judgement → Prop
  | stmts context source code behind =>
      lowerStmts context source before = .ok ((code, behind), after)
  | stmt context source code behind =>
      lowerStmt context source before = .ok ((code, behind), after)
  | expr context hint asArm source lowered =>
      lowerExpr context hint asArm source before = .ok (lowered, after)
  | value context want source code =>
      ∃ lowered, lowerExpr context want false source before = .ok (lowered, after) ∧
        sameRepr lowered.type want = true ∧ lowered.code = code
  | settled context want asArm source code =>
      ∃ lowered, lowerExpr context want asArm source before = .ok (lowered, after) ∧
        ∀ pos, settle context pos want lowered after = .ok (code, after)
  | args context params source code =>
      source.length = params.length ∧ lowerArgs context params source before = .ok (code, after)
  | arms context slot type source code =>
      lowerArms context slot type source before = .ok (code, after)
  | stores context record address inits fields code =>
      (∀ field ∈ fields, ∃ init ∈ inits, init.name = field.name) ∧
        storeFields context record address (lowerInits context inits) fields before =
          .ok (code, after)

variable {context : Context} {before middle after : Slots}

theorem loadPath_of_loads {pos : Position} {base : Ty} {path : List String} {lowered : Lowered}
    (hLoads : Loads context.env base path lowered) :
    loadPath context pos base path before = .ok (lowered, before) := by
  induction hLoads with
  | here => rfl
  | field hRecord hField _ ih =>
      simp only [loadPath, loadField, hRecord, hField, gives_bind, gives_pure]
      exact ⟨_, _, ⟨rfl, rfl⟩, _, _, ih, rfl, rfl⟩

/-- The receiver is no variant of an enumeration. -/
theorem namedVariant?_self (env : Env) : namedVariant? env selfName = none := by
  have hCut : Text.cut? '.' selfName = none := by decide
  rw [namedVariant?, hCut]

theorem unique_of_assigns {record : Record} {name : String} {inits : List FieldInit}
    {seen : List String} (hAssigns : Assigns record inits)
    (hSeen : ∀ init ∈ inits, init.name ∉ seen) :
    checkInits.unique context record name seen inits before = .ok ((), before) := by
  induction inits generalizing seen with
  | nil => rfl
  | cons init rest ih =>
      cases init with
      | mk pos label value =>
          obtain ⟨hFields, hNames⟩ := hAssigns
          rw [List.map_cons, List.nodup_cons] at hNames
          simp only [checkInits.unique, gives_unless]
          refine ⟨?_, hSeen _ List.mem_cons_self, ih ⟨?_, hNames.2⟩ ?_⟩
          · obtain ⟨field, hField, hName⟩ := hFields _ List.mem_cons_self
            simp only [Option.isNone_iff_eq_none, Record.field?, List.find?_eq_none]
            intro hNone
            exact hNone field hField (beq_iff_eq.2 hName)
          · intro other hOther
            exact hFields other (List.mem_cons_of_mem _ hOther)
          · intro other hOther
            rw [List.mem_cons, not_or]
            refine ⟨fun hSame => hNames.1 ?_, hSeen other (List.mem_cons_of_mem _ hOther)⟩
            exact List.mem_map.2 ⟨other, hOther, hSame⟩

theorem checkInits_of_assigns {pos : Position} {record : Record} {name : String}
    {inits : List FieldInit} (hAssigns : Assigns record inits)
    (hAll : ∀ field ∈ record.fields, ∃ init ∈ inits, init.name = field.name) :
    checkInits context pos record name inits before = .ok ((), before) := by
  have hNone : (record.fields.find? fun field =>
      !(inits.any fun init => init.name == field.name)) = none := by
    rw [List.find?_eq_none]
    intro field hField
    simpa using hAll field hField
  simp only [checkInits, gives_bind, hNone, gives_pure]
  exact ⟨_, _, unique_of_assigns hAssigns (by simp), trivial, rfl⟩

theorem lookup_generated {inits : List FieldInit} {init : FieldInit} {field : String}
    (hInit : initOf? inits field = some init) :
    (lowerInits context inits).lookup field = some (fun want => do
      expect context init.value.pos want (← lowerExpr context want false init.value)) := by
  have hLookup := @lookup_inits _
    (fun value want => do expect context value.pos want (← lowerExpr context want false value))
    (lowerInits context) (by rw [lowerInits]) (fun _ _ _ _ => by rw [lowerInits]) inits field
  rw [hLookup, hInit]
  rfl

theorem settle_discard {pos : Position} {want : Ty} {lowered : Lowered}
    (hVoid : want.isVoid = true) :
    settle context pos want lowered before = .ok (discard lowered, before) := by
  rw [settle, if_pos hVoid]
  rfl

theorem settle_keep {pos : Position} {want : Ty} {lowered : Lowered} (hVoid : want.isVoid = false)
    (hSame : sameRepr lowered.type want = true) :
    settle context pos want lowered before = .ok (lowered.code, before) := by
  rw [settle, if_neg (by simp [hVoid]), gives_expect]
  exact ⟨hSame, rfl, rfl⟩

/-- A missing expression has no code. -/
theorem isMissing_of_gives {hint : Ty} {asArm : Bool} {expr : Expr} {lowered : Lowered}
    (hLower : lowerExpr context hint asArm expr before = .ok (lowered, after)) :
    expr.isMissing = false := by
  cases expr with
  | missing => simp only [lowerExpr, gives_fail] at hLower
  | _ => rfl

/-! ## One construct at a time -/

section Constructs

variable {inner : Context} {tag : Tag} {pos : Position} {hint type : Ty} {asArm : Bool}
variable {first second : Slots} {code others : Code}

theorem generated_forRange {var : String} {start stop : Expr} {body : List Stmt}
    {lower upper : Code} (hType : type = rangeType context start stop)
    (hInteger : type.isInteger = true)
    (ihStart : (Judgement.value context type start lower).Generated before first)
    (ihStop : (Judgement.value (context.bind var (first.next type)) type stop upper).Generated
      (first.push type) second)
    (ihBody :
      (Judgement.stmts ((context.bind var (first.next type)).inLoop.inFrame.looping context.frames
      (context.frames + 2)) body code inner).Generated (second.push type) after) :
    (Judgement.stmt context (.forRange pos var start stop body)
      (rangeCode context type (first.next type).index (second.next type).index lower upper code)
      context).Generated before after := by
  obtain ⟨lowered, hStart, hLower, rfl⟩ := ihStart
  obtain ⟨last, hStop, hUpper, rfl⟩ := ihStop
  subst hType
  simp only [Judgement.Generated, lowerStmt, gives_unless, gives_bind, gives_pure, gives_expect,
    gives_newSlot]
  exact ⟨by simpa [rangeType] using hInteger, _, _, hStart, _, _, ⟨hLower, rfl, rfl⟩, _, _,
    ⟨rfl, rfl⟩, _, _, hStop, _, _, ⟨hUpper, rfl, rfl⟩, _, _, ⟨rfl, rfl⟩, _, _, ihBody, rfl, rfl⟩

theorem generated_named {name enum variant : String} {index : Nat}
    (hLookup : context.lookup? name = none) (hPath : context.receiverPathType? name = none)
    (hVariant : namedVariant? context.env name = some (enum, variant))
    (hIndex : context.env.variant? enum variant = some index) :
    (Judgement.expr context hint asArm (.ident tag name)
      ⟨[.i32Const (Int32.ofNat index)], .enum enum⟩).Generated before before := by
  have hSelf : ¬(context.receiver ≠ "" ∧ name = selfName) := by
    rintro ⟨-, rfl⟩
    rw [namedVariant?_self] at hVariant
    cases hVariant
  simp only [Judgement.Generated, lowerExpr, lowerIdent, hLookup, if_neg hSelf, hPath,
    Option.isSome_none, Bool.false_eq_true, if_false, hVariant, lowerVariant, hIndex]
  rfl

theorem generated_binary {op : String} {left right : Expr} {opcode : Opcode} {front back : Code}
    (hLogical : isLogical op = false) (hType : type = binaryType context op left right hint)
    (hSome : type.isVoid = false) (hOperator : operator? type op = some opcode)
    (ihLeft : (Judgement.value context type left front).Generated before middle)
    (ihRight : (Judgement.value context type right back).Generated middle after) :
    (Judgement.expr context hint asArm (.binary tag op left right)
      ⟨front ++ back ++ [opcode.instr], if isComparison op then .bool else type⟩).Generated before
        after := by
  obtain ⟨lowered, hLeft, hFirst, rfl⟩ := ihLeft
  obtain ⟨last, hRight, hSecond, rfl⟩ := ihRight
  subst hType
  simp only [Judgement.Generated, lowerExpr, hLogical, Bool.false_eq_true, if_false, gives_unless,
    gives_bind, gives_expect]
  refine ⟨by simpa using hSome, _, _, hLeft, _, _, ⟨hFirst, rfl, rfl⟩, _, _, hRight, _, _,
    ⟨hSecond, rfl, rfl⟩, ?_⟩
  simp only [hOperator]
  rfl

theorem generated_negateFloat {operand : Expr} {width : Width}
    (hType : type = negationType context operand hint)
    (hNumber : numType? type = some width.floatType)
    (ih : (Judgement.value context type operand code).Generated before after) :
    (Judgement.expr context hint asArm (.unary tag "-" operand)
      ⟨code ++ [(Opcode.floatSign width .neg).instr], type⟩).Generated before after := by
  obtain ⟨lowered, hExpr, hSame, rfl⟩ := ih
  have hFold : (if (isNumericLit operand && isNumeric hint) = true then hint
      else context.typeOf operand) = type := hType.symm
  simp only [Judgement.Generated, lowerExpr, hFold]
  cases type with
  | f32 | f64 =>
      cases width <;> cases hNumber
      simp only [isNumeric, Ty.isFloat, Bool.or_true, if_true, gives_bind, gives_pure, gives_expect]
      exact ⟨_, _, hExpr, _, _, ⟨hSame, rfl, rfl⟩, rfl, rfl⟩
  | _ => cases width <;> cases hNumber

theorem generated_negateInt {operand : Expr} (hType : type = negationType context operand hint)
    (hInteger : type.isInteger = true)
    (ih : (Judgement.value context type operand code).Generated before after) :
    (Judgement.expr context hint asArm (.unary tag "-" operand)
      ⟨constInt type 0 :: code ++ [(Opcode.int (intWidth type) .sub).instr], type⟩).Generated before
        after := by
  obtain ⟨lowered, hExpr, hSame, rfl⟩ := ih
  have hFold : (if (isNumericLit operand && isNumeric hint) = true then hint
      else context.typeOf operand) = type := hType.symm
  simp only [Judgement.Generated, lowerExpr, hFold]
  cases type with
  | i32 | i64 =>
      simp only [isNumeric, Ty.isInteger, Bool.true_or, if_true, gives_bind, gives_pure,
        gives_expect]
      exact ⟨_, _, hExpr, _, _, ⟨hSame, rfl, rfl⟩, rfl, rfl⟩
  | _ => cases hInteger

theorem generated_call {function : String} {args : List Expr} {ref : FuncRef}
    (hCalls : context.Calls function ref)
    (ih : (Judgement.args context ref.params args code).Generated before after) :
    (Judgement.expr context hint asArm (.call tag function args) (callCode ref code)).Generated
      before
      after := by
  obtain ⟨hLength, hArgs⟩ := ih
  obtain ⟨hCallee, hFunction | ⟨hNone, hOwn⟩⟩ := hCalls
  · simp only [Judgement.Generated, lowerExpr, hFunction, gives_bind, gives_pure, gives_checkArity]
    exact ⟨(), _, ⟨hLength, rfl⟩, _, _, hArgs, rfl, rfl⟩
  · simp only [Judgement.Generated, lowerExpr, hNone, hOwn, hCallee, gives_bind, gives_pure,
      gives_checkArity]
    exact ⟨(), _, ⟨hLength, rfl⟩, _, _, hArgs, rfl, rfl⟩

theorem generated_branch {cond body otherwise : Expr} {test yes no : Code}
    (hMissing : otherwise.isMissing = false)
    (hType : type = branchResult context (.branch tag cond body otherwise) body otherwise hint)
    (ihTest : (Judgement.value context .bool cond test).Generated before first)
    (ihYes : (Judgement.settled context.inFrame type true body yes).Generated first second)
    (ihNo : (Judgement.settled context.inFrame type true otherwise no).Generated second after) :
    (Judgement.expr context hint asArm (.branch tag cond body otherwise)
      ⟨test ++ .ifThen (blockType type) :: yes ++ Opcode.otherwise.instr :: no ++ [.close],
        type⟩).Generated before after := by
  obtain ⟨lowered, hTest, hSame, rfl⟩ := ihTest
  obtain ⟨positive, hYes, hFirst⟩ := ihYes
  obtain ⟨negative, hNo, hSecond⟩ := ihNo
  subst hType
  simp only [Judgement.Generated, lowerExpr, isMissing_of_gives hYes, hMissing, Bool.false_eq_true,
    if_false, gives_bind, gives_pure, gives_expect]
  exact ⟨_, _, hTest, _, _, ⟨hSame, rfl, rfl⟩, _, _, hYes, _, _, hFirst _, _, _, hNo, _, _,
    hSecond _, rfl, rfl⟩

theorem generated_cases {subject : Ty} {scrutinee : Expr} {arms : List Arm}
    (hSubject : subject = context.typeOf scrutinee) (hSome : subject.isVoid = false)
    (hCode : ∀ arm ∈ arms, hasCode context.env arm.pattern = true)
    (hType : type = casesResult context (.cases tag scrutinee arms) arms hint)
    (ihScrutinee : (Judgement.value context subject scrutinee code).Generated before middle)
    (ihArms : (Judgement.arms context (middle.next subject) type arms others).Generated
      (middle.push subject) after) :
    (Judgement.expr context hint asArm (.cases tag scrutinee arms)
      ⟨code ++ .localSet (middle.next subject).index :: others, type⟩).Generated before after := by
  obtain ⟨lowered, hExpr, hSame, rfl⟩ := ihScrutinee
  subst hSubject hType
  simp only [Judgement.Generated, lowerExpr, gives_unless, gives_bind, gives_pure, gives_expect,
    gives_newSlot, gives_checkPatterns]
  exact ⟨by simpa using hSome, (), _, ⟨hCode, rfl⟩, _, _, hExpr, _, _, ⟨hSame, rfl, rfl⟩, _, _,
    ⟨rfl, rfl⟩, _, _, ihArms, rfl, rfl⟩

theorem generated_literal {slot : Slot} {place : Position} {value body : Expr} {rest : List Arm}
    {constant : Code}
    (ihValue : (Judgement.value context slot.type value constant).Generated before first)
    (ihBody : (Judgement.settled context.inFrame type true body code).Generated first second)
    (ihRest : (Judgement.arms context.inFrame slot type rest others).Generated second after) :
    (Judgement.arms context slot type (.mk pos (.literal place value) body :: rest)
      (literalArmCode slot type constant code others)).Generated before after := by
  obtain ⟨lowered, hValue, hSame, rfl⟩ := ihValue
  obtain ⟨last, hBody, hSettle⟩ := ihBody
  simp only [Judgement.Generated, lowerArms, gives_bind, gives_pure, gives_expect]
  exact ⟨_, _, hValue, _, _, ⟨hSame, rfl, rfl⟩, _, _, hBody, _, _, hSettle _, _, _,
    ihRest, rfl, rfl⟩

theorem generated_construct {name : String} {record : Record} {inits : List FieldInit}
    {alloc : Code} (hRecord : context.env.registry.get? name = some record)
    (hAssigns : Assigns record inits)
    (hAlloc : allocCode context.env context.name record (before.next (.record name)).index =
      .ok alloc) (ih :
        (Judgement.stores context name (before.next (.record name)).index inits record.fields
      code).Generated (before.push (.record name)) after) :
    (Judgement.expr context hint asArm (.construct tag name inits)
      ⟨alloc ++ code ++ [.localGet (before.next (.record name)).index], .record name⟩).Generated
        before
        after := by
  obtain ⟨hAll, hStores⟩ := ih
  simp only [Judgement.Generated, lowerExpr, lowerConstruct, hRecord, gives_bind, gives_pure,
    gives_lift, gives_newSlot]
  exact ⟨_, _, checkInits_of_assigns hAssigns hAll, _, _, ⟨rfl, rfl⟩, _, _, ⟨hAlloc, rfl⟩, _, _,
    hStores, rfl, rfl⟩

theorem generated_store {name : String} {address : UInt32} {inits : List FieldInit}
    {init : FieldInit} {field : Field} {rest : List Field}
    (hInit : initOf? inits field.name = some init)
    (ihValue : (Judgement.value context (context.env.typeOfField name field) init.value
      code).Generated before middle)
    (ihRest : (Judgement.stores context name address inits rest others).Generated middle after) :
    (Judgement.stores context name address inits (field :: rest)
      (.localGet address :: code ++ storeInstr field :: others)).Generated before after := by
  obtain ⟨value, hValue, hSame, rfl⟩ := ihValue
  obtain ⟨hAll, hStores⟩ := ihRest
  refine ⟨?_, ?_⟩
  · rw [List.forall_mem_cons]
    have hName := List.find?_some hInit
    exact ⟨⟨_, List.mem_of_find?_eq_some hInit, eq_of_beq hName⟩, hAll⟩
  · simp only [storeFields, lookup_generated hInit, gives_bind, gives_pure, gives_expect]
    exact ⟨_, _, ⟨_, _, hValue, hSame, rfl, rfl⟩, _, _, hStores, rfl, rfl⟩

end Constructs

/-- Lowering gives what is derived. -/
theorem Derives.generated {judgement : Judgement} (hDerives : Derives before judgement after) :
    judgement.Generated before after := by
  induction hDerives with
  | nil =>
      simp only [Judgement.Generated, lowerStmts]
      rfl
  | cons _ _ ihFirst ihRest =>
      simp only [Judgement.Generated, lowerStmts, gives_bind, gives_pure]
      exact ⟨_, _, ihFirst, _, _, ihRest, rfl, rfl⟩
  | declare hType hSome _ ih =>
      obtain ⟨lowered, hExpr, hSame, rfl⟩ := ih
      subst hType
      simp only [Judgement.Generated, lowerStmt, gives_unless, gives_bind, gives_pure, gives_expect,
        gives_newSlot]
      exact ⟨by simpa [declaredType] using hSome, _, _, hExpr, _, _, ⟨hSame, rfl, rfl⟩, _, _,
        ⟨rfl, rfl⟩, rfl, rfl⟩
  | assign hLookup _ ih =>
      obtain ⟨lowered, hExpr, hSame, rfl⟩ := ih
      simp only [Judgement.Generated, lowerStmt, hLookup, gives_bind, gives_pure, gives_expect]
      exact ⟨_, _, hExpr, _, _, ⟨hSame, rfl, rfl⟩, rfl, rfl⟩
  | leaveVoid hVoid =>
      simp only [Judgement.Generated, lowerStmt, Expr.isMissing, hVoid]
      rfl
  | leaveWith hSome _ ih =>
      obtain ⟨lowered, hExpr, hSame, rfl⟩ := ih
      simp only [Judgement.Generated, lowerStmt, isMissing_of_gives hExpr, hSome, gives_bind,
        gives_pure, gives_expect]
      exact ⟨_, _, hExpr, _, _, ⟨hSame, rfl, rfl⟩, rfl, rfl⟩
  | eval _ ih =>
      obtain ⟨lowered, hExpr, hSettle⟩ := ih
      have hCode := hSettle {}
      rw [settle_discard rfl] at hCode
      simp only [Except.ok.injEq, Prod.mk.injEq, and_true] at hCode
      simp only [Judgement.Generated, lowerStmt, gives_bind, gives_pure, ← hCode]
      exact ⟨_, _, hExpr, rfl, rfl⟩
  | whileLoop _ _ ihTest ihBody =>
      obtain ⟨lowered, hExpr, hSame, rfl⟩ := ihTest
      simp only [Judgement.Generated, lowerStmt, gives_bind, gives_pure, gives_expect]
      exact ⟨_, _, hExpr, _, _, ⟨hSame, rfl, rfl⟩, _, _, ihBody, rfl, rfl⟩
  | forever _ ih =>
      simp only [Judgement.Generated, lowerStmt, gives_bind, gives_pure]
      exact ⟨_, _, ih, rfl, rfl⟩
  | forRange hType hInteger _ _ _ ihStart ihStop ihBody =>
      exact generated_forRange hType hInteger ihStart ihStop ihBody
  | leave hLoop | next hLoop =>
      simp only [Judgement.Generated, lowerStmt, hLoop]
      rfl
  | value _ hSame ih => exact ⟨_, ih, hSame, rfl⟩
  | discarded hVoid _ ih => exact ⟨_, ih, fun _ => settle_discard hVoid⟩
  | kept hVoid _ hSame ih => exact ⟨_, ih, fun _ => settle_keep hVoid hSame⟩
  | int hType | float hType =>
      subst hType
      simp only [Judgement.Generated, lowerExpr]
      rfl
  | bool =>
      simp only [Judgement.Generated, lowerExpr]
      rfl
  | bound hLookup =>
      simp only [Judgement.Generated, lowerExpr, lowerIdent, hLookup]
      rfl
  | self hLookup hMethod =>
      simp only [Judgement.Generated, lowerExpr, lowerIdent, hLookup, ne_eq, hMethod,
        not_false_eq_true, and_self, if_true]
      rfl
  | path hLookup hName hPath hLoads =>
      simp only [Judgement.Generated, lowerExpr, lowerIdent, hLookup, hName, and_false, if_false,
        hPath, Option.isSome_some, if_true, gives_bind, gives_pure]
      exact ⟨_, _, loadPath_of_loads hLoads, rfl, rfl⟩
  | named hLookup hPath hVariant hIndex => exact generated_named hLookup hPath hVariant hIndex
  | variant hIndex =>
      simp only [Judgement.Generated, lowerExpr, lowerVariant, hIndex]
      rfl
  | logical hLogical _ _ ihLeft ihRight =>
      obtain ⟨left, hLeft, hFirst, rfl⟩ := ihLeft
      obtain ⟨right, hRight, hSecond, rfl⟩ := ihRight
      simp only [Judgement.Generated, lowerExpr, hLogical, if_true, gives_bind, gives_pure,
        gives_expect]
      exact ⟨_, _, hLeft, _, _, ⟨hFirst, rfl, rfl⟩, _, _, hRight, _, _,
        ⟨hSecond, rfl, rfl⟩, rfl, rfl⟩
  | binary hLogical hType hSome _ _ hOperator ihLeft ihRight =>
      exact generated_binary hLogical hType hSome hOperator ihLeft ihRight
  | not _ ih =>
      obtain ⟨lowered, hExpr, hSame, rfl⟩ := ih
      simp only [Judgement.Generated, lowerExpr, gives_bind, gives_pure, gives_expect]
      exact ⟨_, _, hExpr, _, _, ⟨hSame, rfl, rfl⟩, rfl, rfl⟩
  | negateFloat hType hNumber _ ih => exact generated_negateFloat hType hNumber ih
  | negateInt hType hInteger _ ih => exact generated_negateInt hType hInteger ih
  | call hCalls _ ih => exact generated_call hCalls ih
  | ownCall hNone hOwn _ ih =>
      obtain ⟨hLength, hArgs⟩ := ih
      simp only [Judgement.Generated, lowerExpr, hNone, hOwn, gives_bind, gives_pure,
        gives_checkArity]
      exact ⟨(), _, ⟨hLength, rfl⟩, _, _, hArgs, rfl, rfl⟩
  | methodCall hType hMethod _ _ ihReceiver ihArgs =>
      obtain ⟨hLength, hArgs⟩ := ihArgs
      simp only [Judgement.Generated, lowerExpr, hType, hMethod, gives_bind, gives_pure,
        gives_checkArity]
      exact ⟨_, _, ihReceiver, (), _, ⟨hLength, rfl⟩, _, _, hArgs, rfl, rfl⟩
  | noArgs => exact ⟨rfl, by simp only [lowerArgs]; rfl⟩
  | arg _ _ ihFirst ihRest =>
      obtain ⟨lowered, hExpr, hSame, rfl⟩ := ihFirst
      obtain ⟨hLength, hArgs⟩ := ihRest
      refine ⟨by simp [hLength], ?_⟩
      simp only [lowerArgs, gives_bind, gives_pure, gives_expect]
      exact ⟨_, _, hExpr, _, _, ⟨hSame, rfl, rfl⟩, _, _, hArgs, rfl, rfl⟩
  | branchOnly _ _ ihTest ihBody =>
      obtain ⟨test, hTest, hSame, rfl⟩ := ihTest
      obtain ⟨body, hBody, hSettle⟩ := ihBody
      simp only [Judgement.Generated, lowerExpr, gives_unless, gives_bind, gives_expect,
        isMissing_of_gives hBody, Bool.false_eq_true, not_false_eq_true, true_and]
      exact ⟨_, _, hTest, _, _, ⟨hSame, rfl, rfl⟩, _, _, hBody, _, _, hSettle _, rfl⟩
  | branch hMissing hType _ _ _ ihTest ihYes ihNo =>
      exact generated_branch hMissing hType ihTest ihYes ihNo
  | blockOnly hWant _ ih =>
      subst hWant
      simp only [Judgement.Generated, lowerExpr, gives_bind]
      exact ⟨_, _, ih, rfl⟩
  | block hMissing hWant _ _ ihStmts ihTail =>
      obtain ⟨tail, hTail, hSettle⟩ := ihTail
      subst hWant
      simp only [Judgement.Generated, lowerExpr, hMissing, Bool.false_eq_true, if_false, gives_bind,
        gives_pure]
      exact ⟨_, _, ihStmts, _, _, hTail, _, _, hSettle _, rfl, rfl⟩
  | cases hSubject hSome hCode hType _ _ ihScrutinee ihArms =>
      exact generated_cases hSubject hSome hCode hType ihScrutinee ihArms
  | noArm =>
      simp only [Judgement.Generated, lowerArms]
      rfl
  | wildcard _ ih =>
      obtain ⟨lowered, hExpr, hSettle⟩ := ih
      simp only [Judgement.Generated, lowerArms, gives_bind]
      exact ⟨_, _, hExpr, hSettle _⟩
  | bind _ ih =>
      obtain ⟨lowered, hExpr, hSettle⟩ := ih
      simp only [Judgement.Generated, lowerArms, gives_bind, gives_pure, gives_newSlot]
      exact ⟨_, _, ⟨rfl, rfl⟩, _, _, hExpr, _, _, hSettle _, rfl, rfl⟩
  | literal _ _ _ ihValue ihBody ihRest => exact generated_literal ihValue ihBody ihRest
  | member hType hRecord hFound _ ih =>
      obtain ⟨lowered, hExpr, hSame, rfl⟩ := ih
      simp only [Judgement.Generated, lowerExpr, hType, loadField, hRecord, hFound, gives_bind,
        gives_pure, gives_expect]
      exact ⟨_, _, hExpr, _, _, ⟨hSame, rfl, rfl⟩, _, _, ⟨rfl, rfl⟩, rfl, rfl⟩
  | construct hRecord hAssigns hAlloc _ ih => exact generated_construct hRecord hAssigns hAlloc ih
  | stored => exact ⟨by simp, rfl⟩
  | store hInit _ _ ihValue ihRest => exact generated_store hInit ihValue ihRest

end RecordWasm.Lowering
