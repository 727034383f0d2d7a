import RecordWasm.Proofs.Lowering.Derivation

/-!
# All generated code is derived

Whatever the functions that generate code give has a derivation.  The proof follows their recursion,
one theorem for each of them.
-/

namespace RecordWasm.Lowering

open Syntax Layout Wasm

section Steps

variable {α β : Type} {before after : Slots}

theorem gen_bind (first : Gen α) (next : α → Gen β) (before : Slots) :
    (first >>= next) before = first before >>= fun pair => next pair.1 pair.2 := rfl

theorem gen_lift (first : Except Failure α) (before : Slots) :
    (liftM first : Gen α) before = first.map fun value => (value, before) := by
  cases first <;> rfl

theorem gives_bind {first : Gen α} {next : α → Gen β} {result : β} :
    (first >>= next) before = .ok (result, after) ↔
      ∃ value middle, first before = .ok (value, middle) ∧
        next value middle = .ok (result, after) := by
  rw [gen_bind, bind_ok]
  constructor
  · rintro ⟨⟨value, middle⟩, hFirst, hNext⟩
    exact ⟨value, middle, hFirst, hNext⟩
  · rintro ⟨value, middle, hFirst, hNext⟩
    exact ⟨⟨value, middle⟩, hFirst, hNext⟩

theorem gives_pure {value result : α} :
    (pure value : Gen α) before = .ok (result, after) ↔ value = result ∧ before = after := by
  change (Except.ok (value, before) : Except Failure (α × Slots)) = _ ↔ _
  simp

theorem gives_lift {first : Except Failure α} {result : α} :
    (liftM first : Gen α) before = .ok (result, after) ↔ first = .ok result ∧ before = after := by
  rw [gen_lift]
  cases first <;> simp [Except.map]

theorem gives_fail {context : Context} {pos : Position} {kind : Kind} {detail : String}
    {result : α} : ¬(context.fail pos kind detail : Gen α) before = .ok (result, after) := by
  intro hFail
  cases hFail

theorem gives_unsupported {context : Context} {pos : Position} {construct : String} {result : α} :
    ¬(context.unsupported pos construct : Gen α) before = .ok (result, after) := by
  intro hFail
  cases hFail

theorem gives_mismatch {context : Context} {pos : Position} {want got : Ty} {result : α} :
    ¬(context.mismatch pos want got : Gen α) before = .ok (result, after) := by
  intro hFail
  cases hFail

theorem gives_newSlot {type : Ty} {slot : Slot} :
    newSlot type before = .ok (slot, after) ↔
      before.next type = slot ∧ before.push type = after := by
  change (Except.ok (before.next type, before.push type) : Except Failure (Slot × Slots)) = _ ↔ _
  simp

theorem gives_expect {context : Context} {pos : Position} {want : Ty} {lowered : Lowered}
    {code : Code} :
    expect context pos want lowered before = .ok (code, after) ↔
      sameRepr lowered.type want = true ∧ lowered.code = code ∧ before = after := by
  rw [expect]
  by_cases hSame : sameRepr lowered.type want = true
  · rw [if_pos hSame, gives_pure]
    simp [hSame]
  · rw [if_neg hSame]
    simp [hSame, gives_mismatch]

/-- A test that makes lowering fail was not met. -/
theorem gives_unless {condition : Prop} [Decidable condition] {context : Context} {pos : Position}
    {kind : Kind} {detail : String} {next : α → Gen β} {rest : Gen β} {result : β} :
    (if condition then context.fail pos kind detail >>= next else rest) before =
        .ok (result, after) ↔
      ¬condition ∧ rest before = .ok (result, after) := by
  by_cases hCondition : condition
  · rw [if_pos hCondition, gives_bind]
    simp only [gives_fail, hCondition, false_and, exists_false, not_true_eq_false]
  · rw [if_neg hCondition]
    simp only [hCondition, not_false_eq_true, true_and]

end Steps

/-- An expression that is derived yields what is expected, if lowering says so. -/
theorem settled_of_gives {context : Context} {pos : Position} {want : Ty} {asArm : Bool}
    {expr : Expr} {lowered : Lowered} {code : Code} {before middle after : Slots}
    (hExpr : Derives before (.expr context want asArm expr lowered) middle)
    (hSettle : settle context pos want lowered middle = .ok (code, after)) :
    Derives before (.settled context want asArm expr code) after := by
  rw [settle] at hSettle
  by_cases hVoid : want.isVoid = true
  · rw [if_pos hVoid, gives_pure] at hSettle
    obtain ⟨rfl, rfl⟩ := hSettle
    exact .discarded hVoid hExpr
  · rw [if_neg hVoid, gives_expect] at hSettle
    obtain ⟨hSame, rfl, rfl⟩ := hSettle
    exact .kept (by simpa using hVoid) hExpr hSame

theorem loadField_gives {context : Context} {pos : Position} {base : Ty} {field : String}
    {load : Instr × Ty} {before after : Slots}
    (hLoad : loadField context pos base field before = .ok (load, after)) :
    ∃ name record found, base = .record name ∧ context.env.registry.get? name = some record ∧
      record.field? field = some found ∧
      load = (loadInstr found, context.env.typeOfField name found) ∧ before = after := by
  cases base with
  | record name =>
      cases hRecord : context.env.registry.get? name with
      | none =>
          simp only [loadField, hRecord] at hLoad
          cases hLoad
      | some record =>
          cases hFound : record.field? field with
          | none =>
              simp only [loadField, hRecord, hFound] at hLoad
              cases hLoad
          | some found =>
              simp only [loadField, hRecord, hFound, gives_pure] at hLoad
              exact ⟨name, record, found, rfl, hRecord, hFound, hLoad.1.symm, hLoad.2⟩
  | _ => cases hLoad

theorem loads_of_loadPath {context : Context} {pos : Position} {base : Ty} {path : List String}
    {lowered : Lowered} {before after : Slots}
    (hLoad : loadPath context pos base path before = .ok (lowered, after)) :
    Loads context.env base path lowered ∧ before = after := by
  induction path generalizing base lowered before after with
  | nil =>
      rw [loadPath, gives_pure] at hLoad
      obtain ⟨rfl, rfl⟩ := hLoad
      exact ⟨.here, rfl⟩
  | cons field rest ih =>
      simp only [loadPath, gives_bind, gives_pure] at hLoad
      obtain ⟨load, middle, hField, deeper, last, hDeeper, rfl, rfl⟩ := hLoad
      obtain ⟨name, record, found, rfl, hRecord, hFound, rfl, rfl⟩ := loadField_gives hField
      obtain ⟨hLoads, rfl⟩ := ih hDeeper
      exact ⟨.field hRecord hFound hLoads, rfl⟩

theorem lowerVariant_gives {context : Context} {pos : Position} {enum variant : String}
    {lowered : Lowered} {before after : Slots}
    (hLower : lowerVariant context pos enum variant before = .ok (lowered, after)) :
    ∃ index, context.env.variant? enum variant = some index ∧
      lowered = ⟨[.i32Const (Int32.ofNat index)], .enum enum⟩ ∧ before = after := by
  cases hIndex : context.env.variant? enum variant with
  | none =>
      simp only [lowerVariant, hIndex] at hLower
      cases hLower
  | some index =>
      simp only [lowerVariant, hIndex, gives_pure] at hLower
      exact ⟨index, rfl, hLower.1.symm, hLower.2⟩

theorem lowerIdent_derives {context : Context} {hint : Ty} {asArm : Bool} {tag : Tag}
    {name : String} {lowered : Lowered} {before after : Slots}
    (hLower : lowerIdent context tag.pos name before = .ok (lowered, after)) :
    Derives before (.expr context hint asArm (.ident tag name) lowered) after := by
  cases hLookup : context.lookup? name with
  | some slot =>
      simp only [lowerIdent, hLookup, gives_pure] at hLower
      obtain ⟨rfl, rfl⟩ := hLower
      exact .bound hLookup
  | none =>
      simp only [lowerIdent, hLookup] at hLower
      by_cases hSelf : context.receiver ≠ "" ∧ name = selfName
      · rw [if_pos hSelf, gives_pure] at hLower
        obtain ⟨hMethod, rfl⟩ := hSelf
        obtain ⟨rfl, rfl⟩ := hLower
        exact .self hLookup hMethod
      · rw [if_neg hSelf] at hLower
        cases hPath : context.receiverPathType? name with
        | some type =>
            simp only [hPath, Option.isSome_some, if_true, gives_bind, gives_pure] at hLower
            obtain ⟨path, middle, hLoad, rfl, rfl⟩ := hLower
            obtain ⟨hLoads, rfl⟩ := loads_of_loadPath hLoad
            have hReceiver : context.receiver ≠ "" := by
              intro hNone
              rw [Context.receiverPathType?, if_pos hNone] at hPath
              cases hPath
            exact .path hLookup (fun hName => hSelf ⟨hReceiver, hName⟩) hPath hLoads
        | none =>
            simp only [hPath, Option.isSome_none, Bool.false_eq_true, if_false] at hLower
            cases hVariant : namedVariant? context.env name with
            | none =>
                simp only [hVariant] at hLower
                cases hLower
            | some pair =>
                simp only [hVariant] at hLower
                obtain ⟨index, hIndex, rfl, rfl⟩ := lowerVariant_gives hLower
                exact .named hLookup hPath hVariant hIndex

theorem gives_checkArity {context : Context} {pos : Position} {ref : FuncRef} {params : List Ty}
    {args : List Expr} {result : Unit} {before after : Slots} :
    checkArity context pos ref params args before = .ok (result, after) ↔
      args.length = params.length ∧ before = after := by
  rw [checkArity]
  by_cases hLength : args.length = params.length
  · rw [if_pos hLength, gives_pure]
    simp [hLength]
  · rw [if_neg hLength]
    simp [hLength, gives_fail]

/-- Initializers that pass are for fields of their own, none of which was seen before. -/
theorem unique_gives {context : Context} {record : Record} {name : String} {inits : List FieldInit}
    {seen : List String} {result : Unit} {before after : Slots}
    (hCheck : checkInits.unique context record name seen inits before = .ok (result, after)) :
    before = after ∧ Assigns record inits ∧ ∀ init ∈ inits, init.name ∉ seen := by
  induction inits generalizing seen before with
  | nil =>
      rw [checkInits.unique, gives_pure] at hCheck
      exact ⟨hCheck.2, ⟨by simp, List.nodup_nil⟩, by simp⟩
  | cons init rest ih =>
      cases init with
      | mk place label value =>
          simp only [checkInits.unique, gives_unless] at hCheck
          obtain ⟨hField, hNew, hRest⟩ := hCheck
          obtain ⟨hSame, hAssigns, hOthers⟩ := ih hRest
          obtain ⟨field, hFound⟩ := Option.ne_none_iff_exists'.1 (by simpa using hField)
          refine ⟨hSame, ⟨?_, List.nodup_cons.2 ⟨fun hTwice => ?_, hAssigns.names⟩⟩, ?_⟩
          · intro other hOther
            rcases List.mem_cons.1 hOther with rfl | hLater
            · have hName : field.name = label := by simpa using List.find?_some hFound
              exact ⟨field, List.mem_of_find?_eq_some hFound, hName⟩
            · exact hAssigns.fields other hLater
          · obtain ⟨other, hOther, hName⟩ := List.mem_map.1 hTwice
            exact hOthers other hOther (List.mem_cons.2 (.inl hName))
          · intro other hOther
            rcases List.mem_cons.1 hOther with rfl | hLater
            · exact hNew
            · exact fun hSeen => hOthers other hLater (List.mem_cons_of_mem _ hSeen)

/-- A record whose initializers pass has one for every field and no other. -/
theorem checkInits_gives {context : Context} {pos : Position} {record : Record} {name : String}
    {inits : List FieldInit} {result : Unit} {before after : Slots}
    (hCheck : checkInits context pos record name inits before = .ok (result, after)) :
    before = after ∧ Assigns record inits ∧
      ∀ field ∈ record.fields, ∃ init ∈ inits, init.name = field.name := by
  simp only [checkInits, gives_bind] at hCheck
  obtain ⟨_, middle, hFirst, hRest⟩ := hCheck
  obtain ⟨hSame, hAssigns, -⟩ := unique_gives hFirst
  cases hFind : record.fields.find? fun field =>
    !(inits.any fun init => init.name == field.name) with
  | some field =>
      simp only [hFind, gives_fail] at hRest
  | none =>
      simp only [hFind, gives_pure] at hRest
      refine ⟨hSame.trans hRest.2, hAssigns, fun field hField => ?_⟩
      have hNone := List.find?_eq_none.1 hFind field hField
      simpa using hNone

/-- How initializers are lowered is derived. -/
def Initializes (context : Context) (inits : List FieldInit)
    (values : List (String × (Ty → Gen Code))) : Prop :=
  ∀ name lower, values.lookup name = some lower → ∃ init, initOf? inits name = some init ∧
    ∀ want before code after, lower want before = .ok (code, after) →
      Derives before (.value context want init.value code) after

theorem storeFields_derives {context : Context} {name : String} {address : UInt32}
    {inits : List FieldInit} {values : List (String × (Ty → Gen Code))} {fields : List Field}
    {before after : Slots} {code : Code} (hValues : Initializes context inits values)
    (hAll : ∀ field ∈ fields, (values.lookup field.name).isSome)
    (hStore : storeFields context name address values fields before = .ok (code, after)) :
    Derives before (.stores context name address inits fields code) after := by
  induction fields generalizing before code with
  | nil =>
      rw [storeFields, gives_pure] at hStore
      obtain ⟨rfl, rfl⟩ := hStore
      exact .stored
  | cons field rest ih =>
      obtain ⟨lower, hLower⟩ := Option.isSome_iff_exists.1 (hAll field List.mem_cons_self)
      obtain ⟨init, hInit, hDerives⟩ := hValues field.name lower hLower
      simp only [storeFields, hLower, gives_bind, gives_pure] at hStore
      obtain ⟨value, middle, hValue, others, last, hOthers, rfl, rfl⟩ := hStore
      exact .store hInit (hDerives _ _ _ _ hValue)
        (ih (fun other hOther => hAll other (List.mem_cons_of_mem _ hOther)) hOthers)

theorem lookup_lowerInits {context : Context} {inits : List FieldInit} {init : FieldInit}
    (hInit : init ∈ inits) : ((lowerInits context inits).lookup init.name).isSome := by
  induction inits with
  | nil => cases hInit
  | cons first rest ih =>
      cases first with
      | mk pos name value =>
          rw [lowerInits, List.lookup_cons]
          rcases List.mem_cons.1 hInit with rfl | hLater
          · simp [FieldInit.name]
          · split
            · rfl
            · exact ih hLater

theorem gives_checkPattern {context : Context} {pattern : Pattern} {result : Unit}
    {before after : Slots} :
    checkPattern context pattern before = .ok (result, after) ↔
      hasCode context.env pattern = true ∧ before = after := by
  cases pattern with
  | wildcard | bind => simp [checkPattern, hasCode, gives_pure]
  | literal pos value =>
      change (if hasCode context.env (.literal pos value) = true then pure ()
        else context.unsupported pos "non-literal match pattern" : Gen Unit) before = _ ↔ _
      by_cases hCode : hasCode context.env (.literal pos value) = true
      · rw [if_pos hCode, gives_pure]
        simp [hCode]
      · rw [if_neg hCode]
        simp [hCode, gives_unsupported]
  | missing => simp [checkPattern, hasCode, gives_fail]
  | constructor => simp [checkPattern, hasCode, gives_unsupported]

/-- Looking at patterns hands out no slot. -/
theorem gives_checkPatterns {context : Context} {arms : List Arm} {result : Unit}
    {before after : Slots} :
    (arms.forM fun arm => checkPattern context arm.pattern) before = .ok (result, after) ↔
      (∀ arm ∈ arms, hasCode context.env arm.pattern = true) ∧ before = after := by
  induction arms generalizing before with
  | nil => simp [List.forM, gives_pure]
  | cons arm rest ih =>
      rw [List.forM, gives_bind]
      simp only [gives_checkPattern, ih, List.mem_cons, forall_eq_or_imp]
      constructor
      · rintro ⟨_, middle, ⟨hFirst, rfl⟩, hRest, rfl⟩
        exact ⟨⟨hFirst, hRest⟩, rfl⟩
      · rintro ⟨⟨hFirst, hRest⟩, rfl⟩
        exact ⟨(), before, ⟨hFirst, rfl⟩, hRest, rfl⟩

/-! ## One construct at a time -/

section Constructs

variable {context : Context} {hint : Ty} {asArm : Bool} {tag : Tag} {lowered : Lowered}
variable {before after : Slots}

theorem lowerUnary_derives {op : String} {operand : Expr}
    (hOperand : ∀ {type lowered}, lowerExpr context type false operand before =
      .ok (lowered, after) → Derives before (.expr context type false operand lowered) after)
    (hLower : lowerExpr context hint asArm (.unary tag op operand) before = .ok (lowered, after)) :
    Derives before (.expr context hint asArm (.unary tag op operand) lowered) after := by
  by_cases hNot : op = "!"
  · subst hNot
    simp only [lowerExpr, gives_bind, gives_pure, gives_expect] at hLower
    obtain ⟨_, _, hExpr, _, _, ⟨hSame, rfl, rfl⟩, rfl, rfl⟩ := hLower
    exact .not (.value (hOperand hExpr) hSame)
  · by_cases hMinus : op = "-"
    · subst hMinus
      have hFold : (if (isNumericLit operand && isNumeric hint) = true then hint
          else context.typeOf operand) = negationType context operand hint := rfl
      simp only [lowerExpr, hFold] at hLower
      cases hType : negationType context operand hint with
      | f32 | f64 =>
          simp only [hType, isNumeric, Ty.isFloat, Bool.or_true, if_true, gives_bind, gives_pure,
            gives_expect] at hLower
          obtain ⟨_, _, hExpr, _, _, ⟨hSame, rfl, rfl⟩, rfl, rfl⟩ := hLower
          refine .negateFloat hType.symm ?_ (.value (hOperand hExpr) hSame)
          rfl
      | i32 | i64 =>
          simp only [hType, isNumeric, Ty.isInteger, Bool.true_or, if_true, gives_bind, gives_pure,
            gives_expect] at hLower
          obtain ⟨_, _, hExpr, _, _, ⟨hSame, rfl, rfl⟩, rfl, rfl⟩ := hLower
          exact .negateInt hType.symm rfl (.value (hOperand hExpr) hSame)
      | _ =>
          simp only [hType] at hLower
          cases hLower
    · rw [lowerExpr] at hLower
      · cases hLower
      · exact hNot
      · exact hMinus

theorem lowerBinary_derives {op : String} {left right : Expr}
    (hLeft : ∀ {type lowered middle}, lowerExpr context type false left before =
      .ok (lowered, middle) → Derives before (.expr context type false left lowered) middle)
    (hRight : ∀ {type lowered middle}, lowerExpr context type false right middle =
      .ok (lowered, after) → Derives middle (.expr context type false right lowered) after)
    (hLower : lowerExpr context hint asArm (.binary tag op left right) before =
      .ok (lowered, after)) :
    Derives before (.expr context hint asArm (.binary tag op left right) lowered) after := by
  cases hLogical : isLogical op with
  | true =>
      simp only [lowerExpr, hLogical, if_true, gives_bind, gives_pure, gives_expect] at hLower
      obtain ⟨_, _, hFirst, _, _, ⟨hSame, rfl, rfl⟩, _, _, hSecond, _, _, ⟨hOther, rfl, rfl⟩,
        rfl, rfl⟩ :=
        hLower
      exact .logical hLogical (.value (hLeft hFirst) hSame) (.value (hRight hSecond) hOther)
  | false =>
      simp only [lowerExpr, hLogical, Bool.false_eq_true, if_false, gives_unless, gives_bind,
        gives_expect] at hLower
      obtain ⟨hSome, _, _, hFirst, _, _, ⟨hSame, rfl, rfl⟩, _, _, hSecond, _, _, ⟨hOther, rfl, rfl⟩,
        hOperator⟩ := hLower
      cases hFound : operator? (binaryType context op left right hint) op with
      | none => simp only [hFound, gives_unsupported] at hOperator
      | some opcode =>
          simp only [hFound, gives_pure] at hOperator
          obtain ⟨rfl, rfl⟩ := hOperator
          exact .binary hLogical rfl (by simpa using hSome) (.value (hLeft hFirst) hSame)
            (.value (hRight hSecond) hOther) hFound

theorem lowerCall_derives {function : String} {args : List Expr}
    (hArgs : ∀ {params code}, args.length = params.length →
      lowerArgs context params args before = .ok (code, after) →
      Derives before (.args context params args code) after)
    (hLower : lowerExpr context hint asArm (.call tag function args) before =
      .ok (lowered, after)) :
    Derives before (.expr context hint asArm (.call tag function args) lowered) after := by
  cases hFunction : context.env.function? function with
  | some ref =>
      simp only [lowerExpr, hFunction, gives_bind, gives_pure, gives_checkArity] at hLower
      obtain ⟨_, _, ⟨hLength, rfl⟩, _, _, hCode, rfl, rfl⟩ := hLower
      refine .call ⟨?_, .inl hFunction⟩ (hArgs hLength hCode)
      simp [Context.callee?, hFunction]
  | none =>
      cases hOwn : context.ownMethod? function with
      | some ref =>
          simp only [lowerExpr, hFunction, hOwn, gives_bind, gives_pure, gives_checkArity] at hLower
          obtain ⟨_, _, ⟨hLength, rfl⟩, _, _, hCode, rfl, rfl⟩ := hLower
          exact .ownCall hFunction hOwn (hArgs hLength hCode)
      | none =>
          cases hCallee : context.callee? function with
          | none => simp only [lowerExpr, hFunction, hOwn, hCallee, gives_fail] at hLower
          | some ref =>
              simp only [lowerExpr, hFunction, hOwn, hCallee, gives_bind, gives_pure,
                gives_checkArity] at hLower
              obtain ⟨_, _, ⟨hLength, rfl⟩, _, _, hCode, rfl, rfl⟩ := hLower
              exact .call ⟨hCallee, .inr ⟨hFunction, hOwn⟩⟩ (hArgs hLength hCode)

theorem lowerBranch_derives {cond body otherwise : Expr}
    (hCond : ∀ {type lowered middle}, lowerExpr context type false cond before =
      .ok (lowered, middle) → Derives before (.expr context type false cond lowered) middle)
    (hBody : ∀ {type lowered first second},
      lowerExpr context.inFrame type true body first = .ok (lowered, second) →
      Derives first (.expr context.inFrame type true body lowered) second)
    (hOtherwise : ∀ {type lowered first second},
      lowerExpr context.inFrame type true otherwise first = .ok (lowered, second) →
      Derives first (.expr context.inFrame type true otherwise lowered) second)
    (hLower : lowerExpr context hint asArm (.branch tag cond body otherwise) before =
      .ok (lowered, after)) :
    Derives before (.expr context hint asArm (.branch tag cond body otherwise) lowered) after := by
  simp only [lowerExpr, gives_unless, gives_bind, gives_expect] at hLower
  obtain ⟨-, _, _, hExpr, _, _, ⟨hSame, rfl, rfl⟩, _, _, hYes, _, _, hFirst, hRest⟩ := hLower
  have hTest := Derives.value (hCond hExpr) hSame
  cases hMissing : otherwise.isMissing with
  | true =>
      cases otherwise with
      | missing =>
          rw [if_pos hMissing, gives_pure] at hRest
          obtain ⟨rfl, rfl⟩ := hRest
          exact .branchOnly hTest (settled_of_gives (hBody hYes) hFirst)
      | _ => cases hMissing
  | false =>
      simp only [hMissing, Bool.false_eq_true, if_false, gives_bind, gives_pure] at hRest
      obtain ⟨_, _, hNo, _, _, hSecond, rfl, rfl⟩ := hRest
      exact .branch hMissing rfl hTest (settled_of_gives (hBody hYes) hFirst)
        (settled_of_gives (hOtherwise hNo) hSecond)

theorem lowerBlock_derives {stmts : List Stmt} {tail : Expr}
    (hStmts : ∀ {code inner middle}, lowerStmts context stmts before = .ok ((code, inner), middle) →
      Derives before (.stmts context stmts code inner) middle)
    (hTail : ∀ {inner type lowered middle last},
      lowerExpr inner type false tail middle = .ok (lowered, last) →
      Derives middle (.expr inner type false tail lowered) last)
    (hLower : lowerExpr context hint asArm (.block tag stmts tail) before = .ok (lowered, after)) :
    Derives before (.expr context hint asArm (.block tag stmts tail) lowered) after := by
  simp only [lowerExpr, gives_bind] at hLower
  obtain ⟨⟨code, inner⟩, middle, hFront, hRest⟩ := hLower
  cases hMissing : tail.isMissing with
  | true =>
      cases tail with
      | missing =>
          rw [if_pos hMissing, gives_pure] at hRest
          obtain ⟨rfl, rfl⟩ := hRest
          exact .blockOnly rfl (hStmts hFront)
      | _ => cases hMissing
  | false =>
      simp only [hMissing, Bool.false_eq_true, if_false, gives_bind, gives_pure] at hRest
      obtain ⟨_, _, hLast, _, _, hSettle, rfl, rfl⟩ := hRest
      exact .block hMissing rfl (hStmts hFront) (settled_of_gives (hTail hLast) hSettle)

end Constructs

/-! ## Statements and expressions -/

mutual

theorem lowerStmts_derives {context outer : Context} {before after : Slots} {code : Code} :
    (stmts : List Stmt) → lowerStmts context stmts before = .ok ((code, outer), after) →
      Derives before (.stmts context stmts code outer) after
  | [], hLower => by
      simp only [lowerStmts, gives_pure, Prod.mk.injEq] at hLower
      obtain ⟨⟨rfl, rfl⟩, rfl⟩ := hLower
      exact .nil
  | stmt :: rest, hLower => by
      simp only [lowerStmts, gives_bind, gives_pure, Prod.mk.injEq] at hLower
      obtain ⟨⟨first, inner⟩, middle, hStmt, ⟨others, last⟩, final, hRest, ⟨rfl, rfl⟩, rfl⟩ :=
        hLower
      exact .cons (lowerStmt_derives stmt hStmt) (lowerStmts_derives rest hRest)

theorem lowerStmt_derives {context outer : Context} {before after : Slots} {code : Code} :
    (stmt : Stmt) → lowerStmt context stmt before = .ok ((code, outer), after) →
      Derives before (.stmt context stmt code outer) after
  | .missing, hLower => by
      simp only [lowerStmt, gives_fail] at hLower
  | .declare pos name type value, hLower => by
      simp only [lowerStmt, gives_unless, gives_bind, gives_pure, gives_expect, gives_newSlot,
        Prod.mk.injEq] at hLower
      obtain ⟨hSome, lowered, middle, hExpr, code, last, ⟨hSame, rfl, rfl⟩, slot, final, ⟨rfl, rfl⟩,
        ⟨rfl, rfl⟩, rfl⟩ := hLower
      exact .declare rfl (by simpa using hSome) (.value (lowerExpr_derives value hExpr) hSame)
  | .assign pos target value, hLower => by
      cases target with
      | ident tag name =>
          cases hLookup : context.lookup? name with
          | none =>
              simp only [lowerStmt, hLookup] at hLower
              split at hLower
              · cases hLower
              · cases hLower
          | some slot =>
              simp only [lowerStmt, hLookup, gives_bind, gives_pure, gives_expect, Prod.mk.injEq]
                at hLower
              obtain ⟨lowered, middle, hExpr, code, last, ⟨hSame, rfl, rfl⟩, ⟨rfl, rfl⟩, rfl⟩ :=
                hLower
              exact .assign hLookup (.value (lowerExpr_derives value hExpr) hSame)
      | _ =>
          simp only [lowerStmt, gives_unsupported] at hLower
  | .result pos value, hLower => by
      cases hMissing : value.isMissing with
      | true =>
          cases hVoid : context.result.isVoid with
          | true =>
              simp only [lowerStmt, hMissing, hVoid, gives_pure, Prod.mk.injEq] at hLower
              obtain ⟨⟨rfl, rfl⟩, rfl⟩ := hLower
              cases value with
              | missing => exact .leaveVoid hVoid
              | _ => cases hMissing
          | false =>
              simp only [lowerStmt, hMissing, hVoid, gives_fail] at hLower
      | false =>
          cases hVoid : context.result.isVoid with
          | true =>
              simp only [lowerStmt, hMissing, hVoid, gives_fail] at hLower
          | false =>
              simp only [lowerStmt, hMissing, hVoid, gives_bind, gives_pure, gives_expect,
                Prod.mk.injEq] at hLower
              obtain ⟨lowered, middle, hExpr, code, last, ⟨hSame, rfl, rfl⟩, ⟨rfl, rfl⟩, rfl⟩ :=
                hLower
              exact .leaveWith hVoid (.value (lowerExpr_derives value hExpr) hSame)
  | .eval pos value, hLower => by
      simp only [lowerStmt, gives_bind, gives_pure, Prod.mk.injEq] at hLower
      obtain ⟨lowered, middle, hExpr, ⟨rfl, rfl⟩, rfl⟩ := hLower
      exact .eval (.discarded rfl (lowerExpr_derives value hExpr))
  | .whileLoop pos cond body, hLower => by
      simp only [lowerStmt, gives_bind, gives_pure, gives_expect, Prod.mk.injEq] at hLower
      obtain ⟨lowered, first, hCond, test, middle, ⟨hSame, rfl, rfl⟩, ⟨inner, last⟩, final, hBody,
        ⟨rfl, rfl⟩, rfl⟩ := hLower
      exact .whileLoop (.value (lowerExpr_derives cond hCond) hSame) (lowerStmts_derives body hBody)
  | .forever pos body, hLower => by
      simp only [lowerStmt, gives_bind, gives_pure, Prod.mk.injEq] at hLower
      obtain ⟨⟨inner, last⟩, final, hBody, ⟨rfl, rfl⟩, rfl⟩ := hLower
      exact .forever (lowerStmts_derives body hBody)
  | .forRange pos var start stop body, hLower => by
      simp only [lowerStmt, gives_unless, gives_bind, gives_pure, gives_expect, gives_newSlot,
        Prod.mk.injEq] at hLower
      obtain ⟨hInteger, lower, first, hStart, _, _, ⟨hLower, rfl, rfl⟩, counter, _,
        ⟨rfl, rfl⟩, upper, second, hStop, _, _, ⟨hUpper, rfl, rfl⟩, limit, _, ⟨rfl, rfl⟩,
        ⟨code, inner⟩, last, hBody, ⟨rfl, rfl⟩, rfl⟩ := hLower
      exact .forRange rfl (by simpa using hInteger) (.value (lowerExpr_derives start hStart) hLower)
        (.value (lowerExpr_derives stop hStop) hUpper) (lowerStmts_derives body hBody)
  | .leave pos, hLower => by
      cases hLoop : context.loop with
      | none => simp only [lowerStmt, hLoop, gives_fail] at hLower
      | some targets =>
          simp only [lowerStmt, hLoop, gives_pure, Prod.mk.injEq] at hLower
          obtain ⟨⟨rfl, rfl⟩, rfl⟩ := hLower
          exact .leave hLoop
  | .next pos, hLower => by
      cases hLoop : context.loop with
      | none => simp only [lowerStmt, hLoop, gives_fail] at hLower
      | some targets =>
          simp only [lowerStmt, hLoop, gives_pure, Prod.mk.injEq] at hLower
          obtain ⟨⟨rfl, rfl⟩, rfl⟩ := hLower
          exact .next hLoop

theorem lowerExpr_derives {context : Context} {hint : Ty} {asArm : Bool} {before after : Slots}
    {lowered : Lowered} :
    (expr : Expr) → lowerExpr context hint asArm expr before = .ok (lowered, after) →
      Derives before (.expr context hint asArm expr lowered) after
  | .missing, hLower => by
      simp only [lowerExpr, gives_fail] at hLower
  | .int tag value, hLower => by
      simp only [lowerExpr, gives_pure] at hLower
      obtain ⟨rfl, rfl⟩ := hLower
      exact .int rfl
  | .float tag bits, hLower => by
      simp only [lowerExpr, gives_pure] at hLower
      obtain ⟨rfl, rfl⟩ := hLower
      exact .float rfl
  | .bool tag value, hLower => by
      simp only [lowerExpr, gives_pure] at hLower
      obtain ⟨rfl, rfl⟩ := hLower
      exact .bool
  | .ident tag name, hLower => by
      rw [lowerExpr] at hLower
      exact lowerIdent_derives hLower
  | .binary tag op left right, hLower =>
      lowerBinary_derives (lowerExpr_derives left) (lowerExpr_derives right) hLower
  | .unary tag op operand, hLower => lowerUnary_derives (lowerExpr_derives operand) hLower
  | .call tag function args, hLower => lowerCall_derives (lowerArgs_derives args _) hLower
  | .methodCall tag receiver method args, hLower => by
      cases hType : context.typeOf receiver with
      | record name =>
          cases hMethod : context.env.method? name method with
          | none => simp only [lowerExpr, hType, hMethod, gives_fail] at hLower
          | some ref =>
              simp only [lowerExpr, hType, hMethod, gives_bind, gives_pure, gives_checkArity]
                at hLower
              obtain ⟨_, _, hReceiver, _, _, ⟨hLength, rfl⟩, _, _, hArgs, rfl, rfl⟩ := hLower
              exact .methodCall hType hMethod (lowerExpr_derives receiver hReceiver)
                (lowerArgs_derives args _ hLength hArgs)
      | _ => simp only [lowerExpr, hType, gives_fail] at hLower
  | .branch tag cond body otherwise, hLower =>
      lowerBranch_derives (lowerExpr_derives cond) (lowerExpr_derives body)
        (lowerExpr_derives otherwise) hLower
  | .block tag stmts tail, hLower =>
      lowerBlock_derives (lowerStmts_derives stmts) (lowerExpr_derives tail) hLower
  | .cases tag scrutinee arms, hLower => by
      simp only [lowerExpr, gives_unless, gives_bind, gives_pure, gives_expect, gives_newSlot]
        at hLower
      obtain ⟨hSome, _, _, hPatterns, _, _, hScrutinee, _, _, ⟨hSame, rfl, rfl⟩, _, _,
        ⟨rfl, rfl⟩, _, _, hArms, rfl, rfl⟩ := hLower
      obtain ⟨hCode, rfl⟩ := gives_checkPatterns.1 hPatterns
      exact .cases rfl (by simpa using hSome) hCode rfl
        (.value (lowerExpr_derives scrutinee hScrutinee) hSame) (lowerArms_derives arms hArms)
  | .member tag subject field, hLower => by
      cases hType : context.typeOf subject with
      | record name =>
          simp only [lowerExpr, hType, gives_bind, gives_pure, gives_expect] at hLower
          obtain ⟨_, _, hSubject, _, _, ⟨hSame, rfl, rfl⟩, _, _, hField, rfl, rfl⟩ := hLower
          obtain ⟨_, record, found, hName, hRecord, hFound, rfl, rfl⟩ := loadField_gives hField
          cases hName
          exact .member hType hRecord hFound (.value (lowerExpr_derives subject hSubject) hSame)
      | _ => simp only [lowerExpr, hType, gives_fail] at hLower
  | .construct tag name inits, hLower => by
      have hInits := @lowerInits_derives context inits
      cases hRecord : context.env.registry.get? name with
      | none => simp only [lowerExpr, lowerConstruct, hRecord, gives_fail] at hLower
      | some record =>
          simp only [lowerExpr, lowerConstruct, hRecord, gives_bind, gives_pure, gives_lift,
            gives_newSlot] at hLower
          obtain ⟨_, _, hCheck, _, _, ⟨rfl, rfl⟩, alloc, _, ⟨hAlloc, rfl⟩, code, _, hStores, rfl,
            rfl⟩ := hLower
          obtain ⟨rfl, hAssigns, hAll⟩ := checkInits_gives hCheck
          refine .construct hRecord hAssigns hAlloc
            (storeFields_derives hInits (fun field hField => ?_) hStores)
          obtain ⟨init, hInit, hName⟩ := hAll field hField
          rw [← hName]
          exact lookup_lowerInits hInit
  | .variant tag enum variant, hLower => by
      rw [lowerExpr] at hLower
      obtain ⟨index, hIndex, rfl, rfl⟩ := lowerVariant_gives hLower
      exact .variant hIndex
  | .string _ _, hLower | .char _ _, hLower | .null _, hLower | .lambda _ _ _, hLower
  | .cast _ _ _, hLower | .attempt _ _, hLower | .quote _ _, hLower | .eval _ _, hLower
  | .reflect _ _, hLower | .macroCall _ _ _, hLower | .list _ _, hLower | .tuple _ _, hLower => by
      simp only [lowerExpr, gives_unsupported] at hLower

theorem lowerArgs_derives {context : Context} {before after : Slots} {code : Code} :
    (args : List Expr) → (params : List Ty) → args.length = params.length →
      lowerArgs context params args before = .ok (code, after) →
      Derives before (.args context params args code) after
  | [], [], _, hLower => by
      simp only [lowerArgs, gives_pure] at hLower
      obtain ⟨rfl, rfl⟩ := hLower
      exact .noArgs
  | arg :: args, want :: params, hLength, hLower => by
      simp only [lowerArgs, gives_bind, gives_pure, gives_expect] at hLower
      obtain ⟨_, _, hArg, _, _, ⟨hSame, rfl, rfl⟩, _, _, hArgs, rfl, rfl⟩ := hLower
      exact .arg (.value (lowerExpr_derives arg hArg) hSame)
        (lowerArgs_derives args params (Nat.succ.inj hLength) hArgs)

theorem lowerArms_derives {context : Context} {slot : Slot} {type : Ty} {before after : Slots}
    {code : Code} :
    (arms : List Arm) → lowerArms context slot type arms before = .ok (code, after) →
      Derives before (.arms context slot type arms code) after
  | [], hLower => by
      simp only [lowerArms, gives_pure] at hLower
      obtain ⟨rfl, rfl⟩ := hLower
      exact .noArm
  | .mk pos pattern body :: rest, hLower => by
      cases pattern with
      | wildcard place =>
          simp only [lowerArms, gives_bind] at hLower
          obtain ⟨_, _, hBody, hSettle⟩ := hLower
          exact .wildcard (settled_of_gives (lowerExpr_derives body hBody) hSettle)
      | bind place name =>
          simp only [lowerArms, gives_bind, gives_pure, gives_newSlot] at hLower
          obtain ⟨_, _, ⟨rfl, rfl⟩, _, _, hBody, _, _, hSettle, rfl, rfl⟩ := hLower
          exact .bind (settled_of_gives (lowerExpr_derives body hBody) hSettle)
      | literal place value =>
          simp only [lowerArms, gives_bind, gives_pure, gives_expect] at hLower
          obtain ⟨_, _, hValue, _, _, ⟨hSame, rfl, rfl⟩, _, _, hBody, _, _, hSettle, _, _,
            hRest, rfl, rfl⟩ := hLower
          exact .literal (.value (lowerExpr_derives value hValue) hSame)
            (settled_of_gives (lowerExpr_derives body hBody) hSettle) (lowerArms_derives rest hRest)
      | _ => simp only [lowerArms, gives_unsupported] at hLower

theorem lowerInits_derives {context : Context} :
    (inits : List FieldInit) → Initializes context inits (lowerInits context inits)
  | [] => by
      intro name lower hLookup
      cases hLookup
  | .mk pos name value :: rest => by
      intro wanted lower hLookup
      rw [lowerInits, List.lookup_cons] at hLookup
      cases hName : wanted == name with
      | true =>
          simp only [hName, Option.some.injEq] at hLookup
          refine ⟨.mk pos name value, ?_, fun want before code after hLower => ?_⟩
          · exact List.find?_cons_of_pos (beq_iff_eq.2 (eq_of_beq hName).symm)
          subst hLookup
          simp only [gives_bind, gives_expect] at hLower
          obtain ⟨_, _, hValue, hSame, rfl, rfl⟩ := hLower
          exact .value (lowerExpr_derives value hValue) hSame
      | false =>
          simp only [hName] at hLookup
          obtain ⟨init, hInit, hDerives⟩ := lowerInits_derives rest wanted lower hLookup
          refine ⟨init, (List.find?_cons_of_neg fun hSame => ?_).trans hInit, hDerives⟩
          exact beq_eq_false_iff_ne.1 hName (eq_of_beq hSame).symm

end

end RecordWasm.Lowering
