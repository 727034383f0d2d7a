import RecordWasm.Proofs.Evaluation.Contract
import RecordWasm.Proofs.Evaluation.Statements

/-!
# Derived code follows the evaluator

Whatever is derived for source over words works, if the functions that it calls answer as the
evaluator does.  The proof is an induction over derivations, in which every rule is one of the
lemmas about expressions and statements.
-/

namespace RecordWasm.Lowering.Context.Alike

open Syntax

variable {context other : Context}

theorem binaryType (hAlike : context.Alike other) (op : String) (left right : Expr) (hint : Ty) :
    Lowering.binaryType other op left right hint =
      Lowering.binaryType context op left right hint := by
  simp only [Lowering.binaryType, Context.operandType, hAlike.typeOf]

theorem negationType (hAlike : context.Alike other) (operand : Expr) (hint : Ty) :
    Lowering.negationType other operand hint = Lowering.negationType context operand hint := by
  rw [Lowering.negationType, Lowering.negationType, hAlike.typeOf]

theorem branchResult (hAlike : context.Alike other) (branch body otherwise : Expr) (hint : Ty) :
    Lowering.branchResult other branch body otherwise hint =
      Lowering.branchResult context branch body otherwise hint := by
  simp only [Lowering.branchResult, hAlike.typeOf]

theorem yielded (hAlike : context.Alike other) (tag : Tag) (stmts : List Stmt) (tail : Expr)
    (hint : Ty) (asArm : Bool) :
    Lowering.yielded other tag stmts tail hint asArm =
      Lowering.yielded context tag stmts tail hint asArm := by
  simp only [Lowering.yielded, Lowering.blockResult, hAlike.typeOf]

theorem casesResult (hAlike : context.Alike other) (cases : Expr) (arms : List Arm) (hint : Ty) :
    Lowering.casesResult other cases arms hint = Lowering.casesResult context cases arms hint := by
  simp only [Lowering.casesResult, hAlike.typeOf]

/-- A name that has a slot in one context has one of the same type in the other. -/
theorem lookup? {name : String} {slot : Slot} (hAlike : context.Alike other)
    (hLookup : context.lookup? name = some slot) :
    ∃ same, other.lookup? name = some same ∧ same.type = slot.type := by
  have hTypes := hAlike.types name
  rw [hLookup] at hTypes
  exact Option.map_eq_some_iff.1 hTypes

theorem lookup?_none {name : String} (hAlike : context.Alike other)
    (hLookup : context.lookup? name = none) : other.lookup? name = none := by
  have hTypes := hAlike.types name
  rw [hLookup] at hTypes
  exact Option.map_eq_none_iff.1 hTypes

end RecordWasm.Lowering.Context.Alike

namespace RecordWasm.Evaluation

open Syntax Machine Wasm Lowering

/-- Whether the source of a judgement is one over words that carries its types. -/
def carries (functions hidden : List String) (context : Context) : Judgement → Bool
  | .stmts _ source _ _ => stmtsCarry functions hidden context source
  | .stmt _ source _ _ => stmtCarries functions hidden context source
  | .expr _ want asArm source _ | .settled _ want asArm source _ =>
      exprCarries functions hidden context want asArm source
  | .value _ want source _ => exprCarries functions hidden context want false source
  | .args _ params source _ => argsCarry functions hidden context params source
  | .arms _ slot want source _ => armsCarry functions hidden context slot.type want source
  | .stores .. => false

section Following

variable (setting : Setting) (call : String → List Word → Answer)

/-- Statements lead to a spot inside the one that they start at. -/
def Setting.Reaches (spot : Spot) (hidden : List String) (code : Code) (behind : Context)
    (after : Slots) (eval : Scope → Ending Unit) : Prop :=
  ∃ labels, spot.Encloses ⟨behind, labels, after⟩ ∧ Spot.Sound ⟨behind, labels, after⟩ hidden ∧
    setting.Works spot ⟨behind, labels, after⟩ nothing code eval

/-- The code of a judgement follows the evaluation of its source.  The subject of a match is in a
slot that no name has. -/
def Follow (spot : Spot) (hidden : List String) (after : Slots) : Judgement → Prop
  | .stmts _ source code behind =>
      setting.Reaches spot hidden code behind after (evalStmts call setting.fuel · source)
  | .stmt _ source code behind =>
      setting.Reaches spot hidden code behind after (evalStmt call setting.fuel · source)
  | .expr _ _ _ source lowered =>
      setting.Works spot (spot.later after) (Leaves lowered.type) lowered.code
        (evalExpr call setting.fuel · source)
  | .value _ want source code | .settled _ want _ source code =>
      setting.Works spot (spot.later after) (Leaves want) code (evalExpr call setting.fuel · source)
  | .args _ params source code => (∀ type ∈ params, type.isVoid = false) →
      setting.Works spot (spot.later after) (Passed params) code
        (evalArgs call setting.fuel · source)
  | .arms _ slot type source code => slot.type.isVoid = false →
      slot.index.toNat < spot.before.size →
      (∀ entry ∈ spot.context.scope, entry.2.index.toNat ≠ slot.index.toNat) →
      setting.Decides spot (spot.later after) slot type code
        (fun subject vars => evalArms call setting.fuel vars subject source)
  | .stores .. => True

/-- The functions that may be called answer as the evaluator does. -/
def Setting.Knows (functions : List String) (env : Env) : Prop :=
  ∀ name ∈ functions, ∀ ref, env.function? name = some ref → setting.Answers ref (call name)

end Following

/-- There are labels for the frames and indices for the slots of code of a length. -/
structure Fits (context : Context) (before : Slots) (length : Nat) : Prop where
  frames : context.frames + length < 2 ^ 32
  slots : before.size + length < 2 ^ 32

section Slots

variable {before after : Slots} {count : Nat}

theorem size_le_of_grows (hGrows : before.Grows after count) :
    after.size ≤ before.size + count := by
  have hLength := hGrows.length
  rw [Slots.size, Slots.size, hGrows.params]
  omega

/-- A part of code that fits, behind some of it and inside some frames that it opens. -/
theorem Fits.part {context inner : Context} {whole length : Nat} (hFits : Fits context before whole)
    (hGrows : before.Grows after count) (opened : Nat)
    (hFrames : inner.frames ≤ context.frames + opened) (hLess : count + opened + length ≤ whole) :
    Fits inner after length := by
  obtain ⟨hLabels, hSlots⟩ := hFits
  have hSize := size_le_of_grows hGrows
  exact ⟨by omega, by omega⟩

/-- The next slot is behind all that were handed out before. -/
theorem size_le_next (hGrows : before.Grows after count) (hFew : before.size + count < 2 ^ 32)
    (type : Ty) : before.size ≤ (after.next type).index.toNat := by
  have hSize := size_le_of_grows hGrows
  have hIndex : (after.next type).index.toNat = after.size :=
    toNat_toUInt32 (Nat.lt_of_le_of_lt hSize hFew)
  exact hIndex ▸ hGrows.size_le

end Slots

/-- The types of a piece of source are read in another context than the one that it stands in, which
differs in its slots and frames only. -/
structure Reading (setting : Setting) (call : String → List Word → Answer) (functions : List String)
    (context other : Context) : Prop where
  alike : context.Alike other
  result : other.result = context.result
  knows : setting.Knows call functions other.env

namespace Reading

variable {setting : Setting} {call : String → List Word → Answer} {functions : List String}
variable {context inner other : Context}

theorem inFrame (hReading : Reading setting call functions context other) :
    Reading setting call functions context.inFrame other :=
  ⟨hReading.alike.inFrame, hReading.result, hReading.knows⟩

theorem inLoop (hReading : Reading setting call functions context other) :
    Reading setting call functions context.inLoop other := hReading.inFrame.inFrame

theorem looping (hReading : Reading setting call functions context other) (leave next : Nat) :
    Reading setting call functions (context.looping leave next) other :=
  ⟨hReading.alike.looping leave next, hReading.result, hReading.knows⟩

theorem bind (hReading : Reading setting call functions context other) (name : String) {slot : Slot}
    {type : Ty} (hType : type = slot.type) :
    Reading setting call functions (context.bind name slot) (other.typed name type) :=
  ⟨hReading.alike.bind name hType, hReading.result, hReading.knows⟩

/-- Behind statements, which bind names. -/
theorem behind (hReading : Reading setting call functions context other) {later : Context}
    (hAlike : inner.Alike later) (hResult : inner.result = context.result)
    (hEnv : later.env = other.env) (hLater : later.result = other.result) :
    Reading setting call functions inner later :=
  ⟨hAlike, hLater.trans (hReading.result.trans hResult.symm), hEnv ▸ hReading.knows⟩

end Reading

/-- The code of a judgement follows the evaluation of its source wherever it stands. -/
def Followed (setting : Setting) (call : String → List Word → Answer) (functions : List String)
    (before after : Slots) (judgement : Judgement) : Prop :=
  ∀ ⦃labels hidden other⦄, Spot.Sound ⟨judgement.context, labels, before⟩ hidden →
    Reading setting call functions judgement.context other →
    Fits judgement.context before judgement.code.length →
    carries functions hidden other judgement = true →
    Follow setting call ⟨judgement.context, labels, before⟩ hidden after judgement

section Rules

variable {setting : Setting} {call : String → List Word → Answer} {functions : List String}
variable {slots first second before middle after : Slots} {context inner outer : Context}

/-! ## Statements -/

theorem followed_nil :
    Followed setting call functions slots slots (.stmts context [] [] context) := by
  intro labels hidden other hSound _ _ _
  simp only [Follow, evalStmts]
  exact ⟨labels, .refl _, hSound, .nil⟩

theorem followed_cons {stmt : Stmt} {rest : List Stmt} {front others : Code}
    (hFirst : Derives before (.stmt context stmt front inner) middle)
    (hRest : Derives middle (.stmts inner rest others outer) after)
    (ihFirst : Followed setting call functions before middle (.stmt context stmt front inner))
    (ihRest : Followed setting call functions middle after (.stmts inner rest others outer)) :
    Followed setting call functions before after
      (.stmts context (stmt :: rest) (front ++ others) outer) := by
  intro labels hidden other hSound hReading hFits hCarries
  simp only [carries, stmtsCarry, Bool.and_eq_true] at hCarries
  have hSame : context.Same inner := hFirst.same
  obtain ⟨hEnv, hResult⟩ := behind_same other stmt
  obtain ⟨labels, hEncloses, hInner, hWorks⟩ := ihFirst hSound hReading
    (hFits.part (.refl before 0) 0 (Nat.le_refl _) (by simp [Judgement.code])) hCarries.1
  obtain ⟨labels, hFurther, hOuter, hOthers⟩ := ihRest hInner
    (hReading.behind (hFirst.behind hReading.alike) hEncloses.result hEnv hResult)
    (hFits.part hFirst.grows 0 (Nat.le_of_eq hSame.frames) (by simp [Judgement.code])) hCarries.2
  exact ⟨labels, hEncloses.trans hFurther, hOuter,
    hWorks.cons hOthers hEncloses hSame.frames hRest.grows⟩

theorem followed_declare {pos : Position} {name : String} {given type : Ty} {value : Expr}
    {code : Code} (hType : type = declaredType context given value) (hSome : type.isVoid = false)
    (hValue : Derives before (.value context type value code) after)
    (ih : Followed setting call functions before after (.value context type value code)) :
    Followed setting call functions before (after.push type)
      (.stmt context (.declare pos name given value)
      (code ++ [.localSet (after.next type).index]) (context.bind name (after.next type))) := by
  intro labels hidden other hSound (hReading : Reading setting call functions context other)
    hFits hCarries
  simp only [carries, stmtCarries, hReading.alike.declaredType given value, ← hType] at hCarries
  have hPart : Fits context before code.length :=
    hFits.part (.refl before 0) 0 (Nat.le_refl _) (by simp [Judgement.code])
  have hWorks := ih hSound hReading hPart hCarries
  have hNew := size_le_next hValue.grows hPart.slots type
  refine ⟨some name :: labels, .bind _ name (some name) hNew ?_, ?_,
    .declare hSound hSome hWorks hValue.grows⟩
  · exact (hValue.grows.trans (.push after type)).size_le
  · exact hSound.bind [] (.inl rfl) hNew (after.next_lt type) hSome

/-- A statement that binds no name. -/
theorem Setting.Works.stays {spot : Spot} {hidden : List String} {code : Code} {count : Nat}
    {eval : Scope → Ending Unit} (hWorks : setting.Works spot (spot.later after) nothing code eval)
    (hSound : spot.Sound hidden) (hGrows : spot.before.Grows after count) :
    setting.Reaches spot hidden code spot.context after eval :=
  ⟨spot.labels, .later spot hGrows.size_le, hSound.later hGrows.size_le, hWorks⟩

theorem followed_assign {pos : Position} {tag : Tag} {name : String} {value : Expr} {slot : Slot}
    {code : Code} (hLookup : context.lookup? name = some slot)
    (hValue : Derives before (.value context slot.type value code) after)
    (ih : Followed setting call functions before after (.value context slot.type value code)) :
    Followed setting call functions before after
      (.stmt context (.assign pos (.ident tag name) value) (code ++ [.localSet slot.index])
        context) := by
  intro labels hidden other hSound (hReading : Reading setting call functions context other)
    hFits hCarries
  obtain ⟨same, hSame, hType⟩ := hReading.alike.lookup? hLookup
  simp only [carries, stmtCarries, hSame, Option.any_some, hType, Bool.and_eq_true,
    decide_eq_true_eq] at hCarries
  have hWorks := ih hSound hReading
    (hFits.part (.refl before 0) 0 (Nat.le_refl _) (by simp [Judgement.code])) hCarries.2
  exact (Setting.Works.assign hSound hCarries.1 hLookup hWorks).stays hSound hValue.grows

theorem not_derives_missing {want : Ty} {code : Code} :
    ¬Derives before (.value context want .missing code) after := by
  intro hValue
  cases hValue with
  | value hExpr => cases hExpr

theorem followed_leaveWith {pos : Position} {value : Expr} {code : Code}
    (hSome : context.result.isVoid = false)
    (hValue : Derives before (.value context context.result value code) after)
    (ih : Followed setting call functions before after (.value context context.result value code)) :
    Followed setting call functions before after
      (.stmt context (.result pos value) (code ++ [Opcode.ret.instr]) context) := by
  intro labels hidden other hSound (hReading : Reading setting call functions context other)
    hFits hCarries
  have hThere : value.isMissing = false := by
    cases value with
    | missing => exact absurd hValue not_derives_missing
    | _ => rfl
  simp only [carries, stmtCarries, hThere, Bool.false_or, hReading.result] at hCarries
  have hWorks := ih hSound hReading
    (hFits.part (.refl before 0) 0 (Nat.le_refl _) (by simp [Judgement.code])) hCarries
  have hLeaves :=
    (@Setting.Works.leaveWith _ ⟨context, labels, before⟩ _ _ _ hSome hWorks).stays hSound
      hValue.grows
  simpa only [Follow, Judgement.context, evalStmt, hThere, Bool.false_eq_true,
    if_false] using hLeaves

theorem followed_leaveVoid {pos : Position} (hVoid : context.result.isVoid = true) :
    Followed setting call functions slots slots
      (.stmt context (.result pos .missing) [Opcode.ret.instr] context) := by
  intro labels hidden other hSound _ _ _
  simp only [Follow, evalStmt, Expr.isMissing, if_true]
  exact (Setting.Works.leaveVoid hVoid).stays hSound (.refl slots 0)

theorem followed_eval {pos : Position} {value : Expr} {code : Code}
    (hValue : Derives before (.settled context .void false value code) after)
    (ih : Followed setting call functions before after (.settled context .void false value code)) :
    Followed setting call functions before after
      (.stmt context (.eval pos value) code context) := by
  intro labels hidden other hSound hReading hFits hCarries
  simp only [Follow, evalStmt]
  exact (Setting.Works.eval (ih hSound hReading hFits hCarries)).stays hSound hValue.grows

theorem followed_leave {pos : Position} {targets : LoopTargets}
    (hLoop : context.loop = some targets) :
    Followed setting call functions slots slots
      (.stmt context (.leave pos) [.br (context.label targets.leave)] context) := by
  intro labels hidden other hSound _ hFits _
  simp only [Follow, evalStmt]
  exact ⟨labels, .refl _, hSound,
    .leave hLoop (Nat.lt_of_le_of_lt (Nat.le_add_right _ _) hFits.frames)⟩

theorem followed_next {pos : Position} {targets : LoopTargets}
    (hLoop : context.loop = some targets) :
    Followed setting call functions slots slots
      (.stmt context (.next pos) [.br (context.label targets.next)] context) := by
  intro labels hidden other hSound _ hFits _
  simp only [Follow, evalStmt]
  exact ⟨labels, .refl _, hSound,
    .next hLoop (Nat.lt_of_le_of_lt (Nat.le_add_right _ _) hFits.frames)⟩

theorem followed_forever {pos : Position} {body : List Stmt} {code : Code}
    (hBody : Derives before
      (.stmts (context.inLoop.looping context.frames (context.frames + 1)) body code inner) after)
    (ih : Followed setting call functions before after
      (.stmts (context.inLoop.looping context.frames (context.frames + 1)) body code inner)) :
    Followed setting call functions before after
      (.stmt context (.forever pos body) (foreverCode context code) context) := by
  intro labels hidden other hSound (hReading : Reading setting call functions context other)
    hFits hCarries
  have hLoop := hSound.inLoop.looping (show context.frames < context.frames + 2 by omega)
    (Nat.lt_succ_self _)
  obtain ⟨labels, hEncloses, -, hWorks⟩ := ih hLoop (hReading.inLoop.looping _ _)
    (hFits.part (.refl before 0) 2 (Nat.le_refl _) (by simp [Judgement.code, foreverCode]; omega))
      hCarries
  exact (Setting.Works.forever hSound.targets hWorks hEncloses).stays hSound hBody.grows

theorem followed_while {pos : Position} {cond : Expr} {body : List Stmt} {test code : Code}
    (hTest : Derives before (.value context.inLoop .bool cond test) middle)
    (hBody : Derives middle
      (.stmts (context.inLoop.looping context.frames (context.frames + 1)) body code inner) after)
    (ihTest : Followed setting call functions before middle (.value context.inLoop .bool cond test))
    (ihBody : Followed setting call functions middle after
      (.stmts (context.inLoop.looping context.frames (context.frames + 1)) body code inner)) :
    Followed setting call functions before after
      (.stmt context (.whileLoop pos cond body) (whileCode context test code) context) := by
  intro labels hidden other hSound (hReading : Reading setting call functions context other)
    hFits hCarries
  simp only [carries, stmtCarries, Bool.and_eq_true] at hCarries
  have hLoop := (hSound.inLoop.later hTest.grows.size_le).looping
    (show context.frames < context.frames + 2 by omega) (Nat.lt_succ_self _)
  have hCond := ihTest hSound.inLoop hReading.inLoop
    (hFits.part (.refl before 0) 2 (Nat.le_refl _) (by simp [Judgement.code, whileCode]; omega))
      hCarries.1
  obtain ⟨labels, hEncloses, -, hWorks⟩ := ihBody hLoop (hReading.inLoop.looping _ _)
    (hFits.part hTest.grows 2 (Nat.le_refl _) (by simp [Judgement.code, whileCode]; omega))
      hCarries.2
  exact (Setting.Works.whileLoop hSound.targets hCond hWorks hEncloses hTest.grows
    hBody.grows).stays hSound (hTest.grows.trans hBody.grows)

theorem followed_forRange {pos : Position} {var : String} {start stop : Expr} {body : List Stmt}
    {type : Ty} {lower upper code : Code} (hType : type = rangeType context start stop)
    (hInteger : type.isInteger = true)
    (hStart : Derives before (.value context type start lower) first)
    (hStop : Derives (first.push type) (.value (context.bind var (first.next type)) type stop upper)
      second)
    (hBody : Derives (second.push type)
      (.stmts ((context.bind var (first.next type)).inLoop.inFrame.looping
      context.frames (context.frames + 2)) body code inner) after)
    (ihStart : Followed setting call functions before first (.value context type start lower))
    (ihStop : Followed setting call functions (first.push type) second
      (.value (context.bind var (first.next type)) type stop upper))
    (ihBody : Followed setting call functions (second.push type) after
      (.stmts ((context.bind var (first.next type)).inLoop.inFrame.looping context.frames
        (context.frames + 2)) body code inner)) :
    Followed setting call functions before after (.stmt context (.forRange pos var start stop body)
      (rangeCode context type (first.next type).index (second.next type).index lower upper code)
      context) := by
  intro labels hidden other hSound (hReading : Reading setting call functions context other)
    hFits hCarries
  simp only [carries, stmtCarries, hReading.alike.rangeType start stop, ← hType, Bool.and_eq_true]
    at hCarries
  obtain ⟨⟨hFirst, hSecond⟩, hThird⟩ := hCarries
  have hSome : type.isVoid = false := by cases type <;> first | rfl | cases hInteger
  have hPart : Fits context before lower.length :=
    hFits.part (.refl before 0) 0 (Nat.le_refl _) (by simp [Judgement.code, rangeCode])
  have hNew := size_le_next hStart.grows hPart.slots type
  have hCounted := hStart.grows.trans (.push first type)
  have hLimited := hCounted.trans (hStop.grows.trans (.push second type))
  have hBound := first.next_lt type
  have hMore := (hStop.grows.trans (.push second type)).size_le
  have hCounting := @Reading.bind _ _ _ _ _ hReading var (first.next type) type rfl
  have hLower := ihStart hSound hReading hPart hFirst
  -- While the second bound is evaluated, the counter has no name.
  have hUpper :=
    ihStop (hSound.bind [var] (.inr ⟨rfl, List.mem_cons_self⟩) hNew hBound hSome) hCounting
      (hFits.part hCounted 0 (Nat.le_refl _) (by simp [Judgement.code, rangeCode]; omega)) hSecond
  have hTurn : Spot.Sound ⟨context.bind var (first.next type), some var :: labels, second.push type⟩
      hidden := hSound.bind [] (.inl rfl) hNew (Nat.lt_of_lt_of_le hBound hMore) hSome
  have hLoop := hTurn.inLoop.inFrame.looping (show context.frames < context.frames + 3 by omega)
    (Nat.lt_succ_self _)
  obtain ⟨labels, hEncloses, -, hWorks⟩ := ihBody hLoop (hCounting.inLoop.inFrame.looping _ _)
    (hFits.part hLimited 3 (Nat.le_refl _) (by simp [Judgement.code, rangeCode]; omega)) hThird
  exact (Setting.Works.forRange hSound hInteger hLower hUpper hWorks hEncloses hStart.grows
    hStop.grows hBody.grows).stays hSound (hLimited.trans hBody.grows)

end Rules

end RecordWasm.Evaluation
