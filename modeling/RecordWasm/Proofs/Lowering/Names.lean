import RecordWasm.Proofs.Lowering.Completeness

/-!
# What a piece of source can see

Lowering looks up the names that a piece of source mentions and no others.  Two contexts that agree
on those names therefore give the same types and the same code.
-/

namespace RecordWasm.Lowering

open Syntax Layout Wasm

mutual

def stmtsNames : List Stmt → List String
  | [] => []
  | stmt :: rest => stmtNames stmt ++ stmtsNames rest

/-- The identifiers in a statement. -/
def stmtNames : Stmt → List String
  | .declare _ _ _ value | .result _ value | .eval _ value => exprNames value
  | .assign _ target value => exprNames target ++ exprNames value
  | .whileLoop _ cond body => exprNames cond ++ stmtsNames body
  | .forever _ body => stmtsNames body
  | .forRange _ _ start stop body => exprNames start ++ exprNames stop ++ stmtsNames body
  | .leave _ | .next _ | .missing => []

def exprNames : Expr → List String
  | .ident _ name => [name]
  | .binary _ _ left right => exprNames left ++ exprNames right
  | .unary _ _ operand | .cast _ operand _ | .attempt _ operand => exprNames operand
  | .quote _ operand | .eval _ operand | .lambda _ _ operand => exprNames operand
  | .call _ _ args | .macroCall _ _ args | .list _ args | .tuple _ args => argsNames args
  | .methodCall _ receiver _ args => exprNames receiver ++ argsNames args
  | .branch _ cond body otherwise => exprNames cond ++ exprNames body ++ exprNames otherwise
  | .block _ stmts tail => stmtsNames stmts ++ exprNames tail
  | .cases _ scrutinee arms => exprNames scrutinee ++ armsNames arms
  | .member _ subject _ => exprNames subject
  | .construct _ _ inits => initsNames inits
  | .missing | .int _ _ | .float _ _ | .bool _ _ | .string _ _ | .char _ _ | .null _ => []
  | .variant _ _ _ | .reflect _ _ => []

def argsNames : List Expr → List String
  | [] => []
  | arg :: rest => exprNames arg ++ argsNames rest

def armsNames : List Arm → List String
  | [] => []
  | .mk _ pattern body :: rest => patternNames pattern ++ exprNames body ++ armsNames rest

def patternNames : Pattern → List String
  | .literal _ value => exprNames value
  | .constructor _ _ args => patternsNames args
  | .missing | .wildcard _ | .bind _ _ => []

def patternsNames : List Pattern → List String
  | [] => []
  | pattern :: rest => patternNames pattern ++ patternsNames rest

def initsNames : List FieldInit → List String
  | [] => []
  | .mk _ _ value :: rest => exprNames value ++ initsNames rest

end

theorem initsNames_of_mem {inits : List FieldInit} {init : FieldInit} (hInit : init ∈ inits) :
    exprNames init.value ⊆ initsNames inits := by
  induction inits with
  | nil => cases hInit
  | cons first rest ih =>
      obtain ⟨pos, name, value⟩ := first
      rw [initsNames]
      rcases List.mem_cons.1 hInit with rfl | hRest
      · exact List.subset_append_left _ _
      · exact List.Subset.trans (ih hRest) (List.subset_append_right _ _)

/-- Two contexts agree on some names: they differ at most in what other names mean. -/
structure Context.Agrees (names : List String) (context other : Context) : Prop where
  env : other.env = context.env
  name : other.name = context.name
  receiver : other.receiver = context.receiver
  result : other.result = context.result
  frames : other.frames = context.frames
  loop : other.loop = context.loop
  lookup : ∀ name ∈ names, other.lookup? name = context.lookup? name

namespace Context.Agrees

variable {names : List String} {context other : Context}

theorem bind (hAgrees : context.Agrees names other) (name : String) (slot : Slot) :
    (context.bind name slot).Agrees names (other.bind name slot) where
  env := hAgrees.env
  name := hAgrees.name
  receiver := hAgrees.receiver
  result := hAgrees.result
  frames := hAgrees.frames
  loop := hAgrees.loop
  lookup := by
    intro wanted hWanted
    by_cases hName : name = wanted
    · simp [Context.lookup?, Context.bind, hName]
    · have hSame := hAgrees.lookup wanted hWanted
      simpa [Context.lookup?, Context.bind, hName] using hSame

theorem inFrame (hAgrees : context.Agrees names other) :
    context.inFrame.Agrees names other.inFrame where
  env := hAgrees.env
  name := hAgrees.name
  receiver := hAgrees.receiver
  result := hAgrees.result
  frames := congrArg (· + 1) hAgrees.frames
  loop := hAgrees.loop
  lookup := hAgrees.lookup

theorem looping (hAgrees : context.Agrees names other) (leave next : Nat) :
    (context.looping leave next).Agrees names (other.looping leave next) where
  env := hAgrees.env
  name := hAgrees.name
  receiver := hAgrees.receiver
  result := hAgrees.result
  frames := hAgrees.frames
  loop := rfl
  lookup := hAgrees.lookup

theorem inLoop (hAgrees : context.Agrees names other) :
    context.inLoop.Agrees names other.inLoop := hAgrees.inFrame.inFrame

/-- The frames of a loop have the same numbers in both contexts. -/
theorem looping_frames (hAgrees : context.Agrees names other) {inner moved : Context}
    (hInner : inner.Agrees names moved) (further : Nat) :
    (inner.looping context.frames (context.frames + further)).Agrees names
      (moved.looping other.frames (other.frames + further)) := by
  rw [hAgrees.frames]
  exact hInner.looping _ _

theorem whileCode (hAgrees : context.Agrees names other) (test body : Code) :
    Lowering.whileCode other test body = Lowering.whileCode context test body := by
  simp only [Lowering.whileCode, Context.label, Context.inLoop, Context.inFrame, hAgrees.frames]

theorem foreverCode (hAgrees : context.Agrees names other) (body : Code) :
    Lowering.foreverCode other body = Lowering.foreverCode context body := by
  simp only [Lowering.foreverCode, Context.label, Context.inLoop, Context.inFrame, hAgrees.frames]

theorem rangeCode (hAgrees : context.Agrees names other) (type : Ty) (counter limit : UInt32)
    (first last body : Code) :
    Lowering.rangeCode other type counter limit first last body =
      Lowering.rangeCode context type counter limit first last body := by
  simp only [Lowering.rangeCode, Context.label, Context.inLoop, Context.inFrame, hAgrees.frames]

theorem label (hAgrees : context.Agrees names other) (frame : Nat) :
    other.label frame = context.label frame := by
  rw [Context.label, Context.label, hAgrees.frames]

theorem receiverPathType? (hAgrees : context.Agrees names other) (name : String) :
    other.receiverPathType? name = context.receiverPathType? name := by
  rw [Context.receiverPathType?, Context.receiverPathType?, hAgrees.env, hAgrees.receiver]

theorem ownMethod? (hAgrees : context.Agrees names other) (name : String) :
    other.ownMethod? name = context.ownMethod? name := by
  rw [Context.ownMethod?, Context.ownMethod?, hAgrees.env, hAgrees.receiver]

theorem callee? (hAgrees : context.Agrees names other) (name : String) :
    other.callee? name = context.callee? name := by
  simp only [Context.callee?, hAgrees.ownMethod?, hAgrees.env]

theorem identType (hAgrees : context.Agrees names other) (assigned : Ty) {name : String}
    (hName : name ∈ names) : other.identType assigned name = context.identType assigned name := by
  simp only [Context.identType, hAgrees.lookup name hName, Context.freeType, hAgrees.receiver,
    hAgrees.receiverPathType?]

mutual

/-- The type of an expression depends on the names that it mentions. -/
theorem typeOf (hAgrees : context.Agrees names other) :
    (expr : Expr) → exprNames expr ⊆ names → other.typeOf expr = context.typeOf expr
  | .ident tag name, hNames => by
      rw [Context.typeOf, Context.typeOf, hAgrees.identType tag.type (hNames List.mem_cons_self)]
  | .binary _ _ left right, hNames => by
      rw [exprNames, List.append_subset] at hNames
      simp only [Context.typeOf, hAgrees.typeOf left hNames.1, hAgrees.typeOf right hNames.2]
  | .unary _ _ operand, hNames => by
      rw [exprNames] at hNames
      simp only [Context.typeOf, hAgrees.typeOf operand hNames]
  | .call _ function _, _ => by simp only [Context.typeOf, hAgrees.callee?]
  | .methodCall _ receiver method _, hNames => by
      rw [exprNames, List.append_subset] at hNames
      simp only [Context.typeOf, hAgrees.typeOf receiver hNames.1, Context.methodOf?, hAgrees.env]
  | .branch _ _ body otherwise, hNames => by
      rw [exprNames, List.append_subset, List.append_subset] at hNames
      simp only [Context.typeOf, hAgrees.typeOf body hNames.1.2, hAgrees.typeOf otherwise hNames.2]
  | .block _ _ tail, hNames => by
      rw [exprNames, List.append_subset] at hNames
      simp only [Context.typeOf, hAgrees.typeOf tail hNames.2]
  | .cases _ _ arms, hNames => by
      rw [exprNames, List.append_subset] at hNames
      simp only [Context.typeOf, hAgrees.typeOfArms arms hNames.2]
  | .member _ subject _, hNames => by
      rw [exprNames] at hNames
      simp only [Context.typeOf, hAgrees.typeOf subject hNames, hAgrees.env]
  | .missing, _ | .int _ _, _ | .float _ _, _ | .bool _ _, _ | .construct _ _ _, _
  | .variant _ _ _, _ | .string _ _, _ | .char _ _, _ | .null _, _ | .lambda _ _ _, _
  | .cast _ _ _, _ | .attempt _ _, _ | .quote _ _, _ | .eval _ _, _ | .reflect _ _, _
  | .macroCall _ _ _, _ | .list _ _, _ | .tuple _ _, _ => by simp only [Context.typeOf]

theorem typeOfArms (hAgrees : context.Agrees names other) :
    (arms : List Arm) → armsNames arms ⊆ names → other.typeOfArms arms = context.typeOfArms arms
  | [], _ => by simp only [Context.typeOfArms]
  | .mk _ _ body :: rest, hNames => by
      rw [armsNames, List.append_subset, List.append_subset] at hNames
      simp only [Context.typeOfArms, hAgrees.typeOf body hNames.1.2,
        hAgrees.typeOfArms rest hNames.2]

end

theorem declaredType (hAgrees : context.Agrees names other) (type : Ty) {value : Expr}
    (hNames : exprNames value ⊆ names) :
    Lowering.declaredType other type value = Lowering.declaredType context type value := by
  rw [Lowering.declaredType, Lowering.declaredType, hAgrees.typeOf value hNames]

theorem operandType (hAgrees : context.Agrees names other) {left right : Expr}
    (hLeft : exprNames left ⊆ names) (hRight : exprNames right ⊆ names) :
    other.operandType left right = context.operandType left right := by
  rw [Context.operandType, Context.operandType, hAgrees.typeOf left hLeft,
    hAgrees.typeOf right hRight]

theorem binaryType (hAgrees : context.Agrees names other) (op : String) {left right : Expr}
    (hLeft : exprNames left ⊆ names) (hRight : exprNames right ⊆ names) (hint : Ty) :
    Lowering.binaryType other op left right hint =
      Lowering.binaryType context op left right hint := by
  rw [Lowering.binaryType, Lowering.binaryType, hAgrees.operandType hLeft hRight]

theorem rangeType (hAgrees : context.Agrees names other) {start stop : Expr}
    (hStart : exprNames start ⊆ names) (hStop : exprNames stop ⊆ names) :
    Lowering.rangeType other start stop = Lowering.rangeType context start stop := by
  rw [Lowering.rangeType, Lowering.rangeType, hAgrees.operandType hStart hStop]

theorem negationType (hAgrees : context.Agrees names other) {operand : Expr}
    (hNames : exprNames operand ⊆ names) (hint : Ty) :
    Lowering.negationType other operand hint = Lowering.negationType context operand hint := by
  rw [Lowering.negationType, Lowering.negationType, hAgrees.typeOf operand hNames]

theorem branchResult (hAgrees : context.Agrees names other) {branch : Expr}
    (hNames : exprNames branch ⊆ names) (body otherwise : Expr) (hint : Ty) :
    Lowering.branchResult other branch body otherwise hint =
      Lowering.branchResult context branch body otherwise hint := by
  rw [Lowering.branchResult, Lowering.branchResult, hAgrees.typeOf branch hNames]

theorem casesResult (hAgrees : context.Agrees names other) {cases : Expr}
    (hNames : exprNames cases ⊆ names) (arms : List Arm) (hint : Ty) :
    Lowering.casesResult other cases arms hint = Lowering.casesResult context cases arms hint := by
  rw [Lowering.casesResult, Lowering.casesResult, hAgrees.typeOf cases hNames]

theorem yielded (hAgrees : context.Agrees names other) {tag : Tag} {stmts : List Stmt} {tail : Expr}
    (hNames : exprNames (.block tag stmts tail) ⊆ names) (hint : Ty) (asArm : Bool) :
    Lowering.yielded other tag stmts tail hint asArm =
      Lowering.yielded context tag stmts tail hint asArm := by
  simp only [Lowering.yielded, blockResult, hAgrees.typeOf (.block tag stmts tail) hNames]

end Context.Agrees

/-! ## Derivations in contexts that agree -/

/-- The names that a judgement mentions. -/
def Judgement.names : Judgement → List String
  | stmts _ source _ _ => stmtsNames source
  | stmt _ source _ _ => stmtNames source
  | expr _ _ _ source _ | value _ _ source _ | settled _ _ _ source _ => exprNames source
  | args _ _ source _ => argsNames source
  | arms _ _ _ source _ => armsNames source
  | stores _ _ _ inits _ _ => initsNames inits

/-- A judgement can also be derived in another context, and statements leave contexts that agree. -/
def Judgement.Moves (names : List String) (other : Context) (before after : Slots) :
    Judgement → Prop
  | stmts _ source code behind =>
      ∃ moved, Derives before (.stmts other source code moved) after ∧ behind.Agrees names moved
  | stmt _ source code behind =>
      ∃ moved, Derives before (.stmt other source code moved) after ∧ behind.Agrees names moved
  | expr _ hint asArm source lowered => Derives before (.expr other hint asArm source lowered) after
  | value _ want source code => Derives before (.value other want source code) after
  | settled _ want asArm source code => Derives before (.settled other want asArm source code) after
  | args _ params source code => Derives before (.args other params source code) after
  | arms _ slot type source code => Derives before (.arms other slot type source code) after
  | stores _ record address inits fields code =>
      Derives before (.stores other record address inits fields code) after

/-- What is derived in a context is derived in every other one that agrees on the names
mentioned. -/
theorem Derives.moves {names : List String} {before after : Slots} {judgement : Judgement}
    (hDerives : Derives before judgement after) {other : Context}
    (hNames : judgement.names ⊆ names) (hAgrees : judgement.context.Agrees names other) :
    judgement.Moves names other before after := by
  induction hDerives generalizing other with
  | nil => exact ⟨other, .nil, hAgrees⟩
  | cons _ _ ihFirst ihRest =>
      obtain ⟨hFirst, hRest⟩ := List.append_subset.1 hNames
      obtain ⟨inner, hStmt, hInner⟩ := ihFirst hFirst hAgrees
      obtain ⟨outer, hStmts, hOuter⟩ := ihRest hRest hInner
      exact ⟨outer, .cons hStmt hStmts, hOuter⟩
  | declare hType hSome _ ih =>
      exact ⟨_, .declare (hType.trans (hAgrees.declaredType _ hNames).symm) hSome
        (ih hNames hAgrees), hAgrees.bind _ _⟩
  | assign hLookup _ ih =>
      obtain ⟨hTarget, hValue⟩ := List.append_subset.1 hNames
      have hSame := hAgrees.lookup _ (hTarget List.mem_cons_self)
      exact ⟨_, .assign (hSame.trans hLookup) (ih hValue hAgrees), hAgrees⟩
  | leaveVoid hVoid => exact ⟨_, .leaveVoid (hAgrees.result ▸ hVoid), hAgrees⟩
  | leaveWith hSome _ ih =>
      have hValue := ih hNames hAgrees
      refine ⟨_, .leaveWith (hAgrees.result ▸ hSome) ?_, hAgrees⟩
      rw [hAgrees.result]
      exact hValue
  | eval _ ih => exact ⟨_, .eval (ih hNames hAgrees), hAgrees⟩
  | whileLoop _ _ ihTest ihBody =>
      obtain ⟨hCond, hBody⟩ := List.append_subset.1 hNames
      obtain ⟨_, hStmts, -⟩ := ihBody hBody (hAgrees.looping_frames hAgrees.inLoop 1)
      refine ⟨other, ?_, hAgrees⟩
      dsimp only [Judgement.context] at hAgrees
      rw [← hAgrees.whileCode]
      exact .whileLoop (ihTest hCond hAgrees.inLoop) hStmts
  | forever _ ih =>
      obtain ⟨_, hStmts, -⟩ := ih hNames (hAgrees.looping_frames hAgrees.inLoop 1)
      refine ⟨other, ?_, hAgrees⟩
      dsimp only [Judgement.context] at hAgrees
      rw [← hAgrees.foreverCode]
      exact .forever hStmts
  | forRange hType hInteger _ _ _ ihStart ihStop ihBody =>
      obtain ⟨hBounds, hBody⟩ := List.append_subset.1 hNames
      obtain ⟨hStart, hStop⟩ := List.append_subset.1 hBounds
      obtain ⟨_, hStmts, -⟩ :=
        ihBody hBody (hAgrees.looping_frames (hAgrees.bind _ _).inLoop.inFrame 2)
      refine ⟨other, ?_, hAgrees⟩
      dsimp only [Judgement.context] at hAgrees
      rw [← hAgrees.rangeCode]
      exact .forRange (hType.trans (hAgrees.rangeType hStart hStop).symm) hInteger
        (ihStart hStart hAgrees) (ihStop hStop (hAgrees.bind _ _)) hStmts
  | leave hLoop =>
      refine ⟨other, ?_, hAgrees⟩
      dsimp only [Judgement.context] at hAgrees
      rw [← hAgrees.label]
      exact .leave (hAgrees.loop.trans hLoop)
  | next hLoop =>
      refine ⟨other, ?_, hAgrees⟩
      dsimp only [Judgement.context] at hAgrees
      rw [← hAgrees.label]
      exact .next (hAgrees.loop.trans hLoop)
  | value _ hSame ih => exact .value (ih hNames hAgrees) hSame
  | discarded hVoid _ ih => exact .discarded hVoid (ih hNames hAgrees)
  | kept hVoid _ hSame ih => exact .kept hVoid (ih hNames hAgrees) hSame
  | int hType => exact .int hType
  | float hType => exact .float hType
  | bool => exact .bool
  | bound hLookup => exact .bound ((hAgrees.lookup _ (hNames List.mem_cons_self)).trans hLookup)
  | self hLookup hMethod =>
      have hFree := (hAgrees.lookup _ (hNames List.mem_cons_self)).trans hLookup
      dsimp only [Judgement.context] at hAgrees
      rw [Judgement.Moves, ← hAgrees.receiver]
      exact .self hFree (hAgrees.receiver ▸ hMethod)
  | path hLookup hName hPath hLoads =>
      have hFree := (hAgrees.lookup _ (hNames List.mem_cons_self)).trans hLookup
      refine .path hFree hName ((hAgrees.receiverPathType? _).trans hPath) ?_
      rw [hAgrees.env, hAgrees.receiver]
      exact hLoads
  | named hLookup hPath hVariant hIndex =>
      have hFree := (hAgrees.lookup _ (hNames List.mem_cons_self)).trans hLookup
      exact .named hFree ((hAgrees.receiverPathType? _).trans hPath) (hAgrees.env ▸ hVariant)
        (hAgrees.env ▸ hIndex)
  | variant hIndex => exact .variant (hAgrees.env ▸ hIndex)
  | logical hLogical _ _ ihLeft ihRight =>
      obtain ⟨hLeft, hRight⟩ := List.append_subset.1 hNames
      exact .logical hLogical (ihLeft hLeft hAgrees) (ihRight hRight hAgrees)
  | binary hLogical hType hSome _ _ hOperator ihLeft ihRight =>
      obtain ⟨hLeft, hRight⟩ := List.append_subset.1 hNames
      exact .binary hLogical (hType.trans (hAgrees.binaryType _ hLeft hRight _).symm) hSome
        (ihLeft hLeft hAgrees) (ihRight hRight hAgrees) hOperator
  | not _ ih => exact .not (ih hNames hAgrees)
  | negateFloat hType hNumber _ ih =>
      exact .negateFloat (hType.trans (hAgrees.negationType hNames _).symm) hNumber
        (ih hNames hAgrees)
  | negateInt hType hInteger _ ih =>
      exact .negateInt (hType.trans (hAgrees.negationType hNames _).symm) hInteger
        (ih hNames hAgrees)
  | call hCalls _ ih =>
      refine .call ⟨(hAgrees.callee? _).trans hCalls.1, ?_⟩ (ih hNames hAgrees)
      rw [hAgrees.env, hAgrees.ownMethod?]
      exact hCalls.2
  | ownCall hNone hOwn _ ih =>
      exact .ownCall (hAgrees.env ▸ hNone) ((hAgrees.ownMethod? _).trans hOwn) (ih hNames hAgrees)
  | methodCall hType hMethod _ _ ihReceiver ihArgs =>
      obtain ⟨hReceiver, hArgs⟩ := List.append_subset.1 hNames
      exact .methodCall ((hAgrees.typeOf _ hReceiver).trans hType) (hAgrees.env ▸ hMethod)
        (ihReceiver hReceiver hAgrees) (ihArgs hArgs hAgrees)
  | noArgs => exact .noArgs
  | arg _ _ ihFirst ihRest =>
      obtain ⟨hFirst, hRest⟩ := List.append_subset.1 hNames
      exact .arg (ihFirst hFirst hAgrees) (ihRest hRest hAgrees)
  | branchOnly _ _ ihTest ihBody =>
      obtain ⟨hParts, -⟩ := List.append_subset.1 hNames
      obtain ⟨hCond, hBody⟩ := List.append_subset.1 hParts
      exact .branchOnly (ihTest hCond hAgrees) (ihBody hBody hAgrees.inFrame)
  | branch hMissing hType _ _ _ ihTest ihYes ihNo =>
      obtain ⟨hParts, hNo⟩ := List.append_subset.1 hNames
      obtain ⟨hCond, hYes⟩ := List.append_subset.1 hParts
      exact .branch hMissing (hType.trans (hAgrees.branchResult hNames _ _ _).symm)
        (ihTest hCond hAgrees) (ihYes hYes hAgrees.inFrame) (ihNo hNo hAgrees.inFrame)
  | blockOnly hWant _ ih =>
      obtain ⟨hStmts, -⟩ := List.append_subset.1 hNames
      obtain ⟨_, hInside, -⟩ := ih hStmts hAgrees
      exact .blockOnly (hWant.trans (hAgrees.yielded hNames _ _).symm) hInside
  | block hMissing hWant _ _ ihStmts ihTail =>
      obtain ⟨hStmts, hTail⟩ := List.append_subset.1 hNames
      obtain ⟨_, hInside, hInner⟩ := ihStmts hStmts hAgrees
      exact .block hMissing (hWant.trans (hAgrees.yielded hNames _ _).symm) hInside
        (ihTail hTail hInner)
  | cases hSubject hSome hCode hType _ _ ihScrutinee ihArms =>
      obtain ⟨hScrutinee, hArms⟩ := List.append_subset.1 hNames
      exact .cases (hSubject.trans (hAgrees.typeOf _ hScrutinee).symm) hSome (hAgrees.env ▸ hCode)
        (hType.trans (hAgrees.casesResult hNames _ _).symm) (ihScrutinee hScrutinee hAgrees)
        (ihArms hArms hAgrees)
  | noArm => exact .noArm
  | wildcard _ ih =>
      obtain ⟨hParts, -⟩ := List.append_subset.1 hNames
      exact .wildcard (ih (List.append_subset.1 hParts).2 hAgrees)
  | bind _ ih =>
      obtain ⟨hParts, -⟩ := List.append_subset.1 hNames
      exact .bind (ih (List.append_subset.1 hParts).2 (hAgrees.bind _ _))
  | literal _ _ _ ihValue ihBody ihRest =>
      obtain ⟨hParts, hRest⟩ := List.append_subset.1 hNames
      obtain ⟨hValue, hBody⟩ := List.append_subset.1 hParts
      exact .literal (ihValue hValue hAgrees) (ihBody hBody hAgrees.inFrame)
        (ihRest hRest hAgrees.inFrame)
  | @member _ _ _ _ _ _ subject _ _ _ _ _ hType hRecord hFound _ ih =>
      dsimp only [Judgement.context] at hAgrees
      rw [Judgement.Moves, ← hAgrees.env]
      exact .member ((hAgrees.typeOf subject hNames).trans hType) (hAgrees.env ▸ hRecord) hFound
        (ih hNames hAgrees)
  | construct hRecord hAssigns hAlloc _ ih =>
      refine .construct (hAgrees.env ▸ hRecord) hAssigns ?_ (ih hNames hAgrees)
      rw [hAgrees.env, hAgrees.name]
      exact hAlloc
  | stored => exact .stored
  | store hInit _ _ ihValue ihRest =>
      have hInside := initsNames_of_mem (List.mem_of_find?_eq_some hInit)
      have hValue := ihValue (List.Subset.trans hInside hNames) hAgrees
      dsimp only [Judgement.context] at hAgrees
      rw [Judgement.Moves, ← hAgrees.env] at hValue
      exact .store hInit hValue (ihRest hNames hAgrees)

end RecordWasm.Lowering
