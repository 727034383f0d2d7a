import RecordWasm.Proofs.Lowering.Bodies

/-!
# Which functions are called

The calls in generated code are the calls of the source, in the order of evaluation.  What a call on
a value refers to depends on the type of the value, so the source is read with the types of the
names in scope.  A new record is allocated before its fields are computed.
-/

namespace RecordWasm.Lowering

open Syntax Layout Wasm

/-- The functions that code calls, in order. -/
def callsIn (code : Code) : List (Option Nat) :=
  (code.filterMap Instr.callTarget?).map fun function => some function.toNat

@[simp] theorem callsIn_append (first second : Code) :
    callsIn (first ++ second) = callsIn first ++ callsIn second := by
  simp [callsIn]

/-- Code calls the given functions. -/
def Calling (code : Code) (calls : List (Option Nat)) : Prop := callsIn code = calls

namespace Calling

variable {code first second test yes no : Code}
variable {calls firstCalls secondCalls thirdCalls : List (Option Nat)}

theorem nil : Calling [] [] := rfl

theorem append (hFirst : Calling first firstCalls) (hSecond : Calling second secondCalls) :
    Calling (first ++ second) (firstCalls ++ secondCalls) := by
  rw [Calling] at *
  rw [callsIn_append, hFirst, hSecond]

/-- Code in front of code without calls. -/
theorem behind (hFirst : Calling first calls) (hSecond : Calling second []) :
    Calling (first ++ second) calls := by
  simpa using hFirst.append hSecond

theorem cons {instr : Instr} (hFirst : Calling [instr] []) (hRest : Calling code calls) :
    Calling (instr :: code) calls := hFirst.append hRest

theorem none {instr : Instr} (hNone : instr.callTarget? = Option.none) : Calling [instr] [] := by
  simp [Calling, callsIn, hNone]

theorem call (function : UInt32) : Calling [.call function] [some function.toNat] := rfl

theorem instr (opcode : Opcode) : Calling [opcode.instr] [] := none rfl

theorem localGet (index : UInt32) : Calling [.localGet index] [] := none rfl

theorem localSet (index : UInt32) : Calling [.localSet index] [] := none rfl

theorem i32Const (value : Int32) : Calling [.i32Const value] [] := none rfl

theorem constInt (type : Ty) (value : Int64) : Calling [constInt type value] [] := by
  cases type <;> exact none rfl

theorem constFloat (type : Ty) (bits : UInt64) : Calling [constFloat type bits] [] := by
  cases type <;> exact none rfl

theorem ifThen (type : Int32) : Calling [.ifThen type] [] := none rfl

theorem close : Calling [.close] [] := none rfl

theorem discard {lowered : Lowered} (hCode : Calling lowered.code calls) :
    Calling (discard lowered) calls := by
  rw [Lowering.discard]
  split
  · exact hCode
  · exact hCode.behind (instr _)

theorem loads {env : Env} {base : Ty} {path : List String} {lowered : Lowered}
    (hLoads : Loads env base path lowered) : Calling lowered.code [] := by
  induction hLoads with
  | here => exact nil
  | field _ _ _ ih => exact (none rfl).cons ih

theorem alloc {env : Env} {decl : String} {record : Record} {address : UInt32}
    (hAlloc : allocCode env decl record address = .ok code) :
    Calling code [some env.heap.allocFunc.toNat] := by
  rw [allocCode] at hAlloc
  split at hAlloc
  · cases hAlloc
  · cases hAlloc
    rfl

/-- The two frames of a loop around code. -/
theorem loop (label : UInt32) (hCode : Calling code calls) :
    Calling ([.block voidBlock, .loop voidBlock] ++ code ++ [.br label, .close, .close]) calls :=
  behind (append rfl hCode) rfl

theorem whileLoop (context : Context) (hTest : Calling test firstCalls)
    (hBody : Calling code secondCalls) :
    Calling (whileCode context test code) (firstCalls ++ secondCalls) := by
  have hGuard : Calling [(Opcode.eqz .w32).instr, .brIf (context.inLoop.label context.frames)] [] :=
    rfl
  have hCode := loop (context.inLoop.label (context.frames + 1))
    ((hTest.behind hGuard).append hBody)
  simpa [whileCode] using hCode

theorem forever (context : Context) (hBody : Calling code calls) :
    Calling (foreverCode context code) calls := loop _ hBody

theorem range (context : Context) (type : Ty) (counter limit : UInt32)
    (hFirst : Calling first firstCalls) (hSecond : Calling second secondCalls)
    (hBody : Calling code thirdCalls) :
    Calling (rangeCode context type counter limit first second code)
      (firstCalls ++ secondCalls ++ thirdCalls) := by
  have hTurn : Calling [.close, .localGet counter, Lowering.constInt type 1,
      (Opcode.int (intWidth type) .add).instr, .localSet counter] [] :=
    close.cons ((localGet _).cons ((constInt type 1).cons ((instr _).cons (localSet _))))
  have hGuard : Calling [.localGet counter, .localGet limit,
      (Opcode.compareInt (intWidth type) .geS).instr,
      .brIf (context.inLoop.label context.frames), .block voidBlock] [] := rfl
  have hLoop := loop (context.inLoop.label (context.frames + 1))
    ((append hGuard hBody).behind hTurn)
  have hCode := (hFirst.behind (localSet counter)).append
    ((hSecond.behind (localSet limit)).append hLoop)
  simpa [rangeCode] using hCode

theorem branchOnly (type : Int32) (hTest : Calling test firstCalls)
    (hYes : Calling yes secondCalls) :
    Calling (test ++ .ifThen type :: yes ++ [.close]) (firstCalls ++ secondCalls) :=
  (hTest.append ((ifThen type).cons hYes)).behind close

theorem branch (type : Int32) (hTest : Calling test firstCalls) (hYes : Calling yes secondCalls)
    (hNo : Calling no thirdCalls) :
    Calling (test ++ .ifThen type :: yes ++ Opcode.otherwise.instr :: no ++ [.close])
      (firstCalls ++ secondCalls ++ thirdCalls) :=
  ((hTest.append ((ifThen type).cons hYes)).append ((instr _).cons hNo)).behind close

theorem literalArm (slot : Slot) (type : Ty) (hTest : Calling test firstCalls)
    (hYes : Calling yes secondCalls) (hNo : Calling no thirdCalls) :
    Calling (literalArmCode slot type test yes no) (firstCalls ++ secondCalls ++ thirdCalls) := by
  have hSame := (localGet slot.index).cons (hTest.behind (instr (equality slot.type)))
  simpa [literalArmCode] using branch (blockType type) hSame hYes hNo

end Calling

/-! ## Calls in the source -/

/-- The indices that names stand for. -/
structure Indices where
  /-- The function that a call by name refers to inside the methods of a record. -/
  callee : (receiver name : String) → Option Nat
  /-- The method that a call on a record refers to. -/
  method : (record name : String) → Option Nat
  alloc : Nat

/-- The context with one more name, of which only the type counts. -/
def Context.typed (context : Context) (name : String) (type : Ty) : Context :=
  context.bind name ⟨0, type⟩

/-- The context behind a statement. -/
def Context.behind (context : Context) : Stmt → Context
  | .declare _ name type value => context.typed name (declaredType context type value)
  | _ => context

section Source

variable (indices : Indices)

/-- The method that a call on a value of a type refers to. -/
def Indices.on (type : Ty) (method : String) : Option Nat :=
  match type with
  | .record record => indices.method record method
  | _ => none

mutual

def stmtsCalls (context : Context) : List Stmt → List (Option Nat)
  | [] => []
  | stmt :: rest => stmtCalls context stmt ++ stmtsCalls (context.behind stmt) rest

/-- The functions that a statement calls, in the order of evaluation; those that do not exist are
`none`. -/
def stmtCalls (context : Context) : Stmt → List (Option Nat)
  | .declare _ _ _ value | .assign _ _ value | .result _ value | .eval _ value =>
      exprCalls context value
  | .whileLoop _ cond body => exprCalls context cond ++ stmtsCalls context body
  | .forever _ body => stmtsCalls context body
  | .forRange _ var start stop body =>
      exprCalls context start ++
        exprCalls (context.typed var (rangeType context start stop)) stop ++
        stmtsCalls (context.typed var (rangeType context start stop)) body
  | .leave _ | .next _ | .missing => []

def exprCalls (context : Context) : Expr → List (Option Nat)
  | .binary _ _ left right => exprCalls context left ++ exprCalls context right
  | .unary _ _ operand => exprCalls context operand
  | .call _ function args =>
      argsCalls context args ++ [indices.callee context.receiver function]
  | .methodCall _ receiver method args =>
      exprCalls context receiver ++ argsCalls context args ++
        [indices.on (context.typeOf receiver) method]
  | .branch _ cond body otherwise =>
      exprCalls context cond ++ exprCalls context body ++ exprCalls context otherwise
  | .block _ stmts tail =>
      stmtsCalls context stmts ++ exprCalls (stmts.foldl Context.behind context) tail
  | .cases _ scrutinee arms =>
      exprCalls context scrutinee ++ armsCalls context (context.typeOf scrutinee) arms
  | .member _ subject _ => exprCalls context subject
  | .construct _ record inits =>
      some indices.alloc :: (context.env.fieldNames record).flatMap fun field =>
        ((initsCalls context inits).lookup field).getD []
  | _ => []

def argsCalls (context : Context) : List Expr → List (Option Nat)
  | [] => []
  | arg :: rest => exprCalls context arg ++ argsCalls context rest

def armsCalls (context : Context) (subject : Ty) : List Arm → List (Option Nat)
  | [] => []
  | .mk _ pattern body :: rest =>
      match pattern with
      | .wildcard _ => exprCalls context body
      | .bind _ name => exprCalls (context.typed name subject) body
      | .literal _ value =>
          exprCalls context value ++ exprCalls context body ++ armsCalls context subject rest
      | _ => []

def initsCalls (context : Context) : List FieldInit → List (String × List (Option Nat))
  | [] => []
  | .mk _ name value :: rest => (name, exprCalls context value) :: initsCalls context rest

end

end Source

/-- Two contexts in which all names have the same types. -/
structure Context.Alike (context other : Context) : Prop where
  env : other.env = context.env
  receiver : other.receiver = context.receiver
  types : ∀ name, (other.lookup? name).map Slot.type = (context.lookup? name).map Slot.type

namespace Context.Alike

variable {context other : Context}

theorem bind (hAlike : context.Alike other) (name : String) {slot same : Slot}
    (hType : same.type = slot.type) :
    (context.bind name slot).Alike (other.bind name same) where
  env := hAlike.env
  receiver := hAlike.receiver
  types := by
    intro wanted
    by_cases hName : name = wanted
    · simp [lookup?, Context.bind, hName, hType]
    · have hTypes := hAlike.types wanted
      simpa [lookup?, Context.bind, hName] using hTypes

theorem inFrame (hAlike : context.Alike other) : context.inFrame.Alike other :=
  ⟨hAlike.env, hAlike.receiver, hAlike.types⟩

theorem inLoop (hAlike : context.Alike other) : context.inLoop.Alike other := hAlike.inFrame.inFrame

theorem looping (hAlike : context.Alike other) (leave next : Nat) :
    (context.looping leave next).Alike other := ⟨hAlike.env, hAlike.receiver, hAlike.types⟩

theorem receiverPathType? (hAlike : context.Alike other) (name : String) :
    other.receiverPathType? name = context.receiverPathType? name := by
  rw [Context.receiverPathType?, Context.receiverPathType?, hAlike.env, hAlike.receiver]

theorem identType (hAlike : context.Alike other) (assigned : Ty) (name : String) :
    other.identType assigned name = context.identType assigned name := by
  have hTypes := hAlike.types name
  rw [Context.identType, Context.identType]
  cases hOther : other.lookup? name with
  | some slot =>
      rw [hOther] at hTypes
      obtain ⟨found, hFound, hType⟩ := Option.map_eq_some_iff.1 hTypes.symm
      simp [hFound, hType]
  | none =>
      rw [hOther] at hTypes
      have hNone := Option.map_eq_none_iff.1 hTypes.symm
      simp [hNone, Context.freeType, hAlike.receiver, hAlike.receiverPathType?]

theorem callee? (hAlike : context.Alike other)
    (name : String) : other.callee? name = context.callee? name := by
  simp only [Context.callee?, Context.ownMethod?, hAlike.env, hAlike.receiver]

mutual

/-- Types depend on the types of names alone. -/
theorem typeOf (hAlike : context.Alike other) :
    (expr : Expr) → other.typeOf expr = context.typeOf expr
  | .ident tag name => by simp only [Context.typeOf, hAlike.identType]
  | .binary _ _ left right => by simp only [Context.typeOf, hAlike.typeOf left, hAlike.typeOf right]
  | .unary _ _ operand => by simp only [Context.typeOf, hAlike.typeOf operand]
  | .call _ function _ => by simp only [Context.typeOf, hAlike.callee?]
  | .methodCall _ receiver method _ => by
      simp only [Context.typeOf, hAlike.typeOf receiver, Context.methodOf?, hAlike.env]
  | .branch _ _ body otherwise => by
      simp only [Context.typeOf, hAlike.typeOf body, hAlike.typeOf otherwise]
  | .block _ _ tail => by simp only [Context.typeOf, hAlike.typeOf tail]
  | .cases _ _ arms => by simp only [Context.typeOf, hAlike.typeOfArms arms]
  | .member _ subject _ => by simp only [Context.typeOf, hAlike.typeOf subject, hAlike.env]
  | .missing | .int _ _ | .float _ _ | .bool _ _ | .construct _ _ _ | .variant _ _ _ | .string _ _
  | .char _ _ | .null _ | .lambda _ _ _ | .cast _ _ _ | .attempt _ _ | .quote _ _ | .eval _ _
  | .reflect _ _ | .macroCall _ _ _ | .list _ _ | .tuple _ _ => by simp only [Context.typeOf]

theorem typeOfArms (hAlike : context.Alike other) :
    (arms : List Arm) → other.typeOfArms arms = context.typeOfArms arms
  | [] => rfl
  | .mk _ _ body :: rest => by
      simp only [Context.typeOfArms, hAlike.typeOf body, hAlike.typeOfArms rest]

end

theorem declaredType (hAlike : context.Alike other) (type : Ty) (value : Expr) :
    Lowering.declaredType other type value = Lowering.declaredType context type value := by
  rw [Lowering.declaredType, Lowering.declaredType, hAlike.typeOf]

theorem rangeType (hAlike : context.Alike other) (start stop : Expr) :
    Lowering.rangeType other start stop = Lowering.rangeType context start stop := by
  simp only [Lowering.rangeType, Context.operandType, hAlike.typeOf]

end Context.Alike

/-- The functions that an environment knows have the indices that names stand for. -/
structure Indices.Suit (indices : Indices) (env : Env) : Prop where
  callee : ∀ context : Context, context.env = env → ∀ name ref, context.callee? name = some ref →
    indices.callee context.receiver name = some ref.index.toNat
  method : ∀ record name ref, env.method? record name = some ref →
    indices.method record name = some ref.index.toNat
  alloc : indices.alloc = env.heap.allocFunc.toNat

variable {indices : Indices}

/-- The calls of the initializers of some fields. -/
def storesCalls (indices : Indices) (context : Context) (inits : List FieldInit)
    (fields : List String) : List (Option Nat) :=
  fields.flatMap fun field => ((initsCalls indices context inits).lookup field).getD []

theorem storesCalls_cons {context : Context} {inits : List FieldInit} {init : FieldInit}
    {field : String} {rest : List String} (hInit : initOf? inits field = some init) :
    storesCalls indices context inits (field :: rest) =
      exprCalls indices context init.value ++ storesCalls indices context inits rest := by
  have hFirst : (initsCalls indices context inits).lookup field =
      some (exprCalls indices context init.value) := by
    rw [lookup_inits rfl (fun _ _ _ _ => rfl), hInit, Option.map_some]
  rw [storesCalls, List.flatMap_cons, hFirst]
  rfl

/-- The calls of a judgement, read in a context with the same types as its own. -/
def Judgement.calls (indices : Indices) (context : Context) : Judgement → List (Option Nat)
  | stmts _ source _ _ => stmtsCalls indices context source
  | stmt _ source _ _ => stmtCalls indices context source
  | expr _ _ _ source _ | value _ _ source _ | settled _ _ _ source _ =>
      exprCalls indices context source
  | args _ _ source _ => argsCalls indices context source
  | arms _ slot _ source _ => armsCalls indices context slot.type source
  | stores _ _ _ inits fields _ => storesCalls indices context inits (fields.map Field.name)

/-- Statements leave a context with the types that are expected. -/
def Judgement.Behind (other : Context) : Judgement → Prop
  | stmts _ source _ behind => behind.Alike (source.foldl Context.behind other)
  | stmt _ source _ behind => behind.Alike (other.behind source)
  | _ => True

theorem Derives.behind {before after : Slots} {judgement : Judgement}
    (hDerives : Derives before judgement after) {other : Context}
    (hAlike : judgement.context.Alike other) : judgement.Behind other := by
  induction hDerives generalizing other with
  | nil => exact hAlike
  | cons _ _ ihFirst ihRest => exact ihRest (ihFirst hAlike)
  | declare hType => exact hAlike.bind _ ((hAlike.declaredType _ _).trans hType.symm)
  | assign | leaveVoid | leaveWith | eval | whileLoop | forever | forRange | leave | next =>
      exact hAlike
  | _ => trivial

/-- The calls in code that has a derivation are those of the source. -/
theorem Derives.calls {before after : Slots} {judgement : Judgement}
    (hDerives : Derives before judgement after) {other : Context}
    (hAlike : judgement.context.Alike other) (hSuit : indices.Suit other.env) :
    Calling judgement.code (judgement.calls indices other) := by
  induction hDerives generalizing other with
  | nil | noArgs | stored => exact .nil
  | cons hFirst _ ihFirst ihRest =>
      have hBehind : Context.Alike _ _ := hFirst.behind hAlike
      have hEnv : (other.behind _).env = other.env := hBehind.env.trans
        ((Context.Same.env hFirst.same).trans hAlike.env.symm)
      exact (ihFirst hAlike hSuit).append (ihRest hBehind (hEnv ▸ hSuit))
  | declare _ _ _ ih | assign _ _ ih => exact (ih hAlike hSuit).behind (.localSet _)
  | leaveVoid | noArm => exact .instr _
  | leaveWith _ _ ih | not _ ih | negateFloat _ _ _ ih => exact (ih hAlike hSuit).behind (.instr _)
  | eval _ ih | value _ _ ih | kept _ _ _ ih | wildcard _ ih => exact ih hAlike hSuit
  | whileLoop _ _ ihTest ihBody =>
      exact .whileLoop _ (ihTest hAlike.inLoop hSuit) (ihBody (hAlike.inLoop.looping _ _) hSuit)
  | forever _ ih => exact .forever _ (ih (hAlike.inLoop.looping _ _) hSuit)
  | @forRange _ first _ _ _ _ _ var start stop _ type _ _ _ hType _ _ _ _ ihStart ihStop ihBody =>
      have hCounting := @Context.Alike.bind _ _ hAlike var (first.next type)
        ⟨0, rangeType other start stop⟩ ((hAlike.rangeType _ _).trans hType.symm)
      exact .range _ _ _ _ (ihStart hAlike hSuit) (ihStop hCounting hSuit)
        (ihBody (hCounting.inLoop.inFrame.looping _ _) hSuit)
  | leave | next => exact .none rfl
  | discarded _ _ ih => exact .discard (ih hAlike hSuit)
  | int => exact .constInt _ _
  | float => exact .constFloat _ _
  | bool | named | variant => exact .i32Const _
  | bound | self => exact .localGet _
  | path _ _ _ hLoads => exact (Calling.localGet _).cons (.loads hLoads)
  | logical _ _ _ ihLeft ihRight | binary _ _ _ _ _ _ ihLeft ihRight =>
      exact ((ihLeft hAlike hSuit).append (ihRight hAlike hSuit)).behind (.instr _)
  | negateInt _ _ _ ih => exact ((Calling.constInt _ _).cons (ih hAlike hSuit)).behind (.instr _)
  | call hCalls _ ih =>
      have hCallee := hSuit.callee other rfl _ _ ((hAlike.callee? _).trans hCalls.1)
      simp only [Judgement.calls, exprCalls, hCallee]
      exact (ih hAlike hSuit).append (.call _)
  | ownCall hNone hOwn _ ih =>
      have hCallee := hSuit.callee other rfl _ _
        ((hAlike.callee? _).trans (Context.callee?_own hNone hOwn))
      simp only [Judgement.calls, exprCalls, hCallee]
      exact ((Calling.localGet _).cons (ih hAlike hSuit)).append (.call _)
  | methodCall hType hMethod _ _ ihReceiver ihArgs =>
      have hReceiver := (hAlike.typeOf _).trans hType
      have hTarget := hSuit.method _ _ _ (hAlike.env ▸ hMethod)
      simp only [Judgement.calls, exprCalls, hReceiver, Indices.on, hTarget]
      exact ((ihReceiver hAlike hSuit).append (ihArgs hAlike hSuit)).append (.call _)
  | arg _ _ ihFirst ihRest => exact (ihFirst hAlike hSuit).append (ihRest hAlike hSuit)
  | branchOnly _ _ ihTest ihBody =>
      simp only [Judgement.calls, exprCalls, List.append_nil]
      exact .branchOnly _ (ihTest hAlike hSuit) (ihBody hAlike.inFrame hSuit)
  | branch _ _ _ _ _ ihTest ihYes ihNo =>
      exact .branch _ (ihTest hAlike hSuit) (ihYes hAlike.inFrame hSuit) (ihNo hAlike.inFrame hSuit)
  | blockOnly _ _ ih =>
      simp only [Judgement.calls, exprCalls, List.append_nil, Judgement.code]
      split
      · exact ih hAlike hSuit
      · exact (ih hAlike hSuit).behind (.instr _)
  | block _ _ hStmts _ ihStmts ihTail =>
      have hBehind : Context.Alike _ _ := hStmts.behind hAlike
      have hEnv : (List.foldl Context.behind other _).env = other.env := hBehind.env.trans
        ((Context.Same.env hStmts.same).trans hAlike.env.symm)
      exact (ihStmts hAlike hSuit).append (ihTail hBehind (hEnv ▸ hSuit))
  | cases hSubject _ _ _ _ _ ihScrutinee ihArms =>
      have hType := (hAlike.typeOf _).trans hSubject.symm
      simp only [Judgement.calls, exprCalls, hType]
      exact (ihScrutinee hAlike hSuit).append ((Calling.localSet _).cons (ihArms hAlike hSuit))
  | @bind slots _ _ slot _ _ _ name _ _ _ _ ih =>
      have hBound := @Context.Alike.bind _ _ hAlike name (slots.next slot.type) ⟨0, slot.type⟩ rfl
      exact (Calling.localGet _).cons ((Calling.localSet _).cons (ih hBound hSuit))
  | literal _ _ _ ihValue ihBody ihRest =>
      exact .literalArm _ _ (ihValue hAlike hSuit) (ihBody hAlike.inFrame hSuit)
        (ihRest hAlike.inFrame hSuit)
  | member _ _ _ _ ih => exact (ih hAlike hSuit).behind (.none rfl)
  | @construct _ _ context _ _ _ _ _ _ _ _ hGet _ hAlloc _ ih =>
      have hEnv : other.env = context.env := hAlike.env
      have hFirst := Calling.alloc hAlloc
      simp only [Judgement.calls, exprCalls, Env.fieldNames, hEnv, hGet, hSuit.alloc]
      exact (hFirst.append (ih hAlike hSuit)).behind (.localGet _)
  | store hInit _ _ ihValue ihRest =>
      simp only [Judgement.calls, List.map_cons, storesCalls_cons hInit]
      exact (Calling.localGet _).cons ((ihValue hAlike hSuit).append
        ((Calling.none rfl).cons (ihRest hAlike hSuit)))

theorem stmtsCalls_append (context : Context) (front back : List Stmt) :
    stmtsCalls indices context (front ++ back) =
      stmtsCalls indices context front ++
        stmtsCalls indices (front.foldl Context.behind context) back := by
  induction front generalizing context with
  | nil => rfl
  | cons stmt rest ih =>
      rw [List.cons_append, stmtsCalls, stmtsCalls, ih, List.append_assoc]
      rfl

theorem Body.calls {context : Context} {stmts : List Stmt} {before after : Slots} {code : Code}
    (hBody : Body context stmts before code after) (hSuit : indices.Suit context.env) :
    Calling code (stmtsCalls indices context stmts) := by
  have hSelf : context.Alike context := ⟨rfl, rfl, fun _ => rfl⟩
  cases hBody with
  | @value front _ _ _ _ _ _ _ _ _ _ hFront hValue =>
      have hBehind : Context.Alike _ _ := hFront.behind hSelf
      have hEnv : (front.foldl Context.behind context).env = context.env :=
        hBehind.env.trans (Context.Same.env hFront.same)
      simp only [stmtsCalls_append, stmtsCalls, stmtCalls, List.append_nil]
      exact (hFront.calls hSelf hSuit).append (hValue.calls hBehind (hEnv ▸ hSuit))
  | void _ hStmts => exact hStmts.calls hSelf hSuit
  | trap _ _ hStmts => exact (hStmts.calls hSelf hSuit).behind (.instr _)

/-- A function calls what its source calls. -/
theorem lowerFunction_calls {env : Env} {decl : FuncDecl} {body : FunctionBody}
    (hLower : lowerFunction env decl = .ok body) (hSuit : indices.Suit env) :
    callsIn body.instrs = stmtsCalls indices (entryPoint env decl) decl.body := by
  obtain ⟨code, after, -, -, hInstrs, hBody, -⟩ := lowerFunction_derives hLower
  have hCalls : Calling code (stmtsCalls indices (entryPoint env decl) decl.body) :=
    hBody.calls hSuit
  rw [hInstrs]
  exact hCalls.behind .close

/-- A constructor allocates its record. -/
theorem lowerConstructor_calls {env : Env} {record : String} {body : FunctionBody}
    (hLower : lowerConstructor env record = .ok body) :
    callsIn body.instrs = [some env.heap.allocFunc.toNat] := by
  have hStores (address : UInt32) (index : Nat) (fields : List Field) :
      Calling (storeParams address index fields) [] := by
    induction fields generalizing index with
    | nil => exact .nil
    | cons field rest ih =>
        exact (Calling.localGet _).cons ((Calling.localGet _).cons ((Calling.none rfl).cons (ih _)))
  obtain ⟨record, alloc, -, hAlloc, rfl⟩ := lowerConstructor_eq_ok.1 hLower
  exact ((Calling.alloc hAlloc).behind (hStores _ _ _)).behind ((Calling.localGet _).cons .close)

end RecordWasm.Lowering
