import RecordWasm.Proofs.Lowering.Completeness
import RecordWasm.Proofs.Lowering.Names
import RecordWasm.Proofs.Lowering.Nesting
import RecordWasm.Proofs.Lowering.Uses
import RecordWasm.Proofs.Machine.Runs

/-!
# The value that a function ends with

An expression at the end of a function is its result if it has a type where the function starts.
Names that the statements in front bind have none there.  If the expression has no type there it is
lowered like any other statement: its value is dropped, and the end of the function traps.
-/

namespace RecordWasm.Lowering

open Syntax Layout Wasm Machine

theorem bindParams_exists {params : List Param}
    (hParams : ∀ param ∈ params, param.type.isVoid = false) (context : Context) (slots : Slots) :
    ∃ bound, bindParams context slots params = .ok bound := by
  induction params generalizing context slots with
  | nil => exact ⟨_, rfl⟩
  | cons param rest ih =>
      obtain ⟨hFirst, hRest⟩ := List.forall_mem_cons.1 hParams
      rw [bindParams, if_neg (by simp [hFirst])]
      exact ih hRest _ _

/-- A function starts if its parameters have values and its receiver is known. -/
theorem entry_exists {env : Env} {decl : FuncDecl}
    (hParams : ∀ type ∈ paramTypes decl, type.isVoid = false)
    (hReceiver : decl.isMethod = true → env.registry.contains decl.receiver = true) :
    ∃ context slots, entryContext env decl = .ok (context, slots) ∧
      bindParams context slots decl.params =
        .ok (entryPoint env decl, ⟨(paramTypes decl).length, []⟩) := by
  have hEntry : ∃ entry, entryContext env decl = .ok entry := by
    rw [entryContext]
    cases hMethod : decl.isMethod with
    | false => exact ⟨_, rfl⟩
    | true =>
        rw [hReceiver hMethod]
        exact ⟨_, rfl⟩
  obtain ⟨⟨context, slots⟩, hEntry⟩ := hEntry
  have hTypes : ∀ param ∈ decl.params, param.type.isVoid = false := fun param hParam =>
    hParams _ (List.mem_append_right _ (List.mem_map_of_mem hParam))
  obtain ⟨⟨inner, after⟩, hBind⟩ := bindParams_exists hTypes context slots
  obtain ⟨rfl, rfl, -⟩ := entry_ok hEntry hBind
  exact ⟨context, slots, hEntry, hBind⟩

/-- A function is compiled if its body is, from the start of the function on. -/
theorem lowerFunction_of_lowerBody {env : Env} {decl : FuncDecl} {code : Code} {after : Slots}
    (hParams : ∀ type ∈ paramTypes decl, type.isVoid = false)
    (hReceiver : decl.isMethod = true → env.registry.contains decl.receiver = true)
    (hBody : lowerBody (entryPoint env decl) decl.body ⟨(paramTypes decl).length, []⟩ =
      .ok (code, after)) :
    lowerFunction env decl = .ok ⟨decl.qualifiedName, signature (paramTypes decl) decl.result,
      after.locals.map NumType.valType, code⟩ := by
  obtain ⟨context, slots, hEntry, hBind⟩ := entry_exists hParams hReceiver
  simp only [lowerFunction, bind_ok, pure_ok]
  exact ⟨_, hEntry, _, hBind, _, hBody, rfl⟩

section Ends

variable {context inner outer : Context} {stmts : List Stmt} {pos : Position} {value : Expr}
variable {front last code : Code} {before middle after : Slots}

/-- Statements are lowered one part after the other. -/
theorem Derives.split {back : List Stmt}
    (hDerives : Derives before (.stmts context (stmts ++ back) code outer) after) :
    ∃ inner middle first second, Derives before (.stmts context stmts first inner) middle ∧
      Derives middle (.stmts inner back second outer) after ∧ code = first ++ second := by
  induction stmts generalizing context before code with
  | nil => exact ⟨context, before, [], code, .nil, hDerives, rfl⟩
  | cons stmt rest ih =>
      generalize hSource : stmt :: rest ++ back = source at hDerives
      cases hDerives with
      | nil => cases hSource
      | cons hStmt hRest =>
          cases hSource
          obtain ⟨inner, middle, first, second, hFirst, hSecond, rfl⟩ := ih hRest
          exact ⟨inner, middle, _, second, .cons hStmt hFirst, hSecond,
            (List.append_assoc _ _ _).symm⟩

theorem derives_eval
    (hDerives : Derives before (.stmts context [.eval pos value] code outer) after) :
    Derives before (.settled context .void false value code) after := by
  cases hDerives with
  | cons hStmt hNil =>
      cases hNil
      cases hStmt with
      | eval hValue =>
          rw [List.append_nil]
          exact hValue

/-- An expression that has a type where the function starts is lowered as its result. -/
theorem lowerBody_value (hResult : context.result.isVoid = false)
    (hType : (context.typeOf value).isVoid = false)
    (hFront : (Judgement.stmts context stmts front inner).Generated before middle)
    (hValue : (Judgement.value inner context.result value last).Generated middle after) :
    lowerBody context (stmts ++ [.eval pos value]) before =
      .ok (front ++ last ++ [.close], after) := by
  obtain ⟨lowered, hExpr, hSame, rfl⟩ := hValue
  have hTail : splitTail context (stmts ++ [.eval pos value]) = (stmts, some value) := by
    simp [splitTail, hResult, hType]
  simp only [lowerBody, hTail, gives_bind, gives_expect, gives_pure]
  exact ⟨_, _, hFront, _, _, hExpr, _, _, ⟨hSame, rfl, rfl⟩, rfl, rfl⟩

/-- An expression that has none is lowered as a statement, and a trap stands behind. -/
theorem lowerBody_trap (hResult : context.result.isVoid = false)
    (hType : (context.typeOf value).isVoid = true)
    (hFront : (Judgement.stmts context stmts front inner).Generated before middle)
    (hBody : lowerBody context (stmts ++ [.eval pos value]) before = .ok (code, after)) :
    ∃ dropped, (Judgement.settled inner .void false value dropped).Generated middle after ∧
      code = front ++ dropped ++ [Opcode.unreachable.instr, .close] := by
  have hTail : splitTail context (stmts ++ [.eval pos value]) =
      (stmts ++ [.eval pos value], none) := by simp [splitTail, hResult, hType]
  simp only [lowerBody, hTail, gives_bind] at hBody
  obtain ⟨⟨whole, outer⟩, slots, hStmts, hRest⟩ := hBody
  simp only [hResult, Bool.false_eq_true, if_false, gives_pure] at hRest
  obtain ⟨rfl, rfl⟩ := hRest
  obtain ⟨_, _, first, _, hFirst, hEval, rfl⟩ := (lowerStmts_derives _ hStmts).split
  cases hFront.symm.trans hFirst.generated
  exact ⟨_, (derives_eval hEval).generated, by simp⟩

/-- Statements change the scope only. -/
theorem Derives.context_behind {judgement : Judgement} (hDerives : Derives before judgement after) :
    judgement.behind = { judgement.context with scope := judgement.behind.scope } := by
  induction hDerives with
  | cons _ _ ihFirst ihRest =>
      simp only [Judgement.behind, Judgement.context] at ihFirst ihRest ⊢
      rw [ihRest, ihFirst]
  | _ => rfl

/-- Where names mean the same behind statements, expressions have the same type there. -/
theorem typeOf_behind (hFront : Derives before (.stmts context stmts code inner) after)
    (hNames : ∀ name ∈ exprNames value, inner.lookup? name = context.lookup? name) :
    context.typeOf value = inner.typeOf value := by
  have hInner : inner = { context with scope := inner.scope } := hFront.context_behind
  have hAgrees : context.Agrees (exprNames value) inner := by
    constructor <;> first | exact hNames | rw [hInner]
  exact (hAgrees.typeOf value (List.Subset.refl _)).symm

end Ends

/-- A machine has a function for a compiled body. -/
def Coded (types : List FuncType) (functions : Array Function) (index : Nat) (body : FunctionBody) :
    Prop :=
  ∃ steps, Step.ofInstrs? types body.instrs = some steps ∧
    functions[index]? = some (.coded body.type body.locals steps)

/-- A run gets to the end of code. -/
def Through (types : List FuncType) (functions : Array Function) (code : Code)
    (state next : State) :
    Prop :=
  ∃ steps fuel, Reads types code steps ∧ exec functions fuel steps state = .next next

section Calls

variable {types : List FuncType} {functions : Array Function} {index : Nat} {body : FunctionBody}
variable {front last : Code} {state middle next : State}

theorem Through.append (hFront : Through types functions front state middle)
    (hLast : Through types functions last middle next) :
    Through types functions (front ++ last) state next := by
  obtain ⟨steps, fuel, hSteps, hRun⟩ := hFront
  obtain ⟨others, more, hOthers, hRest⟩ := hLast
  exact ⟨_, _, hSteps.append hOthers, exec_append_of_next hRun hRest nofun⟩

/-- A call whose code comes to its end leaves the results. -/
theorem Coded.returns (hCoded : Coded types functions index body)
    (hInstrs : body.instrs = front ++ [.close])
    (hThrough : Through types functions front (state.call body.type body.locals) next) :
    ∃ fuel, exec functions fuel [.call index] state = .next ⟨next.store, state.locals,
      next.stack.take body.type.results.length ++ state.stack.drop body.type.params.length⟩ := by
  obtain ⟨steps, hSteps, hFunction⟩ := hCoded
  obtain ⟨others, fuel, hReads, hRun⟩ := hThrough
  rw [hInstrs, hReads.ofInstrs?] at hSteps
  cases hSteps
  exact (Leads.call state hFunction (.of_exec fuel hRun nofun) :
    Leads functions (0 + 1) [.call index] state _)

/-- A call whose code comes to a trap ends there. -/
theorem Coded.traps (hCoded : Coded types functions index body)
    (hInstrs : body.instrs = front ++ [Opcode.unreachable.instr, .close])
    (hThrough : Through types functions front (state.call body.type body.locals) next) :
    ∃ fuel, exec functions fuel [.call index] state = .trap .unreachable next.store := by
  obtain ⟨steps, hSteps, hFunction⟩ := hCoded
  obtain ⟨others, fuel, hReads, hRun⟩ := hThrough
  have hAll := (hReads.append .unreachable).ofInstrs?
  rw [List.append_assoc, List.singleton_append, ← hInstrs, hSteps] at hAll
  cases hAll
  have hBody : Leads functions 0 (others ++ [.unreachable]) (state.call body.type body.locals)
      (.trap .unreachable next.store) :=
    (Leads.of_exec fuel hRun nofun).next_append .unreachable
  exact (Leads.call state hFunction hBody : Leads functions (0 + 1) [.call index] state _)

end Calls

theorem length_results {params : List Ty} {result : Ty} (hSome : result.isVoid = false) :
    (signature params result).results.length = 1 := by
  cases result <;> first | rfl | cases hSome

/-! ## Results -/

/-- A function ends with an expression that is lowered, behind the statements in front of it, as
what the function returns.  If the expression has a type where the function starts, the function is
compiled with this code at its end, and a call that gets through it returns the value.  If it has
none, a compiled function drops the value and traps behind it.  The type is that of the place where
the expression stands if the statements in front leave the meaning of its names alone. -/
theorem tail_returned_or_dropped {env : Env} {decl : FuncDecl} {stmts : List Stmt} {pos : Position}
    {value : Expr} {inner : Context} {front last : Code} {middle after : Slots}
    (hDecl : decl.body = stmts ++ [.eval pos value]) (hResult : decl.result.isVoid = false)
    (hParams : ∀ type ∈ paramTypes decl, type.isVoid = false)
    (hReceiver : decl.isMethod = true → env.registry.contains decl.receiver = true)
    (hFront : (Judgement.stmts (entryPoint env decl) stmts front inner).Generated
      ⟨(paramTypes decl).length, []⟩ middle)
    (hValue : (Judgement.value inner decl.result value last).Generated middle after) :
    (((entryPoint env decl).typeOf value).isVoid = false →
      ∃ body, lowerFunction env decl = .ok body ∧ body.instrs = front ++ last ++ [.close] ∧
        ∀ types functions index state between store locals word, Coded types functions index body →
          Through types functions front (state.call body.type body.locals) between →
          Through types functions last between ⟨store, locals, [word]⟩ →
          ∃ fuel, exec functions fuel [.call index] state =
            .next ⟨store, state.locals, word :: state.stack.drop body.type.params.length⟩) ∧
    (((entryPoint env decl).typeOf value).isVoid = true →
      ∀ body, lowerFunction env decl = .ok body → ∃ dropped slots,
        (Judgement.settled inner .void false value dropped).Generated middle slots ∧
        body.instrs = front ++ dropped ++ [Opcode.unreachable.instr, .close] ∧
        ∀ types functions index state between behind, Coded types functions index body →
          Through types functions front (state.call body.type body.locals) between →
          Through types functions dropped between behind →
          ∃ fuel, exec functions fuel [.call index] state = .trap .unreachable behind.store) ∧
    ((∀ name ∈ exprNames value, inner.lookup? name = (entryPoint env decl).lookup? name) →
      (entryPoint env decl).typeOf value = inner.typeOf value) := by
  refine ⟨fun hType => ?_, fun hType body hLower => ?_, ?_⟩
  · have hBody :=
      @lowerBody_value (entryPoint env decl) inner stmts pos value front last _ _ _ hResult
        hType hFront hValue
    rw [← hDecl] at hBody
    refine ⟨_, lowerFunction_of_lowerBody hParams hReceiver hBody, rfl, ?_⟩
    intro types functions index state between store locals word hCoded hFirst hSecond
    obtain ⟨fuel, hRun⟩ := hCoded.returns rfl (hFirst.append hSecond)
    rw [length_results hResult] at hRun
    exact ⟨fuel, hRun⟩
  · obtain ⟨slots, hBody, -⟩ := lowerBody_of_lowerFunction hLower
    rw [hDecl] at hBody
    obtain ⟨dropped, hDropped, hInstrs⟩ := lowerBody_trap hResult hType hFront hBody
    refine ⟨dropped, slots, hDropped, hInstrs, ?_⟩
    intro types functions index state between behind hCoded hFirst hSecond
    exact hCoded.traps hInstrs (hFirst.append hSecond)
  · exact fun hNames => typeOf_behind (lowerStmts_derives _ hFront) hNames

/-- A function that ends with a sum, one part of which is bound inside it. -/
def summing : FuncDecl where
  name := "summing"
  params := [⟨{}, "n", .i64⟩]
  result := .i64
  body := [.declare {} "m" .void (.int {} 2),
    .eval {} (.binary {} "+" (.ident {} "n") (.ident {} "m"))]

theorem tail_returned_or_dropped_summing :
    ∃ (env : Env) (body : FunctionBody) (steps : List Step) (fuel : Nat),
      lowerFunction env summing = .ok body ∧ Step.ofInstrs? [] body.instrs = some steps ∧
      exec #[.coded body.type body.locals steps] fuel [.call 0] ⟨{}, [], [.i64 40]⟩ =
        .next ⟨{}, [], [.i64 42]⟩ := by
  let env : Env := ⟨{}, ⟨8, 65536, 0, 1, 0, 1⟩, [], [], [], [], []⟩
  have hFront : (Judgement.stmts (entryPoint env summing) [.declare {} "m" .void (.int {} 2)]
      [.i64Const 2, .localSet 1] ((entryPoint env summing).bind "m" ⟨1, .i64⟩)).Generated ⟨1, []⟩
      ⟨1, [.i64]⟩ := rfl
  have hValue : (Judgement.value ((entryPoint env summing).bind "m" ⟨1, .i64⟩) .i64
      (.binary {} "+" (.ident {} "n") (.ident {} "m"))
      [.localGet 0, .localGet 1, (Opcode.int .w64 .add).instr]).Generated ⟨1, [.i64]⟩ ⟨1, [.i64]⟩ :=
    ⟨_, rfl, rfl, rfl⟩
  obtain ⟨body, hLower, hInstrs, hRuns⟩ :=
    (@tail_returned_or_dropped env summing _ _ _ _ _ _ _ _ rfl rfl (by decide) (by decide) hFront
      hValue).1 rfl
  have hBody : lowerFunction env summing = .ok ⟨"summing", ⟨[.i64], [.i64]⟩, [.i64],
      [.i64Const 2, .localSet 1, .localGet 0, .localGet 1, (Opcode.int .w64 .add).instr, .close]⟩ :=
    rfl
  cases hLower.symm.trans hBody
  let steps : List Step := [.plain (.const .i64) (.i64 2), .plain .localSet (.local 1),
    .plain .localGet (.local 0), .plain .localGet (.local 1), .plain (.int .w64 .add) .none]
  obtain ⟨fuel, hRun⟩ := hRuns [] #[.coded ⟨[.i64], [.i64]⟩ [.i64] steps] 0 ⟨{}, [], [.i64 40]⟩
    ⟨{}, [.i64 40, .i64 2], []⟩ {} [.i64 40, .i64 2] (.i64 42) ⟨steps, rfl, rfl⟩
    ⟨_, 3, (reads_constInt .i64 2).append (reads_localSet 1), rfl⟩
    ⟨_, 4, (reads_localGet 0).append ((reads_localGet 1).append (reads_operation rfl)), rfl⟩
  exact ⟨env, _, steps, fuel, hBody, rfl, hRun⟩

/-- A function that ends with a name that is bound inside it. -/
def dropping : FuncDecl where
  name := "dropping"
  params := []
  result := .i64
  body := [.declare {} "x" .void (.int {} 5), .eval {} (.ident {} "x")]

/-- Behind the declaration the name is lowered to its local, which is of the type of the result.
The function drops this value all the same, and a call of it traps. -/
theorem tail_dropped :
    ∃ (env : Env) (inner : Context) (slots : Slots) (body : FunctionBody) (steps : List Step),
      (Judgement.stmts (entryPoint env dropping) [.declare {} "x" .void (.int {} 5)]
        [.i64Const 5, .localSet 0] inner).Generated ⟨0, []⟩ slots ∧
      (Judgement.value inner dropping.result (.ident {} "x") [.localGet 0]).Generated slots slots ∧
      lowerFunction env dropping = .ok body ∧ Step.ofInstrs? [] body.instrs = some steps ∧
      exec #[.coded body.type body.locals steps] 6 [.call 0] ⟨{}, [], []⟩ = .trap .unreachable {} :=
  ⟨⟨{}, ⟨8, 65536, 0, 1, 0, 1⟩, [], [], [], [], []⟩, _, _, _, _, rfl, ⟨_, rfl, rfl, rfl⟩, rfl, rfl,
    rfl⟩

end RecordWasm.Lowering
