import RecordWasm.Proofs.Lowering.Generation

/-!
# Whole functions

A function starts with its parameters in the first slots.  Its body is a derivation for its
statements, followed by the value that the function ends with, by nothing or by a trap.
-/

namespace RecordWasm.Lowering

open Syntax Layout Wasm

/-- The names that parameters bind, innermost first, when the first of them gets the given slot. -/
def paramScope : (first : Nat) → List Param → List (String × Slot)
  | _, [] => []
  | first, param :: rest =>
      paramScope (first + 1) rest ++
        (if param.name = "" then [] else [(param.name, ⟨first.toUInt32, param.type⟩)])

theorem bindParams_ok {params : List Param} {context inner : Context} {slots after : Slots}
    (hBind : bindParams context slots params = .ok (inner, after)) :
    inner = { context with scope := paramScope slots.params params ++ context.scope } ∧
      after = { slots with params := slots.params + params.length } ∧
      ∀ param ∈ params, param.type.isVoid = false := by
  induction params generalizing context slots with
  | nil =>
      cases hBind
      exact ⟨rfl, rfl, by simp⟩
  | cons param rest ih =>
      rw [bindParams] at hBind
      split at hBind
      · cases hBind
      · rename_i hSome
        obtain ⟨rfl, rfl, hRest⟩ := ih hBind
        refine ⟨?_, ?_, by simpa using ⟨Bool.eq_false_iff.2 hSome, hRest⟩⟩
        · by_cases hName : param.name = ""
          · simp [paramScope, hName]
          · simp [paramScope, hName, Context.bind]
        · simp only [List.length_cons]
          rw [Nat.add_assoc, Nat.add_comm 1]

/-- The names in scope at the start of a function. -/
def entryScope (decl : FuncDecl) : List (String × Slot) :=
  if decl.isMethod then
    paramScope 1 decl.params ++ [(selfName, ⟨0, .record decl.receiver⟩)]
  else paramScope 0 decl.params

/-- The context at the start of a function. -/
def entryPoint (env : Env) (decl : FuncDecl) : Context where
  env := env
  name := decl.qualifiedName
  receiver := decl.receiver
  result := decl.result
  scope := entryScope decl

theorem length_paramTypes (decl : FuncDecl) :
    (paramTypes decl).length = (if decl.isMethod then 1 else 0) + decl.params.length := by
  rw [paramTypes, List.length_append, List.length_map]
  split <;> rfl

/-- The start of a function whose parameters can be bound. -/
theorem entry_ok {env : Env} {decl : FuncDecl} {context inner : Context} {slots after : Slots}
    (hEntry : entryContext env decl = .ok (context, slots))
    (hBind : bindParams context slots decl.params = .ok (inner, after)) :
    inner = entryPoint env decl ∧ after = ⟨(paramTypes decl).length, []⟩ ∧
      ∀ type ∈ paramTypes decl, type.isVoid = false := by
  obtain ⟨rfl, rfl, hParams⟩ := bindParams_ok hBind
  rw [length_paramTypes]
  have hTypes : ∀ type ∈ paramTypes decl, type.isVoid = false := by
    intro type hType
    rw [paramTypes, List.mem_append, List.mem_map] at hType
    rcases hType with hReceiver | ⟨param, hParam, rfl⟩
    · split at hReceiver
      · rw [List.mem_singleton.1 hReceiver]
        rfl
      · cases hReceiver
    · exact hParams param hParam
  rw [entryContext] at hEntry
  by_cases hMethod : decl.isMethod = true
  · simp only [hMethod, Bool.not_true, Bool.false_eq_true, if_false] at hEntry
    split at hEntry
    · cases hEntry
    · cases hEntry
      refine ⟨?_, ?_, hTypes⟩
      · rw [entryPoint, entryScope, if_pos hMethod]
        simp [selfName, Context.bind]
      · rw [if_pos hMethod]
  · have hFree : decl.receiver = "" := by simpa [FuncDecl.isMethod] using hMethod
    rw [if_pos (by simpa using hMethod)] at hEntry
    cases hEntry
    refine ⟨?_, ?_, hTypes⟩
    · rw [entryPoint, entryScope, if_neg hMethod, hFree]
      simp
    · rw [if_neg hMethod]

theorem mem_paramScope {first : Nat} {params : List Param} {entry : String × Slot}
    (hEntry : entry ∈ paramScope first params) :
    ∃ place param, params[place]? = some param ∧
      entry = (param.name, ⟨(first + place).toUInt32, param.type⟩) := by
  induction params generalizing first with
  | nil => cases hEntry
  | cons param rest ih =>
      rw [paramScope, List.mem_append] at hEntry
      rcases hEntry with hRest | hFirst
      · obtain ⟨place, other, hOther, rfl⟩ := ih hRest
        exact ⟨place + 1, other, hOther, by rw [Nat.add_assoc, Nat.add_comm 1]⟩
      · split at hFirst
        · cases hFirst
        · exact ⟨0, param, rfl, List.mem_singleton.1 hFirst⟩

/-- A name that is bound at the start of a function stands for a parameter. -/
theorem mem_entryScope {decl : FuncDecl} {entry : String × Slot}
    (hEntry : entry ∈ entryScope decl) :
    ∃ place : Nat, entry.2.index = place.toUInt32 ∧
      (paramTypes decl)[place]? = some entry.2.type := by
  rw [entryScope] at hEntry
  rw [paramTypes]
  split at hEntry
  · rename_i hMethod
    rw [if_pos hMethod, List.singleton_append]
    rw [List.mem_append, List.mem_singleton] at hEntry
    rcases hEntry with hParam | rfl
    · obtain ⟨place, param, hPlace, rfl⟩ := mem_paramScope hParam
      exact ⟨place + 1, by rw [Nat.add_comm], by simp [hPlace]⟩
    · exact ⟨0, rfl, rfl⟩
  · rename_i hFree
    rw [if_neg hFree, List.nil_append]
    obtain ⟨place, param, hPlace, rfl⟩ := mem_paramScope hEntry
    exact ⟨place, by rw [Nat.zero_add], by simp [hPlace]⟩

/-- The code of the statements of a function, without the instruction that closes it. -/
inductive Body (context : Context) : List Stmt → Slots → Code → Slots → Prop where
  /-- The function ends with its value. -/
  | value {front : List Stmt} {pos : Position} {value : Expr} {slots middle after : Slots}
      {inner : Context} {code last : Code} :
      context.result.isVoid = false → (context.typeOf value).isVoid = false →
      Derives slots (.stmts context front code inner) middle →
      Derives middle (.value inner context.result value last) after →
      Body context (front ++ [.eval pos value]) slots (code ++ last) after
  | void {stmts : List Stmt} {slots after : Slots} {inner : Context} {code : Code} :
      context.result.isVoid = true → Derives slots (.stmts context stmts code inner) after →
      Body context stmts slots code after
  /-- The function should have returned before its end. -/
  | trap {stmts : List Stmt} {slots after : Slots} {inner : Context} {code : Code} :
      context.result.isVoid = false → splitTail context stmts = (stmts, none) →
      Derives slots (.stmts context stmts code inner) after →
      Body context stmts slots (code ++ [Opcode.unreachable.instr]) after

/-- The slots behind the body of a function. -/
theorem Body.grows {context : Context} {stmts : List Stmt} {before after : Slots} {code : Code}
    (hBody : Body context stmts before code after) : before.Grows after code.length := by
  cases hBody with
  | value _ _ hFront hValue =>
      exact (hFront.grows.trans hValue.grows).mono (by simp [Judgement.code])
  | void _ hStmts => exact hStmts.grows
  | trap _ _ hStmts => exact hStmts.grows.mono (by simp [Judgement.code])

theorem splitTail_cases (context : Context) (stmts : List Stmt) :
    splitTail context stmts = (stmts, none) ∨
      ∃ front pos value, stmts = front ++ [.eval pos value] ∧ context.result.isVoid = false ∧
        (context.typeOf value).isVoid = false ∧ splitTail context stmts = (front, some value) := by
  rw [splitTail]
  split
  · rename_i pos value hLast
    split
    · exact .inl rfl
    · rename_i hSome
      obtain ⟨front, rfl⟩ := List.getLast?_eq_some_iff.1 hLast
      simp only [Bool.or_eq_true, not_or, Bool.not_eq_true] at hSome
      exact .inr ⟨front, pos, value, rfl, hSome.1, hSome.2, by simp⟩
  · exact .inl rfl

theorem lowerBody_derives {context : Context} {stmts : List Stmt} {code : Code}
    {before after : Slots} (hLower : lowerBody context stmts before = .ok (code, after)) :
    ∃ body, code = body ++ [.close] ∧ Body context stmts before body after := by
  rw [lowerBody] at hLower
  rcases splitTail_cases context stmts with hNone | ⟨front, pos, value, rfl, hResult, hType, hTail⟩
  · simp only [hNone, gives_bind] at hLower
    obtain ⟨⟨front, inner⟩, middle, hStmts, hRest⟩ := hLower
    simp only at hRest
    have hDerives := lowerStmts_derives stmts hStmts
    by_cases hVoid : context.result.isVoid = true
    · rw [if_pos hVoid, gives_pure] at hRest
      obtain ⟨rfl, rfl⟩ := hRest
      exact ⟨front, rfl, .void hVoid hDerives⟩
    · rw [if_neg hVoid, gives_pure] at hRest
      obtain ⟨rfl, rfl⟩ := hRest
      exact ⟨_, by simp, .trap (by simpa using hVoid) hNone hDerives⟩
  · simp only [hTail, gives_bind, gives_expect, gives_pure] at hLower
    obtain ⟨⟨first, inner⟩, middle, hStmts, lowered, _, hExpr, last, _, ⟨hSame, rfl, rfl⟩, rfl,
      rfl⟩ := hLower
    exact ⟨_, rfl, .value hResult hType (lowerStmts_derives front hStmts)
      (.value (lowerExpr_derives value hExpr) hSame)⟩

/-- The parts of a compiled function. -/
theorem lowerBody_of_lowerFunction {env : Env} {decl : FuncDecl} {body : FunctionBody}
    (hLower : lowerFunction env decl = .ok body) : ∃ after,
      lowerBody (entryPoint env decl) decl.body ⟨(paramTypes decl).length, []⟩ =
        .ok (body.instrs, after) ∧
      body.type = signature (paramTypes decl) decl.result ∧
      body.locals = after.locals.map NumType.valType ∧
      ∀ type ∈ paramTypes decl, type.isVoid = false := by
  simp only [lowerFunction, bind_ok, pure_ok] at hLower
  obtain ⟨⟨context, slots⟩, hEntry, ⟨inner, start⟩, hBind, ⟨instrs, after⟩, hBody, rfl⟩ := hLower
  obtain ⟨rfl, rfl, hTypes⟩ := entry_ok hEntry hBind
  exact ⟨after, hBody, rfl, rfl, hTypes⟩

/-- What a function is compiled to. -/
theorem lowerFunction_derives {env : Env} {decl : FuncDecl} {body : FunctionBody}
    (hLower : lowerFunction env decl = .ok body) :
    ∃ code after, body.type = signature (paramTypes decl) decl.result ∧
      body.locals = after.locals.map NumType.valType ∧ body.instrs = code ++ [.close] ∧
      Body (entryPoint env decl) decl.body ⟨(paramTypes decl).length, []⟩ code after ∧
      ∀ type ∈ paramTypes decl, type.isVoid = false := by
  obtain ⟨after, hBody, hType, hLocals, hTypes⟩ := lowerBody_of_lowerFunction hLower
  obtain ⟨code, hInstrs, hDerives⟩ := lowerBody_derives hBody
  exact ⟨code, after, hType, hLocals, hInstrs, hDerives, hTypes⟩

/-- A constructor is compiled exactly if its record has a layout and a place is allocated for it. -/
theorem lowerConstructor_eq_ok {env : Env} {name : String} {body : FunctionBody} :
    lowerConstructor env name = .ok body ↔
      ∃ record alloc, env.registry.get? name = some record ∧
        allocCode env (constructorName name) record record.fields.length.toUInt32 = .ok alloc ∧
        body =
          { name := constructorName name
            type := (env.constructorRef record 0).type
            locals := [.i32]
            instrs := alloc ++ storeParams record.fields.length.toUInt32 0 record.fields ++
              [.localGet record.fields.length.toUInt32, .close] } := by
  rw [lowerConstructor]
  cases hGet : env.registry.get? name with
  | none => simp
  | some record =>
      simp only [bind_ok, pure_ok]
      constructor
      · rintro ⟨alloc, hAlloc, rfl⟩
        exact ⟨record, alloc, rfl, hAlloc, rfl⟩
      · rintro ⟨_, alloc, hSame, hAlloc, rfl⟩
        cases hSame
        exact ⟨alloc, hAlloc, rfl⟩

end RecordWasm.Lowering
