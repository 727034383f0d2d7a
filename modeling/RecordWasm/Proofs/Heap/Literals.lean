import RecordWasm.Proofs.Evaluation.Locals
import RecordWasm.Proofs.Heap.Constructor
import RecordWasm.Proofs.Lowering.Emitting

/-!
# Literals make what constructors make

A literal of a record stores the locals that its initializers name, its constructor stores its
parameters.  Both allocate the record first and go through the fields in the order of the layout, so
both end with the same address and the same store, or in the same trap.
-/

namespace RecordWasm.Heap

open Wasm Machine Syntax Layout Lowering

section Literals

variable {types : List FuncType} {env : Env} {record : Record} {bound : String → Slot}

/-- The locals of fields. -/
def fieldIndices (bound : String → Slot) (fields : List Field) : List UInt32 :=
  fields.map fun field => (bound field.name).index

theorem reads_storeLocals (address : UInt32) (fields : List Field) :
    Reads types (storeLocals address bound fields)
      (storeFrom address (fieldIndices bound fields) fields) := by
  induction fields with
  | nil => exact .nil
  | cons field rest ih =>
      have hLocals :=
        (reads_localGet address).append (@reads_localGet types (bound field.name).index)
      have hStore : Reads types [storeInstr field]
          [.plain (.store field.type.numType) (.mem (fieldArg field))] := .plain rfl
      exact hLocals.append (hStore.append ih)

theorem reads_literal {decl : String} {address : UInt32} {alloc : Code}
    (hAlloc : allocCode env decl record address = .ok alloc) :
    Reads types (alloc ++ storeLocals address bound record.fields ++ [.localGet address])
      (makeSteps env.heap record address (fieldIndices bound record.fields)) :=
  ((reads_alloc hAlloc).append (reads_storeLocals address record.fields)).append
    (reads_localGet address)

/-- The local in a slot that was handed out before holds a value. -/
structure Provided (slots : Slots) (locals : List Value) (slot : Slot) (value : Value) : Prop where
  handed : slot.index.toNat < slots.size
  held : locals[slot.index.toNat]? = some value
  kind : numType? slot.type = some value.type

/-- The locals of fields hold values, one for each field. -/
def Provides (slots : Slots) (locals : List Value) (bound : String → Slot) (fields : List Field)
    (values : List Value) : Prop :=
  List.Forall₂ (fun field value => Provided slots locals (bound field.name) value) fields values

variable {slots : Slots} {locals below values : List Value} {fields : List Field}

theorem Provides.supplies (hProvides : Provides slots locals bound fields values) :
    Supplies locals (fieldIndices bound fields) values := by
  induction hProvides with
  | nil => exact .nil
  | cons hHere _ ih => exact .cons hHere.held ih

theorem Provides.handed (hProvides : Provides slots locals bound fields values) :
    ∀ index ∈ fieldIndices bound fields, index.toNat < slots.size := by
  induction hProvides with
  | nil => simp [fieldIndices]
  | cons hHere _ ih =>
      rw [fieldIndices, List.map_cons, List.forall_mem_cons]
      exact ⟨hHere.handed, ih⟩

/-- Locals of the types of the fields hold values that the fields can store. -/
theorem Provides.suits (hProvides : Provides slots locals bound fields values)
    (hTypes : ∀ field ∈ fields, numType? (bound field.name).type = some field.type.numType) :
    Suits fields values := by
  induction hProvides with
  | nil => exact .nil
  | cons hHere _ ih =>
      obtain ⟨hType, hRest⟩ := List.forall_mem_cons.1 hTypes
      exact .cons (Option.some.inj (hHere.kind.symm.trans hType)) (ih hRest)

/-- A literal of locals makes a record of their values. -/
theorem literal_makes {functions : Array Machine.Function} {name : String} {store : Store}
    {pool : Pool} (fuel : Nat) (hLinked : env.heap.Linked functions)
    (hHolds : env.heap.Holds store pool) (hPages : pool.memory.pages < 4294967295)
    (hRoomy : Evaluation.Roomy (slots.push (.record name)) locals)
    (hProvides : Provides slots locals bound record.fields values)
    (hSuits : Suits record.fields values) :
    Leads functions fuel
      (makeSteps env.heap record (slots.next (.record name)).index
        (fieldIndices bound record.fields))
      ⟨store, locals, below⟩
      ((env.heap.make store pool record values).outcome
        (fun address => locals.set slots.size (.i32 address)) below) := by
  obtain ⟨hIndex, old, hOld, hType⟩ := hRoomy.next
  cases old with
  | i32 word =>
      rw [← hIndex] at hOld ⊢
      refine leads_makeSteps fuel hLinked hHolds hPages hOld hProvides.supplies ?_ hSuits
      intro index hMem hSame
      have hHanded := hProvides.handed index hMem
      rw [hSame, hIndex] at hHanded
      omega
  | _ => cases hType

/-- The code of the literals of a record that initialize its fields with the given locals. -/
structure LiteralCode (context : Context) (slots : Slots) (name : String) (record : Record)
    (bound : String → Slot) (code : Code) : Prop where
  /-- The code does not depend on the order of the initializers. -/
  expr : ∀ inits, FromLocals context record bound inits → ∀ hint asArm tag,
    lowerExpr context hint asArm (.construct tag name inits) slots =
      .ok (⟨code, .record name⟩, slots.push (.record name))
  /-- A function that ends with such a literal is compiled. -/
  function : ∀ decl stmts pos tag inits front, FromLocals context record bound inits →
    decl.body = stmts ++ [.eval pos (.construct tag name inits)] → decl.result = .record name →
    (∀ type ∈ paramTypes decl, type.isVoid = false) →
    (decl.isMethod = true → context.env.registry.contains decl.receiver = true) →
    (Judgement.stmts (entryPoint context.env decl) stmts front context).Generated
      ⟨(paramTypes decl).length, []⟩ slots →
    lowerFunction context.env decl = .ok ⟨decl.qualifiedName,
      signature (paramTypes decl) decl.result,
      (slots.push (.record name)).locals.map NumType.valType, front ++ code ++ [.close]⟩
  /-- The code ends like a call of the constructor with the values of the locals. -/
  makes : ∀ types functions index body pool state locals below values,
    lowerConstructor context.env name = .ok body → Coded types functions index body →
    context.env.heap.Linked functions → context.env.heap.Holds state.store pool →
    pool.memory.pages < 4294967295 →
    Evaluation.Roomy (slots.push (.record name)) state.locals →
    Provides slots state.locals bound record.fields values →
    (∃ steps fuel, Reads types code steps ∧ exec functions fuel steps state =
      (context.env.heap.make state.store pool record values).outcome
        (fun address => state.locals.set slots.size (.i32 address)) state.stack) ∧
    ∃ fuel, exec functions fuel [.call index] ⟨state.store, locals, values.reverse ++ below⟩ =
      (context.env.heap.make state.store pool record values).outcome (fun _ => locals) below

end Literals

/-! ## Literals and constructors -/

theorem Made.outcome_ne_exhausted (made : Made) (locals : UInt32 → List Value)
    (below : List Value) :
    made.outcome locals below ≠ .exhausted := by
  rw [outcome]
  split <;> simp

/-- Every literal of a record that initializes each field once with a local of its type is accepted
wherever it stands, and the order of its initializers makes no difference to the code of the
literal, nor to that of any function.  Its code ends like a call of the constructor of the record
with the values of the locals in the order of the layout: with the same address and the same store,
or in the same trap with the same store.  A literal in which a field is missing, unknown or repeated
is refused, with a report that depends on neither the values of its initializers nor the slots that
were handed out.  Emitted instruction after instruction, a literal comes to the same code, and one
that is refused leaves the code so far and the slots as they were. -/
theorem literals_make_records {env : Env} {name : String} {record : Record}
    (hCompute : compute env.records = .ok env.registry)
    (hRecord : env.registry.get? name = some record) (hCount : record.fields.length < 2 ^ 32) :
    (∃ body, lowerConstructor env name = .ok body) ∧
    (∀ context bound slots, context.env = env →
      (∀ field ∈ record.fields, (bound field.name).type = env.typeOfField name field) →
      ∃ code, LiteralCode context slots name record bound code) ∧
    (∀ (decl : FuncDecl) (stmts : List Stmt) (body : FunctionBody),
      Respells (entryPoint env decl) (.stmts decl.body) (.stmts stmts) →
      (entryPoint env decl).endType stmts = (entryPoint env decl).endType decl.body →
      lowerFunction env decl = .ok body →
      lowerFunction env { decl with body := stmts } = .ok body) ∧
    (∀ (context : Context) (tag : Tag) (inits : List FieldInit), context.env = env →
      ¬(inits.map FieldInit.name).Perm (record.fields.map Field.name) →
      ∃ place kind detail, (Assigns record inits → kind = .missingField) ∧
        (¬Assigns record inits → kind = .unknownField) ∧
        ∀ others slots, others.map initKey = inits.map initKey →
          (∀ hint asArm, lowerExpr context hint asArm (.construct tag name others) slots =
            .error (context.report place kind detail).failure) ∧
          ∀ code, Emitting.construct context tag.pos name others ⟨code, slots⟩ =
            .error (context.report place kind detail).failure ⟨code, slots⟩) ∧
    ∀ (context : Context) (tag : Tag) (inits : List FieldInit) (hint : Ty) (asArm : Bool)
      (done : Emitted),
      Emitting.answer (Emitting.construct context tag.pos name inits) done =
        (lowerExpr context hint asArm (.construct tag name inits) done.slots).map fun pair =>
          (pair.1.type, ⟨done.code ++ pair.1.code, pair.2⟩) := by
  have hLays := compute_lays hCompute
  have hSound := hLays.sound_of_get? hRecord
  refine ⟨?_, ?_, fun _ _ _ => lowerFunction_respelled, ?_, ?_⟩
  · obtain ⟨alloc, hAlloc⟩ := allocCode_ok env hSound record.fields.length.toUInt32
    simp only [lowerConstructor, hRecord, hAlloc]
    exact ⟨_, rfl⟩
  · rintro context bound slots rfl hTypes
    obtain ⟨alloc, hAlloc⟩ :=
      allocCode_ok context.env hSound (slots.next (.record name)).index
    refine ⟨alloc ++ storeLocals (slots.next (.record name)).index bound record.fields ++
      [.localGet (slots.next (.record name)).index], ⟨?_, ?_, ?_⟩⟩
    · exact fun inits hInits hint asArm tag =>
        (hInits.derives hSound hRecord hTypes (hAlloc context.name) hint asArm tag).generated
    · exact fun decl stmts pos tag inits front hInits hDecl hResult hParams hReceiver hFront =>
        lowerFunction_literal hDecl hResult hParams hReceiver hFront
          (hInits.derives hSound hRecord hTypes (hAlloc context.name) _ _ _)
    · intro types functions index body pool state locals below values hLower hCoded hLinked
        hHolds hPages hRoomy hProvides
      have hSuits := hProvides.suits fun field hField => by
        rw [hTypes field hField, numType?_typeOfField hLays hRecord hField]
      constructor
      · have hRun := @literal_makes context.env record bound slots state.locals state.stack values
          functions name state.store pool 0 hLinked hHolds hPages hRoomy hProvides hSuits
        obtain ⟨fuel, hExec⟩ := hRun.exists_exec (Made.outcome_ne_exhausted _ _ _)
        exact ⟨_, fuel, reads_literal (hAlloc context.name), hExec⟩
      · obtain ⟨found, hFound, hType, hLocals, hSteps⟩ := lowerConstructor_ok hLower
        cases hRecord.symm.trans hFound
        obtain ⟨steps, hRead, hFunction⟩ := hCoded
        cases (hSteps types).symm.trans hRead
        rw [hLocals, hType] at hFunction
        have hRun :=
          @call_makes functions _ state.store pool record locals below values 0 _ _ hLinked
            hFunction (length_constructorRef hLays hRecord 0) rfl hHolds hPages hCount hSuits
        exact hRun.exists_exec (Made.outcome_ne_exhausted _ _ _)
  · rintro context tag inits rfl hNot
    exact literal_refused context tag hSound hRecord hNot
  · exact fun context tag inits => Emitting.answer_construct context tag name inits

/-- Two records, the second of which inherits a field. -/
def marks : List RecordDecl :=
  [{ name := "Mark", fields := [⟨{}, "flag", .bool⟩] },
    { name := "Score", parent := "Mark", fields := [⟨{}, "total", .i64⟩] }]

/-- The layout of the second record. -/
def scoreLayout : Record where
  name := "Score"
  parent := "Mark"
  fields := [⟨"flag", .bool, 0⟩, ⟨"total", .i64, 8⟩]
  size := 16
  align := 8
  inherited := 1

/-- The records behind a heap of two pages. -/
def marksEnv : Env where
  registry := ⟨[⟨"Mark", "", [⟨"flag", .bool, 0⟩], 4, 4, 0⟩, scoreLayout]⟩
  heap := ⟨1024, 66560, 0, 1, 0, 1⟩
  records := marks
  enums := []

/-- The heap before anything is made. -/
def marksPool : Pool := ⟨1024, 66560, { pages := 2, limit := 16 }⟩

/-- A literal of the second record, written against the order of its fields. -/
def scoring : Expr := .construct {} "Score"
  [.mk {} "total" (.ident {} "points"), .mk {} "flag" (.ident {} "won")]

/-- The literal makes what the constructor makes of the same values. -/
theorem literals_make_records_score :
    ∃ context code steps functions locals after,
      context.env = marksEnv ∧
      lowerExpr context .void false scoring ⟨2, []⟩ = .ok (⟨code, .record "Score"⟩, ⟨2, [.i32]⟩) ∧
      Reads [] code steps ∧
      (∃ fuel, exec functions fuel steps
        ⟨⟨[.i32 1024, .i32 66560], some marksPool.memory, []⟩, [.i64 9, .i32 1, .i32 0], []⟩ =
          .next ⟨after, locals, [.i32 1024]⟩) ∧
      ∃ fuel, exec functions fuel [.call 2]
        ⟨⟨[.i32 1024, .i32 66560], some marksPool.memory, []⟩, [], [.i64 9, .i32 1]⟩ =
          .next ⟨after, [], [.i32 1024]⟩ := by
  let context : Context :=
    { env := marksEnv, name := "score", result := .void,
      scope := [("won", ⟨1, .bool⟩), ("points", ⟨0, .i64⟩)] }
  let bound : String → Slot := fun field => if field = "flag" then ⟨1, .bool⟩ else ⟨0, .i64⟩
  obtain ⟨⟨body, hBody⟩, hLiterals, -⟩ :=
    @literals_make_records marksEnv "Score" scoreLayout rfl rfl (by decide)
  obtain ⟨code, hCode⟩ := hLiterals context bound ⟨2, []⟩ rfl (by
    intro field hField
    rcases List.mem_cons.1 hField with rfl | hRest
    · rfl
    · cases List.mem_singleton.1 hRest
      rfl)
  have hInits : FromLocals context scoreLayout bound
      [.mk {} "total" (.ident {} "points"), .mk {} "flag" (.ident {} "won")] := by
    refine ⟨.swap _ _ _, fun init hInit => ?_⟩
    rcases List.mem_cons.1 hInit with rfl | hRest
    · exact ⟨{}, "points", rfl, rfl⟩
    · cases List.mem_singleton.1 hRest
      exact ⟨{}, "won", rfl, rfl⟩
  obtain ⟨found, hFound, -, -, hSteps⟩ := lowerConstructor_ok hBody
  cases hFound
  let functions : Array Machine.Function :=
    #[.coded allocType allocLocals marksEnv.heap.allocSteps,
      .coded resetType [] marksEnv.heap.resetSteps,
      .coded body.type body.locals (constructorSteps marksEnv.heap scoreLayout)]
  have hProvides : Provides ⟨2, []⟩ [.i64 9, .i32 1, .i32 0] bound scoreLayout.fields
      [.i32 1, .i64 9] :=
    .cons ⟨by decide, rfl, rfl⟩ (.cons ⟨by decide, rfl, rfl⟩ .nil)
  obtain ⟨⟨steps, fuel, hReads, hRun⟩, hCall⟩ := hCode.makes [] functions 2 body marksPool
    ⟨⟨[.i32 1024, .i32 66560], some marksPool.memory, []⟩, [.i64 9, .i32 1, .i32 0], []⟩ [] []
    [.i32 1, .i64 9] hBody ⟨_, hSteps [], rfl⟩ ⟨rfl, rfl⟩ ⟨rfl, rfl, by decide, rfl⟩ (by decide)
    ⟨by decide, ⟨[], rfl⟩, by decide⟩ hProvides
  exact ⟨context, code, steps, functions, _, _, rfl, hCode.expr _ hInits .void false {}, hReads,
    ⟨fuel, hRun⟩, hCall⟩

end RecordWasm.Heap
