import RecordWasm.Proofs.Lowering.Construction

/-!
# Literals emitted step by step

The code of a literal is given out as a whole, so a literal that is refused leaves nothing to look
at.  A function that appends instruction after instruction to one list keeps at a failure what it
has appended so far, and the slots that it has handed out.  Literals are emitted here in that way:
the initializers are entered into a table, then the record is allocated, then its fields are stored.
What comes out is what is given out as a whole, and a literal that does not initialize every field
once is refused in front of the first instruction and the first slot.
-/

namespace RecordWasm.Lowering

open Syntax Layout Wasm

variable {context : Context} {record : Record} {name : String} {inits : List FieldInit}
  {code : Code} {slots : Slots}

/-- The code of a function so far and the slots that it has handed out. -/
structure Emitted where
  code : Code
  slots : Slots

/-- Emitting code, which a failure leaves as far as it has got. -/
abbrev Emitting := EStateM Failure Emitted

namespace Emitting

def emit (code : Code) : Emitting Unit :=
  modify fun done => { done with code := done.code ++ code }

def handOut (type : Ty) : Emitting Slot :=
  modifyGet fun done => (done.slots.next type, { done with slots := done.slots.push type })

/-- Emits code that is generated as a whole. -/
def generate (gen : Gen Code) : Emitting Unit := fun done =>
  match gen done.slots with
  | .ok (code, slots) => .ok () ⟨done.code ++ code, slots⟩
  | .error failure => .error failure done

/-- Enters initializers into a table, each for a field of its own. -/
def enter (context : Context) (record : Record) (typeName : String) :
    List (String × Expr) → List FieldInit → Emitting (List (String × Expr))
  | table, [] => return table
  | table, .mk pos name value :: rest =>
      if (record.field? name).isNone then
        throw (context.report pos .unknownField s!"record {typeName} has no field {name}").failure
      else if (table.lookup name).isSome then
        throw (context.report pos .unknownField s!"field {name} initialized twice").failure
      else enter context record typeName (table ++ [(name, value)]) rest

/-- The table of the initializers of a record, which has all of its fields. -/
def tabulate (context : Context) (pos : Position) (record : Record) (typeName : String)
    (inits : List FieldInit) : Emitting (List (String × Expr)) := do
  let table ← enter context record typeName [] inits
  match record.fields.find? fun field => (table.lookup field.name).isNone with
  | some field =>
      throw (context.report pos .missingField
        s!"field {field.name} of {typeName} not initialized").failure
  | none => return table

/-- Emits a value that has to be represented like a type. -/
def emitValue (context : Context) (want : Ty) (value : Expr) : Emitting Unit :=
  generate do expect context value.pos want (← lowerExpr context want false value)

/-- Stores the fields of a new record, in the order of the layout. -/
def emitStores (context : Context) (typeName : String) (address : UInt32)
    (table : List (String × Expr)) : List Field → Emitting Unit
  | [] => return
  | field :: rest => do
      emit [.localGet address]
      (table.lookup field.name).forM (emitValue context (context.env.typeOfField typeName field))
      emit [storeInstr field]
      emitStores context typeName address table rest

/-- Emits the code of a literal and answers its type. -/
def construct (context : Context) (pos : Position) (typeName : String) (inits : List FieldInit) :
    Emitting Ty :=
  match context.env.registry.get? typeName with
  | none => throw (context.report pos .unknownType s!"unknown record type {typeName}").failure
  | some record => do
      let table ← tabulate context pos record typeName inits
      let address ← handOut (.record typeName)
      generate (liftM (allocCode context.env context.name record address.index))
      emitStores context typeName address.index table record.fields
      emit [.localGet address.index]
      return .record typeName

/-- What emitting gives if nothing is kept at a failure. -/
def answer {α : Type} (emitting : Emitting α) (done : Emitted) : Except Failure (α × Emitted) :=
  match emitting done with
  | .ok value after => .ok (value, after)
  | .error failure _ => .error failure

theorem answer_bind {α β : Type} (first : Emitting α) (next : α → Emitting β) (done : Emitted) :
    answer (first >>= next) done =
      answer first done >>= fun result => answer (next result.1) result.2 := by
  change (match EStateM.bind first next done with
    | .ok value after => Except.ok (value, after)
    | .error failure _ => .error failure) = _
  rw [EStateM.bind, answer]
  cases first done <;> rfl

/-- Entering initializers emits nothing and checks what is checked of them as a whole. -/
theorem enter_eq {seen : List String} {table : List (String × Expr)}
    (hSeen : ∀ label, (table.lookup label).isSome ↔ label ∈ seen) :
    enter context record name table inits ⟨code, slots⟩ =
      match checkInits.unique context record name seen inits slots with
      | .ok _ => .ok (table ++ inits.map fun init => (init.name, init.value)) ⟨code, slots⟩
      | .error failure => .error failure ⟨code, slots⟩ := by
  induction inits generalizing seen table with
  | nil =>
      rw [List.map_nil, List.append_nil]
      rfl
  | cons init rest ih =>
      obtain ⟨pos, label, value⟩ := init
      rw [enter, checkInits.unique]
      cases hField : record.field? label with
      | none => rfl
      | some field =>
          by_cases hLabel : label ∈ seen
          · rw [if_neg (by simp), if_pos ((hSeen label).2 hLabel)]
            simp only [Option.isNone_some, hLabel]
            rfl
          · have hNext : ∀ other, ((table ++ [(label, value)]).lookup other).isSome ↔
                other ∈ label :: seen := by
              intro other
              rw [List.lookup_append, Option.isSome_or, Bool.or_eq_true, hSeen,
                List.mem_cons, or_comm]
              by_cases hSame : other = label
              · simp [hSame]
              · simp [List.lookup_cons, hSame, beq_eq_false_iff_ne.2 hSame]
            rw [if_neg (by simp), if_neg (by rwa [hSeen]), ih hNext, List.append_assoc]
            simp only [Option.isNone_some, hLabel]
            rfl

/-- The table is what is looked up of initializers. -/
theorem lookup_table (label : String) :
    (inits.map fun init => (init.name, init.value)).lookup label =
      (initOf? inits label).map FieldInit.value :=
  @lookup_inits Expr id (List.map fun init => (init.name, init.value)) rfl
    (fun _ _ _ _ => rfl) inits label

/-- The table lacks a field that no initializer is for. -/
theorem lookup_table_isNone (label : String) :
    ((inits.map fun init => (init.name, init.value)).lookup label).isNone =
      !inits.any fun init => init.name == label := by
  rw [lookup_table, Option.isNone_map, initOf?, ← Option.not_isSome, List.isSome_find?]

/-- The table is made without an instruction or a slot if the initializers pass their check, and
otherwise nothing is changed. -/
theorem tabulate_eq (pos : Position) :
    tabulate context pos record name inits ⟨code, slots⟩ =
      match checkInits context pos record name inits slots with
      | .ok _ => .ok (inits.map fun init => (init.name, init.value)) ⟨code, slots⟩
      | .error failure => .error failure ⟨code, slots⟩ := by
  have hEnter := @enter_eq context record name inits code slots [] [] (by simp)
  rw [List.nil_append] at hEnter
  rw [tabulate, checkInits, gen_bind]
  change EStateM.bind _ _ _ = _
  rw [EStateM.bind, hEnter]
  cases checkInits.unique context record name [] inits slots with
  | error failure => rfl
  | ok result =>
      simp only [lookup_table_isNone, bind, Except.bind]
      cases record.fields.find? fun field => !inits.any fun init => init.name == field.name <;> rfl

/-! ## The code of a literal -/

theorem answer_emit (code : Code) (done : Emitted) :
    answer (emit code) done = .ok ((), ⟨done.code ++ code, done.slots⟩) := rfl

theorem answer_handOut (type : Ty) (done : Emitted) :
    answer (handOut type) done =
      .ok (done.slots.next type, ⟨done.code, done.slots.push type⟩) := rfl

theorem answer_generate (gen : Gen Code) (done : Emitted) :
    answer (generate gen) done =
      (gen done.slots).map fun pair => ((), ⟨done.code ++ pair.1, pair.2⟩) := by
  rw [answer, generate]
  cases gen done.slots <;> rfl

theorem answer_nothing (done : Emitted) :
    answer (pure ()) done = .ok ((), ⟨done.code ++ [], done.slots⟩) := by
  rw [List.append_nil]
  rfl

/-- The value of a field, if there is one. -/
def fieldValue (context : Context) (inits : List FieldInit) (want : Ty)
    (label : String) : Gen Code :=
  match (lowerInits context inits).lookup label with
  | some lower => lower want
  | none => pure []

theorem storeFields_cons (address : UInt32) (field : Field) (rest : List Field) :
    storeFields context name address (lowerInits context inits) (field :: rest) =
      fieldValue context inits (context.env.typeOfField name field) field.name >>= fun value =>
        storeFields context name address (lowerInits context inits) rest >>= fun others =>
          pure (.localGet address :: value ++ storeInstr field :: others) := by
  rw [storeFields, fieldValue]
  cases (lowerInits context inits).lookup field.name <;> rfl

/-- The value of a field is emitted as it is lowered, and nothing is emitted without one. -/
theorem answer_fieldValue (want : Ty) (label : String) (done : Emitted) :
    answer (((inits.map fun init => (init.name, init.value)).lookup label).forM
        (emitValue context want)) done =
      (fieldValue context inits want label done.slots).map fun pair =>
        ((), ⟨done.code ++ pair.1, pair.2⟩) := by
  have hLower := @lookup_inits _
    (fun value want => do expect context value.pos want (← lowerExpr context want false value))
    (lowerInits context) (by rw [lowerInits]) (fun _ _ _ _ => by rw [lowerInits]) inits label
  rw [lookup_table, fieldValue, hLower]
  cases initOf? inits label with
  | none => exact answer_nothing done
  | some init => exact answer_generate _ done

/-- Storing field after field emits what is stored of all fields. -/
theorem answer_emitStores (address : UInt32) (fields : List Field) (done : Emitted) :
    answer (emitStores context name address (inits.map fun init => (init.name, init.value)) fields)
        done =
      (storeFields context name address (lowerInits context inits) fields done.slots).map
        fun pair => ((), ⟨done.code ++ pair.1, pair.2⟩) := by
  induction fields generalizing done with
  | nil => exact answer_nothing done
  | cons field rest ih =>
      rw [emitStores, storeFields_cons, gen_bind]
      simp only [answer_bind, answer_emit, answer_fieldValue, ih, gen_bind]
      simp only [bind, Except.bind]
      cases fieldValue context inits (context.env.typeOfField name field) field.name done.slots with
      | error failure => rfl
      | ok value =>
          simp only [Except.map]
          cases storeFields context name address (lowerInits context inits) rest value.2 with
          | error failure => rfl
          | ok others =>
              change Except.ok ((), (⟨_, _⟩ : Emitted)) = Except.ok ((), ⟨_, _⟩)
              simp only [List.append_assoc, List.cons_append, List.nil_append]

/-- Emitted step by step, a literal comes to the code that is given out as a whole. -/
theorem answer_construct (context : Context) (tag : Tag) (name : String) (inits : List FieldInit)
    (hint : Ty) (asArm : Bool) (done : Emitted) :
    answer (construct context tag.pos name inits) done =
      (lowerExpr context hint asArm (.construct tag name inits) done.slots).map fun pair =>
        (pair.1.type, ⟨done.code ++ pair.1.code, pair.2⟩) := by
  rw [construct, lowerExpr, lowerConstruct]
  cases context.env.registry.get? name with
  | none => rfl
  | some record =>
      simp only [answer_bind, answer_emit, answer_handOut, answer_generate, gen_bind, gen_lift]
      cases hCheck : checkInits context tag.pos record name inits done.slots with
      | error failure =>
          rw [answer, tabulate_eq, hCheck]
          rfl
      | ok result =>
          obtain ⟨_, middle⟩ := result
          obtain ⟨rfl, -, -⟩ := checkInits_gives hCheck
          have hTable : answer (tabulate context tag.pos record name inits) done =
              .ok (inits.map fun init => (init.name, init.value), done) := by
            rw [answer, tabulate_eq, hCheck]
          have hSlot : newSlot (.record name) done.slots =
              .ok (done.slots.next (.record name), done.slots.push (.record name)) := rfl
          simp only [hTable, hSlot, bind, Except.bind, answer_emitStores]
          cases allocCode context.env context.name record
            (done.slots.next (.record name)).index with
          | error failure => rfl
          | ok alloc =>
              simp only [Except.map]
              cases storeFields context name (done.slots.next (.record name)).index
                (lowerInits context inits) record.fields (done.slots.push (.record name)) with
              | error failure => rfl
              | ok stores =>
                  change Except.ok (_, (⟨_, _⟩ : Emitted)) = Except.ok (_, ⟨_, _⟩)
                  simp only [List.append_assoc]

/-- Initializers that do not pass their check are refused in front of the first instruction. -/
theorem construct_refuses {pos : Position} {failure : Failure}
    (hRecord : context.env.registry.get? name = some record)
    (hCheck : checkInits context pos record name inits slots = .error failure) :
    construct context pos name inits ⟨code, slots⟩ = .error failure ⟨code, slots⟩ := by
  simp only [construct, hRecord]
  change EStateM.bind _ _ _ = _
  rw [EStateM.bind, tabulate_eq, hCheck]

end Emitting

/-- A literal that does not initialize every field once is refused.  The report depends on the names
and the places of the initializers only, and nothing has been emitted or handed out when it is
made. -/
theorem literal_refused (context : Context) (tag : Tag) (hSound : Sound record)
    (hRecord : context.env.registry.get? name = some record)
    (hNot : ¬(inits.map FieldInit.name).Perm (record.fields.map Field.name)) :
    ∃ place kind detail, (Assigns record inits → kind = .missingField) ∧
      (¬Assigns record inits → kind = .unknownField) ∧
      ∀ others slots, others.map initKey = inits.map initKey →
        (∀ hint asArm, lowerExpr context hint asArm (.construct tag name others) slots =
          .error (context.report place kind detail).failure) ∧
        ∀ code, Emitting.construct context tag.pos name others ⟨code, slots⟩ =
          .error (context.report place kind detail).failure ⟨code, slots⟩ := by
  obtain ⟨place, kind, detail, hMissing, hUnknown, hCheck⟩ :=
    checkInits_refuses context tag.pos name hSound hNot
  refine ⟨place, kind, detail, hMissing, hUnknown, fun others slots hSame => ?_⟩
  have hOthers : checkInits context tag.pos record name others slots =
      .error (context.report place kind detail).failure := by
    rw [checkInits_congr hSame, hCheck]
  refine ⟨fun hint asArm => ?_, fun code => Emitting.construct_refuses hRecord hOthers⟩
  simp only [lowerExpr, lowerConstruct, hRecord]
  rw [gen_bind, hOthers]
  rfl

end RecordWasm.Lowering
