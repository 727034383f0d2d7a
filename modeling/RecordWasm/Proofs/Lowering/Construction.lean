import RecordWasm.Proofs.Layout.Inheritance
import RecordWasm.Proofs.Lowering.Results
import RecordWasm.Proofs.Lowering.Spelling

/-!
# Literals of records

A literal initializes every field of a record once, in any order.  The fields are stored in the
order of the layout all the same, behind an allocation, so the code of a literal does not tell in
which order its initializers were written.  A literal that leaves a field out, initializes one twice
or initializes one that the record does not have is refused for its names alone.
-/

namespace RecordWasm.Lowering

open Syntax Layout Wasm

variable {context : Context} {record : Record} {name : String} {inits others : List FieldInit}

/-- Every field of a record is initialized once, with the local of a name in scope.  The slots are
those of the names, given for each field. -/
structure FromLocals (context : Context) (record : Record) (bound : String → Slot)
    (inits : List FieldInit) : Prop where
  fields : (inits.map FieldInit.name).Perm (record.fields.map Field.name)
  locals : ∀ init ∈ inits, ∃ tag name,
    init.value = .ident tag name ∧ context.lookup? name = some (bound init.name)

/-- The code that stores locals in fields. -/
def storeLocals (address : UInt32) (bound : String → Slot) : List Field → Code
  | [] => []
  | field :: rest =>
      .localGet address :: [.localGet (bound field.name).index] ++
        storeInstr field :: storeLocals address bound rest

section Accepted

variable {bound : String → Slot}

theorem FromLocals.assigns (hInits : FromLocals context record bound inits)
    (hSound : Sound record) :
    Assigns record inits where
  fields := by
    intro init hInit
    have hName := hInits.fields.mem_iff.1 (List.mem_map_of_mem hInit)
    exact List.mem_map.1 hName
  names := hInits.fields.nodup_iff.2 hSound.names

/-- The initializer of a field is the name of its local. -/
theorem FromLocals.initOf? (hInits : FromLocals context record bound inits) (hSound : Sound record)
    {field : Field} (hField : field ∈ record.fields) :
    ∃ init tag name, Lowering.initOf? inits field.name = some init ∧ init.value = .ident tag name ∧
      context.lookup? name = some (bound field.name) := by
  obtain ⟨init, hInit, hName⟩ :=
    List.mem_map.1 (hInits.fields.mem_iff.2 (List.mem_map_of_mem hField))
  obtain ⟨tag, name, hValue, hLookup⟩ := hInits.locals init hInit
  rw [← hName]
  exact ⟨init, tag, name, initOf?_of_mem (hInits.assigns hSound).names hInit, hValue, hLookup⟩

/-- Storing the fields of a literal of locals takes no further slots. -/
theorem FromLocals.derives_stores (hInits : FromLocals context record bound inits)
    (hSound : Sound record)
    (hTypes : ∀ field ∈ record.fields,
      (bound field.name).type = context.env.typeOfField name field)
    (address : UInt32) (slots : Slots) {fields : List Field} (hFields : fields ⊆ record.fields) :
    Derives slots (.stores context name address inits fields (storeLocals address bound fields))
      slots := by
  induction fields with
  | nil => exact .stored
  | cons field rest ih =>
      obtain ⟨hField, hRest⟩ := List.cons_subset.1 hFields
      obtain ⟨init, tag, var, hInit, hValue, hLookup⟩ := hInits.initOf? hSound hField
      refine .store hInit ?_ (ih hRest)
      rw [hValue]
      exact .value (.bound hLookup) (by simp [sameRepr, hTypes field hField])

/-- The alignments that records have can be asked for. -/
theorem allocCode_ok (env : Env) (hSound : Sound record) (address : UInt32) :
    ∃ code, ∀ decl, allocCode env decl record address = .ok code := by
  have hCheck : Heap.checkAlign record.align = .ok () := by
    rcases hSound.align with hAlign | hAlign | hAlign <;> rw [hAlign] <;> rfl
  simp only [allocCode, hCheck]
  exact ⟨_, fun _ => rfl⟩

/-- A literal of locals is accepted in every place where the locals are in scope. -/
theorem FromLocals.derives (hInits : FromLocals context record bound inits)
    (hSound : Sound record) (hRecord : context.env.registry.get? name = some record)
    (hTypes : ∀ field ∈ record.fields,
      (bound field.name).type = context.env.typeOfField name field)
    {slots : Slots} {alloc : Code}
    (hAlloc : allocCode context.env context.name record (slots.next (.record name)).index =
      .ok alloc)
    (hint : Ty) (asArm : Bool) (tag : Tag) :
    Derives slots (.expr context hint asArm (.construct tag name inits)
      ⟨alloc ++ storeLocals (slots.next (.record name)).index bound record.fields ++
        [.localGet (slots.next (.record name)).index], .record name⟩) (slots.push (.record name)) :=
  .construct hRecord (hInits.assigns hSound) hAlloc
    (hInits.derives_stores hSound hTypes _ _ (List.Subset.refl _))

/-- A function that ends with a literal returns it. -/
theorem lowerFunction_literal {env : Env} {decl : FuncDecl} {stmts : List Stmt} {pos : Position}
    {tag : Tag} {inner : Context} {front code : Code} {middle after : Slots}
    (hDecl : decl.body = stmts ++ [.eval pos (.construct tag name inits)])
    (hResult : decl.result = .record name) (hParams : ∀ type ∈ paramTypes decl, type.isVoid = false)
    (hReceiver : decl.isMethod = true → env.registry.contains decl.receiver = true)
    (hFront : (Judgement.stmts (entryPoint env decl) stmts front inner).Generated
      ⟨(paramTypes decl).length, []⟩ middle)
    (hLiteral : Derives middle
      (.expr inner (.record name) false (.construct tag name inits) ⟨code, .record name⟩) after) :
    lowerFunction env decl = .ok ⟨decl.qualifiedName, signature (paramTypes decl) decl.result,
      after.locals.map NumType.valType, front ++ code ++ [.close]⟩ := by
  have hSome : (entryPoint env decl).result.isVoid = false := by
    rw [entryPoint, hResult]
    rfl
  have hValue :
      Derives middle (.value inner (entryPoint env decl).result (.construct tag name inits)
      code) after := by
    rw [entryPoint, hResult]
    exact .value hLiteral (by simp [sameRepr])
  apply lowerFunction_of_lowerBody hParams hReceiver
  rw [hDecl]
  exact lowerBody_value hSome rfl hFront hValue.generated

end Accepted

/-- Where an initializer stands and which field it is for. -/
def initKey (init : FieldInit) : Position × String := (init.pos, init.name)

theorem unique_congr (hSame : others.map initKey = inits.map initKey) (seen : List String) :
    checkInits.unique context record name seen others =
      checkInits.unique context record name seen inits := by
  induction inits generalizing others seen with
  | nil => rw [List.map_eq_nil_iff.1 hSame]
  | cons init rest ih =>
      cases others with
      | nil => cases hSame
      | cons other more =>
          obtain ⟨pos, label, value⟩ := init
          obtain ⟨place, field, given⟩ := other
          obtain ⟨hKey, hRest⟩ := List.cons_eq_cons.1 hSame
          cases hKey
          simp only [checkInits.unique, ih hRest]

/-- The check of initializers does not look at their values. -/
theorem checkInits_congr (hSame : others.map initKey = inits.map initKey) (pos : Position) :
    checkInits context pos record name others = checkInits context pos record name inits := by
  have hNames : others.map FieldInit.name = inits.map FieldInit.name := by
    have hSecond := congrArg (List.map Prod.snd) hSame
    simpa [initKey, Function.comp_def] using hSecond
  have hAny (field : Field) : (others.any fun init => init.name == field.name) =
      inits.any fun init => init.name == field.name := by
    have hBoth := congrArg (fun names => names.any (· == field.name)) hNames
    simpa [List.any_map, Function.comp_def] using hBoth
  simp only [checkInits, unique_congr hSame, hAny]

theorem Assigns.cons {init : FieldInit} (hField : ∃ field ∈ record.fields, field.name = init.name)
    (hRest : Assigns record inits) (hNew : ∀ other ∈ inits, other.name ≠ init.name) :
    Assigns record (init :: inits) where
  fields := by
    rw [List.forall_mem_cons]
    exact ⟨hField, hRest.fields⟩
  names := by
    rw [List.map_cons, List.nodup_cons, List.mem_map]
    exact ⟨fun ⟨other, hOther, hName⟩ => hNew other hOther hName, hRest.names⟩

/-- A field that is initialized twice or that the record does not have is reported as unknown. -/
theorem unique_refuses {seen : List String}
    (hNot : ¬(Assigns record inits ∧ ∀ init ∈ inits, init.name ∉ seen)) :
    ∃ pos detail, ∀ slots, checkInits.unique context record name seen inits slots =
      .error (context.report pos .unknownField detail).failure := by
  induction inits generalizing seen with
  | nil => exact absurd ⟨⟨by simp, List.nodup_nil⟩, by simp⟩ hNot
  | cons init rest ih =>
      obtain ⟨pos, label, value⟩ := init
      cases hField : record.field? label with
      | none =>
          refine ⟨pos, s!"record {name} has no field {label}", fun slots => ?_⟩
          simp only [checkInits.unique, hField]
          rfl
      | some field =>
          by_cases hSeen : label ∈ seen
          · refine ⟨pos, s!"field {label} initialized twice", fun slots => ?_⟩
            simp only [checkInits.unique, hField, hSeen]
            rfl
          · have hStill : ¬(Assigns record rest ∧ ∀ init ∈ rest, init.name ∉ label :: seen) := by
              rintro ⟨hRest, hOthers⟩
              simp only [List.mem_cons, not_or] at hOthers
              have hHere : ∃ field ∈ record.fields, field.name = label :=
                ⟨field, List.mem_of_find?_eq_some hField, by simpa using List.find?_some hField⟩
              refine hNot ⟨hRest.cons hHere fun init hInit => (hOthers init hInit).1, ?_⟩
              rw [List.forall_mem_cons]
              exact ⟨hSeen, fun init hInit => (hOthers init hInit).2⟩
            obtain ⟨place, detail, hRest⟩ := ih hStill
            refine ⟨place, detail, fun slots => ?_⟩
            simp only [checkInits.unique, hField, hSeen]
            exact hRest slots

/-- Initializers are refused if they are not for every field once.  What is reported as missing is a
field of initializers that have nothing else wrong. -/
theorem checkInits_refuses (context : Context) (pos : Position) (name : String)
    (hSound : Sound record)
    (hNot : ¬(inits.map FieldInit.name).Perm (record.fields.map Field.name)) :
    ∃ place kind detail, (Assigns record inits → kind = .missingField) ∧
      (¬Assigns record inits → kind = .unknownField) ∧
      ∀ slots, checkInits context pos record name inits slots =
        .error (context.report place kind detail).failure := by
  by_cases hAssigns : Assigns record inits
  · cases hFind : record.fields.find? fun field =>
      !(inits.any fun init => init.name == field.name) with
    | some field =>
        refine ⟨pos, .missingField, s!"field {field.name} of {name} not initialized", fun _ => rfl,
          fun hOther => absurd hAssigns hOther, fun slots => ?_⟩
        rw [checkInits, gen_bind, unique_of_assigns hAssigns (by simp)]
        simp only [hFind]
        rfl
    | none =>
        refine absurd ((List.perm_ext_iff_of_nodup hAssigns.names hSound.names).2 fun label => ?_)
          hNot
        constructor
        · intro hLabel
          obtain ⟨init, hInit, rfl⟩ := List.mem_map.1 hLabel
          exact List.mem_map.2 (hAssigns.fields init hInit)
        · intro hLabel
          obtain ⟨field, hField, rfl⟩ := List.mem_map.1 hLabel
          have hAny := List.find?_eq_none.1 hFind field hField
          simpa using hAny
  · obtain ⟨place, detail, hUnique⟩ := @unique_refuses context record name inits []
      fun hBoth => hAssigns hBoth.1
    refine ⟨place, .unknownField, detail, fun hOther => absurd hOther hAssigns, fun _ => rfl,
      fun slots => ?_⟩
    rw [checkInits, gen_bind, hUnique slots]
    rfl

end RecordWasm.Lowering
