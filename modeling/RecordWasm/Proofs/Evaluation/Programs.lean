import RecordWasm.Proofs.Compile.Indices
import RecordWasm.Proofs.Evaluation.Bodies

/-!
# Compiled programs compute what they mean

A call of a compiled function ends as the evaluator says, and does not end if the evaluator does
not.  Calls nest, so this is an induction over fuel: with one unit more, the functions that are
called are known to answer as the evaluator does.
-/

namespace RecordWasm.Evaluation

open Syntax Machine Wasm Lowering Assembly Compile

/-- The spot at the start of a free function. -/
def entrySpot (env : Env) (decl : FuncDecl) : Spot where
  context := entryPoint env decl
  labels := (paramScope 0 decl.params).map fun entry => some entry.1
  before := ⟨decl.params.length, []⟩

section Entry

variable {first : Nat} {params : List Param}

theorem index_paramScope {entry : String × Slot} (hEntry : entry ∈ paramScope first params)
    (hFew : first + params.length < 2 ^ 32) :
    first ≤ entry.2.index.toNat ∧ entry.2.index.toNat < first + params.length ∧
      ∃ param ∈ params, entry.2.type = param.type := by
  obtain ⟨place, param, hPlace, rfl⟩ := mem_paramScope hEntry
  have hBound := (List.getElem?_eq_some_iff.1 hPlace).1
  have hIndex : (first + place).toUInt32.toNat = first + place := toNat_toUInt32 (by omega)
  exact ⟨by simp only [hIndex]; omega, by simp only [hIndex]; omega, param,
    List.mem_of_getElem? hPlace, rfl⟩

theorem nodup_paramScope (hFew : first + params.length < 2 ^ 32) :
    ((paramScope first params).map fun entry => entry.2.index.toNat).Nodup := by
  induction params generalizing first with
  | nil => exact List.nodup_nil
  | cons param rest ih =>
      rw [List.length_cons] at hFew
      rw [paramScope]
      split
      · rw [List.append_nil]
        exact ih (by omega)
      · rw [List.map_append, List.nodup_append]
        refine ⟨ih (by omega), by simp, ?_⟩
        intro index hIndex other hOther
        obtain ⟨entry, hEntry, rfl⟩ := List.mem_map.1 hIndex
        have hLater := (index_paramScope hEntry (by omega)).1
        have hFirst : first.toUInt32.toNat = first := toNat_toUInt32 (by omega)
        simp only [List.map_cons, List.map_nil, List.mem_singleton, hFirst] at hOther
        omega

/-- The words that a function is called with are in the locals of its parameters. -/
theorem holds_paramScope {words : List Word} {locals : List Value}
    (hKinds : params.map (fun param => numType? param.type) = words.map fun word => some word.kind)
    (hLocals : ∀ (place : Nat) (word : Word), words[place]? = some word →
      locals[first + place]? = some word.value)
    (hFew : first + params.length < 2 ^ 32) :
    List.Forall₂ (fun entry var => var.1 = some entry.1 ∧ Holds locals entry.2 var.2)
      (paramScope first params) (entryScope params words) := by
  induction params generalizing first words with
  | nil => exact .nil
  | cons param rest ih =>
      cases words with
      | nil => cases hKinds
      | cons word others =>
          obtain ⟨hKind, hRest⟩ := List.cons.inj hKinds
          rw [List.length_cons] at hFew
          rw [paramScope, entryScope]
          refine List.rel_append (ih hRest (fun place other hOther => ?_) (by omega)) ?_
          · rw [Nat.add_right_comm]
            exact hLocals (place + 1) other hOther
          · by_cases hName : param.name = ""
            · simp [hName]
            · have hFirst : first.toUInt32.toNat = first := toNat_toUInt32 (by omega)
              simp only [if_neg hName]
              exact .cons
                ⟨rfl, hKind, by simpa only [hFirst, Nat.add_zero] using hLocals 0 word rfl⟩ .nil

variable {env : Env} {decl : FuncDecl}

theorem scope_entryPoint (hFree : decl.receiver = "") :
    (entryPoint env decl).scope = paramScope 0 decl.params := by
  simp [entryPoint, Lowering.entryScope, FuncDecl.isMethod, hFree]

theorem sound_entrySpot (hFree : decl.receiver = "")
    (hTypes : ∀ param ∈ decl.params, param.type.isVoid = false)
    (hFew : decl.params.length < 2 ^ 32) : (entrySpot env decl).Sound [] where
  covers := by
    rw [entrySpot, scope_entryPoint hFree, List.forall₂_map_right_iff, List.forall₂_same]
    exact fun _ _ => .inl rfl
  distinct := by
    rw [entrySpot, scope_entryPoint hFree]
    exact nodup_paramScope (by omega)
  bounded := by
    intro entry hEntry
    rw [entrySpot, scope_entryPoint hFree] at hEntry
    have hIndex := (index_paramScope hEntry (by omega)).2.1
    simp only [entrySpot, Slots.size, List.length_nil]
    omega
  typed := by
    intro entry hEntry
    rw [entrySpot, scope_entryPoint hFree] at hEntry
    obtain ⟨param, hParam, hType⟩ := (index_paramScope hEntry (by omega)).2.2
    rw [hType]
    exact hTypes param hParam
  targets := nofun
  free := hFree

theorem matches_entrySpot {words : List Word} {zeros : List Value} (hFree : decl.receiver = "")
    (hKinds : (decl.params.map Param.type).map numType? = words.map fun word => some word.kind)
    (hFew : decl.params.length < 2 ^ 32) :
    (entrySpot env decl).Matches (words.map Word.value ++ zeros)
      (entryScope decl.params words) := by
  have hPaired := @holds_paramScope 0 decl.params words (words.map Word.value ++ zeros)
    (by rw [← hKinds, List.map_map]; rfl)
    (fun place word hWord => by
      have hBound := (List.getElem?_eq_some_iff.1 hWord).1
      rw [Nat.zero_add, List.getElem?_append_left (by simpa using hBound), List.getElem?_map, hWord]
      rfl) (by omega)
  refine ⟨?_, ?_⟩
  · have hLabels : List.Forall₂ Eq ((entryScope decl.params words).map Prod.fst)
        ((paramScope 0 decl.params).map fun entry => some entry.1) := by
      rw [List.forall₂_map_left_iff, List.forall₂_map_right_iff]
      exact (hPaired.imp fun _ _ hBoth => hBoth.1).flip
    rwa [List.forall₂_eq_eq_eq] at hLabels
  · rw [entrySpot, scope_entryPoint hFree]
    exact hPaired.imp fun _ _ hBoth => hBoth.2

end Entry

/-- The body of a function ends as the evaluator answers. -/
inductive Returned (store : Store) (result : Ty) : Answer → Machine.Outcome → Prop where
  | next {word : Option Word} {values after : List Value} : Leaves result word values →
      Returned store result (.value word) (.next ⟨store, after, values⟩)
  | ret {word : Option Word} {values after stack : List Value} : Leaves result word values →
      Returned store result (.value word) (.ret ⟨store, after, values ++ stack⟩)
  | trap {cause : Trap} : Returned store result (.trap cause) (.trap cause store)
  | exhausted : Returned store result .exhausted .exhausted

section Calls

variable {store : Store} {result : Ty} {answer : Answer} {outcome : Machine.Outcome}

/-- Functions without a result do not answer with a value. -/
theorem leaves_none {word : Option Word} {values : List Value} (hLeaves : Leaves result word values)
    (hVoid : result.isVoid = true) : Leaves result none values := by
  rw [Leaves, (isVoid_iff result).1 hVoid] at hLeaves ⊢
  exact hLeaves

theorem Leaves.eq_some {value : Option Word} {values : List Value}
    (hLeaves : Leaves result value values) (hSome : result.isVoid = false) :
    ∃ word, value = some word := by
  rw [Leaves] at hLeaves
  cases hKind : numType? result with
  | none => rw [(isVoid_iff result).2 hKind] at hSome; cases hSome
  | some kind =>
      rw [hKind] at hLeaves
      obtain ⟨word, hWord, -⟩ := hLeaves
      exact ⟨word, hWord⟩

theorem returned_of_follows {spot behind : Spot} {locals : List Value}
    {ending : Ending (Option Word)} (hResult : spot.context.result = result)
    (hLoop : spot.context.loop = none)
    (hFollows : Follows store (.falling store spot behind (Leaves result) locals []) ending
      outcome) :
    Returned store result (ending.answer result) outcome := by
  cases hFollows with
  | @next value vars after _ hReaches =>
      obtain ⟨values, hLeaves, rfl⟩ := hReaches
      rw [List.append_nil]
      by_cases hVoid : result.isVoid = true
      · simp only [Ending.answer, if_pos hVoid]
        exact .next (leaves_none hLeaves hVoid)
      · obtain ⟨word, rfl⟩ := hLeaves.eq_some (by simpa using hVoid)
        simp only [Ending.answer, if_neg hVoid]
        exact .next hLeaves
  | exit hExits =>
      cases hExits with
      | leave hSome | again hSome =>
          have hNone : some _ = none := hSome.symm.trans hLoop
          cases hNone
      | ret hLeaves =>
          have hLeft : Leaves result _ _ := hResult ▸ hLeaves
          by_cases hVoid : result.isVoid = true
          · simp only [Ending.answer, if_pos hVoid]
            exact .ret (leaves_none hLeft hVoid)
          · simp only [Ending.answer, if_neg hVoid]
            exact .ret hLeft
      | trap => exact .trap
      | exhausted => exact .exhausted

/-- A call passes on how the body ends. -/
theorem Returned.answered {type : FuncType} {values locals stack : List Value}
    (hReturned : Returned store result answer outcome)
    (hResults : type.results.length = (blockArity result).leaves)
    (hParams : values.length = type.params.length) :
    Answered store result locals stack answer
      (State.behindCall ⟨store, locals, values ++ stack⟩ type outcome) := by
  have hBelow : (values ++ stack).drop type.params.length = stack := hParams ▸ List.drop_left
  cases hReturned with
  | next hLeaves =>
      rw [State.behindCall, hBelow, hResults, ← leaves_length hLeaves, List.take_length]
      exact .value hLeaves
  | ret hLeaves =>
      rw [State.behindCall, hBelow, hResults, ← leaves_length hLeaves, List.take_left]
      exact .value hLeaves
  | trap => exact .trap
  | exhausted => exact .exhausted

end Calls

/-- A free function stands in the table of functions with the code that it is compiled to. -/
structure Stands (functions : Array Machine.Function) (env : Env) (decl : FuncDecl)
    (index : UInt32) :
    Prop where
  free : decl.receiver = ""
  params : ∀ param ∈ decl.params, param.type.isVoid = false
  coded : ∃ types steps code after,
    functions[index.toNat]? = some (.coded (signature (paramTypes decl) decl.result)
      (after.locals.map NumType.valType) steps) ∧
    Step.ofInstrs? types (code ++ [.close]) = some steps ∧
    Body (entryPoint env decl) decl.body ⟨decl.params.length, []⟩ code after ∧
    decl.params.length + code.length < 2 ^ 32

/-- The functions of a program can be told apart, stand where names are looked up, and carry
types. -/
structure Understood (program : Program) (env : Env) (functions : Array Machine.Function) :
    Prop where
  names : (program.functions.map FuncDecl.name).Nodup
  stands : ∀ decl ∈ program.functions, ∀ ref, env.function? decl.name = some ref →
    ref = .ofDecl decl ref.index ∧ Stands functions env decl ref.index
  carries : ∀ decl ∈ program.functions, declCarries program env decl = true

section Functions

variable {program : Program} {env : Env} {functions : Array Machine.Function} {store : Store}
variable {decl : FuncDecl} {index : UInt32} {fuel : Nat} {words : List Word}

theorem paramTypes_free (hFree : decl.receiver = "") :
    paramTypes decl = decl.params.map Param.type := by
  simp [paramTypes, FuncDecl.isMethod, hFree]

theorem Stands.types (hStands : Stands functions env decl index) :
    ∀ type ∈ paramTypes decl, type.isVoid = false := by
  rw [paramTypes_free hStands.free]
  intro type hType
  obtain ⟨param, hParam, rfl⟩ := List.mem_map.1 hType
  exact hStands.params param hParam

/-- As many values are passed as the signature of a function asks for. -/
theorem Stands.length_passed (hStands : Stands functions env decl index) {values : List Value}
    (hPassed : Passed (paramTypes decl) words values) :
    values.length = (signature (paramTypes decl) decl.result).params.length := by
  rw [Validation.params_signature, Validation.length_flatMap_reprs hStands.types, hPassed.2,
    List.length_reverse, List.length_map]
  simpa using (congrArg List.length hPassed.1).symm

/-- The locals that are not parameters are there from the start. -/
theorem roomy_entry {after : Slots} {values : List Value} {count : Nat}
    (hGrows : Slots.Grows ⟨values.length, []⟩ after count) (hFew : values.length + count < 2 ^ 32) :
    Roomy after (values ++ (after.locals.map NumType.valType).map fun type =>
      .zero (kept type)) := by
  have hParams : after.params = values.length := hGrows.params
  have hLength := hGrows.length
  have hZeros : ((after.locals.map NumType.valType).map fun type => Value.zero (kept type)).map
      Value.type = after.locals := by
    rw [List.map_map, List.map_map]
    refine (List.map_congr_left fun kind _ => ?_).trans (List.map_id _)
    cases kind <;> rfl
  have hTail :
      ((values ++ (after.locals.map NumType.valType).map fun type => Value.zero (kept type)).map
      Value.type).drop after.params = after.locals := by
    rw [List.map_append, hParams, hZeros, List.drop_left' (by simp)]
  simp only [List.length_nil, Nat.zero_add] at hLength
  exact ⟨by simp [hParams], ⟨[], (List.append_nil _).trans hTail.symm⟩, by simp; omega⟩

/-- The evaluator finds the function of a name. -/
theorem Understood.find (hUnderstood : Understood program env functions)
    (hDecl : decl ∈ program.functions) :
    program.functions.find? (fun other => other.name == decl.name) = some decl := by
  have hSome : (program.functions.find? fun other => other.name == decl.name).isSome = true :=
    List.find?_isSome.2 ⟨decl, hDecl, beq_self_eq_true decl.name⟩
  obtain ⟨found, hFound⟩ := Option.isSome_iff_exists.1 hSome
  have hName : found.name = decl.name := by simpa using List.find?_some hFound
  rw [hFound, List.inj_on_of_nodup_map hUnderstood.names (List.mem_of_find?_eq_some hFound)
    hDecl hName]

theorem Understood.run_succ (hUnderstood : Understood program env functions)
    (hDecl : decl ∈ program.functions) (fuel : Nat) (words : List Word) :
    run program (fuel + 1) decl.name words = (evalBody (run program fuel) (fuel + 1)
      (entryScope decl.params words) decl.body).answer decl.result := by
  rw [run, hUnderstood.find hDecl]

/-- A function without a result never answers with a value. -/
theorem Understood.run_void (hUnderstood : Understood program env functions)
    (hDecl : decl ∈ program.functions) (hVoid : decl.result.isVoid = true) (fuel : Nat)
    (words : List Word) (word : Word) : run program fuel decl.name words ≠ .value (some word) := by
  cases fuel with
  | zero => exact nofun
  | succ fuel =>
      rw [hUnderstood.run_succ hDecl]
      cases evalBody (run program fuel) (fuel + 1) (entryScope decl.params words) decl.body <;>
        simp [Ending.answer, hVoid]

theorem Understood.starts (hUnderstood : Understood program env functions)
    (hFree : decl.receiver = "") (hTypes : ∀ param ∈ decl.params, param.type.isVoid = false)
    (hFew : decl.params.length < 2 ^ 32) (fuel : Nat) :
    Starts (run program fuel) (program.functions.map FuncDecl.name) (entryPoint env decl) where
  typed := (@sound_entrySpot env decl hFree hTypes hFew).typed
  void := by
    intro name hName ref hRef hVoid words word
    obtain ⟨other, hOther, rfl⟩ := List.mem_map.1 hName
    obtain ⟨hSame, -⟩ := hUnderstood.stands other hOther ref hRef
    rw [hSame] at hVoid
    exact hUnderstood.run_void hOther hVoid fuel words word

/-- Functions answer calls as the evaluator does, with so much fuel. -/
def Agree (program : Program) (env : Env) (functions : Array Machine.Function) (store : Store)
    (fuel : Nat) : Prop :=
  ∀ decl ∈ program.functions, ∀ ref, env.function? decl.name = some ref → ∀ types,
    Setting.Answers ⟨functions, types, store, fuel + 1⟩ ref (run program fuel decl.name)

/-- A function answers as its body does. -/
theorem answers_of_body {types : List FuncType} {steps : List Step} {after : Slots}
    (hStands : Stands functions env decl index)
    (hFunction : functions[index.toNat]? = some (.coded (signature (paramTypes decl) decl.result)
      (after.locals.map NumType.valType) steps))
    (hBody : ∀ words, Passed (paramTypes decl) words (words.map Word.value).reverse →
      ∃ outcome, Leads functions fuel steps ⟨store, words.map Word.value ++
          (after.locals.map NumType.valType).map fun type => .zero (kept type), []⟩ outcome ∧
        Returned store decl.result (run program fuel decl.name words) outcome) :
    Setting.Answers ⟨functions, types, store, fuel + 1⟩ (.ofDecl decl index)
      (run program fuel decl.name) where
  params := hStands.types
  leads := by
    intro words values locals stack hPassed
    have hValues : values = (words.map Word.value).reverse := hPassed.2
    have hLength := hStands.length_passed hPassed
    obtain ⟨outcome, hLeads, hReturned⟩ := hBody words (hValues ▸ hPassed)
    have hEntry :
        State.call ⟨store, locals, values ++ stack⟩ (signature (paramTypes decl) decl.result)
        (after.locals.map NumType.valType) = ⟨store, words.map Word.value ++
          (after.locals.map NumType.valType).map fun type => .zero (kept type), []⟩ := by
      have hTaken : (values ++ stack).take (signature (paramTypes decl) decl.result).params.length =
          values := hLength ▸ List.take_left
      rw [State.call, hTaken, hValues, List.reverse_reverse]
    refine ⟨_, Leads.call ⟨store, locals, values ++ stack⟩ hFunction (hEntry ▸ hLeads),
      hReturned.answered ?_ hLength⟩
    rw [signature, blockArity, List.length_map]

/-- With one unit of fuel more, functions still answer as the evaluator does. -/
theorem Agree.step (hUnderstood : Understood program env functions)
    (hAgree : Agree program env functions store fuel) :
    Agree program env functions store (fuel + 1) := by
  intro decl hDecl ref hRef others
  obtain ⟨hSame, hStands⟩ := hUnderstood.stands decl hDecl ref hRef
  rw [hSame]
  obtain ⟨types, steps, code, after, hFunction, hRead, hBody, hFew⟩ := hStands.coded
  have hCarries := hUnderstood.carries decl hDecl
  simp only [declCarries, Bool.and_eq_true] at hCarries
  have hSound := @sound_entrySpot env decl hStands.free hStands.params (by omega)
  have hKnows : Setting.Knows ⟨functions, types, store, fuel + 1⟩ (run program fuel)
      (program.functions.map FuncDecl.name) env := by
    intro name hName ref hRef
    obtain ⟨other, hOther, rfl⟩ := List.mem_map.1 hName
    exact hAgree other hOther ref hRef types
  obtain ⟨eval, ⟨found, hReads, hRun⟩, hAnswer⟩ := body_works hBody hSound
    ⟨⟨rfl, rfl, fun _ => rfl⟩, rfl, hKnows⟩
    (hUnderstood.starts hStands.free hStands.params (by omega) fuel)
    ⟨by simp only [entryPoint]; omega, by simp only [Slots.size, List.length_nil]; omega⟩ hCarries.2
  obtain rfl := Option.some.inj (hReads.ofInstrs?.symm.trans hRead)
  refine answers_of_body hStands hFunction fun words hPassed => ?_
  have hKinds := hPassed.1
  rw [paramTypes_free hStands.free] at hKinds
  have hCount : (words.map Word.value).length = decl.params.length := by
    simpa using (congrArg List.length hKinds).symm
  have hRoomy := roomy_entry (hCount ▸ hBody.grows) (hCount ▸ hFew)
  obtain ⟨outcome, hLeads, hFollows⟩ := hRun _ _ []
    (matches_entrySpot hStands.free hKinds (by omega)) hRoomy
  have hReturned := returned_of_follows rfl rfl hFollows
  rw [hAnswer] at hReturned
  rw [hUnderstood.run_succ hDecl]
  exact ⟨outcome, hLeads, hReturned⟩

theorem agree (hUnderstood : Understood program env functions) (store : Store) (fuel : Nat) :
    Agree program env functions store fuel := by
  induction fuel with
  | succ fuel ih => exact ih.step hUnderstood
  | zero =>
      intro decl hDecl ref hRef others
      obtain ⟨hSame, hStands⟩ := hUnderstood.stands decl hDecl ref hRef
      rw [hSame]
      obtain ⟨types, steps, code, after, hFunction, -⟩ := hStands.coded
      exact answers_of_body hStands hFunction fun words _ => ⟨.exhausted, rfl, .exhausted⟩

end Functions

/-! ## Compiled programs -/

section Compiled

variable {program : Program} {assembled : Assembled} {functions : Array Machine.Function}
variable {decl : FuncDecl} {binary : List UInt8}

/-- There are no methods in a program without records. -/
theorem free_of_lower {env : Env} {body : FunctionBody} (hLower : lowerFunction env decl = .ok body)
    (hNone : env.registry.layouts = []) : decl.receiver = "" := by
  simp only [lowerFunction, bind_ok] at hLower
  obtain ⟨entry, hEntry, -⟩ := hLower
  by_contra hMethod
  have hUnknown : env.registry.contains decl.receiver = false := by
    rw [Layout.Registry.contains, Layout.Registry.get?, hNone]
    rfl
  simp [entryContext, FuncDecl.isMethod, hMethod, hUnknown] at hEntry

theorem functions_nodup (hOrdered : assembled.Ordered program) :
    (program.functions.map FuncDecl.name).Nodup := by
  have hNames := (List.nodup_append.1 hOrdered.fits.names).1
  rw [← hOrdered.names_origins, originsOf, List.append_assoc, List.map_append,
    List.map_map] at hNames
  exact (List.nodup_append.1 hNames).1

/-- The name of a free function stands for the function. -/
theorem ref_of_function (hOrdered : assembled.Ordered program) (hDecl : decl ∈ program.functions)
    {ref : FuncRef} (hRef : assembled.env.function? decl.name = some ref) :
    ref = .ofDecl decl ref.index ∧ ⟨.function decl, decl.name, ref.index⟩ ∈ assembled.declared := by
  have hName : ref.name = decl.name := by simpa using List.find?_some hRef
  rcases hOrdered.fits.referred.funcs ref (List.mem_of_find?_eq_some hRef) with hImport |
    ⟨other, hOther, hSame, hItem⟩
  · have hOrigin : Origin.function decl ∈ originsOf program := by simp [originsOf, hDecl]
    have hNone := hOrdered.importPlace?_origin hOrigin
    obtain ⟨place, found, hFound, rfl⟩ := Validation.mem_importRefs (List.mem_reverse.1 hImport)
    rw [Origin.key, importPlace?, List.findIdx?_eq_none_iff] at hNone
    have hDiffer := hNone found (List.mem_of_getElem? hFound)
    simp only [FuncRef.ofImport] at hName
    simp [hName] at hDiffer
  · have hOtherName : other.name = decl.name := by rw [← hName, hSame]; rfl
    obtain rfl := List.inj_on_of_nodup_map (functions_nodup hOrdered) hOther hDecl hOtherName
    exact ⟨hSame, hItem⟩

theorem understood_of_compiled (hOrdered : assembled.Ordered program)
    (hBuild : assembled.builder.build = .ok binary) (hSmall : binary.length < 2 ^ 32)
    (hRecords : program.records = [])
    (hCarries : ∀ decl ∈ program.functions, declCarries program assembled.env decl = true)
    (hLinked : assembled.builder.Linked functions) :
    Understood program assembled.env functions where
  names := functions_nodup hOrdered
  carries := hCarries
  stands := by
    intro decl hDecl ref hRef
    obtain ⟨hSame, hItem⟩ := ref_of_function hOrdered hDecl hRef
    refine ⟨hSame, ?_⟩
    have hFits := hOrdered.fits
    have hNone : assembled.env.registry.layouts = [] := by
      have hCompute := hFits.registry
      rw [hRecords] at hCompute
      rw [← Except.ok.inj hCompute]
    obtain ⟨body, place, hCompile, hFunction, hIndex⟩ := hFits.placed hItem
    obtain ⟨types, steps, hRead, hCoded⟩ := hLinked place _ _ hFunction rfl
    rw [← hIndex] at hCoded
    have hFree := free_of_lower hCompile hNone
    obtain ⟨code, after, hType, hLocals, hInstrs, hBody, hTypes⟩ := lowerFunction_derives hCompile
    obtain ⟨-, -, -, -, hLength⟩ := Builder.build_length hBuild
    obtain ⟨_, hFound, hShort⟩ := hLength _ (List.mem_of_getElem? hFunction)
    cases hFound
    have hParams := paramTypes_free hFree
    have hCount : (paramTypes decl).length = decl.params.length := by rw [hParams, List.length_map]
    refine ⟨hFree, fun param hParam => hTypes _ (hParams ▸ List.mem_map_of_mem hParam),
      types, steps, code, after, ?_, hInstrs ▸ hRead, hCount ▸ hBody, ?_⟩
    · rw [hCoded, ← hType, ← hLocals]
      rfl
    · have hSignature : (bodied ⟨.function decl, decl.name, ref.index⟩ body).type.params.length =
          decl.params.length := by
        rw [bodied, hType, Validation.params_signature,
          Validation.length_flatMap_reprs hTypes, hCount]
      rw [hSignature, hInstrs, List.length_append] at hShort
      omega

/-- How a call ends in the machine that is answered so. -/
def Answer.outcome (store : Store) : Answer → Machine.Outcome
  | value word => .next ⟨store, [], (word.map Word.value).toList⟩
  | trap cause => .trap cause store
  | exhausted => .exhausted

/-- A run comes to an end with some fuel, or to none whatever the fuel. -/
def Comes {α : Type} (run : Nat → α) (never ending : α) : Prop :=
  (ending ≠ never ∧ ∃ fuel, run fuel = ending) ∨ (ending = never ∧ ∀ fuel, run fuel = never)

theorem Answer.outcome_injective (store : Store) : Function.Injective (Answer.outcome store) := by
  intro left right hSame
  cases left with
  | value word =>
      cases right with
      | value other =>
          simp only [outcome, Machine.Outcome.next.injEq, State.mk.injEq, true_and] at hSame
          have hWords := congrArg List.head? hSame
          rw [Option.head?_toList, Option.head?_toList] at hWords
          rw [Option.map_injective Word.value_injective hWords]
      | trap | exhausted => cases hSame
  | trap cause =>
      cases right with
      | trap other => rw [(Machine.Outcome.trap.inj hSame).1]
      | value | exhausted => cases hSame
  | exhausted =>
      cases right with
      | exhausted => rfl
      | value | trap => cases hSame

/-- What a call leaves is the answer of the evaluator. -/
theorem Answered.eq_outcome {store : Store} {result : Ty} {answer : Answer}
    {outcome : Machine.Outcome} (hAnswered : Answered store result [] [] answer outcome)
    (hVoid : result.isVoid = true → ∀ word, answer ≠ .value (some word)) :
    outcome = answer.outcome store := by
  cases hAnswered with
  | trap | exhausted => rfl
  | @value word values hLeaves =>
      rw [List.append_nil, Answer.outcome]
      rw [Leaves] at hLeaves
      cases hKind : numType? result with
      | some kind =>
          rw [hKind] at hLeaves
          obtain ⟨word, rfl, -, rfl⟩ := hLeaves
          rfl
      | none =>
          rw [hKind] at hLeaves
          cases word with
          | none => rw [hLeaves]; rfl
          | some word => exact absurd rfl (hVoid ((isVoid_iff result).2 hKind) word)

/-- Runs that lead where an evaluation says come to what the evaluation comes to. -/
theorem comes_iff {steps : List Step} {state : State} {store : Store} {eval : Nat → Answer}
    (hLeads : ∀ fuel, Leads functions (fuel + 1) steps state ((eval fuel).outcome store))
    (answer : Answer) :
    Comes (exec functions · steps state) .exhausted (answer.outcome store) ↔
      Comes eval .exhausted answer := by
  have hInj := Answer.outcome_injective store
  have hNever {answer : Answer} : answer.outcome store = .exhausted ↔ answer = .exhausted :=
    ⟨fun hSame => hInj hSame, fun hSame => hSame ▸ rfl⟩
  constructor
  · rintro (⟨hEnd, fuel, hRun⟩ | ⟨hOut, hAll⟩)
    · -- With the fuel that the machine needs, the evaluator comes to an end as well.
      refine .inl ⟨mt hNever.2 hEnd, fuel, hInj ?_⟩
      rcases ((hLeads fuel).less (Nat.le_succ fuel)).exec_eq_or with hSame | hOut
      · exact hSame.symm.trans hRun
      · exact absurd (hRun.symm.trans hOut) hEnd
    · refine .inr ⟨hNever.1 hOut, fun fuel => ?_⟩
      by_contra hEnd
      obtain ⟨enough, hRun⟩ := (hLeads fuel).exists_exec (mt hNever.1 hEnd)
      exact mt hNever.1 hEnd (hRun.symm.trans (hAll enough))
  · rintro (⟨hEnd, fuel, rfl⟩ | ⟨rfl, hAll⟩)
    · exact .inl ⟨mt hNever.1 hEnd, (hLeads fuel).exists_exec (mt hNever.1 hEnd)⟩
    · refine .inr ⟨rfl, fun fuel => exec_exhausted (Nat.le_succ fuel) ?_⟩
      have hOut := hLeads fuel
      rwa [hAll fuel] at hOut

/-- If a program over words is compiled, a call of any of its functions ends in the machine exactly
if it does in the evaluator, and then with the same word or the same trap. -/
theorem calls_like_evaluator {config : CompileConfig} {cancelled : Bool} {compiled : Compiled}
    (hCompile : Compile.program config cancelled program = .ok compiled)
    (hAssemble : assemble config cancelled program = .ok assembled)
    (hSmall : compiled.binary.length < 2 ^ 32) (hRecords : program.records = [])
    (hCarries : ∀ decl ∈ program.functions, declCarries program assembled.env decl = true)
    (hLinked : assembled.builder.Linked functions) (hDecl : decl ∈ program.functions) :
    ∃ index, ⟨decl.name, .function, index⟩ ∈ assembled.builder.exports ∧
      ∀ (store : Store) (words : List Word),
        decl.params.map (fun param => numType? param.type) =
          words.map (fun word => some word.kind) →
        ∀ answer, Comes (fun fuel => exec functions fuel [.call index.toNat]
            ⟨store, [], (words.map Word.value).reverse⟩) .exhausted (answer.outcome store) ↔
          Comes (fun fuel => run program fuel decl.name words) .exhausted answer := by
  obtain ⟨hBuild, -⟩ := program_ok hCompile hAssemble
  obtain ⟨-, -, -, hFew, -⟩ := Builder.build_length hBuild
  have hOrdered := assemble_ordered hAssemble (assemble_fits hAssemble (by omega))
  have hUnderstood := understood_of_compiled hOrdered hBuild hSmall hRecords hCarries hLinked
  have hOrigin : Origin.function decl ∈ originsOf program := by simp [originsOf, hDecl]
  obtain ⟨ref, hRef⟩ := Option.isSome_iff_exists.1 (hOrdered.known _ hOrigin)
  obtain ⟨hSame, hItem⟩ := ref_of_function hOrdered hDecl hRef
  refine ⟨ref.index, ?_, fun store words hKinds answer => comes_iff (fun fuel => ?_) answer⟩
  · obtain ⟨front, hExports⟩ := hOrdered.fits.exports
    rw [hExports]
    exact List.mem_append_right _ (List.mem_map_of_mem hItem)
  · obtain ⟨-, hStands⟩ := hUnderstood.stands decl hDecl ref hRef
    have hPassed : Passed ref.params words (words.map Word.value).reverse := by
      refine ⟨?_, rfl⟩
      rw [hSame, FuncRef.ofDecl, paramTypes_free hStands.free, List.map_map, ← hKinds]
      rfl
    obtain ⟨outcome, hLeads, hAnswered⟩ :=
      (agree hUnderstood store fuel decl hDecl ref hRef []).leads words _ [] [] hPassed
    rw [List.append_nil] at hLeads
    rwa [hAnswered.eq_outcome fun hVoid => ?_] at hLeads
    rw [hSame] at hVoid
    exact hUnderstood.run_void hDecl hVoid fuel words

end Compiled

/-- A program with a loop that is left from inside an expression, a match and calls.  One function
adds up what the other makes of the numbers below a limit, the other divides. -/
def sums : Program where
  functions := [
    { name := "part"
      params := [⟨{}, "number", .i32⟩]
      result := .i32
      body := [.eval {} (.cases { type := .i32 } (.ident { type := .i32 } "number") [
        .mk {} (.literal {} (.int { type := .i32 } 0)) (.int { type := .i32 } 100),
        .mk {} (.bind {} "other") (.binary { type := .i32 } "/" (.int { type := .i32 } 60)
          (.binary { type := .i32 } "-" (.ident { type := .i32 } "other")
            (.int { type := .i32 } 5)))])] },
    { name := "total"
      params := [⟨{}, "limit", .i32⟩]
      result := .i32
      body := [
        .declare {} "sum" .i32 (.int { type := .i32 } 0),
        .forRange {} "turn" (.int { type := .i32 } 0) (.ident { type := .i32 } "limit") [
          .assign {} (.ident { type := .i32 } "sum") (.binary { type := .i32 } "+"
            (.ident { type := .i32 } "sum")
            (.branch { type := .i32 }
              (.binary { type := .bool } "==" (.ident { type := .i32 } "turn")
                (.int { type := .i32 } 3))
              (.block { type := .i32 } [.leave {}] .missing)
              (.call { type := .i32 } "part" [.ident { type := .i32 } "turn"])))],
        .eval {} (.ident { type := .i32 } "sum")] }]

/-- The loop is left at three, and the division by zero traps. -/
theorem calls_like_evaluator_sums :
    ∃ (compiled : Compiled) (assembled : Assembled) (part total : UInt32),
      Compile.program {} false sums = .ok compiled ∧ assemble {} false sums = .ok assembled ∧
      ⟨"part", .function, part⟩ ∈ assembled.builder.exports ∧
      ⟨"total", .function, total⟩ ∈ assembled.builder.exports ∧
      ∀ store, (∃ fuel, exec (assembled.builder.instantiate []) fuel [.call total.toNat]
          ⟨store, [], [.i32 10]⟩ = .next ⟨store, [], [.i32 65]⟩) ∧
        ∃ fuel, exec (assembled.builder.instantiate []) fuel [.call part.toNat]
          ⟨store, [], [.i32 5]⟩ = .trap .divideByZero store := by
  obtain ⟨compiled, hCompile, hSmall⟩ := @ok_of_any _ _ (Compile.program {} false sums)
    (fun compiled => compiled.binary.length < 2 ^ 32) (by decide +kernel)
  obtain ⟨assembled, hAssemble, hAssembled⟩ := @ok_of_any _ _ (assemble {} false sums)
    (fun assembled => assembled.builder.imports.isEmpty &&
      (assembled.builder.funcs.all fun function => function.body.all fun body =>
        (Step.ofInstrs? [] body.instrs).isSome) &&
      sums.functions.all (declCarries sums assembled.env)) (by decide +kernel)
  simp only [Bool.and_eq_true, List.all_eq_true, List.isEmpty_iff, Option.all_eq_true] at hAssembled
  obtain ⟨⟨hImports, hRead⟩, hCarries⟩ := hAssembled
  have hLinked : assembled.builder.Linked (assembled.builder.instantiate []) :=
    Builder.linked_instantiate (by rw [hImports]; rfl) hRead
  obtain ⟨part, hPart, hParts⟩ :=
    @calls_like_evaluator _ _ _ sums.functions[0] _ _ _ hCompile hAssemble
      (of_decide_eq_true hSmall) rfl hCarries hLinked (by simp [sums])
  obtain ⟨total, hTotal, hTotals⟩ := @calls_like_evaluator _ _ _ sums.functions[1] _ _ _ hCompile
    hAssemble (of_decide_eq_true hSmall) rfl hCarries hLinked (by simp [sums])
  have hSum : run sums 10 "total" [.i32 10] = .value (some (.i32 65)) := by decide +kernel
  have hTrap : run sums 10 "part" [.i32 5] = .trap .divideByZero := by decide +kernel
  refine ⟨compiled, assembled, part, total, hCompile, hAssemble, hPart, hTotal,
    fun store => ⟨?_, ?_⟩⟩
  · rcases (hTotals store [.i32 10] rfl (.value (some (.i32 65)))).2 (.inl ⟨nofun, 10, hSum⟩) with
      ⟨-, hEnds⟩ | ⟨hNever, -⟩
    · exact hEnds
    · cases hNever
  · rcases (hParts store [.i32 5] rfl (.trap .divideByZero)).2 (.inl ⟨nofun, 10, hTrap⟩) with
      ⟨-, hEnds⟩ | ⟨hNever, -⟩
    · exact hEnds
    · cases hNever

end RecordWasm.Evaluation
