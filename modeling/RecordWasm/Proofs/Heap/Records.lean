import RecordWasm.Proofs.Assembly.Module
import RecordWasm.Proofs.Compile.Stages
import RecordWasm.Proofs.Heap.Constructor
import RecordWasm.Proofs.Heap.Run
import RecordWasm.Proofs.Layout.Inheritance

/-!
# Records keep what is stored in them

A record that a constructor has made holds the arguments of the call, and goes on holding them while
further memory is handed out: the heap only ever hands out bytes above its cursor, and what is
stored is stored in bytes that were just handed out.
-/

namespace RecordWasm.Heap

open Wasm Assembly Machine Layout Lowering Compile Syntax

namespace Pool

/-- What was handed out is untouched: the cursor has not moved back, and no byte below it has
changed. -/
structure Extends (before after : Pool) : Prop where
  cursor : before.cursor.toNat ≤ after.cursor.toNat
  size : before.memory.size ≤ after.memory.size
  same : ∀ target, target < before.cursor.toNat →
    after.memory.byte target = before.memory.byte target

variable {first pool after : Pool} {base : Nat} {size align : UInt32}

theorem Extends.refl (pool : Pool) : pool.Extends pool := ⟨le_rfl, le_rfl, fun _ _ => rfl⟩

theorem Extends.trans (hFirst : first.Extends pool) (hSecond : pool.Extends after) :
    first.Extends after where
  cursor := hFirst.cursor.trans hSecond.cursor
  size := hFirst.size.trans hSecond.size
  same := fun target hTarget => by
    rw [hSecond.same target (hTarget.trans_le hFirst.cursor), hFirst.same target hTarget]

/-- An allocation gives no page back. -/
theorem alloc_size (pool : Pool) (size align : UInt32) :
    pool.memory.size ≤ (pool.alloc size align).2.memory.size := by
  have hGrow (delta : Nat) : pool.memory.pages ≤ (pool.memory.grow delta).2.pages := by
    rw [Memory.grow]
    split <;> simp
  apply Nat.mul_le_mul_right
  rw [alloc]
  split
  · split
    · exact hGrow _
    · exact hGrow _
  · exact le_rfl

theorem alloc_extends (hSound : pool.Sound base) {exponent : Nat}
    (hAlign : align.toNat = 2 ^ exponent)
    (hFits : pool.cursor.toNat + (align.toNat - 1) + size.toNat < 2 ^ 32) :
    pool.Extends (pool.alloc size align).2 := by
  obtain ⟨-, -, hCases⟩ := alloc_cases hSound hAlign hFits
  refine ⟨?_, alloc_size pool size align, fun target _ => ?_⟩
  · have hAbove := le_roundUp pool.cursor.toNat (hAlign ▸ Nat.two_pow_pos exponent)
    rcases hCases with ⟨-, hSame, -⟩ | ⟨-, hMoved⟩
    · rw [hSame]
    · omega
  · rw [Memory.byte, alloc_content, Memory.byte]

/-- Writing above the old cursor keeps what was handed out before. -/
theorem Extends.keeps (hExtends : pool.Extends after) {memory : Memory} {low high : Nat}
    (hLow : pool.cursor.toNat ≤ low) (hInside : pool.cursor.toNat ≤ pool.memory.size)
    (hKeeps : Keeps after.memory memory low high) : pool.Extends { after with memory } where
  cursor := hExtends.cursor
  size := hExtends.size.trans hKeeps.size.ge
  same := fun target hTarget => by
    have hSize := hExtends.size
    rw [← hExtends.same target hTarget]
    exact hKeeps.same target (by omega) (by omega)

theorem Sound.keeps (hSound : pool.Sound base) {memory : Memory} {low high : Nat}
    (hKeeps : Keeps pool.memory memory low high) : Sound base { pool with memory } := by
  obtain ⟨hBase, hCursor, hLimit, hPage, hPages, hRoom, hTop⟩ := hSound
  constructor <;> simp only [hKeeps.size, hKeeps.pages, hKeeps.limit] <;> assumption

end Pool

/-- A record that was handed out stays filled. -/
theorem Filled.extends {before after : Pool} {address : Nat} {fields : List Field}
    {values : List Value} (hFilled : Filled before.memory address fields values)
    (hSuits : Suits fields values) (hExtends : before.Extends after)
    (hBelow : ∀ field ∈ fields, address + field.offset.toNat + field.type.size.toNat ≤
      before.cursor.toNat) : Filled after.memory address fields values := by
  induction hFilled with
  | nil => exact .nil
  | @cons field value rest others hHere _ ih =>
      cases hSuits with
      | cons hType hRest =>
          refine .cons ?_ (ih hRest fun other hOther =>
            hBelow other (List.mem_cons_of_mem _ hOther))
          have hField := hBelow field List.mem_cons_self
          have hSize := storageSize_numType field.type
          rw [← hType] at hSize
          exact hHere.of_same hExtends.size fun target _ hHigh => hExtends.same target (by omega)

/-- The constructor of a record stands at an index of the module. -/
structure Makes (assembled : Assembled) (name : String) (record : Record) (function : UInt32) :
    Prop where
  declared : ⟨.constructor name, constructorName name, function⟩ ∈ assembled.declared
  layout : assembled.env.registry.get? name = some record

/-- No record is larger than the addresses reach. -/
def Bounded (registry : Registry) : Prop :=
  ∀ record ∈ registry.layouts, extent 0 (record.fields.map Field.type) < extentLimit

variable {assembled : Assembled} {program : Program} {functions : Array Machine.Function}
variable {name : String} {record : Record} {function : UInt32}

theorem linked_of_fits (hFits : assembled.Fits program)
    (hLinked : assembled.builder.Linked functions) : assembled.handle.Linked functions := by
  obtain ⟨-, -, hAlloc, hReset⟩ := hFits.handle
  have hImports : assembled.builder.imports.length = program.imports.length := by
    rw [hFits.imports, List.length_map]
  have hPlace (offset : Nat) (hOffset : offset < 2) :
      assembled.builder.funcs[0 + offset]? = assembled.handle.functions[offset]? := by
    have hLength : assembled.handle.functions.length = 2 := rfl
    rw [hFits.funcs, Nat.zero_add, List.getElem?_append_left (by omega)]
  exact linked_of_builder hLinked 0 hPlace (by omega) (by omega)

/-- The function at the index of a constructor is the constructor. -/
theorem Makes.linked (hMakes : Makes assembled name record function)
    (hFits : assembled.Fits program) (hLinked : assembled.builder.Linked functions) :
    ∃ type : FuncType, type.params.length = record.fields.length ∧ type.results.length = 1 ∧
      functions[function.toNat]? =
        some (.coded type [.i32] (constructorSteps assembled.handle record)) := by
  obtain ⟨body, types, steps, hCompile, hRead, hFunction⟩ := hFits.linked hLinked hMakes.declared
  rw [compileJob] at hCompile
  obtain ⟨found, hFound, hType, hLocals, hSteps⟩ := lowerConstructor_ok hCompile
  rw [hMakes.layout] at hFound
  cases hFound
  have hHeap : assembled.env.heap = assembled.handle := hFits.same.heap
  rw [hSteps, hHeap] at hRead
  cases hRead
  refine ⟨body.type, ?_, ?_, by rw [hFunction, hLocals]⟩
  · rw [hType, length_constructorRef hFits.lays hMakes.layout]
  · rw [hType]
    rfl

/-- A call of a constructor returns an address. -/
def Builds (functions : Array Machine.Function) (function : UInt32) (values : List Value)
    (before after : Store) (address : UInt32) : Prop :=
  ∃ fuel, exec functions fuel [.call function.toNat] ⟨before, [], values.reverse⟩ =
    .next ⟨after, [], [.i32 address]⟩

/-- A call of a constructor traps. -/
def Refuses (functions : Array Machine.Function) (function : UInt32) (values : List Value)
    (before after : Store) : Prop :=
  ∃ fuel cause, exec functions fuel [.call function.toNat] ⟨before, [], values.reverse⟩ =
    .trap cause after

/-- The stores that calls of constructors and of `alloc` lead to. -/
inductive Further (functions : Array Machine.Function) (assembled : Assembled) (start : Store) :
    Store → Prop where
  | start : Further functions assembled start start
  | alloc {before after : Store} {size align address : UInt32} :
      Further functions assembled start before →
      Admissible assembled.handle before size align →
      (Event.alloc size align address).Takes functions assembled.handle before after →
      Further functions assembled start after
  | built {name : String} {record : Record} {function address : UInt32} {values : List Value}
      {before after : Store} :
      Further functions assembled start before → Makes assembled name record function →
      Suits record.fields values → Admissible assembled.handle before record.size record.align →
      Builds functions function values before after address →
      Further functions assembled start after
  | refused {name : String} {record : Record} {function : UInt32} {values : List Value}
      {before after : Store} :
      Further functions assembled start before → Makes assembled name record function →
      Suits record.fields values → Admissible assembled.handle before record.size record.align →
      Refuses functions function values before after →
      Further functions assembled start after

/-- What a call of a constructor does to a pool. -/
theorem Makes.call (hMakes : Makes assembled name record function)
    (hFits : assembled.Fits program) (hLinked : assembled.builder.Linked functions)
    (hBounded : Bounded assembled.env.registry) {store : Store} {pool : Pool} {base : Nat}
    {values : List Value} (hHolds : assembled.handle.Holds store pool) (hSound : pool.Sound base)
    (hBase : 0 < base) (hSuits : Suits record.fields values)
    (hAdmissible : Admissible assembled.handle store record.size record.align) :
    (∃ after, Leads functions 0 [.call function.toNat] ⟨store, [], values.reverse⟩
        (.trap .unreachable (assembled.handle.put store after)) ∧
      after.cursor = pool.cursor ∧ after.limit = pool.limit ∧
      after.memory.size = pool.memory.size ∧ after.memory.content = pool.memory.content ∧
      after.Sound base ∧ pool.Extends after) ∨
    (∃ address after, Leads functions 0 [.call function.toNat] ⟨store, [], values.reverse⟩
        (.next ⟨assembled.handle.put store after, [], [.i32 address]⟩) ∧
      Filled after.memory address.toNat record.fields values ∧
      address.toNat + record.size.toNat ≤ after.cursor.toNat ∧
      after.Sound base ∧ pool.Extends after) := by
  obtain ⟨type, hParams, hResults, hFunction⟩ := hMakes.linked hFits hLinked
  have hRecord := hFits.lays.sound_of_get? hMakes.layout
  have hExtent := hBounded record (List.mem_of_find?_eq_some hMakes.layout)
  have hRoom := hAdmissible.2 pool.cursor hHolds.cursor
  obtain ⟨exponent, hPower⟩ := hRecord.align.power
  have hExtends := Pool.alloc_extends hSound hPower hRoom
  have hContent := Pool.alloc_content pool record.size record.align
  obtain ⟨hAfter, -, hCases⟩ := Pool.alloc_cases hSound hPower hRoom
  have hCall := call_constructor 0 (linked_of_fits hFits hLinked) hFunction hParams hResults hHolds
    hSound hRecord hExtent hSuits hRoom [] []
  rw [List.append_nil] at hCall
  generalize pool.alloc record.size record.align = granted at *
  obtain ⟨address, after⟩ := granted
  simp only at *
  have hAbove := le_roundUp pool.cursor.toNat (hPower ▸ Nat.two_pow_pos exponent)
  have hLow := hSound.base_le
  rcases hCall with ⟨rfl, hTrap⟩ | ⟨hSome, memory, hKeeps, hFilled, hNext⟩
  · refine .inl ⟨after, hTrap, ?_⟩
    rcases hCases with ⟨-, hCursor, hLimit, hPages⟩ | ⟨hZero, -⟩
    · exact ⟨hCursor, hLimit, by rw [Memory.size, hPages, Memory.size], hContent, hAfter, hExtends⟩
    · rw [UInt32.toNat_zero] at hZero
      omega
  · rcases hCases with ⟨hZero, -⟩ | ⟨hAddress, hCursor⟩
    · exact absurd hZero hSome
    refine .inr ⟨address, _, hNext, hFilled, ?_, hAfter.keeps hKeeps, ?_⟩
    · simp only
      omega
    · have hHigh := hSound.cursor_le
      have hTop := hSound.limit_le
      exact hExtends.keeps (by omega) (by omega) hKeeps

/-- Further calls keep what was handed out. -/
theorem Further.extends (hFits : assembled.Fits program)
    (hLinked : assembled.builder.Linked functions) (hBounded : Bounded assembled.env.registry)
    {start later : Store} (hFurther : Further functions assembled start later) {pool : Pool}
    {base : Nat} (hHolds : assembled.handle.Holds start pool) (hSound : pool.Sound base)
    (hBase : 0 < base) :
    ∃ now, assembled.handle.Holds later now ∧ now.Sound base ∧ pool.Extends now := by
  induction hFurther with
  | start => exact ⟨pool, hHolds, hSound, .refl pool⟩
  | alloc _ hAdmissible hTakes ih =>
      obtain ⟨now, hNow, hNowSound, hExtends⟩ := ih
      have hPages := hNowSound.pages_le
      obtain ⟨-, rfl⟩ :=
        (takes_alloc_iff (linked_of_fits hFits hLinked) hNow (by omega)).1 hTakes
      obtain ⟨⟨exponent, hAlign⟩, hRoom⟩ := hAdmissible
      have hFitting := hRoom now.cursor hNow.cursor
      exact ⟨_, hNow.put _, (Pool.alloc_cases hNowSound hAlign hFitting).1,
        hExtends.trans (Pool.alloc_extends hNowSound hAlign hFitting)⟩
  | built _ hMakes hSuits hAdmissible hBuilds ih =>
      obtain ⟨now, hNow, hNowSound, hExtends⟩ := ih
      obtain ⟨fuel, hRun⟩ := hBuilds
      rcases hMakes.call hFits hLinked hBounded hNow hNowSound hBase hSuits hAdmissible with
        ⟨after, hTrap, -⟩ | ⟨address, after, hNext, -, -, hAfter, hMore⟩
      · cases hTrap.unique (by simp) hRun (by simp)
      · cases hNext.unique (by simp) hRun (by simp)
        exact ⟨after, hNow.put after, hAfter, hExtends.trans hMore⟩
  | refused _ hMakes hSuits hAdmissible hRefuses ih =>
      obtain ⟨now, hNow, hNowSound, hExtends⟩ := ih
      obtain ⟨fuel, cause, hRun⟩ := hRefuses
      rcases hMakes.call hFits hLinked hBounded hNow hNowSound hBase hSuits hAdmissible with
        ⟨after, hTrap, -, -, -, -, hAfter, hMore⟩ | ⟨address, after, hNext, -⟩
      · cases hTrap.unique (by simp) hRun (by simp)
        exact ⟨after, hNow.put after, hAfter, hExtends.trans hMore⟩
      · cases hNext.unique (by simp) hRun (by simp)

/-- A load reads a value from the record at an address. -/
def Reading (functions : Array Machine.Function) (store : Store) (address : UInt32) (load : Instr)
    (value : Value) : Prop :=
  ∃ steps, (∀ types, Step.ofInstrs? types [load, .close] = some steps) ∧
    ∀ locals below, ∃ fuel, exec functions fuel steps ⟨store, locals, .i32 address :: below⟩ =
      .next ⟨store, locals, value :: below⟩

/-- Every field of a record at an address yields its value, through the layout of the record as well
as through that of any ancestor that has the field. -/
def Yields (functions : Array Machine.Function) (env : Env) (store : Store) (name : String)
    (record : Record) (address : UInt32) (values : List Value) : Prop :=
  ∀ field value, (field, value) ∈ record.fields.zip values →
    ∀ ancestor found, (ancestor = name ∨ ancestor ∈ env.registry.ancestors name) →
      env.registry.get? ancestor = some found → (found.field? field.name).isSome →
      ∀ (context : Context) (pos : Position) (slots : Slots), context.env = env →
        ∃ load type, (loadField context pos (.record ancestor) field.name).run slots =
            .ok ((load, type), slots) ∧
          Reading functions store address load value

/-- A field that a record and one of its ancestors have is the same field. -/
theorem field?_of_ancestor (hLays : assembled.env.registry.Lays assembled.env.records)
    (hGet : assembled.env.registry.get? name = some record) {ancestor : String} {found : Record}
    (hAncestor : ancestor = name ∨ ancestor ∈ assembled.env.registry.ancestors name)
    (hFound : assembled.env.registry.get? ancestor = some found) {field : Field}
    (hField : field ∈ record.fields) (hHas : (found.field? field.name).isSome) :
    found.field? field.name = some field := by
  have hPrefix : found.fields <+: record.fields := by
    rcases hAncestor with rfl | hAbove
    · rw [hGet] at hFound
      cases hFound
      exact List.prefix_rfl
    · obtain ⟨other, hOther, hPrefix⟩ := hLays.ancestor_prefix hGet hAbove
      rw [hFound] at hOther
      cases hOther
      exact hPrefix
  obtain ⟨same, hSame⟩ := Option.isSome_iff_exists.1 hHas
  rw [hSame, (hLays.sound_of_get? hGet).field_unique
    (hPrefix.subset (List.mem_of_find?_eq_some hSame)) hField
    (by simpa using List.find?_some hSame)]

/-- The fields of a filled record yield their values. -/
theorem Filled.yields (hLays : assembled.env.registry.Lays assembled.env.records)
    (hGet : assembled.env.registry.get? name = some record) {store : Store} {memory : Memory}
    (hMemory : store.memory = some memory) {address : UInt32} {values : List Value}
    (hSuits : Suits record.fields values)
    (hFilled : Filled memory address.toNat record.fields values) :
    Yields functions assembled.env store name record address values := by
  intro field value hPair ancestor found hAncestor hFound hHas context pos slots hEnv
  have hSame := field?_of_ancestor hLays hGet hAncestor hFound (List.of_mem_zip hPair).1 hHas
  have hType : value.type = field.type.numType := (List.forall₂_iff_zip.1 hSuits).2 hPair
  have hContains : memory.Contains (address.toNat + field.offset.toNat) value :=
    (List.forall₂_iff_zip.1 hFilled).2 hPair
  refine ⟨loadInstr field, context.env.typeOfField ancestor field, ?_,
    [.plain (.load field.type.numType) (.mem (fieldArg field))], fun types => ?_,
    fun locals below => ?_⟩
  · simp only [loadField, hEnv, hFound, hSame]
    rfl
  · have hLoad : Reads types [loadInstr field]
        [.plain (.load field.type.numType) (.mem (fieldArg field))] := .plain rfl
    exact hLoad.ofInstrs?
  · have hRead : memory.read? (State.effective address (fieldArg field))
        (storageSize field.type.numType) = some value.bytes := by
      rw [← hType]
      simpa [State.effective, fieldArg, Memory.Contains] using hContains
    have hRun : Leads functions 0 [.plain (.load field.type.numType) (.mem (fieldArg field))]
        ⟨store, locals, .i32 address :: below⟩ (.next ⟨store, locals, value :: below⟩) := by
      refine .then (perform_load hMemory hRead) ?_
      rw [← hType, Value.ofBytes_bytes]
      exact .nil
    exact hRun

/-! ## The whole program -/

/-- The state of a heap whose memory can still grow: base, cursor, limit and the end of the memory
are in order, the limit is not below the first page, and the memory never fills the addresses. -/
structure Pool.Ready (base : UInt32) (pool : Pool) : Prop where
  base_le : base.toNat ≤ pool.cursor.toNat
  cursor_le : pool.cursor.toNat ≤ pool.limit.toNat
  limit_le : pool.limit.toNat ≤ pool.memory.size
  page_le : pageSize ≤ pool.limit.toNat
  pages_le : pool.memory.pages ≤ pool.memory.limit
  below : pool.memory.limit < 65536

theorem Pool.Ready.sound {base : UInt32} {pool : Pool} (hReady : pool.Ready base) :
    pool.Sound base.toNat := by
  obtain ⟨hBase, hCursor, hLimit, hPage, hPages, hBelow⟩ := hReady
  refine ⟨hBase, hCursor, hLimit, hPage, by omega, fun delta hDelta => ?_, by omega⟩
  simp only [Memory.size, pageSize] at hLimit ⊢
  omega

/-- A fresh store holds a fresh heap. -/
theorem holds_fresh (hFits : assembled.Fits program) (maximum : Nat)
    (verdicts : List Bool) :
    assembled.handle.Holds (freshStore assembled.builder assembled.handle maximum verdicts)
      (freshPool assembled.handle maximum verdicts) := by
  obtain ⟨hCursor, hLimit, -, -⟩ := hFits.handle
  constructor
  · rw [hCursor, freshStore, hFits.globals]
    simp [initialValue_wordGlobal, freshPool]
  · rw [hLimit, freshStore, hFits.globals]
    simp [initialValue_wordGlobal, freshPool]
  · rw [hCursor, hLimit]
    decide
  · rfl

/-- Every record of a program that is compiled has a constructor.  A call of it traps and changes
nothing, or it returns the address of a record that holds the arguments, and goes on holding them
whatever else is made. -/
theorem record_keeps_fields {config : CompileConfig} {cancelled : Bool} {compiled : Compiled}
    (hCompile : Compile.program config cancelled program = .ok compiled)
    (hAssemble : assemble config cancelled program = .ok assembled)
    (hSmall : compiled.binary.length < 2 ^ 32) (hBounded : Bounded compiled.registry)
    (hLinked : assembled.builder.Linked functions)
    (hGet : compiled.registry.get? name = some record) :
    ∃ function, ⟨constructorName name, .function, function⟩ ∈ assembled.builder.exports ∧
      Makes assembled name record function ∧
      ∀ store pool values, assembled.handle.Holds store pool → pool.Ready assembled.handle.base →
        Suits record.fields values →
        Admissible assembled.handle store record.size record.align →
        (∃ after next, Refuses functions function values store after ∧
          assembled.handle.Holds after next ∧ next.cursor = pool.cursor ∧
          next.limit = pool.limit ∧ next.memory.size = pool.memory.size ∧
          next.memory.content = pool.memory.content) ∨
        (∃ address after, Builds functions function values store after address ∧
          ∀ later, Further functions assembled after later →
            Yields functions assembled.env later name record address values) := by
  obtain ⟨hBuild, hRegistry⟩ := program_ok hCompile hAssemble
  rw [hRegistry] at hBounded hGet
  obtain ⟨-, -, -, hFew, -⟩ := Builder.build_length hBuild
  have hFits := assemble_fits hAssemble (by omega)
  have hLays := hFits.lays
  obtain ⟨decl, hDecl, -⟩ := hLays.follows hGet
  rw [declOf?, hFits.same.records] at hDecl
  have hName : decl.name = name := by simpa using List.find?_some hDecl
  obtain ⟨function, hDeclared⟩ := hFits.constructed decl (List.mem_of_find?_eq_some hDecl) record
    (hName ▸ hGet)
  rw [hName, Registry.name_of_get? hGet] at hDeclared
  have hMakes : Makes assembled name record function := ⟨hDeclared, hGet⟩
  refine ⟨function, ?_, hMakes, fun store pool values hHolds hReady hSuits hAdmissible => ?_⟩
  · obtain ⟨front, hExports⟩ := hFits.exports
    rw [hExports]
    exact List.mem_append_right _ (List.mem_map_of_mem hDeclared)
  have hBase : 0 < assembled.handle.base.toNat :=
    Nat.pos_of_ne_zero fun hZero => hFits.base (UInt32.toNat_inj.1 hZero)
  rcases hMakes.call hFits hLinked hBounded hHolds hReady.sound hBase hSuits hAdmissible with
    ⟨after, ⟨fuel, hTrap⟩, hCursor, hLimit, hSize, hContent, -⟩ |
    ⟨address, after, ⟨fuel, hNext⟩, hFilled, hBelow, hAfter, -⟩
  · exact .inl ⟨_, after, ⟨fuel, _, hTrap⟩, hHolds.put after, hCursor, hLimit, hSize, hContent⟩
  · refine .inr ⟨address, _, ⟨fuel, hNext⟩, fun later hFurther => ?_⟩
    obtain ⟨now, hNow, -, hExtends⟩ := hFurther.extends hFits hLinked hBounded (hHolds.put after)
      hAfter hBase
    refine (hFilled.extends hSuits hExtends fun field hField => ?_).yields hLays hGet hNow.memory
      hSuits
    have hSound := hLays.sound_of_get? hGet
    obtain ⟨hPlaced, hWhole⟩ := hSound.placed (hBounded record (List.mem_of_find?_eq_some hGet))
    obtain ⟨exponent, hPower⟩ := hSound.align.power
    have hRound := le_roundUp (extent 0 (record.fields.map Field.type))
      (hPower ▸ Nat.two_pow_pos exponent)
    have hInside := (hPlaced.bounds hField).2
    omega

/-- A program with one record. -/
def pairs : Program where
  records := [{ name := "Pair", fields := [⟨{}, "key", .i32⟩, ⟨{}, "weight", .i64⟩] }]

/-- The layout of its record. -/
def pairLayout : Record where
  name := "Pair"
  parent := ""
  fields := [⟨"key", .i32, 0⟩, ⟨"weight", .i64, 8⟩]
  size := 16
  align := 8
  inherited := 0

/-- The constructor of the pairs is the third function, and in a fresh store it returns. -/
def pairsBuilt (assembled : Assembled) : Bool :=
  assembled.builder.imports.isEmpty &&
    (assembled.builder.funcs.all fun function => function.body.all fun body =>
      (Step.ofInstrs? [] body.instrs).isSome) &&
    (assembled.declared.all fun item => item.index == 2) &&
    (assembled.handle.base == 1024 && assembled.handle.limit == 66560 &&
      assembled.handle.memoryPages == 2) &&
    match exec (assembled.builder.instantiate []) 100 [.call 2]
      ⟨freshStore assembled.builder assembled.handle 16 [], [], [.i64 9, .i32 7]⟩ with
    | .next _ => true
    | _ => false

/-- A pair that is made holds its key and its weight. -/
theorem record_keeps_fields_pair :
    ∃ compiled assembled functions function address after,
      Compile.program {} false pairs = .ok compiled ∧ assemble {} false pairs = .ok assembled ∧
      assembled.builder.Linked functions ∧ Makes assembled "Pair" pairLayout function ∧
      Builds functions function [.i32 7, .i64 9]
        (freshStore assembled.builder assembled.handle 16 []) after address ∧
      Yields functions assembled.env after "Pair" pairLayout address [.i32 7, .i64 9] := by
  obtain ⟨compiled, hCompile, hCompiled⟩ := @ok_of_any _ _ (Compile.program {} false pairs)
    (fun compiled => decide (compiled.binary.length < 2 ^ 32 ∧
      compiled.registry.layouts = [pairLayout])) (by decide +kernel)
  obtain ⟨assembled, hAssemble, hBuilt⟩ := @ok_of_any _ _ (assemble {} false pairs) pairsBuilt
    (by decide +kernel)
  simp only [decide_eq_true_eq] at hCompiled
  obtain ⟨hSmall, hLayouts⟩ := hCompiled
  simp only [pairsBuilt, Bool.and_eq_true, List.all_eq_true, beq_iff_eq, List.isEmpty_iff,
    Option.all_eq_true] at hBuilt
  obtain ⟨⟨⟨⟨hImports, hRead⟩, hIndex⟩, ⟨hBase, hLimit⟩, hPages⟩, hRuns⟩ := hBuilt
  have hLinked : assembled.builder.Linked (assembled.builder.instantiate []) :=
    Builder.linked_instantiate (by rw [hImports]; rfl) hRead
  have hBounded : Bounded compiled.registry := by
    intro record hRecord
    rw [hLayouts, List.mem_singleton] at hRecord
    subst hRecord
    decide
  have hGet : compiled.registry.get? "Pair" = some pairLayout := by
    rw [Registry.get?, hLayouts]
    rfl
  obtain ⟨function, -, hMakes, hCall⟩ := record_keeps_fields hCompile hAssemble hSmall hBounded
    hLinked hGet
  have hFits := assemble_fits hAssemble (by
    obtain ⟨-, -, -, hFew, -⟩ := Builder.build_length (program_ok hCompile hAssemble).1
    omega)
  have hHolds := holds_fresh hFits 16 []
  have hReady : (freshPool assembled.handle 16 []).Ready assembled.handle.base := by
    constructor <;> simp only [freshPool, Memory.size, hBase, hLimit, hPages] <;> decide
  have hFunction : function = 2 := hIndex _ hMakes.declared
  subst hFunction
  rcases hCall _ _ [.i32 7, .i64 9] hHolds hReady (.cons rfl (.cons rfl .nil))
    (admissible_of_holds hHolds 16 8 3 rfl (by simp only [freshPool, hBase]; decide)) with
    ⟨after, -, ⟨fuel, cause, hTrap⟩, -⟩ | ⟨address, after, hBuilds, hKeeps⟩
  · split at hRuns
    · rename_i state hNext
      have hLeads : Leads _ 0 _ _ _ := .of_exec 100 hNext (by simp)
      cases hLeads.unique (by simp) hTrap (by simp)
    · cases hRuns
  · exact ⟨compiled, assembled, _, 2, address, after, hCompile, hAssemble, hLinked, hMakes, hBuilds,
      hKeeps after .start⟩

end RecordWasm.Heap
