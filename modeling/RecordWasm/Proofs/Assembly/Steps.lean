import RecordWasm.Assembly.Builder
import Mathlib.Data.List.Induction
import Mathlib.Data.List.Nodup

/-!
# Builders that go on after refusals

A builder is used by one operation after the other, in any order, and goes on after an operation
that it refuses.  An operation is performed step by step, and would leave a builder half changed if
it failed behind a change; none does.  `Step` says once what an operation can do.  From it follows,
by induction over the operations, that the history of operations and replies tells what the builder
holds: which functions there are and under which indices, which bodies they have and which exports
there are.
-/

namespace RecordWasm.Assembly

open Wasm

inductive Operation where
  | setMemoryPages (pages : UInt32)
  | addImport (module name : String) (type : FuncType)
  | declareFunction (name : String) (type : FuncType)
  | setBody (index : UInt32) (body : Body)
  | addGlobal (item : Global)
  | exportFunction (name : String) (index : UInt32)
  | exportGlobal (name : String) (index : UInt32)
  deriving DecidableEq, Repr

/-- What an operation answers. -/
inductive Reply where
  | done
  | index (value : UInt32)
  | refused (cause : BuildError)
  deriving DecidableEq, Repr

/-- What the functions of a builder make of an operation: the reply and the builder to go on
with. -/
def Operation.apply (builder : Builder) : Operation → Reply × Builder
  | .setMemoryPages pages => (.done, builder.setMemoryPages pages)
  | .addImport module name type =>
      match builder.addImport module name type with
      | .ok (index, next) => (.index index, next)
      | .error cause => (.refused cause, builder)
  | .declareFunction name type =>
      let (index, next) := builder.declareFunction name type
      (.index index, next)
  | .setBody index body => answer (builder.setBody index body)
  | .addGlobal item =>
      let (index, next) := builder.addGlobal item
      (.index index, next)
  | .exportFunction name index => answer (builder.exportFunction name index)
  | .exportGlobal name index => answer (builder.exportGlobal name index)
where
  answer : Except BuildError Builder → Reply × Builder
    | .ok next => (.done, next)
    | .error cause => (.refused cause, builder)

/-- Work on a builder, which a failure leaves as far as the work has got. -/
abbrev Building := EStateM BuildError Builder

namespace Building

/-- The place and the function that an index stands for, if it is a declared one. -/
def declared (index : UInt32) : Building (Nat × Function) := do
  let builder ← get
  let place := index.toNat - builder.imports.length
  if index.toNat < builder.imports.length then throw (.notLocal index)
  else
    match builder.funcs[place]? with
    | none => throw (.notLocal index)
    | some function => return (place, function)

/-- Adds an export whose name is not in use yet. -/
def addExport (item : Export) : Building Unit := do
  let builder ← get
  if item.name ∈ builder.exports.map Export.name ∨ item.name = builder.config.memoryName then
    throw (.duplicateExport item.name)
  else set { builder with exports := builder.exports ++ [item] }

end Building

/-- Performs an operation step by step and answers the index that it gives out, if any. -/
def Operation.performing : Operation → Building (Option UInt32)
  | .setMemoryPages pages => do
      modify (·.setMemoryPages pages)
      return none
  | .addImport module name type => do
      if !(← get).funcs.isEmpty then throw (.lateImport module name)
      else
        modify fun builder =>
          { builder with imports := builder.imports ++ [⟨module, name, type⟩] }
        return some ((← get).imports.length - 1).toUInt32
  | .declareFunction name type => do
      modify fun builder => { builder with funcs := builder.funcs ++ [{ name, type }] }
      return some ((← get).numFunctions - 1).toUInt32
  | .setBody index body => do
      let (place, function) ← Building.declared index
      match function.body with
      | some _ => throw (.bodyTwice function.name)
      | none =>
          modify fun builder =>
            { builder with funcs := builder.funcs.set place { function with body := some body } }
          return none
  | .addGlobal item => do
      modify fun builder => { builder with globals := builder.globals ++ [item] }
      return some ((← get).globals.length - 1).toUInt32
  | .exportFunction name index => do
      if (← get).numFunctions ≤ index.toNat then throw (.noFunction name index)
      else
        Building.addExport ⟨name, .function, index⟩
        return none
  | .exportGlobal name index => do
      if (← get).globals.length ≤ index.toNat then throw (.noGlobal name index)
      else
        Building.addExport ⟨name, .global, index⟩
        return none

/-- The reply of an operation and the builder that it leaves, be it at a failure. -/
def Operation.perform (builder : Builder) (operation : Operation) : Reply × Builder :=
  match operation.performing builder with
  | .ok none next => (.done, next)
  | .ok (some index) next => (.index index, next)
  | .error cause left => (.refused cause, left)

/-- Work that looks at the builder first. -/
theorem Building.get_bind {α : Type} (builder : Builder) (rest : Builder → Building α) :
    (get >>= rest) builder = rest builder builder := rfl

/-- An export is added or leaves the builder alone. -/
theorem Building.addExport_bind (builder : Builder) (item : Export) :
    (addExport item >>= fun _ => pure none : Building (Option UInt32)) builder =
      match builder.addExport item with
      | .ok next => .ok none next
      | .error cause => .error cause builder := by
  rw [addExport, Builder.addExport, bind_assoc, get_bind]
  split <;> rfl

/-- Step by step, operations come to what the functions of the builder make of them. -/
theorem Operation.perform_eq (builder : Builder) (operation : Operation) :
    operation.perform builder = operation.apply builder := by
  have hLast {α : Type} (items : List α) (item : α) :
      (items ++ [item]).length - 1 = items.length := by
    simp
  cases operation with
  | setMemoryPages pages => rfl
  | addImport module name type =>
      rw [apply, Builder.addImport, perform, performing, Building.get_bind]
      by_cases hFirst : builder.funcs.isEmpty
      · rw [if_pos hFirst, if_neg (by simp [hFirst]), ← hLast builder.imports]
        rfl
      · rw [if_neg hFirst, if_pos (by simp [hFirst])]
        rfl
  | declareFunction name type =>
      have hIndex : builder.numFunctions =
          builder.imports.length + (builder.funcs ++ [Function.mk name type none]).length - 1 := by
        simp [Builder.numFunctions]
      change _ = (Reply.index builder.numFunctions.toUInt32, _)
      rw [hIndex]
      rfl
  | setBody index body =>
      rw [apply, Builder.setBody, perform, performing, Building.declared, bind_assoc,
        Building.get_bind]
      by_cases hImport : index.toNat < builder.imports.length
      · simp only [if_pos hImport]
        rfl
      · simp only [if_neg hImport]
        cases builder.funcs[index.toNat - builder.imports.length]? with
        | none => rfl
        | some function => cases hBody : function.body <;> simp only [pure_bind, hBody] <;> rfl
  | addGlobal item =>
      rw [apply, Builder.addGlobal, ← hLast builder.globals]
      rfl
  | exportFunction name index =>
      rw [apply, Builder.exportFunction, perform, performing, Building.get_bind]
      by_cases hIndex : index.toNat < builder.numFunctions
      · rw [if_pos hIndex, if_neg (Nat.not_le_of_lt hIndex), Building.addExport_bind]
        cases builder.addExport ⟨name, .function, index⟩ <;> rfl
      · rw [if_neg hIndex, if_pos (Nat.le_of_not_lt hIndex)]
        rfl
  | exportGlobal name index =>
      rw [apply, Builder.exportGlobal, perform, performing, Building.get_bind]
      by_cases hIndex : index.toNat < builder.globals.length
      · rw [if_pos hIndex, if_neg (Nat.not_le_of_lt hIndex), Building.addExport_bind]
        cases builder.addExport ⟨name, .global, index⟩ <;> rfl
      · rw [if_neg hIndex, if_pos (Nat.le_of_not_lt hIndex)]
        rfl

/-- The operations that were performed, each with its reply. -/
abbrev History := List (Operation × Reply)

/-- A builder and how it came about. -/
structure Session where
  history : History
  builder : Builder

/-- Performs one more operation. -/
def Session.next (session : Session) (operation : Operation) : Session where
  history := session.history ++ [(operation, (operation.perform session.builder).1)]
  builder := (operation.perform session.builder).2

/-- Performs operations on an empty builder. -/
def Session.of (config : Config) (operations : List Operation) : Session :=
  operations.foldl Session.next ⟨[], .new config⟩

/-! ## What an operation can do -/

/-- An export that a builder accepts. -/
structure Exportable (builder : Builder) (item : Export) : Prop where
  fresh : item.name ∉ builder.exports.map Export.name
  other : item.name ≠ builder.config.memoryName
  index : item.kind = .function ∧ item.index.toNat < builder.numFunctions ∨
    item.kind = .global ∧ item.index.toNat < builder.globals.length

/-- The export that an operation asks for. -/
def Operation.asked? : Operation → Option Export
  | .exportFunction name index => some ⟨name, .function, index⟩
  | .exportGlobal name index => some ⟨name, .global, index⟩
  | _ => none

/-- What an operation on a builder answers and leads to. -/
inductive Step (builder : Builder) : Operation → Reply → Builder → Prop
  | refused (operation : Operation) (cause : BuildError) :
      Step builder operation (.refused cause) builder
  | setMemoryPages (pages : UInt32) :
      Step builder (.setMemoryPages pages) .done (builder.setMemoryPages pages)
  | addImport (module name : String) (type : FuncType) (hFirst : builder.funcs = []) :
      Step builder (.addImport module name type) (.index builder.imports.length.toUInt32)
        { builder with imports := builder.imports ++ [⟨module, name, type⟩] }
  | declareFunction (name : String) (type : FuncType) :
      Step builder (.declareFunction name type) (.index builder.numFunctions.toUInt32)
        { builder with funcs := builder.funcs ++ [{ name, type }] }
  | setBody {index : UInt32} {place : Nat} {function : Function} (body : Body)
      (hIndex : index.toNat = builder.imports.length + place)
      (hPlace : builder.funcs[place]? = some function) (hNone : function.body = none) :
      Step builder (.setBody index body) .done
        { builder with funcs := builder.funcs.set place { function with body := some body } }
  | addGlobal (item : Global) :
      Step builder (.addGlobal item) (.index builder.globals.length.toUInt32)
        { builder with globals := builder.globals ++ [item] }
  | addExport {operation : Operation} {item : Export} (hAsked : operation.asked? = some item)
      (hExportable : Exportable builder item) :
      Step builder operation .done { builder with exports := builder.exports ++ [item] }

/-- An export is added or refused. -/
theorem step_addExport {builder : Builder} {operation : Operation} {item : Export}
    (hAsked : operation.asked? = some item)
    (hIndex : item.kind = .function ∧ item.index.toNat < builder.numFunctions ∨
      item.kind = .global ∧ item.index.toNat < builder.globals.length) :
    Step builder operation (Operation.apply.answer builder (builder.addExport item)).1
      (Operation.apply.answer builder (builder.addExport item)).2 := by
  rw [Builder.addExport]
  split
  · exact .refused operation _
  · rename_i hFree
    obtain ⟨hFresh, hOther⟩ := not_or.1 hFree
    exact .addExport hAsked ⟨hFresh, hOther, hIndex⟩

/-- Whatever the operation and the builder, performing it is a step. -/
theorem step_perform (builder : Builder) (operation : Operation) :
    Step builder operation (operation.perform builder).1 (operation.perform builder).2 := by
  rw [operation.perform_eq builder]
  cases operation with
  | setMemoryPages pages => exact .setMemoryPages pages
  | addImport module name type =>
      rw [Operation.apply, Builder.addImport]
      by_cases hFirst : builder.funcs.isEmpty
      · rw [if_pos hFirst]
        exact .addImport module name type (List.isEmpty_iff.1 hFirst)
      · rw [if_neg hFirst]
        exact .refused _ _
  | declareFunction name type => exact .declareFunction name type
  | setBody index body =>
      rw [Operation.apply, Builder.setBody]
      split
      · exact .refused _ _
      · rename_i hOwn
        split
        · exact .refused _ _
        · rename_i function hPlace
          split
          · exact .refused _ _
          · rename_i hNone
            exact .setBody body (by omega) hPlace hNone
  | addGlobal item => exact .addGlobal item
  | exportFunction name index =>
      rw [Operation.apply, Builder.exportFunction]
      split
      · rename_i hIndex
        exact step_addExport rfl (.inl ⟨rfl, hIndex⟩)
      · exact .refused _ _
  | exportGlobal name index =>
      rw [Operation.apply, Builder.exportGlobal]
      split
      · rename_i hIndex
        exact step_addExport rfl (.inr ⟨rfl, hIndex⟩)
      · exact .refused _ _

/-- An operation that is refused leaves the builder as it is. -/
theorem perform_refused {builder : Builder} {operation : Operation} {cause : BuildError}
    (hReply : (operation.perform builder).1 = .refused cause) :
    (operation.perform builder).2 = builder := by
  have hStep := step_perform builder operation
  rw [hReply] at hStep
  generalize (operation.perform builder).2 = next at hStep ⊢
  cases hStep
  rfl

/-- An operation has changed nothing by the time at which it fails. -/
theorem performing_error {builder left : Builder} {operation : Operation} {cause : BuildError}
    (hRun : operation.performing builder = .error cause left) : left = builder := by
  have hPerform : operation.perform builder = (.refused cause, left) := by
    rw [Operation.perform, hRun]
  have hSame := @perform_refused builder operation cause (by rw [hPerform])
  rwa [hPerform] at hSame

/-- What an empty builder has and every step keeps, every session has. -/
theorem Session.induction {motive : History → Builder → Prop} (config : Config)
    (hStart : motive [] (.new config))
    (hStep : ∀ history builder operation reply next, motive history builder →
      Step builder operation reply next → motive (history ++ [(operation, reply)]) next)
    (operations : List Operation) :
    motive (Session.of config operations).history (Session.of config operations).builder := by
  induction operations using List.reverseRecOn with
  | nil => exact hStart
  | append_singleton operations last ih =>
      rw [Session.of, List.foldl_append]
      exact hStep _ _ _ _ _ ih (step_perform _ last)

section Histories

variable {history : History} {builder next : Builder} {operation : Operation} {reply : Reply}
  {entry : Operation × Reply}

/-- A function that has been given an index. -/
structure Call where
  index : UInt32
  name : String
  type : FuncType
  imported : Bool
  deriving DecidableEq, Repr

/-- The function that an operation with its reply stands for. -/
def Call.of? : Operation × Reply → Option Call
  | (.addImport _ name type, .index index) => some ⟨index, name, type, true⟩
  | (.declareFunction name type, .index index) => some ⟨index, name, type, false⟩
  | _ => none

/-- The functions that have been given indices, in the order of the calls. -/
def calls (history : History) : List Call := history.filterMap Call.of?

/-- What a builder knows about its functions except for their bodies. -/
def Builder.heads (builder : Builder) : List (String × FuncType × Bool) :=
  builder.imports.map (fun item => (item.name, item.type, true)) ++
    builder.funcs.map fun function => (function.name, function.type, false)

/-- The functions of a builder are those of its history, with indices in the order of the calls. -/
structure Counted (history : History) (builder : Builder) : Prop where
  indices : (calls history).map Call.index =
    (List.range (calls history).length).map Nat.toUInt32
  heads : (calls history).map (fun call => (call.name, call.type, call.imported)) = builder.heads

theorem Builder.length_heads (builder : Builder) : builder.heads.length = builder.numFunctions := by
  simp [heads, numFunctions]

theorem Counted.length (hCounted : Counted history builder) :
    (calls history).length = builder.numFunctions := by
  have hLength := congrArg List.length hCounted.heads
  rwa [List.length_map, Builder.length_heads] at hLength

/-- An operation that gives out no index. -/
theorem Counted.skip (hCounted : Counted history builder) (hNone : Call.of? entry = none)
    (hHeads : next.heads = builder.heads) : Counted (history ++ [entry]) next := by
  have hCalls : calls (history ++ [entry]) = calls history := by simp [calls, hNone]
  exact ⟨by rw [hCalls]; exact hCounted.indices, by rw [hCalls, hHeads]; exact hCounted.heads⟩

/-- An operation that gives out the next index. -/
theorem Counted.add {call : Call} (hCounted : Counted history builder)
    (hCall : Call.of? entry = some call)
    (hIndex : call.index = builder.numFunctions.toUInt32)
    (hHeads : next.heads = builder.heads ++ [(call.name, call.type, call.imported)]) :
    Counted (history ++ [entry]) next := by
  have hCalls : calls (history ++ [entry]) = calls history ++ [call] := by simp [calls, hCall]
  constructor
  · rw [hCalls, List.map_append, hCounted.indices, List.length_append, List.length_singleton,
      List.range_succ, List.map_append, List.map_singleton, List.map_singleton, hIndex,
      hCounted.length]
  · rw [hCalls, List.map_append, hCounted.heads, hHeads]
    rfl

theorem Counted.step (hCounted : Counted history builder)
    (hStep : Step builder operation reply next) :
    Counted (history ++ [(operation, reply)]) next := by
  cases hStep with
  | refused _ cause => exact hCounted.skip (by cases operation <;> rfl) rfl
  | setMemoryPages pages => exact hCounted.skip rfl rfl
  | addImport module name type hFirst =>
      refine hCounted.add rfl ?_ ?_
      · simp [Builder.numFunctions, hFirst]
      · simp [Builder.heads, hFirst]
  | declareFunction name type =>
      refine hCounted.add rfl rfl ?_
      simp [Builder.heads]
  | setBody body hIndex hPlace hNone =>
      refine hCounted.skip rfl ?_
      obtain ⟨hBound, rfl⟩ := List.getElem?_eq_some_iff.1 hPlace
      have hSame := @List.set_getElem_self _
        (builder.funcs.map fun function => (function.name, function.type, false)) _
        (by simpa using hBound)
      rw [List.getElem_map] at hSame
      rw [Builder.heads, Builder.heads, List.map_set, hSame]
  | addGlobal item => exact hCounted.skip rfl rfl
  | addExport hAsked hExportable =>
      exact hCounted.skip (by cases operation <;> rfl) rfl

/-- A body has been given to the function of an index. -/
def Bodied (history : History) (place : Nat) (body : Body) : Prop :=
  ∃ index : UInt32, index.toNat = place ∧ (.setBody index body, .done) ∈ history

/-- The index that an operation with its reply has given a body to. -/
def bodyIndex? : Operation × Reply → Option UInt32
  | (.setBody index _, .done) => some index
  | _ => none

theorem mem_bodyIndices {index : UInt32} :
    index ∈ history.filterMap bodyIndex? ↔ ∃ body, (.setBody index body, .done) ∈ history := by
  rw [List.mem_filterMap]
  constructor
  · rintro ⟨entry, hEntry, hIndex⟩
    unfold bodyIndex? at hIndex
    split at hIndex
    · rename_i given body
      cases hIndex
      exact ⟨body, hEntry⟩
    · cases hIndex
  · rintro ⟨body, hEntry⟩
    exact ⟨_, hEntry, rfl⟩

/-- The bodies of a builder are those of its history, and each function was given its body once. -/
structure Embodied (history : History) (builder : Builder) : Prop where
  bodies : ∀ place function, builder.funcs[place]? = some function → ∀ body,
    function.body = some body ↔ Bodied history (builder.imports.length + place) body
  places : ∀ index body, (.setBody index body, .done) ∈ history →
    builder.imports.length ≤ index.toNat ∧ index.toNat < builder.numFunctions
  once : (history.filterMap bodyIndex?).Nodup

/-- An operation that gives no body. -/
theorem mem_of_skip (hNone : bodyIndex? entry = none) {index : UInt32} {body : Body} :
    (.setBody index body, .done) ∈ history ++ [entry] ↔ (.setBody index body, .done) ∈ history := by
  rw [List.mem_append, List.mem_singleton, or_iff_left]
  rintro rfl
  cases hNone

theorem bodied_of_skip (hNone : bodyIndex? entry = none) {place : Nat} {body : Body} :
    Bodied (history ++ [entry]) place body ↔ Bodied history place body := by
  simp only [Bodied, mem_of_skip hNone]

/-- An operation that leaves the functions alone. -/
theorem Embodied.skip (hEmbodied : Embodied history builder) (hNone : bodyIndex? entry = none)
    (hImports : next.imports = builder.imports) (hFuncs : next.funcs = builder.funcs) :
    Embodied (history ++ [entry]) next := by
  obtain ⟨hBodies, hPlaces, hOnce⟩ := hEmbodied
  refine ⟨?_, ?_, ?_⟩
  · simp only [hImports, hFuncs, bodied_of_skip hNone]
    exact hBodies
  · simp only [hImports, hFuncs, Builder.numFunctions, mem_of_skip hNone]
    exact hPlaces
  · simpa [hNone] using hOnce

/-- A function that is declared has no body yet. -/
theorem Embodied.declare (hEmbodied : Embodied history builder) (name : String) (type : FuncType)
    (reply : Reply) :
    Embodied (history ++ [(.declareFunction name type, reply)])
      { builder with funcs := builder.funcs ++ [{ name, type }] } := by
  obtain ⟨hBodies, hPlaces, hOnce⟩ := hEmbodied
  have hNone : bodyIndex? (.declareFunction name type, reply) = none := rfl
  refine ⟨?_, ?_, by simpa [hNone] using hOnce⟩
  · intro place function hPlace body
    rw [bodied_of_skip hNone]
    rcases Nat.lt_or_ge place builder.funcs.length with hOld | hNew
    · rw [List.getElem?_append_left hOld] at hPlace
      exact hBodies place function hPlace body
    · rw [List.getElem?_append_right hNew, List.getElem?_singleton] at hPlace
      split at hPlace
      · cases hPlace
        simp only [reduceCtorEq, false_iff]
        rintro ⟨index, hIndex, hEntry⟩
        have hBounds := hPlaces index body hEntry
        rw [Builder.numFunctions] at hBounds
        omega
      · cases hPlace
  · intro index body hEntry
    have hBounds := hPlaces index body ((mem_of_skip hNone).1 hEntry)
    simp only [Builder.numFunctions, List.length_append] at hBounds ⊢
    omega

/-- A body that is accepted is the only one of its function. -/
theorem Embodied.give {index : UInt32} {place : Nat} {function : Function}
    (hEmbodied : Embodied history builder) (body : Body)
    (hIndex : index.toNat = builder.imports.length + place)
    (hPlace : builder.funcs[place]? = some function) (hNone : function.body = none) :
    Embodied (history ++ [(.setBody index body, .done)])
      { builder with funcs := builder.funcs.set place { function with body := some body } } := by
  obtain ⟨hBodies, hPlaces, hOnce⟩ := hEmbodied
  have hBound := (List.getElem?_eq_some_iff.1 hPlace).1
  have hFresh (other : Body) : ¬Bodied history (builder.imports.length + place) other := by
    rw [← hBodies place function hPlace other, hNone]
    simp
  have hMember {other : UInt32} {given : Body} :
      (.setBody other given, .done) ∈ history ++ [(.setBody index body, .done)] ↔
        (.setBody other given, .done) ∈ history ∨ other = index ∧ given = body := by
    simp
  refine ⟨?_, ?_, ?_⟩
  · intro other found hFound given
    have hSplit :
        Bodied (history ++ [(.setBody index body, .done)]) (builder.imports.length + other)
        given ↔ Bodied history (builder.imports.length + other) given ∨ place = other ∧
          given = body := by
      constructor
      · rintro ⟨asked, hAsked, hEntry⟩
        rcases hMember.1 hEntry with hOld | ⟨rfl, hGiven⟩
        · exact .inl ⟨asked, hAsked, hOld⟩
        · exact .inr ⟨by omega, hGiven⟩
      · rintro (⟨asked, hAsked, hOld⟩ | ⟨rfl, hGiven⟩)
        · exact ⟨asked, hAsked, hMember.2 (.inl hOld)⟩
        · exact ⟨index, hIndex, hMember.2 (.inr ⟨rfl, hGiven⟩)⟩
    rw [hSplit]
    rw [List.getElem?_set] at hFound
    by_cases hSame : place = other
    · subst hSame
      rw [if_pos rfl, if_pos hBound] at hFound
      cases hFound
      simp [hFresh given, eq_comm]
    · rw [if_neg hSame] at hFound
      simp [hSame, hBodies other found hFound given]
  · intro other given hEntry
    simp only [Builder.numFunctions, List.length_set] at hPlaces ⊢
    rcases hMember.1 hEntry with hOld | ⟨rfl, -⟩
    · exact hPlaces other given hOld
    · omega
  · have hNew : index ∉ history.filterMap bodyIndex? := by
      rw [mem_bodyIndices]
      rintro ⟨given, hEntry⟩
      exact hFresh given ⟨index, hIndex, hEntry⟩
    rw [List.filterMap_append, List.nodup_append_comm]
    exact List.nodup_cons.2 ⟨hNew, hOnce⟩

theorem Embodied.step (hEmbodied : Embodied history builder)
    (hStep : Step builder operation reply next) :
    Embodied (history ++ [(operation, reply)]) next := by
  cases hStep with
  | refused _ cause => exact hEmbodied.skip (by cases operation <;> rfl) rfl rfl
  | setMemoryPages pages => exact hEmbodied.skip rfl rfl rfl
  | addImport module name type hFirst =>
      -- No function is there yet, so no body has been given.
      have hNobody (index : UInt32) (body : Body) : (.setBody index body, .done) ∉ history := by
        intro hEntry
        have hBounds := hEmbodied.places index body hEntry
        rw [Builder.numFunctions, hFirst, List.length_nil] at hBounds
        omega
      have hNone :
          bodyIndex? (.addImport module name type, .index builder.imports.length.toUInt32) = none :=
        rfl
      refine ⟨?_, ?_, by simpa [hNone] using hEmbodied.once⟩
      · intro place function hPlace
        rw [hFirst] at hPlace
        cases hPlace
      · intro index body hEntry
        exact absurd ((mem_of_skip hNone).1 hEntry) (hNobody index body)
  | declareFunction name type => exact hEmbodied.declare name type _
  | setBody body hIndex hPlace hNone => exact hEmbodied.give body hIndex hPlace hNone
  | addGlobal item => exact hEmbodied.skip rfl rfl rfl
  | addExport hAsked hExportable =>
      exact hEmbodied.skip (by cases operation <;> first | rfl | cases hAsked) rfl rfl

/-- The export that an operation with its reply has added. -/
def exported? : Operation × Reply → Option Export
  | (operation, .done) => operation.asked?
  | _ => none

/-- The exports of a builder are those of its history: they have names of their own and refer to
something. -/
structure Exporting (memoryName : String) (history : History) (builder : Builder) : Prop where
  memory : builder.config.memoryName = memoryName
  exports : builder.exports = history.filterMap exported?
  names : (memoryName :: builder.exports.map Export.name).Nodup
  indices : ∀ item ∈ builder.exports, item.kind = .function ∧
    item.index.toNat < builder.numFunctions ∨
    item.kind = .global ∧ item.index.toNat < builder.globals.length

/-- An operation that adds no export and takes nothing away. -/
theorem Exporting.skip {memoryName : String} (hExporting : Exporting memoryName history builder)
    (hNone : exported? entry = none) (hMemory : next.config.memoryName = builder.config.memoryName)
    (hExports : next.exports = builder.exports) (hFuncs : builder.numFunctions ≤ next.numFunctions)
    (hGlobals : builder.globals.length ≤ next.globals.length) :
    Exporting memoryName (history ++ [entry]) next := by
  obtain ⟨hName, hSame, hNames, hIndices⟩ := hExporting
  refine ⟨hMemory.trans hName, ?_, by rwa [hExports], ?_⟩
  · rw [hExports, hSame]
    simp [hNone]
  · intro item hItem
    rw [hExports] at hItem
    rcases hIndices item hItem with ⟨hKind, hIndex⟩ | ⟨hKind, hIndex⟩
    · exact .inl ⟨hKind, by omega⟩
    · exact .inr ⟨hKind, by omega⟩

theorem Exporting.step {memoryName : String} (hExporting : Exporting memoryName history builder)
    (hStep : Step builder operation reply next) :
    Exporting memoryName (history ++ [(operation, reply)]) next := by
  cases hStep with
  | refused _ cause => exact hExporting.skip rfl rfl rfl (Nat.le_refl _) (Nat.le_refl _)
  | setMemoryPages pages => exact hExporting.skip rfl rfl rfl (Nat.le_refl _) (Nat.le_refl _)
  | addImport module name type hFirst =>
      exact hExporting.skip rfl rfl rfl (by simp [Builder.numFunctions, hFirst]) (Nat.le_refl _)
  | declareFunction name type =>
      exact hExporting.skip rfl rfl rfl (by simp [Builder.numFunctions]) (Nat.le_refl _)
  | setBody body hIndex hPlace hNone =>
      exact hExporting.skip rfl rfl rfl (by simp [Builder.numFunctions]) (Nat.le_refl _)
  | addGlobal item => exact hExporting.skip rfl rfl rfl (Nat.le_refl _) (by simp)
  | @addExport _ item hAsked hExportable =>
      obtain ⟨hName, hSame, hNames, hIndices⟩ := hExporting
      obtain ⟨hFresh, hOther, hIndex⟩ := hExportable
      refine ⟨hName, ?_, ?_, ?_⟩
      · simp [hSame, exported?, hAsked]
      · rw [hName] at hOther
        simp only [List.map_append, List.map_cons, List.map_nil]
        have hNew : item.name ∉ memoryName :: builder.exports.map Export.name := by
          rw [List.mem_cons]
          exact not_or.2 ⟨hOther, hFresh⟩
        rw [← List.cons_append, List.nodup_append_comm]
        exact List.nodup_cons.2 ⟨hNew, hNames⟩
      · intro other hMember
        rcases List.mem_append.1 hMember with hOld | hNew
        · exact hIndices other hOld
        · rw [List.mem_singleton.1 hNew]
          exact hIndex

end Histories

end RecordWasm.Assembly
