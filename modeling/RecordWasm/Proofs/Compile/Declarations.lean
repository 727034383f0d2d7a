import RecordWasm.Compile
import RecordWasm.Proofs.Success
import Mathlib.Logic.Relation

/-!
# What gets declared

Declaring a program is a number of additions, each of which adds one function to the module and one
entry to the environment.  `Adds` lists the three kinds of addition; everything that is known of the
declarations of a program follows from what one addition does.
-/

namespace RecordWasm.Compile

open Syntax Layout Lowering Assembly Wasm

/-- The declarations with one more function. -/
def Declarations.grow (before : Declarations) (job : Job) (name : String) (ref : FuncRef)
    (env : Env) : Declarations where
  env := env
  builder := { before.builder with funcs := before.builder.funcs ++ [{ name, type := ref.type }] }
  seen := name :: before.seen
  declared := before.declared ++ [⟨job, name, ref.index⟩]

/-- The index that the next function gets. -/
def Declarations.next (state : Declarations) : UInt32 := state.builder.numFunctions.toUInt32

/-- The methods of a record, each with the record as its receiver. -/
def methodsOf (record : RecordDecl) : List FuncDecl :=
  record.methods.map fun method => { method with receiver := record.name }

theorem receiver_of_mem {record : RecordDecl} {decl : FuncDecl} (hDecl : decl ∈ methodsOf record) :
    decl.receiver = record.name := by
  obtain ⟨method, -, rfl⟩ := List.mem_map.1 hDecl
  rfl

/-- One addition to the declarations of a program. -/
inductive Adds (program : Program) (before : Declarations) : Declarations → Prop where
  | function (decl : FuncDecl) : decl ∈ program.functions → decl.name ∉ before.seen →
      Adds program before (before.grow (.function decl) decl.name (.ofDecl decl before.next)
        (before.env.addFunction (.ofDecl decl before.next)))
  | method (record : RecordDecl) (decl : FuncDecl) : record ∈ program.records →
      decl ∈ methodsOf record → decl.qualifiedName ∉ before.seen →
      Adds program before (before.grow (.function decl) decl.qualifiedName
        (.ofDecl decl before.next)
        (before.env.addMethod record.name (.ofDecl decl before.next)))
  | constructor (record : RecordDecl) (found : Record) : record ∈ program.records →
      before.env.registry.get? record.name = some found →
      constructorName found.name ∉ before.seen →
      Adds program before (before.grow (.constructor record.name) (constructorName found.name)
        (before.env.constructorRef found before.next)
        (before.env.addConstructor record.name (before.env.constructorRef found before.next)))

/-- The declarations that additions lead to. -/
def Reaches (program : Program) : Declarations → Declarations → Prop :=
  Relation.ReflTransGen (Adds program)

variable {program : Program} {state after : Declarations}

theorem add_ok {job : Job} {name : String} {ref : FuncRef} {register : Env → FuncRef → Env}
    (hAdd : state.add job name ref register = .ok after) :
    name ∉ state.seen ∧
      after = state.grow job name { ref with index := state.next }
        (register state.env { ref with index := state.next }) := by
  rw [Declarations.add] at hAdd
  simp only at hAdd
  split at hAdd
  · cases hAdd
  · rename_i hNew
    cases hAdd
    exact ⟨hNew, rfl⟩

/-- Folding steps that are additions, each or several at a time, is additions. -/
theorem reaches_of_foldlM {α : Type} {step : Declarations → α → Except Failure Declarations}
    {items : List α} (hStep : ∀ item ∈ items, ∀ before after, step before item = .ok after →
      Reaches program before after)
    (hFold : items.foldlM step state = .ok after) : Reaches program state after :=
  foldlM_ok (fun _ => Reaches program state) .refl
    (fun _ item before after hItem hBefore hDone =>
      Relation.ReflTransGen.trans hBefore (hStep item hItem before after hDone)) hFold

/-- Declaring constructors is additions. -/
theorem declareConstructors_reaches {records : List RecordDecl}
    (hRecords : records ⊆ program.records)
    (hFold : records.foldlM declareConstructor state = .ok after) :
    Reaches program state after := by
  refine reaches_of_foldlM (fun record hRecord before after hAdd => ?_) hFold
  rw [declareConstructor] at hAdd
  split at hAdd
  · cases hAdd
    exact .refl
  · rename_i found hFound
    obtain ⟨hNew, rfl⟩ := add_ok hAdd
    exact .single (.constructor record found (hRecords hRecord) hFound hNew)

/-- All that is declared is declared by additions. -/
theorem declareAll_reaches (hDeclare : declareAll program state = .ok after) :
    Reaches program state after := by
  simp only [declareAll, bind_ok] at hDeclare
  obtain ⟨first, hFunctions, second, hMethods, hConstructors⟩ := hDeclare
  have hFirst : Reaches program state first := by
    refine reaches_of_foldlM (fun decl hDecl before after hAdd => ?_) hFunctions
    obtain ⟨hNew, rfl⟩ := add_ok hAdd
    exact .single (.function decl hDecl hNew)
  have hSecond : Reaches program first second := by
    refine reaches_of_foldlM (fun record hRecord before after hAdd => ?_) hMethods
    refine reaches_of_foldlM (fun method hMethod before after hAdd => ?_) hAdd
    obtain ⟨hNew, rfl⟩ := add_ok hAdd
    exact .single (.method record { method with receiver := record.name } hRecord
      (List.mem_map.2 ⟨method, hMethod, rfl⟩) hNew)
  exact (hFirst.trans hSecond).trans
    (declareConstructors_reaches (List.Subset.refl _) hConstructors)

/-- A function stays declared. -/
theorem Reaches.declared (hReaches : Reaches program state after) :
    state.declared ⊆ after.declared ∧ after.env.registry = state.env.registry := by
  induction hReaches with
  | refl => exact ⟨List.Subset.refl _, rfl⟩
  | tail _ hAdds ih =>
      cases hAdds <;> exact ⟨List.subset_append_of_subset_left _ ih.1, ih.2⟩

/-- Every record that has a layout gets a constructor. -/
theorem declareAll_constructs (hDeclare : declareAll program state = .ok after)
    {record : RecordDecl} (hRecord : record ∈ program.records) {found : Record}
    (hFound : after.env.registry.get? record.name = some found) :
    ∃ index, ⟨.constructor record.name, constructorName found.name, index⟩ ∈ after.declared := by
  simp only [declareAll, bind_ok] at hDeclare
  obtain ⟨first, -, second, -, hConstructors⟩ := hDeclare
  obtain ⟨front, rest, hSplit⟩ := List.append_of_mem hRecord
  rw [hSplit, List.foldlM_append, bind_ok] at hConstructors
  obtain ⟨before, -, hRest⟩ := hConstructors
  rw [List.foldlM_cons, bind_ok] at hRest
  obtain ⟨next, hAdd, hLater⟩ := hRest
  obtain ⟨hKept, hRegistry⟩ := (@declareConstructors_reaches program _ _ rest
    (by simp [hSplit]) hLater).declared
  obtain ⟨-, hNext⟩ := (@declareConstructors_reaches program before next [record]
    (by simpa using hRecord) (by simpa using hAdd)).declared
  rw [hRegistry, hNext] at hFound
  rw [declareConstructor, hFound] at hAdd
  obtain ⟨-, rfl⟩ := add_ok hAdd
  exact ⟨before.next, hKept (by simp [Declarations.grow, Env.constructorRef])⟩

/-- The parts of an environment that do not depend on functions. -/
structure SameRecords (left right : Env) : Prop where
  registry : left.registry = right.registry
  heap : left.heap = right.heap
  records : left.records = right.records
  enums : left.enums = right.enums

theorem SameRecords.trans {first second third : Env} (hFirst : SameRecords first second)
    (hSecond : SameRecords second third) : SameRecords first third :=
  ⟨hFirst.registry.trans hSecond.registry, hFirst.heap.trans hSecond.heap,
    hFirst.records.trans hSecond.records, hFirst.enums.trans hSecond.enums⟩

/-- The declared type of a field depends on the records alone. -/
theorem SameRecords.typeOfField {left right : Env} (hSame : SameRecords left right)
    (record : String) (field : Field) :
    left.typeOfField record field = right.typeOfField record field := by
  rw [Env.typeOfField, Env.fieldType?, hSame.registry, hSame.records]
  rfl

theorem SameRecords.constructorRef {left right : Env} (hSame : SameRecords left right)
    (record : Record) (index : UInt32) :
    left.constructorRef record index = right.constructorRef record index := by
  simp only [Env.constructorRef, FuncRef.mk.injEq, and_true, true_and]
  exact List.map_congr_left fun field _ => hSame.typeOfField record.name field

/-- The signature of the function that a job makes. -/
def jobType (env : Env) : Job → FuncType
  | .function decl => signature (paramTypes decl) decl.result
  | .constructor record =>
      ((env.registry.get? record).map fun found => (env.constructorRef found 0).type).getD ⟨[], []⟩

theorem SameRecords.jobType {left right : Env} (hSame : SameRecords left right) (job : Job) :
    jobType left job = jobType right job := by
  cases job with
  | function decl => rfl
  | constructor record => simp only [Compile.jobType, hSame.registry, hSame.constructorRef]

/-- A job that a program gives rise to, with the name of its function. -/
def Arises (program : Program) (registry : Registry) (name : String) : Job → Prop
  | .function decl => (decl ∈ program.functions ∧ name = decl.name) ∨
      (∃ record ∈ program.records, decl ∈ methodsOf record) ∧ name = decl.qualifiedName
  | .constructor record => ∃ found, registry.get? record = some found ∧
      name = constructorName found.name

/-- What all additions have in common. -/
theorem Adds.grow (hAdds : Adds program state after) :
    ∃ job name ref env, after = state.grow job name ref env ∧ name ∉ state.seen ∧
      ref.index = state.next ∧ SameRecords env state.env ∧ ref.type = jobType state.env job ∧
      Arises program state.env.registry name job := by
  cases hAdds with
  | function decl hDecl hNew =>
      exact ⟨_, _, _, _, rfl, hNew, rfl, ⟨rfl, rfl, rfl, rfl⟩, rfl, .inl ⟨hDecl, rfl⟩⟩
  | method record decl hRecord hMethod hNew =>
      exact ⟨_, _, _, _, rfl, hNew, rfl, ⟨rfl, rfl, rfl, rfl⟩, rfl,
        .inr ⟨⟨record, hRecord, hMethod⟩, rfl⟩⟩
  | constructor record found hRecord hFound hNew =>
      refine ⟨_, _, _, _, rfl, hNew, rfl, ⟨rfl, rfl, rfl, rfl⟩, ?_, found, hFound, rfl⟩
      simp [jobType, hFound, Env.constructorRef, FuncRef.type]

/-! ## What is declared in the end -/

/-- A declared function that has no body yet. -/
def blank (env : Env) (item : Declared) : Assembly.Function :=
  { name := item.name, type := jobType env item.job }

/-- Where the functions of a program stand among those of the module. -/
structure Listed (program : Program) (start state : Declarations) : Prop where
  same : SameRecords state.env start.env
  builder : state.builder = { start.builder with
    funcs := start.builder.funcs ++ state.declared.map (blank start.env) }
  index : ∀ place item, state.declared[place]? = some item →
    item.index = (start.builder.numFunctions + place).toUInt32
  arises : ∀ item ∈ state.declared, Arises program start.env.registry item.name item.job
  seen : state.seen = (state.declared.map Declared.name).reverse ++ start.seen
  fresh : ((state.declared.map Declared.name).reverse ++ start.seen).Nodup

theorem Listed.add {start : Declarations} (hListed : Listed program start state)
    (hAdds : Adds program state after) : Listed program start after := by
  obtain ⟨job, name, ref, env, rfl, hNew, hIndex, hSame, hType, hArises⟩ := hAdds.grow
  have hNext : state.next = (start.builder.numFunctions + state.declared.length).toUInt32 := by
    rw [Declarations.next, hListed.builder]
    simp [Builder.numFunctions, Nat.add_assoc]
  constructor
  · exact hSame.trans hListed.same
  · simp [Declarations.grow, hListed.builder, hType, hListed.same.jobType, blank]
  · intro place item hItem
    rw [Declarations.grow, List.getElem?_append] at hItem
    split at hItem
    · exact hListed.index place item hItem
    · obtain ⟨hPlace, rfl⟩ := List.getElem?_eq_some_iff.1 hItem
      have hLast : place = state.declared.length := by
        simp only [List.length_singleton] at hPlace
        omega
      simp [hIndex, hNext, hLast]
  · intro item hItem
    rw [Declarations.grow, List.mem_append, List.mem_singleton] at hItem
    rcases hItem with hOld | rfl
    · exact hListed.arises item hOld
    · exact hListed.same.registry ▸ hArises
  · simp [Declarations.grow, hListed.seen]
  · rw [hListed.seen] at hNew
    simpa [Declarations.grow] using ⟨by simpa using hNew, hListed.fresh⟩

theorem Reaches.listed {start : Declarations} (hNone : start.declared = [])
    (hSeen : start.seen.Nodup) (hReaches : Reaches program start state) :
    Listed program start state := by
  induction hReaches with
  | refl => exact ⟨⟨rfl, rfl, rfl, rfl⟩, by simp [hNone], by simp [hNone], by simp [hNone],
      by simp [hNone], by simpa [hNone] using hSeen⟩
  | tail _ hAdds ih => exact ih.add hAdds

/-- Where the functions come from that may be called. -/
structure Referred (program : Program) (start : Env) (env : Env) (declared : List Declared) :
    Prop where
  funcs : ∀ ref ∈ env.funcs, ref ∈ start.funcs ∨
    ∃ decl ∈ program.functions, ref = .ofDecl decl ref.index ∧
      ⟨.function decl, decl.name, ref.index⟩ ∈ declared
  methods : ∀ record ref, (record, ref) ∈ env.methods → (record, ref) ∈ start.methods ∨
    ∃ decl, (∃ owner ∈ program.records, owner.name = record ∧ decl ∈ methodsOf owner) ∧
      decl.receiver = record ∧ ref = .ofDecl decl ref.index ∧
      ⟨.function decl, decl.qualifiedName, ref.index⟩ ∈ declared
  constructors : ∀ record ref, (record, ref) ∈ env.constructors →
    (record, ref) ∈ start.constructors ∨
    ∃ found, start.registry.get? record = some found ∧
      ref = start.constructorRef found ref.index ∧
      ⟨.constructor record, constructorName found.name, ref.index⟩ ∈ declared

/-- Further declarations do not matter. -/
theorem Referred.mono {start env : Env} {declared more : List Declared}
    (hReferred : Referred program start env declared) (hMore : declared ⊆ more) :
    Referred program start env more := by
  obtain ⟨hFuncs, hMethods, hConstructors⟩ := hReferred
  refine ⟨fun ref hRef => ?_, fun record ref hRef => ?_, fun record ref hRef => ?_⟩
  · rcases hFuncs ref hRef with hOld | ⟨decl, hDecl, hEq, hItem⟩
    · exact .inl hOld
    · exact .inr ⟨decl, hDecl, hEq, hMore hItem⟩
  · rcases hMethods record ref hRef with hOld | ⟨decl, hOwner, hReceiver, hEq, hItem⟩
    · exact .inl hOld
    · exact .inr ⟨decl, hOwner, hReceiver, hEq, hMore hItem⟩
  · rcases hConstructors record ref hRef with hOld | ⟨found, hFound, hEq, hItem⟩
    · exact .inl hOld
    · exact .inr ⟨found, hFound, hEq, hMore hItem⟩

theorem Referred.add {start : Env} (hReferred : Referred program start state.env state.declared)
    (hSame : SameRecords state.env start) (hAdds : Adds program state after) :
    Referred program start after.env after.declared := by
  have hKept (more : List Declared) := hReferred.mono (List.subset_append_left state.declared more)
  cases hAdds with
  | function decl hDecl hNew =>
      refine ⟨fun ref hRef => ?_, (hKept _).methods, (hKept _).constructors⟩
      rcases List.mem_cons.1 hRef with rfl | hOld
      · exact .inr ⟨decl, hDecl, rfl, by simp [Declarations.grow, FuncRef.ofDecl]⟩
      · exact (hKept _).funcs ref hOld
  | method record decl hRecord hMethod hNew =>
      refine ⟨(hKept _).funcs, fun name ref hRef => ?_, (hKept _).constructors⟩
      rcases List.mem_cons.1 hRef with hThis | hOld
      · cases hThis
        exact .inr ⟨decl, ⟨record, hRecord, rfl, hMethod⟩, receiver_of_mem hMethod, rfl,
          by simp [Declarations.grow, FuncRef.ofDecl]⟩
      · exact (hKept _).methods name ref hOld
  | constructor record found hRecord hFound hNew =>
      refine ⟨(hKept _).funcs, (hKept _).methods, fun name ref hRef => ?_⟩
      rcases List.mem_cons.1 hRef with hThis | hOld
      · cases hThis
        refine .inr ⟨found, hSame.registry ▸ hFound, hSame.constructorRef found _, ?_⟩
        simp [Declarations.grow, Env.constructorRef]
      · exact (hKept _).constructors name ref hOld

theorem Reaches.referred {start : Declarations} (hNone : start.declared = [])
    (hSeen : start.seen.Nodup) (hReaches : Reaches program start state) :
    Referred program start.env state.env state.declared := by
  induction hReaches with
  | refl => exact ⟨fun _ => .inl, fun _ _ => .inl, fun _ _ => .inl⟩
  | tail hBefore hAdds ih => exact ih.add (Reaches.listed hNone hSeen hBefore).same hAdds

end RecordWasm.Compile
