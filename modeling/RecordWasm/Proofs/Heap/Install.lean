import RecordWasm.Heap
import RecordWasm.Machine.Exec
import RecordWasm.Proofs.Success

/-!
# What installing a heap adds to a module

Two globals and two functions are put behind what is there, and nothing else changes.  `install_eq`
says so with the indices as numbers, as long as the functions have indices.
-/

namespace RecordWasm

open Wasm Assembly Machine

/-- A table of functions holds the functions of a builder at their indices, as far as they have a
body. -/
def Assembly.Builder.Linked (builder : Builder) (functions : Array Machine.Function) : Prop :=
  ∀ (place : Nat) (function : Assembly.Function) (body : Assembly.Body),
    builder.funcs[place]? = some function → function.body = some body →
      ∃ types steps, Step.ofInstrs? types body.instrs = some steps ∧
        functions[builder.imports.length + place]? = some (.coded function.type body.locals steps)

/-- A function of a module as the machine runs it. -/
def Assembly.Function.coded (function : Assembly.Function) : Machine.Function :=
  let body := function.body.getD ⟨[], []⟩
  .coded function.type body.locals ((Step.ofInstrs? [] body.instrs).getD [])

/-- The functions of an instance: those of the outside in front, then those of the builder. -/
def Assembly.Builder.instantiate (builder : Builder) (hosts : List Machine.Function) :
    Array Machine.Function :=
  (hosts ++ builder.funcs.map Assembly.Function.coded).toArray

theorem Assembly.Builder.linked_instantiate {builder : Builder} {hosts : List Machine.Function}
    (hHosts : hosts.length = builder.imports.length)
    (hRead : ∀ function ∈ builder.funcs, ∀ body, function.body = some body →
      (Step.ofInstrs? [] body.instrs).isSome) : builder.Linked (builder.instantiate hosts) := by
  intro place function body hFunction hBody
  obtain ⟨steps, hSteps⟩ := Option.isSome_iff_exists.1
    (hRead function (List.mem_of_getElem? hFunction) body hBody)
  refine ⟨[], steps, hSteps, ?_⟩
  rw [instantiate, List.getElem?_toArray, List.getElem?_append_right (by omega), hHosts,
    Nat.add_sub_cancel_left, List.getElem?_map, hFunction]
  simp [Assembly.Function.coded, hBody, hSteps]

/-- A function without a body is given one. -/
theorem Assembly.Builder.setBody_blank {builder : Builder} {index : UInt32} {body : Assembly.Body}
    {place : Nat} {function : Assembly.Function}
    (hIndex : index.toNat = builder.imports.length + place)
    (hFunction : builder.funcs[place]? = some function) (hBlank : function.body = none) :
    builder.setBody index body = .ok { builder with
      funcs := builder.funcs.set place { function with body := some body } } := by
  rw [Builder.setBody]
  simp only [hIndex, Nat.add_sub_cancel_left, hFunction, hBlank]
  rw [if_neg (by omega)]

namespace Heap

variable {builder installed : Builder} {base pages : UInt32} {handle : Handle}

/-- A heap that is accepted fits into the pages that a heap may have. -/
theorem checkConfig_ok (hCheck : checkConfig base pages = .ok ()) :
    1 ≤ pages.toNat ∧ base.toNat + pages.toNat * 65536 ≤ 16777216 := by
  simp only [checkConfig, bind_ok, require_ok, exists_and_left, ne_eq] at hCheck
  obtain ⟨-, ⟨hSome, -⟩, -, -, hRoom⟩ := hCheck
  constructor
  · have hZero : pages.toNat ≠ 0 := fun hZero => hSome (UInt32.toNat_inj.1 hZero)
    omega
  · exact hRoom

/-- The limit of a heap that is accepted does not wrap. -/
theorem toNat_limit (hCheck : checkConfig base pages = .ok ()) :
    (base + pages * pageBytes).toNat = base.toNat + pages.toNat * 65536 := by
  obtain ⟨-, hFits⟩ := checkConfig_ok hCheck
  have hBytes : pageBytes.toNat = 65536 := rfl
  have hProduct : (pages * pageBytes).toNat = pages.toNat * 65536 := by
    rw [UInt32.toNat_mul, hBytes, Nat.mod_eq_of_lt (by omega)]
  rw [UInt32.toNat_add, hProduct, Nat.mod_eq_of_lt (by omega)]

theorem Handle.toNat_memoryPages (handle : Handle) (hLimit : handle.limit.toNat + 65535 < 2 ^ 32) :
    handle.memoryPages.toNat = (handle.limit.toNat + 65535) / 65536 := by
  have hBytes : pageBytes.toNat = 65536 := rfl
  have hOne : (1 : UInt32).toNat = 1 := rfl
  rw [Handle.memoryPages, UInt32.toNat_div, UInt32.toNat_sub, UInt32.toNat_add, hBytes]
  omega

/-- The handle that installing a heap gives. -/
def handleAt (builder : Builder) (base pages : UInt32) : Handle where
  base := base
  limit := base + pages * pageBytes
  cursorGlobal := builder.globals.length.toUInt32
  limitGlobal := (builder.globals.length + 1).toUInt32
  allocFunc := builder.numFunctions.toUInt32
  resetFunc := (builder.numFunctions + 1).toUInt32

/-- The functions of a heap with their bodies. -/
def Handle.functions (handle : Handle) : List Assembly.Function :=
  [{ name := allocName, type := allocType, body := some ⟨allocLocals, handle.allocInstrs⟩ },
    { name := resetName, type := resetType, body := some ⟨[], handle.resetInstrs⟩ }]

/-- The builder with the globals of a heap and its functions, which have no bodies yet. -/
def declared (builder : Builder) (base pages : UInt32) : Builder :=
  { builder with
    globals := builder.globals ++ [wordGlobal base, wordGlobal (base + pages * pageBytes)]
    funcs := builder.funcs ++
      [{ name := allocName, type := allocType }, { name := resetName, type := resetType }] }

/-- The builder with a heap in it. -/
def withHeap (builder : Builder) (base pages : UInt32) : Builder :=
  { builder with
    globals := builder.globals ++ [wordGlobal base, wordGlobal (base + pages * pageBytes)]
    funcs := builder.funcs ++ (handleAt builder base pages).functions }

/-- The functions of a heap are given their bodies. -/
theorem setBodies_declared (hFunctions : builder.numFunctions + 2 ≤ 2 ^ 32) :
    ((declared builder base pages).setBody (handleAt builder base pages).allocFunc
        ⟨allocLocals, (handleAt builder base pages).allocInstrs⟩ >>= fun left =>
      left.setBody (handleAt builder base pages).resetFunc
        ⟨[], (handleAt builder base pages).resetInstrs⟩) = .ok (withHeap builder base pages) := by
  have hAlloc : (handleAt builder base pages).allocFunc.toNat =
      builder.imports.length + builder.funcs.length := by
    rw [handleAt, toNat_toUInt32 (by omega), Builder.numFunctions]
  have hReset : (handleAt builder base pages).resetFunc.toNat =
      builder.imports.length + (builder.funcs.length + 1) := by
    rw [handleAt, toNat_toUInt32 (by omega), Builder.numFunctions, Nat.add_assoc]
  rw [bind_ok]
  refine ⟨_, @Builder.setBody_blank _ _ _ builder.funcs.length ⟨allocName, allocType, none⟩ hAlloc
    (by simp [declared]) rfl, ?_⟩
  rw [@Builder.setBody_blank _ _ _ (builder.funcs.length + 1) ⟨resetName, resetType, none⟩]
  · simp [declared, withHeap, Handle.functions]
  · exact hReset
  · simp [declared]
  · rfl

/-- Behind the check of the configuration nothing fails. -/
theorem install_gives (hCheck : checkConfig base pages = .ok ())
    (hFunctions : builder.numFunctions + 2 ≤ 2 ^ 32) :
    install builder base pages = .ok (handleAt builder base pages,
      withHeap builder base pages) := by
  obtain ⟨middle, hAlloc, hReset⟩ :=
    bind_ok.1 (@setBodies_declared builder base pages hFunctions)
  simp only [install, installWith, setBody, bind_ok, mapError_ok, pure_ok, Builder.addGlobal,
    Builder.declareFunction, Builder.numFunctions, List.append_assoc, List.cons_append,
    List.nil_append, List.length_append, List.length_cons, List.length_nil, Nat.zero_add]
  exact ⟨(), hCheck, middle, hAlloc, withHeap builder base pages, hReset, rfl⟩

/-- Installing adds two globals and two functions. -/
theorem install_eq (hInstall : install builder base pages = .ok (handle, installed))
    (hFunctions : builder.numFunctions + 2 ≤ 2 ^ 32) :
    checkConfig base pages = .ok () ∧ handle = handleAt builder base pages ∧
      installed = { builder with
        globals := builder.globals ++ [wordGlobal base, wordGlobal (base + pages * pageBytes)]
        funcs := builder.funcs ++ handle.functions } := by
  have hCheck : checkConfig base pages = .ok () := by
    simp only [install, installWith, bind_ok, mapError_ok] at hInstall
    exact hInstall.choose_spec.1
  rw [install_gives hCheck hFunctions] at hInstall
  cases hInstall
  exact ⟨hCheck, rfl, rfl⟩

end Heap

end RecordWasm
