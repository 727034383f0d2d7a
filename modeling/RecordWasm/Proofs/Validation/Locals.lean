import RecordWasm.Proofs.Binary.LocalRuns
import RecordWasm.Proofs.Lowering.Slots
import RecordWasm.Proofs.Validation.Program

/-!
# Slots and the locals of a function

The slots that a function hands out are the places of its locals: of its parameters and behind them
of the locals that the runs in its body stand for.  A slot is for values of the type that its local
has.
-/

namespace RecordWasm.Validation

open Syntax Lowering Wasm

/-- The locals of a function are those that its slots are for, in order. -/
theorem locals_of_handsOut {env : Env} {decl : FuncDecl} {body : FunctionBody} {handed : List Slot}
    (hLower : lowerFunction env decl = .ok body) (hHandsOut : HandsOut env decl handed) :
    ∃ types, handed = slotsFrom 0 types ∧ (∀ type ∈ types, type.isVoid = false) ∧
      body.type.params ++ body.locals = types.flatMap reprs := by
  obtain ⟨types, rfl, hSome, hType, hLocals⟩ := hHandsOut.numbered hLower
  have hOwn : ∀ type ∈ types, type.isVoid = false :=
    fun type hMem => hSome type (List.mem_append_right _ hMem)
  refine ⟨paramTypes decl ++ types, rfl, hSome, ?_⟩
  rw [hType, params_signature, hLocals, List.flatMap_append, flatMap_reprs hOwn]

/-- Runs keep every local, and every slot of a function is the place of a local of its type.  The
runs that a list of types is compacted to stand for the list; none of them is empty, and no two
neighbours are of one type.  They come about from the front to the back, each type making the last
run longer or starting a new one.  A function that is compiled hands out a slot for each local, all
with indices of their own, and the index of each is the place of a local that is represented as the
slot is.  This needs a word for each local: with more of them, two slots have the same index
(`nodup_index_slotsFrom`). -/
theorem slots_denote_locals :
    (∀ types : List ValType, types.length < 2 ^ 32 →
      LocalRun.expand (LocalRun.compact types) = types ∧
      (∀ run ∈ LocalRun.compact types, 1 ≤ run.count) ∧
      ((LocalRun.compact types).IsChain fun left right => left.type ≠ right.type) ∧
      LocalRun.compact types = types.foldl LocalRun.extend []) ∧
    ∀ (env : Env) (decl : FuncDecl) (body : FunctionBody), lowerFunction env decl = .ok body →
      body.locals.length < 2 ^ 32 → body.type.params.length + body.locals.length ≤ 2 ^ 32 →
      (∃ handed, HandsOut env decl handed) ∧
      ∀ handed, HandsOut env decl handed →
        handed.length = body.type.params.length + body.locals.length ∧
        (handed.map Slot.index).Nodup ∧
        ∀ slot ∈ handed, ∃ number, numType? slot.type = some number ∧
          (body.type.params ++ LocalRun.expand body.encode.locals)[slot.index.toNat]? =
            some number.valType := by
  refine ⟨fun types hShort => ?_, fun env decl body hLower hShort hFew => ?_⟩
  · obtain ⟨hExpand, hCounts⟩ := LocalRun.expand_compact hShort
    exact ⟨hExpand, hCounts, LocalRun.compact_apart types, LocalRun.compact_eq_foldl types⟩
  refine ⟨exists_handsOut hLower, fun handed hHandsOut => ?_⟩
  obtain ⟨types, rfl, hSome, hLocals⟩ := locals_of_handsOut hLower hHandsOut
  have hCount := congrArg List.length hLocals
  rw [List.length_append, length_flatMap_reprs hSome] at hCount
  rw [hCount] at hFew
  refine ⟨by rw [length_slotsFrom, hCount], (nodup_index_slotsFrom 0 types).2 hFew,
    fun slot hSlot => ?_⟩
  obtain ⟨place, hPlace⟩ := List.mem_iff_getElem?.1 hSlot
  rw [getElem?_slotsFrom, Option.map_eq_some_iff] at hPlace
  obtain ⟨type, hType, rfl⟩ := hPlace
  have hBound := (List.getElem?_eq_some_iff.1 hType).1
  obtain ⟨number, hNumber, hLocal⟩ := getElem?_flatMap_reprs hSome hType
  refine ⟨number, hNumber, ?_⟩
  rw [FunctionBody.encode, (LocalRun.expand_compact hShort).1, hLocals, Nat.zero_add,
    toNat_toUInt32 (by omega), hLocal]

/-- A function with slots for parameters, one of them without a name, for names in nested scopes,
for a counter and its limit, for a matched value and for what an arm binds. -/
def mixed : FuncDecl where
  name := "mixed"
  params := [⟨{}, "times", .i64⟩, ⟨{}, "", .f32⟩, ⟨{}, "flag", .bool⟩]
  result := .i64
  body := [
    .declare {} "scale" .void (.float {} 0),
    .forRange {} "turn" (.int {} 0) (.ident {} "times") [
      .declare {} "scale" .void (.ident {} "turn"),
      .declare {} "seen" .void (.ident {} "flag")],
    .eval {} (.cases {} (.ident {} "times") [.mk {} (.bind {} "all") (.ident {} "all")])]

theorem slots_denote_locals_mixed :
    LocalRun.expand (LocalRun.compact [.i64, .i64, .i32, .i64]) = [.i64, .i64, .i32, .i64] ∧
    ∃ body handed, lowerFunction ⟨{}, ⟨8, 65536, 0, 1, 0, 1⟩, [], [], [], [], []⟩ mixed = .ok body ∧
      body.type.params = [.i64, .f32, .i32] ∧
      body.encode.locals = [⟨1, .f64⟩, ⟨3, .i64⟩, ⟨1, .i32⟩, ⟨2, .i64⟩] ∧
      HandsOut ⟨{}, ⟨8, 65536, 0, 1, 0, 1⟩, [], [], [], [], []⟩ mixed handed ∧
      handed.length = 10 ∧ (handed.map Slot.index).Nodup ∧
      ∀ slot ∈ handed, ∃ number, numType? slot.type = some number ∧
        (body.type.params ++ LocalRun.expand body.encode.locals)[slot.index.toNat]? =
          some number.valType := by
  obtain ⟨body, hLower, hCheck⟩ := @ok_of_any _ _
    (lowerFunction ⟨{}, ⟨8, 65536, 0, 1, 0, 1⟩, [], [], [], [], []⟩ mixed)
    (fun body => body.type.params = [.i64, .f32, .i32] ∧
      body.locals = [.f64, .i64, .i64, .i64, .i32, .i64, .i64]) (by decide +kernel)
  obtain ⟨hParams, hLocals⟩ := of_decide_eq_true hCheck
  obtain ⟨⟨handed, hHandsOut⟩, hAll⟩ := slots_denote_locals.2 _ _ _ hLower
    (by rw [hLocals]; decide) (by rw [hParams, hLocals]; decide)
  obtain ⟨hCount, hApart, hDenote⟩ := hAll handed hHandsOut
  have hRuns : body.encode.locals = [⟨1, .f64⟩, ⟨3, .i64⟩, ⟨1, .i32⟩, ⟨2, .i64⟩] :=
    (congrArg LocalRun.compact hLocals).trans (by decide)
  exact ⟨(slots_denote_locals.1 _ (by decide)).1, body, handed, hLower, hParams, hRuns, hHandsOut,
    by rw [hCount, hParams, hLocals]; rfl, hApart, hDenote⟩

end RecordWasm.Validation
