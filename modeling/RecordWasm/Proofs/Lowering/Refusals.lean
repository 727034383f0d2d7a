import RecordWasm.Lowering.Function
import RecordWasm.Proofs.Success
import RecordWasm.Proofs.Syntax.Complete

/-!
# Refusals that speak of a hole

Generating code refuses a node that is not there with one of four texts.  No other refusal has one
of them, whatever the names are that it quotes: its first three characters tell it apart, or the
comma in it.  So what is put together of pieces that never come to a hole never comes to one.
-/

namespace RecordWasm

/-- What a failure says, followed by what the failures behind it say. -/
def Failure.details : Failure → List String
  | .plain message => [message]
  | .coded report none => [report.detail]
  | .coded report (some cause) => report.detail :: cause.details

end RecordWasm

namespace RecordWasm.Lowering

open Syntax Layout Wasm

/-- What is said of a node that is not there. -/
def holeDetails : List String :=
  ["missing expression", "missing statement", "match arm without a pattern",
    "if without a then block"]

/-- The first three characters of what is said of a hole. -/
@[simp] def holeStarts : List (List Char) := [['m', 'i', 's'], ['m', 'a', 't'], ['i', 'f', ' ']]

/-- A text that starts otherwise is told apart from the beginning, whatever follows. -/
theorem apart {detail : String} (hStart : detail.toList.take 3 ∉ holeStarts) :
    detail ∉ holeDetails := by
  intro hHole
  have hStarts : ∀ hole ∈ holeDetails, hole.toList.take 3 ∈ holeStarts := by decide
  exact hStart (hStarts detail hHole)

theorem apart_of_comma {detail : String} (hComma : ',' ∈ detail.toList) : detail ∉ holeDetails := by
  intro hHole
  have hNone : ∀ hole ∈ holeDetails, ',' ∉ hole.toList := by decide
  exact hNone detail hHole hComma

/-- A failure that speaks of no hole. -/
def Ordinary (failure : Failure) : Prop := ∀ detail ∈ failure.details, detail ∉ holeDetails

theorem ordinary_report {report : Report} (hDetail : report.detail ∉ holeDetails) :
    Ordinary report.failure :=
  List.forall_mem_singleton.2 hDetail

theorem ordinary_because {report : Report} {cause : Failure}
    (hDetail : report.detail ∉ holeDetails) (hCause : Ordinary cause) :
    Ordinary (report.because cause) :=
  List.forall_mem_cons.2 ⟨hDetail, hCause⟩

/-- Code generation that never comes to a hole. -/
def Spares {α : Type} (action : Gen α) : Prop :=
  ∀ slots failure, action slots = .error failure → Ordinary failure

section Steps

variable {α β : Type} {context : Context} {pos : Position}

theorem spares_pure {value : α} : Spares (pure value : Gen α) := by
  intro slots failure hPure
  cases hPure

theorem spares_bind {first : Gen α} {next : α → Gen β} (hFirst : Spares first)
    (hNext : ∀ value, Spares (next value)) : Spares (first >>= next) := by
  intro slots failure hBind
  change (first slots >>= fun pair => next pair.1 pair.2) = .error failure at hBind
  rw [bind_error] at hBind
  rcases hBind with hHere | ⟨⟨value, middle⟩, -, hLater⟩
  · exact hFirst slots failure hHere
  · exact hNext value middle failure hLater

theorem spares_lift {first : Except Failure α}
    (hFirst : ∀ failure, first = .error failure → Ordinary failure) :
    Spares (liftM first : Gen α) := by
  intro slots failure hLift
  cases first with
  | error cause =>
      obtain rfl : cause = failure := Except.error.inj hLift
      exact hFirst cause rfl
  | ok value => cases hLift

theorem spares_fail {kind : Kind} {detail : String} (hDetail : detail ∉ holeDetails) :
    Spares (context.fail pos kind detail : Gen α) := by
  intro slots failure hFail
  cases hFail
  exact ordinary_report hDetail

theorem spares_unsupported {construct : String} (hDetail : construct ∉ holeDetails) :
    Spares (context.unsupported pos construct : Gen α) := by
  intro slots failure hFail
  cases hFail
  exact ordinary_report hDetail

theorem spares_mismatch {want got : Ty} : Spares (context.mismatch pos want got : Gen α) := by
  intro slots failure hFail
  cases hFail
  exact ordinary_report (apart (by simp [Context.report, toString]))

theorem spares_ite {condition : Prop} [Decidable condition] {first second : Gen α}
    (hFirst : condition → Spares first) (hSecond : ¬condition → Spares second) :
    Spares (if condition then first else second) := by
  split
  · rename_i hCondition
    exact hFirst hCondition
  · rename_i hCondition
    exact hSecond hCondition

/-- A test that makes lowering fail. -/
theorem spares_unless {condition : Prop} [Decidable condition] {kind : Kind} {detail : String}
    {next : α → Gen β} {rest : Gen β} (hDetail : detail ∉ holeDetails) (hRest : Spares rest) :
    Spares (if condition then context.fail pos kind detail >>= next else rest) := by
  split
  · intro slots failure hFail
    cases hFail
    exact ordinary_report hDetail
  · exact hRest

theorem spares_newSlot {type : Ty} : Spares (newSlot type) := by
  intro slots failure hSlot
  cases hSlot

theorem spares_expect {want : Ty} {lowered : Lowered} :
    Spares (expect context pos want lowered) := by
  rw [expect]
  exact spares_ite (fun _ => spares_pure) fun _ => spares_mismatch

/-- A value of an expected type. -/
theorem spares_value {want : Ty} {lower : Gen Lowered} {next : Code → Gen β} (hLower : Spares lower)
    (hNext : ∀ code, Spares (next code)) :
    Spares (lower >>= fun lowered => expect context pos want lowered >>= next) :=
  spares_bind hLower fun _ => spares_bind spares_expect hNext

theorem spares_settle {want : Ty} {lowered : Lowered} :
    Spares (settle context pos want lowered) := by
  rw [settle]
  exact spares_ite (fun _ => spares_pure) fun _ => spares_expect

/-- The value of an arm. -/
theorem spares_settled {want : Ty} {lower : Gen Lowered} {next : Code → Gen β}
    (hLower : Spares lower) (hNext : ∀ code, Spares (next code)) :
    Spares (lower >>= fun lowered => settle context pos want lowered >>= next) :=
  spares_bind hLower fun _ => spares_bind spares_settle hNext

end Steps

section Leaves

variable {context : Context} {pos : Position}

theorem loadField_spares {base : Ty} {field : String} :
    Spares (loadField context pos base field) := by
  unfold loadField
  split
  · split
    · exact spares_fail (apart (by simp [toString]))
    · split
      · exact spares_fail (apart (by simp [toString]))
      · exact spares_pure
  · exact spares_fail (apart (by simp [toString]))

theorem loadPath_spares {base : Ty} {path : List String} :
    Spares (loadPath context pos base path) := by
  induction path generalizing base with
  | nil => exact spares_pure
  | cons field rest ih =>
      exact spares_bind loadField_spares fun _ => spares_bind ih fun _ => spares_pure

theorem lowerVariant_spares {enum variant : String} :
    Spares (lowerVariant context pos enum variant) := by
  rw [lowerVariant]
  split
  · exact spares_pure
  · exact spares_fail (apart (by simp [toString]))

theorem lowerIdent_spares {name : String} : Spares (lowerIdent context pos name) := by
  rw [lowerIdent]
  split
  · exact spares_pure
  · split
    · exact spares_pure
    · split
      · exact spares_bind loadPath_spares fun _ => spares_pure
      · split
        · exact lowerVariant_spares
        · exact spares_fail (apart (by simp [toString]))

theorem checkArity_spares {ref : FuncRef} {params : List Ty} {args : List Expr} :
    Spares (checkArity context pos ref params args) := by
  rw [checkArity]
  exact spares_ite (fun _ => spares_pure) fun _ =>
    spares_fail (apart_of_comma (by simp [toString]))

theorem checkPattern_spares {pattern : Pattern} (hPattern : pattern.Complete) :
    Spares (checkPattern context pattern) := by
  have hRefused : "non-literal match pattern" ∉ holeDetails := by decide
  cases hPattern with
  | wildcard | bind => exact spares_pure
  | literal =>
      unfold checkPattern
      exact spares_ite (fun _ => spares_pure) fun _ => spares_unsupported hRefused
  | constructor => exact spares_unsupported hRefused

theorem checkPatterns_spares {arms : List Arm} (hArms : ∀ arm ∈ arms, arm.Complete) :
    Spares (arms.forM fun arm => checkPattern context arm.pattern) := by
  induction arms with
  | nil => exact spares_pure
  | cons arm rest ih =>
      rw [List.forall_mem_cons] at hArms
      obtain ⟨⟨hPattern, -⟩, hRest⟩ := hArms
      exact spares_bind (checkPattern_spares hPattern) fun _ => ih hRest

theorem unique_spares {record : Record} {name : String} {inits : List FieldInit}
    {seen : List String} : Spares (checkInits.unique context record name seen inits) := by
  induction inits generalizing seen with
  | nil => exact spares_pure
  | cons init rest ih =>
      cases init with
      | mk place label value =>
          rw [checkInits.unique]
          refine spares_unless (apart (by simp [toString])) ?_
          exact spares_unless (apart (by simp [toString])) ih

theorem checkInits_spares {record : Record} {name : String} {inits : List FieldInit} :
    Spares (checkInits context pos record name inits) := by
  refine spares_bind unique_spares fun _ => ?_
  split
  · exact spares_fail (apart (by simp [toString]))
  · exact spares_pure

theorem storeFields_spares {typeName : String} {address : UInt32}
    {values : List (String × (Ty → Gen Code))} {fields : List Field}
    (hValues : ∀ name lower, values.lookup name = some lower → ∀ want, Spares (lower want)) :
    Spares (storeFields context typeName address values fields) := by
  induction fields with
  | nil => exact spares_pure
  | cons field rest ih =>
      have hRest : ∀ value : Code, Spares (storeFields context typeName address values rest >>=
          fun others => pure (.localGet address :: value ++ storeInstr field :: others)) :=
        fun value => spares_bind ih fun _ => spares_pure
      rw [storeFields]
      split
      · rename_i lower hLower
        exact spares_bind (hValues field.name lower hLower _) hRest
      · exact spares_bind spares_pure hRest

theorem allocCode_ordinary {env : Env} {decl : String} {record : Record} {address : UInt32}
    {failure : Failure} (hAlloc : allocCode env decl record address = .error failure) :
    Ordinary failure := by
  rw [allocCode] at hAlloc
  split at hAlloc
  · rename_i cause hAlign
    cases hAlloc
    refine ordinary_because (apart (by simp [toString])) ?_
    rw [Heap.checkAlign] at hAlign
    split at hAlign
    · cases hAlign
      exact ordinary_report (apart (by simp [toString]))
    · cases hAlign
  · cases hAlloc

theorem lowerConstruct_spares {typeName : String} {inits : List FieldInit}
    {values : List (String × (Ty → Gen Code))}
    (hValues : ∀ name lower, values.lookup name = some lower → ∀ want, Spares (lower want)) :
    Spares (lowerConstruct context pos typeName inits values) := by
  rw [lowerConstruct]
  split
  · exact spares_fail (apart (by simp [toString]))
  · refine spares_bind checkInits_spares fun _ => spares_bind spares_newSlot fun _ => ?_
    refine spares_bind (spares_lift fun _ => allocCode_ordinary) fun _ => ?_
    exact spares_bind (storeFields_spares hValues) fun _ => spares_pure

end Leaves

end RecordWasm.Lowering
