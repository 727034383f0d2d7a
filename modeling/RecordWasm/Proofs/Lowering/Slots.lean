import RecordWasm.Proofs.Lowering.Structure
import Mathlib.Data.List.Nodup

/-!
# Slots that are handed out

A function hands out a slot for each of its parameters and then, while its body is lowered, for
names, counters, limits, matched values and new records.  `Hands` follows a run of code generation
through the steps that it is put together of and notes these slots.  Every run that succeeds can be
followed, and the slots come out numbered one after the other, in the order of the types that the
locals of the function have.
-/

namespace RecordWasm.Lowering

open Syntax Layout Wasm

/-- A run of code generation that succeeds, and the slots that it hands out in order.  Only
`newSlot` hands them out, and only for values. -/
inductive Hands : {α : Type} → Gen α → Slots → List Slot → α → Slots → Prop where
  | pure {α : Type} {value : α} {slots : Slots} : Hands (pure value) slots [] value slots
  | lift {α : Type} {value : α} {slots : Slots} :
      Hands (liftM (.ok value : Except Failure α)) slots [] value slots
  | slot {type : Ty} {slot : Slot} {before after : Slots} :
      type.isVoid = false → newSlot type before = .ok (slot, after) →
      Hands (newSlot type) before [slot] slot after
  | bind {α β : Type} {first : Gen α} {next : α → Gen β} {before middle after : Slots}
      {front back : List Slot} {value : α} {result : β} :
      Hands first before front value middle → Hands (next value) middle back result after →
      Hands (first >>= next) before (front ++ back) result after

section Steps

variable {α β : Type} {context : Context} {pos : Position}

/-- What is followed is a run of the action itself. -/
theorem Hands.gives {action : Gen α} {before after : Slots} {handed : List Slot} {value : α}
    (hHands : Hands action before handed value after) : action before = .ok (value, after) := by
  induction hHands with
  | pure | lift => rfl
  | slot _ hSlot => exact hSlot
  | bind _ _ ihFirst ihNext => exact gives_bind.2 ⟨_, _, ihFirst, ihNext⟩

/-- Every run of an action that succeeds can be followed. -/
def Tracked (action : Gen α) : Prop :=
  ∀ before value after, action before = .ok (value, after) →
    ∃ handed, Hands action before handed value after

theorem tracked_pure {value : α} : Tracked (pure value : Gen α) := by
  intro before result after hPure
  obtain ⟨rfl, rfl⟩ := gives_pure.1 hPure
  exact ⟨[], .pure⟩

theorem tracked_bind {first : Gen α} {next : α → Gen β} (hFirst : Tracked first)
    (hNext : ∀ value, Tracked (next value)) : Tracked (first >>= next) := by
  intro before result after hBind
  obtain ⟨value, middle, hValue, hResult⟩ := gives_bind.1 hBind
  obtain ⟨front, hFront⟩ := hFirst _ _ _ hValue
  obtain ⟨back, hBack⟩ := hNext value _ _ _ hResult
  exact ⟨front ++ back, .bind hFront hBack⟩

theorem tracked_lift {first : Except Failure α} : Tracked (liftM first : Gen α) := by
  intro before result after hLift
  obtain ⟨rfl, rfl⟩ := gives_lift.1 hLift
  exact ⟨[], .lift⟩

theorem tracked_newSlot {type : Ty} (hSome : type.isVoid = false) : Tracked (newSlot type) :=
  fun _ slot _ hSlot => ⟨[slot], .slot hSome hSlot⟩

theorem tracked_fail {kind : Kind} {detail : String} :
    Tracked (context.fail pos kind detail : Gen α) :=
  fun _ _ _ hFail => (gives_fail hFail).elim

theorem tracked_unsupported {construct : String} :
    Tracked (context.unsupported pos construct : Gen α) :=
  fun _ _ _ hFail => (gives_unsupported hFail).elim

theorem tracked_mismatch {want got : Ty} : Tracked (context.mismatch pos want got : Gen α) :=
  fun _ _ _ hFail => (gives_mismatch hFail).elim

theorem tracked_ite {condition : Prop} [Decidable condition] {first second : Gen α}
    (hFirst : condition → Tracked first) (hSecond : ¬condition → Tracked second) :
    Tracked (if condition then first else second) := by
  split
  · rename_i hCondition
    exact hFirst hCondition
  · rename_i hCondition
    exact hSecond hCondition

/-- A test that makes lowering fail. -/
theorem tracked_unless {condition : Prop} [Decidable condition] {kind : Kind} {detail : String}
    {next : α → Gen β} {rest : Gen β} (hRest : ¬condition → Tracked rest) :
    Tracked (if condition then context.fail pos kind detail >>= next else rest) :=
  tracked_ite
    (fun _ _ _ _ hFail => by simp only [gives_bind, gives_fail, false_and, exists_false] at hFail)
    hRest

theorem tracked_expect {want : Ty} {lowered : Lowered} :
    Tracked (expect context pos want lowered) := by
  rw [expect]
  exact tracked_ite (fun _ => tracked_pure) fun _ => tracked_mismatch

/-- A value of an expected type. -/
theorem tracked_value {want : Ty} {lower : Gen Lowered} {next : Code → Gen β}
    (hLower : Tracked lower) (hNext : ∀ code, Tracked (next code)) :
    Tracked (lower >>= fun lowered => expect context pos want lowered >>= next) :=
  tracked_bind hLower fun _ => tracked_bind tracked_expect hNext

theorem tracked_settle {want : Ty} {lowered : Lowered} :
    Tracked (settle context pos want lowered) := by
  rw [settle]
  exact tracked_ite (fun _ => tracked_pure) fun _ => tracked_expect

/-- The value of an arm. -/
theorem tracked_settled {want : Ty} {lower : Gen Lowered} {next : Code → Gen β}
    (hLower : Tracked lower) (hNext : ∀ code, Tracked (next code)) :
    Tracked (lower >>= fun lowered => settle context pos want lowered >>= next) :=
  tracked_bind hLower fun _ => tracked_bind tracked_settle hNext

end Steps

section Leaves

variable {context : Context} {pos : Position}

theorem loadField_tracked {base : Ty} {field : String} :
    Tracked (loadField context pos base field) := by
  unfold loadField
  split
  · split
    · exact tracked_fail
    · split
      · exact tracked_fail
      · exact tracked_pure
  · exact tracked_fail

theorem loadPath_tracked {base : Ty} {path : List String} :
    Tracked (loadPath context pos base path) := by
  induction path generalizing base with
  | nil => exact tracked_pure
  | cons field rest ih =>
      exact tracked_bind loadField_tracked fun _ => tracked_bind ih fun _ => tracked_pure

theorem lowerVariant_tracked {enum variant : String} :
    Tracked (lowerVariant context pos enum variant) := by
  rw [lowerVariant]
  split
  · exact tracked_pure
  · exact tracked_fail

theorem lowerIdent_tracked {name : String} : Tracked (lowerIdent context pos name) := by
  rw [lowerIdent]
  split
  · exact tracked_pure
  · refine tracked_ite (fun _ => tracked_pure) fun _ => tracked_ite (fun _ => ?_) fun _ => ?_
    · exact tracked_bind loadPath_tracked fun _ => tracked_pure
    · split
      · exact lowerVariant_tracked
      · exact tracked_fail

theorem checkArity_tracked {ref : FuncRef} {params : List Ty} {args : List Expr} :
    Tracked (checkArity context pos ref params args) := by
  rw [checkArity]
  exact tracked_ite (fun _ => tracked_pure) fun _ => tracked_fail

theorem checkPattern_tracked {pattern : Pattern} : Tracked (checkPattern context pattern) := by
  cases pattern with
  | wildcard | bind => exact tracked_pure
  | literal =>
      unfold checkPattern
      exact tracked_ite (fun _ => tracked_pure) fun _ => tracked_unsupported
  | missing => exact tracked_fail
  | constructor => exact tracked_unsupported

theorem checkPatterns_tracked {arms : List Arm} :
    Tracked (arms.forM fun arm => checkPattern context arm.pattern) := by
  induction arms with
  | nil => exact tracked_pure
  | cons arm rest ih => exact tracked_bind checkPattern_tracked fun _ => ih

theorem unique_tracked {record : Record} {name : String} {inits : List FieldInit}
    {seen : List String} : Tracked (checkInits.unique context record name seen inits) := by
  induction inits generalizing seen with
  | nil => exact tracked_pure
  | cons init rest ih =>
      obtain ⟨place, label, value⟩ := init
      rw [checkInits.unique]
      exact tracked_unless fun _ => tracked_unless fun _ => ih

theorem checkInits_tracked {record : Record} {name : String} {inits : List FieldInit} :
    Tracked (checkInits context pos record name inits) := by
  refine tracked_bind unique_tracked fun _ => ?_
  split
  · exact tracked_fail
  · exact tracked_pure

theorem storeFields_tracked {typeName : String} {address : UInt32}
    {values : List (String × (Ty → Gen Code))} {fields : List Field}
    (hValues : ∀ name lower, values.lookup name = some lower → ∀ want, Tracked (lower want)) :
    Tracked (storeFields context typeName address values fields) := by
  induction fields with
  | nil => exact tracked_pure
  | cons field rest ih =>
      have hRest : ∀ value : Code, Tracked (storeFields context typeName address values rest >>=
          fun others => pure (.localGet address :: value ++ storeInstr field :: others)) :=
        fun value => tracked_bind ih fun _ => tracked_pure
      rw [storeFields]
      split
      · rename_i lower hLower
        exact tracked_bind (hValues field.name lower hLower _) hRest
      · exact tracked_bind tracked_pure hRest

theorem lowerConstruct_tracked {typeName : String} {inits : List FieldInit}
    {values : List (String × (Ty → Gen Code))}
    (hValues : ∀ name lower, values.lookup name = some lower → ∀ want, Tracked (lower want)) :
    Tracked (lowerConstruct context pos typeName inits values) := by
  rw [lowerConstruct]
  split
  · exact tracked_fail
  · refine tracked_bind checkInits_tracked fun _ => tracked_bind (tracked_newSlot rfl) fun _ => ?_
    exact tracked_bind tracked_lift fun _ => tracked_bind (storeFields_tracked hValues) fun _ =>
      tracked_pure

end Leaves

/-! ## Statements and expressions -/

mutual

theorem lowerStmts_tracked : (stmts : List Stmt) → ∀ context, Tracked (lowerStmts context stmts)
  | [], context => by
      rw [lowerStmts]
      exact tracked_pure
  | stmt :: rest, context => by
      rw [lowerStmts]
      refine tracked_bind (lowerStmt_tracked stmt context) fun first => ?_
      exact tracked_bind (lowerStmts_tracked rest first.2) fun _ => tracked_pure

theorem lowerStmt_tracked : (stmt : Stmt) → ∀ context, Tracked (lowerStmt context stmt)
  | .missing, context => by
      rw [lowerStmt]
      exact tracked_fail
  | .declare pos name type value, context => by
      rw [lowerStmt]
      refine tracked_unless fun hSome => ?_
      refine tracked_value (lowerExpr_tracked value _ _ _) fun _ => ?_
      exact tracked_bind (tracked_newSlot (Bool.eq_false_iff.2 hSome)) fun _ => tracked_pure
  | .assign pos target value, context => by
      unfold lowerStmt
      split
      · split
        · exact tracked_value (lowerExpr_tracked value _ _ _) fun _ => tracked_pure
        · exact tracked_ite (fun _ => tracked_unsupported) fun _ => tracked_fail
      · exact tracked_unsupported
      · exact tracked_unsupported
  | .result pos value, context => by
      rw [lowerStmt]
      split
      · exact tracked_pure
      · exact tracked_fail
      · exact tracked_fail
      · exact tracked_value (lowerExpr_tracked value _ _ _) fun _ => tracked_pure
  | .eval pos value, context => by
      rw [lowerStmt]
      exact tracked_bind (lowerExpr_tracked value _ _ _) fun _ => tracked_pure
  | .whileLoop pos cond body, context => by
      rw [lowerStmt]
      refine tracked_value (lowerExpr_tracked cond _ _ _) fun _ => ?_
      exact tracked_bind (lowerStmts_tracked body _) fun _ => tracked_pure
  | .forever pos body, context => by
      rw [lowerStmt]
      exact tracked_bind (lowerStmts_tracked body _) fun _ => tracked_pure
  | .forRange pos var start stop body, context => by
      rw [lowerStmt]
      refine tracked_unless fun hInteger => ?_
      have hSome := isVoid_of_isInteger (by simpa using hInteger)
      refine tracked_value (lowerExpr_tracked start _ _ _) fun _ => ?_
      refine tracked_bind (tracked_newSlot hSome) fun counter => ?_
      refine tracked_value (lowerExpr_tracked stop _ _ _) fun _ => ?_
      refine tracked_bind (tracked_newSlot hSome) fun limit => ?_
      exact tracked_bind (lowerStmts_tracked body _) fun _ => tracked_pure
  | .leave pos, context => by
      rw [lowerStmt]
      split
      · exact tracked_pure
      · exact tracked_fail
  | .next pos, context => by
      rw [lowerStmt]
      split
      · exact tracked_pure
      · exact tracked_fail

theorem lowerExpr_tracked : (expr : Expr) → ∀ context hint asArm,
    Tracked (lowerExpr context hint asArm expr)
  | .missing, _, _, _ => by
      rw [lowerExpr]
      exact tracked_fail
  | .int _ _, _, _, _ | .float _ _, _, _, _ | .bool _ _, _, _, _ => by
      rw [lowerExpr]
      exact tracked_pure
  | .ident tag name, context, _, _ => by
      rw [lowerExpr]
      exact lowerIdent_tracked
  | .binary tag op left right, context, hint, _ => by
      rw [lowerExpr]
      refine tracked_ite (fun _ => ?_) fun _ => tracked_unless fun _ => ?_
      · refine tracked_value (lowerExpr_tracked left _ _ _) fun _ => ?_
        exact tracked_value (lowerExpr_tracked right _ _ _) fun _ => tracked_pure
      · refine tracked_value (lowerExpr_tracked left _ _ _) fun _ => ?_
        refine tracked_value (lowerExpr_tracked right _ _ _) fun _ => ?_
        split
        · exact tracked_unsupported
        · exact tracked_pure
  | .unary tag op operand, context, hint, _ => by
      unfold lowerExpr
      split
      · exact tracked_value (lowerExpr_tracked operand _ _ _) fun _ => tracked_pure
      · refine tracked_ite (fun _ => ?_) fun _ => tracked_unsupported
        refine tracked_value (lowerExpr_tracked operand _ _ _) fun _ => ?_
        split <;> exact tracked_pure
      · exact tracked_unsupported
  | .call tag function args, context, _, _ => by
      have hCall : ∀ ref params (code : Code → Code), Tracked (do
          checkArity context tag.pos ref params args
          return callCode ref (code (← lowerArgs context params args))) := by
        intro ref params code
        refine tracked_bind checkArity_tracked fun _ => ?_
        exact tracked_bind (lowerArgs_tracked args context params) fun _ => tracked_pure
      rw [lowerExpr]
      split
      · exact hCall _ _ id
      · split
        · exact hCall _ _ (.localGet 0 :: ·)
        · split
          · exact hCall _ _ id
          · exact tracked_fail
  | .methodCall tag receiver method args, context, _, _ => by
      rw [lowerExpr]
      split
      · split
        · refine tracked_bind (lowerExpr_tracked receiver _ _ _) fun _ => ?_
          refine tracked_bind checkArity_tracked fun _ => ?_
          exact tracked_bind (lowerArgs_tracked args context _) fun _ => tracked_pure
        · exact tracked_fail
      · exact tracked_fail
  | .branch tag cond body otherwise, context, hint, _ => by
      rw [lowerExpr]
      refine tracked_unless fun _ => ?_
      refine tracked_value (lowerExpr_tracked cond _ _ _) fun _ => ?_
      refine tracked_settled (lowerExpr_tracked body _ _ _) fun _ => ?_
      refine tracked_ite (fun _ => tracked_pure) fun _ => ?_
      exact tracked_settled (lowerExpr_tracked otherwise _ _ _) fun _ => tracked_pure
  | .block tag stmts tail, context, hint, asArm => by
      rw [lowerExpr]
      refine tracked_bind (lowerStmts_tracked stmts context) fun _ => ?_
      refine tracked_ite (fun _ => tracked_pure) fun _ => ?_
      exact tracked_settled (lowerExpr_tracked tail _ _ _) fun _ => tracked_pure
  | .cases tag scrutinee arms, context, hint, _ => by
      rw [lowerExpr]
      refine tracked_unless fun hVoid => tracked_bind checkPatterns_tracked fun _ => ?_
      have hSome := Bool.eq_false_iff.2 hVoid
      refine tracked_value (lowerExpr_tracked scrutinee _ _ _) fun _ => ?_
      -- What the arms bind takes the type of the matched value, so its slot has to be followed.
      intro before lowered after hRest
      obtain ⟨slot, middle, hSlot, hArms⟩ := gives_bind.1 hRest
      obtain ⟨rfl, -⟩ := gives_newSlot.1 hSlot
      obtain ⟨others, hOthers⟩ := tracked_bind (lowerArms_tracked arms context _ _ hSome)
        (fun _ => tracked_pure) _ _ _ hArms
      exact ⟨_, .bind (.slot hSome hSlot) hOthers⟩
  | .member tag subject field, context, _, _ => by
      rw [lowerExpr]
      split
      · refine tracked_value (lowerExpr_tracked subject _ _ _) fun _ => ?_
        exact tracked_bind loadField_tracked fun _ => tracked_pure
      · exact tracked_fail
  | .construct tag record inits, context, _, _ => by
      rw [lowerExpr]
      exact lowerConstruct_tracked (lowerInits_tracked inits context)
  | .variant _ _ _, _, _, _ => by
      rw [lowerExpr]
      exact lowerVariant_tracked
  | .string _ _, _, _, _ | .char _ _, _, _, _ | .null _, _, _, _ | .lambda _ _ _, _, _, _
  | .cast _ _ _, _, _, _ | .attempt _ _, _, _, _ | .quote _ _, _, _, _ | .eval _ _, _, _, _
  | .reflect _ _, _, _, _ | .macroCall _ _ _, _, _, _ | .list _ _, _, _, _
  | .tuple _ _, _, _, _ => by
      rw [lowerExpr]
      exact tracked_unsupported

theorem lowerArgs_tracked : (args : List Expr) → ∀ context params,
    Tracked (lowerArgs context params args)
  | [], _, [] | [], _, _ :: _ | _ :: _, _, [] => tracked_pure
  | arg :: args, context, want :: params => by
      rw [lowerArgs]
      refine tracked_value (lowerExpr_tracked arg _ _ _) fun _ => ?_
      exact tracked_bind (lowerArgs_tracked args context params) fun _ => tracked_pure

theorem lowerArms_tracked : (arms : List Arm) → ∀ context slot type, slot.type.isVoid = false →
    Tracked (lowerArms context slot type arms)
  | [], context, slot, type, _ => by
      rw [lowerArms]
      exact tracked_pure
  | .mk _ (.wildcard _) body :: rest, context, slot, type, _ => by
      rw [lowerArms]
      exact tracked_bind (lowerExpr_tracked body _ _ _) fun _ => tracked_settle
  | .mk _ (.bind _ name) body :: rest, context, slot, type, hSome => by
      rw [lowerArms]
      refine tracked_bind (tracked_newSlot hSome) fun _ => ?_
      exact tracked_settled (lowerExpr_tracked body _ _ _) fun _ => tracked_pure
  | .mk _ (.literal _ value) body :: rest, context, slot, type, hSome => by
      rw [lowerArms]
      refine tracked_value (lowerExpr_tracked value _ _ _) fun _ => ?_
      refine tracked_settled (lowerExpr_tracked body _ _ _) fun _ => ?_
      exact tracked_bind (lowerArms_tracked rest _ slot type hSome) fun _ => tracked_pure
  | .mk pos (.constructor _ _ _) _ :: _, context, _, _, _
  | .mk pos .missing _ :: _, context, _, _, _ => tracked_unsupported

theorem lowerInits_tracked : (inits : List FieldInit) → ∀ context name lower,
    (lowerInits context inits).lookup name = some lower → ∀ want, Tracked (lower want)
  | [], _, _, _, hLookup => by
      rw [lowerInits] at hLookup
      cases hLookup
  | .mk pos label value :: rest, context, name, lower, hLookup => by
      rw [lowerInits, List.lookup_cons] at hLookup
      split at hLookup
      · cases hLookup
        intro want
        exact tracked_bind (lowerExpr_tracked value _ _ _) fun _ => tracked_expect
      · exact lowerInits_tracked rest context name lower hLookup

end

theorem lowerBody_tracked {context : Context} {stmts : List Stmt} :
    Tracked (lowerBody context stmts) := by
  rw [lowerBody]
  generalize splitTail context stmts = parts
  obtain ⟨front, tail⟩ := parts
  refine tracked_bind (lowerStmts_tracked front context) fun first => ?_
  cases tail with
  | some value => exact tracked_value (lowerExpr_tracked value _ _ _) fun _ => tracked_pure
  | none => exact tracked_ite (fun _ => tracked_pure) fun _ => tracked_pure

/-- Parameters are bound in turn, and each is handed a slot: the one that its name is bound to, if
it has a name. -/
inductive Enters : Context → Slots → List Param → List Slot → Context → Slots → Prop where
  | nil {context : Context} {slots : Slots} : Enters context slots [] [] context slots
  | param {context inner : Context} {before middle after : Slots} {param : Param} {slot : Slot}
      {rest : List Param} {handed : List Slot} :
      param.type.isVoid = false →
      (∀ name, bindParam context before name param.type =
        (if name = "" then context else context.bind name slot, middle)) →
      Enters (bindParam context before param.name param.type).1 middle rest handed inner after →
      Enters context before (param :: rest) (slot :: handed) inner after

theorem enters_of_bindParams {params : List Param} {context inner : Context} {before after : Slots}
    (hBind : bindParams context before params = .ok (inner, after)) :
    ∃ handed, Enters context before params handed inner after := by
  induction params generalizing context before with
  | nil =>
      cases hBind
      exact ⟨[], .nil⟩
  | cons param rest ih =>
      rw [bindParams] at hBind
      split at hBind
      · cases hBind
      · rename_i hSome
        obtain ⟨handed, hRest⟩ := ih hBind
        exact ⟨_ :: handed, .param (Bool.eq_false_iff.2 hSome) (fun _ => rfl) hRest⟩

/-- What a function binds: the receiver, if it is a method, and its parameters. -/
def boundParams (decl : FuncDecl) : List Param :=
  (if decl.isMethod then [⟨decl.pos, selfName, .record decl.receiver⟩] else []) ++ decl.params

theorem map_type_boundParams (decl : FuncDecl) :
    (boundParams decl).map Param.type = paramTypes decl := by
  rw [boundParams, paramTypes, List.map_append]
  split <;> rfl

/-- The context in which nothing is bound yet. -/
def outside (env : Env) (decl : FuncDecl) : Context where
  env := env
  name := decl.qualifiedName
  receiver := decl.receiver
  result := decl.result

theorem enters_of_entry {env : Env} {decl : FuncDecl} {context inner : Context}
    {slots after : Slots} (hEntry : entryContext env decl = .ok (context, slots))
    (hBind : bindParams context slots decl.params = .ok (inner, after)) :
    ∃ handed, Enters (outside env decl) {} (boundParams decl) handed inner after := by
  obtain ⟨handed, hParams⟩ := enters_of_bindParams hBind
  rw [entryContext] at hEntry
  rw [boundParams]
  by_cases hMethod : decl.isMethod = true
  · simp only [hMethod, Bool.not_true, Bool.false_eq_true, if_false] at hEntry
    split at hEntry
    · cases hEntry
    · cases hEntry
      rw [if_pos hMethod]
      exact ⟨_ :: handed, .param rfl (fun _ => rfl) hParams⟩
  · have hFree : decl.receiver = "" := by simpa [FuncDecl.isMethod] using hMethod
    rw [if_pos (by simpa using hMethod)] at hEntry
    cases hEntry
    rw [if_neg hMethod, List.nil_append, outside, hFree]
    exact ⟨handed, hParams⟩

/-- The slots that a function hands out: first to what it binds, then while its body is lowered. -/
inductive HandsOut (env : Env) (decl : FuncDecl) : List Slot → Prop where
  | intro {context inner : Context} {slots start after : Slots} {params locals : List Slot}
      {code : Code} :
      entryContext env decl = .ok (context, slots) →
      bindParams context slots decl.params = .ok (inner, start) →
      Enters (outside env decl) {} (boundParams decl) params inner start →
      Hands (lowerBody inner decl.body) start locals code after →
      HandsOut env decl (params ++ locals)

/-- Every function that is compiled hands out slots. -/
theorem exists_handsOut {env : Env} {decl : FuncDecl} {body : FunctionBody}
    (hLower : lowerFunction env decl = .ok body) : ∃ handed, HandsOut env decl handed := by
  simp only [lowerFunction, bind_ok] at hLower
  obtain ⟨⟨context, slots⟩, hEntry, ⟨inner, start⟩, hBind, ⟨code, after⟩, hBody, -⟩ := hLower
  obtain ⟨params, hParams⟩ := enters_of_entry hEntry hBind
  obtain ⟨locals, hLocals⟩ := lowerBody_tracked _ _ _ hBody
  exact ⟨params ++ locals, .intro hEntry hBind hParams hLocals⟩

/-! ## Numbers of slots -/

/-- The slots for values of some types, numbered one after the other. -/
def slotsFrom : (first : Nat) → List Ty → List Slot
  | _, [] => []
  | first, type :: rest => ⟨first.toUInt32, type⟩ :: slotsFrom (first + 1) rest

theorem slotsFrom_append (first : Nat) (front back : List Ty) :
    slotsFrom first (front ++ back) =
      slotsFrom first front ++ slotsFrom (first + front.length) back := by
  induction front generalizing first with
  | nil => rfl
  | cons type rest ih =>
      rw [List.cons_append, slotsFrom, ih, slotsFrom, List.cons_append, List.length_cons,
        Nat.add_assoc, Nat.add_comm 1]

@[simp] theorem length_slotsFrom (first : Nat) (types : List Ty) :
    (slotsFrom first types).length = types.length := by
  induction types generalizing first with
  | nil => rfl
  | cons type rest ih => rw [slotsFrom, List.length_cons, ih, List.length_cons]

theorem getElem?_slotsFrom (first : Nat) (types : List Ty) (place : Nat) :
    (slotsFrom first types)[place]? =
      types[place]?.map fun type => ⟨(first + place).toUInt32, type⟩ := by
  induction types generalizing first place with
  | nil => rfl
  | cons type rest ih =>
      cases place with
      | zero => rfl
      | succ place =>
          rw [slotsFrom, List.getElem?_cons_succ, ih, List.getElem?_cons_succ, Nat.add_assoc,
            Nat.add_comm 1]

/-- The slots when some for values of these types have been handed out. -/
def Slots.pushAll (slots : Slots) (types : List Ty) : Slots :=
  { slots with locals := slots.locals ++ types.map fun type => (numType? type).getD .i32 }

theorem Slots.size_pushAll (slots : Slots) (types : List Ty) :
    (slots.pushAll types).size = slots.size + types.length := by
  simp [Slots.size, Slots.pushAll, Nat.add_assoc]

/-- A run hands out the next slots, for values. -/
theorem Hands.numbered {α : Type} {action : Gen α} {before after : Slots} {handed : List Slot}
    {value : α} (hHands : Hands action before handed value after) :
    ∃ types, (∀ type ∈ types, type.isVoid = false) ∧ handed = slotsFrom before.size types ∧
      after = before.pushAll types := by
  induction hHands with
  | pure | lift => exact ⟨[], nofun, rfl, by simp [Slots.pushAll]⟩
  | @slot type _ _ _ hSome hSlot =>
      obtain ⟨rfl, rfl⟩ := gives_newSlot.1 hSlot
      exact ⟨[type], by simpa using hSome, rfl, rfl⟩
  | bind _ _ ihFirst ihNext =>
      obtain ⟨front, hFront, rfl, rfl⟩ := ihFirst
      obtain ⟨back, hBack, rfl, rfl⟩ := ihNext
      refine ⟨front ++ back, List.forall_mem_append.2 ⟨hFront, hBack⟩, ?_, ?_⟩
      · rw [slotsFrom_append, Slots.size_pushAll]
      · simp [Slots.pushAll]

/-- Parameters are handed the next slots as well. -/
theorem Enters.numbered {context inner : Context} {before after : Slots} {params : List Param}
    {handed : List Slot} (hEnters : Enters context before params handed inner after) :
    handed = slotsFrom before.params (params.map Param.type) := by
  induction hEnters with
  | nil => rfl
  | @param context _ before _ _ param slot _ _ _ hBind _ ih =>
      -- With a name, the parameter shows which slot it is.
      have hNamed := hBind "named"
      rw [bindParam, Prod.mk.injEq, if_neg (by decide), if_neg (by decide)] at hNamed
      obtain ⟨hSlot, rfl⟩ := hNamed
      obtain rfl : slot = ⟨before.params.toUInt32, param.type⟩ :=
        (Prod.mk.inj (List.cons.inj (congrArg Context.scope hSlot)).1).2.symm
      rw [ih, List.map_cons, slotsFrom]

/-- A function hands out the slots from the first one on, for its parameters and for the types that
its locals have. -/
theorem HandsOut.numbered {env : Env} {decl : FuncDecl} {body : FunctionBody} {handed : List Slot}
    (hLower : lowerFunction env decl = .ok body) (hHandsOut : HandsOut env decl handed) :
    ∃ types, handed = slotsFrom 0 (paramTypes decl ++ types) ∧
      (∀ type ∈ paramTypes decl ++ types, type.isVoid = false) ∧
      body.type = signature (paramTypes decl) decl.result ∧
      body.locals = types.map fun type => ((numType? type).getD .i32).valType := by
  obtain ⟨last, hBody, hType, hLocals, hParams⟩ := lowerBody_of_lowerFunction hLower
  obtain ⟨hEntry, hBind, hEnters, hHands⟩ := hHandsOut
  obtain ⟨rfl, rfl, -⟩ := entry_ok hEntry hBind
  obtain ⟨rfl, rfl⟩ := Prod.mk.inj (Except.ok.inj (hHands.gives.symm.trans hBody))
  obtain ⟨types, hTypes, rfl, rfl⟩ := hHands.numbered
  refine ⟨types, ?_, List.forall_mem_append.2 ⟨hParams, hTypes⟩, hType, ?_⟩
  · rw [hEnters.numbered, map_type_boundParams, slotsFrom_append]
    simp [Slots.size]
  · rw [hLocals]
    simp [Slots.pushAll]

/-- Slots have indices of their own as long as there is a word for each of them, and no longer. -/
theorem nodup_index_slotsFrom (first : Nat) (types : List Ty) :
    ((slotsFrom first types).map Slot.index).Nodup ↔ types.length ≤ 2 ^ 32 := by
  have hIndices : (slotsFrom first types).map Slot.index =
      (List.range' first types.length).map Nat.toUInt32 := by
    refine List.ext_getElem? fun place => ?_
    rw [List.getElem?_map, getElem?_slotsFrom, List.getElem?_map]
    by_cases hPlace : place < types.length
    · rw [List.getElem?_eq_getElem hPlace, List.getElem?_range' hPlace, Nat.one_mul]
      rfl
    · rw [List.getElem?_eq_none (Nat.le_of_not_lt hPlace),
        List.getElem?_eq_none (by simpa using hPlace)]
      rfl
  rw [hIndices, List.nodup_map_iff_inj_on List.nodup_range']
  constructor
  · intro hApart
    by_contra hMany
    have hEnds := hApart first (by simp; omega) (first + 2 ^ 32) (by simp; omega) (by simp)
    omega
  · intro hFew left hLeft right hRight hSame
    rw [List.mem_range'_1] at hLeft hRight
    have hNumbers := congrArg UInt32.toNat hSame
    simp only [Nat.toUInt32_eq, UInt32.toNat_ofNat'] at hNumbers
    omega

end RecordWasm.Lowering
