import RecordWasm.Proofs.Success
import RecordWasm.Proofs.Validation.Grammar

/-!
# What the check of a body accepts

The check counts open frames and does not know what opened them.  So it accepts the bodies that
close every frame they open, and an `else` in any frame but the function's own, as often as it
comes.
-/

namespace RecordWasm.Validation

open Wasm

/-- What an instruction refers to is there. -/
def Has (context : BodyContext) (instr : Instr) : Prop :=
  match Opcode.ofByte? instr.opcode, instr.immediate with
  | some .call, .call function => function.toNat < context.funcs
  | some .localGet, .local index | some .localSet, .local index | some .localTee, .local index =>
      index.toNat < context.locals
  | some .globalGet, .global index => index.toNat < context.globals.length
  | some .globalSet, .global index =>
      ∃ type, context.globals[index.toNat]? = some (some type) ∧ type.mutable = true
  | some (.load _), _ | some (.store _), _ | some .memorySize, _ | some .memoryGrow, _ =>
      context.hasMemory = true
  | _, _ => True

/-- An instruction may stand in `depth` open frames and leaves `after` of them open. -/
def Shifts (depth : Nat) (instr : Instr) (after : Nat) : Prop :=
  if instr.opensFrame then depth + 1 = after
  else if instr.is .otherwise then 2 ≤ depth ∧ depth = after
  else if instr.is .close then depth - 1 = after
  else (∀ label ∈ instr.label?, label.toNat < depth) ∧ depth = after

variable {context : BodyContext}

theorem require_bind {ε : Type} {condition : Prop} [Decidable condition] {cause : ε}
    {depth after : Nat} :
    (require condition cause >>= fun _ => pure depth) = .ok after ↔ condition ∧ depth = after := by
  simp only [bind_ok, require_ok, pure_ok, exists_const]

/-- One instruction is accepted exactly if what it refers to is there and it may stand in so many
frames. -/
theorem step_ok {pc depth after : Nat} {instr : Instr} :
    context.step pc depth instr = .ok after ↔ Has context instr ∧ Shifts depth instr after := by
  unfold BodyContext.step
  split
  case h_13 index hOpcode hOperand =>
    have hShifts : Shifts depth instr after ↔ depth = after := by
      simp [Shifts, Instr.opensFrame, Instr.label?, Instr.is_iff, hOpcode, hOperand]
    simp only [Has, hOpcode, hOperand, hShifts, bind_ok, require_ok]
    rcases hGlobal : context.globals[index.toNat]? with _ | _ | type
    · rw [List.getElem?_eq_none_iff] at hGlobal
      simp [Nat.not_lt.2 hGlobal]
    · simp [throw, throwThe, MonadExceptOf.throw]
    · have hIndex := (List.getElem?_eq_some_iff.1 hGlobal).1
      simp [hIndex, require_ok, pure_ok, bind_ok, -bind_pure_comp]
  all_goals
    simp_all [Has, Shifts, Instr.opensFrame, Instr.label?, Instr.is_iff, require_bind,
      -bind_pure_comp]

/-- What the open frames have left if only their number is known: the function itself goes without
`else`, and nothing is asked of the others. -/
def counted : (depth : Nat) → List ℕ∞
  | 0 => []
  | depth + 1 => (if depth = 0 then 0 else ⊤) :: counted depth

@[simp] theorem length_counted (depth : Nat) : (counted depth).length = depth := by
  induction depth with
  | zero => rfl
  | succ depth ih => simp [counted, ih]

theorem scans_cons {depth : Nat} {instr : Instr} {rest : List Instr} :
    Scans unlimited (counted (depth + 1)) (instr :: rest) ↔
      ∃ after, Shifts (depth + 1) instr after ∧ Scans unlimited (counted after) rest := by
  constructor
  · intro hScans
    rw [counted] at hScans
    generalize hHead : (if depth = 0 then (0 : ℕ∞) else ⊤) = head at hScans
    cases hScans with
    | plain hPlain hLabel hRest =>
        refine ⟨depth + 1, ?_, ?_⟩
        · simp only [Instr.delimits, Bool.or_eq_false_iff] at hPlain
          simpa [Shifts, hPlain] using hLabel
        · rwa [counted, hHead]
    | @otherwise left _ _ _ hElse hRest =>
        have hDepth : depth ≠ 0 := by
          rintro rfl
          exact absurd hHead.symm (by simp)
        have hLeft : left = ⊤ := by simpa [hDepth] using hHead.symm
        refine ⟨depth + 1, ?_, ?_⟩
        · simp only [Instr.is_iff] at hElse
          simp [Shifts, Instr.opensFrame, Instr.is_iff, hElse]
          omega
        · rwa [counted, if_neg hDepth, ← hLeft]
    | opens hOpens hRest =>
        refine ⟨depth + 2, ?_, ?_⟩
        · simp [Shifts, hOpens]
        · rw [counted, counted, hHead]
          exact hRest
    | closes hClose hRest =>
        refine ⟨depth, ?_, hRest⟩
        simp only [Instr.is_iff] at hClose
        simp [Shifts, Instr.opensFrame, Instr.is_iff, hClose]
  · rintro ⟨after, hShifts, hRest⟩
    unfold Shifts at hShifts
    split_ifs at hShifts with hOpens hElse hClose
    · subst hShifts
      exact .opens hOpens hRest
    · obtain ⟨hDepth, rfl⟩ := hShifts
      have hNested : depth ≠ 0 := by omega
      rw [counted, if_neg hNested] at hRest ⊢
      have hScans := Scans.otherwise hElse hRest
      rwa [top_add] at hScans
    · subst hShifts
      exact .closes hClose hRest
    · obtain ⟨hLabel, rfl⟩ := hShifts
      refine .plain ?_ ?_ hRest
      · simp [Instr.delimits, hOpens, hElse, hClose]
      · simpa using hLabel

/-- Instructions are accepted inside so many frames exactly if they close them by the grammar
without regard to `else`, and what they refer to is there. -/
theorem checkFrom_ok_iff {pc depth : Nat} {instrs : List Instr} :
    context.checkFrom pc depth instrs = .ok () ↔
      Scans unlimited (counted depth) instrs ∧ ∀ instr ∈ instrs, Has context instr := by
  induction instrs generalizing pc depth with
  | nil =>
      rw [BodyContext.checkFrom, require_ok]
      constructor
      · rintro rfl
        exact ⟨.nil, List.forall_mem_nil _⟩
      · rintro ⟨hScans, -⟩
        simpa using congrArg List.length (hScans.nil_iff.2 rfl)
  | cons instr rest ih =>
      cases depth with
      | zero =>
          simp only [BodyContext.checkFrom, bind_ok, require_ok]
          constructor
          · rintro ⟨-, hOpen, -⟩
            exact absurd rfl hOpen
          · rintro ⟨hScans, -⟩
            cases hScans.nil_iff.1 rfl
      | succ depth =>
          rw [BodyContext.checkFrom, scans_cons]
          simp only [bind_ok, require_ok, step_ok, ih, List.forall_mem_cons]
          constructor
          · rintro ⟨-, -, after, ⟨hHas, hShifts⟩, hScans, hRest⟩
            exact ⟨⟨after, hShifts, hScans⟩, hHas, hRest⟩
          · rintro ⟨⟨after, hShifts, hScans⟩, hHas, hRest⟩
            exact ⟨(), Nat.succ_ne_zero depth, after, ⟨hHas, hShifts⟩, hScans, hRest⟩

/-- Items that pass together pass one by one. -/
theorem of_checkFrom {α ε : Type} {check : Nat → α → Except ε Unit} {items : List α} {start : Nat}
    (hCheck : checkFrom check start items = .ok ()) {item : α} (hItem : item ∈ items) :
    ∃ index, check index item = .ok () := by
  induction items generalizing start with
  | nil => cases hItem
  | cons first rest ih =>
      simp only [checkFrom, bind_ok] at hCheck
      obtain ⟨_, hFirst, hRest⟩ := hCheck
      obtain rfl | hItem := List.mem_cons.1 hItem
      · exact ⟨start, hFirst⟩
      · exact ih hRest hItem

/-- Functions whose type indices pass the check have known types. -/
theorem type_lt_of_validate {module : Module} (hTypes : module.validateTypeIndices = .ok ())
    {type : UInt32} (hType : type ∈ module.funcs) : type.toNat < module.types.length := by
  simp only [Module.validateTypeIndices, bind_ok] at hTypes
  obtain ⟨_, hFuncs, -⟩ := hTypes
  obtain ⟨_, hIndex⟩ := of_checkFrom hFuncs hType
  exact require_ok.1 hIndex

/-- Every body of a valid module belongs to a function of a known type and has passed the check. -/
theorem validateBody_of_validate {module : Module} (hValid : module.validate = .ok ())
    {body : FuncBody} (hBody : body ∈ module.code) :
    ∃ type ∈ module.types, module.validateBody type body = .ok () := by
  simp only [Module.validate, bind_ok, require_ok] at hValid
  obtain ⟨_, hTypes, -, -, -, hLength, -, -, -, -, hBodies⟩ := hValid
  obtain ⟨place, hPlace, rfl⟩ := List.getElem_of_mem hBody
  have hFunc : place < module.funcs.length := hLength ▸ hPlace
  have hEntry : (module.funcs[place], module.code[place]) ∈ module.funcs.zip module.code :=
    List.mem_iff_getElem.2 ⟨place, by simpa using ⟨hFunc, hPlace⟩, List.getElem_zip⟩
  have hIndex := type_lt_of_validate hTypes (List.getElem_mem hFunc)
  obtain ⟨_, hPassed⟩ := of_checkFrom hBodies hEntry
  rw [List.getElem?_eq_getElem hIndex, mapError_ok] at hPassed
  exact ⟨_, List.getElem_mem hIndex, hPassed⟩

/-- Every body of a valid module that is read as instructions closes all frames that it opens, ends
with the one `end` of the function, and branches to open frames only.  It follows the grammar of the
format exactly if every `else` in it is the first one of an `if`; this is not checked. -/
theorem bodies_nest {module : Module} (hValid : module.validate = .ok ()) {body : FuncBody}
    (hBody : body ∈ module.code) {instrs : List Instr}
    (hRead : Instr.decodeAll body.code = .ok instrs) :
    IsBody unlimited instrs ∧ (IsBody ifOnly instrs ↔ ElsesOwned [] instrs) := by
  obtain ⟨type, -, hPassed⟩ := validateBody_of_validate hValid hBody
  rw [Module.validateBody, hRead] at hPassed
  have hUnlimited : IsBody unlimited instrs := isBody_iff_scans.2 (checkFrom_ok_iff.1 hPassed).1
  exact ⟨hUnlimited, isBody_ifOnly_iff.trans (and_iff_right hUnlimited)⟩

/-- A function that chooses between two numbers. -/
def chooser : Module where
  types := [⟨[.i32], [.i32]⟩]
  funcs := [0]
  code := [⟨[], [0x20, 0x00, 0x04, 0x7f, 0x41, 0x01, 0x05, 0x41, 0x02, 0x0b, 0x0b]⟩]

theorem bodies_nest_chooser :
    let instrs := [.localGet 0, .ifThen (-1), .i32Const 1, Opcode.otherwise.instr, .i32Const 2,
      .close, .close]
    chooser.code.map (fun body => Instr.decodeAll body.code) = [.ok instrs] ∧
      IsBody unlimited instrs ∧ (IsBody ifOnly instrs ↔ ElsesOwned [] instrs) :=
  ⟨rfl, bodies_nest (rfl : chooser.validate = .ok ()) (List.mem_singleton_self _) rfl⟩

/-- A function whose only block has an `else`. -/
def blockElse : Module where
  types := [⟨[], []⟩]
  funcs := [0]
  code := [⟨[], [0x02, 0x40, 0x05, 0x0b, 0x0b]⟩]

theorem else_in_block :
    ∃ body ∈ blockElse.code, ∃ instrs, Instr.decodeAll body.code = .ok instrs ∧
      blockElse.validate = .ok () ∧ ¬IsBody ifOnly instrs := by
  refine ⟨_, List.mem_singleton_self _, [.block voidBlock, Opcode.otherwise.instr, .close, .close],
    rfl, rfl, fun hBody => ?_⟩
  have hOwned := (isBody_ifOnly_iff.1 hBody).2
  obtain ⟨outer, opener, inside, -, hBefore, hIf, -⟩ := hOwned [.block voidBlock] _ _ rfl rfl
  have hOpener : opener ∈ outer ++ opener :: inside := by simp
  rw [← hBefore, List.nil_append, List.mem_singleton] at hOpener
  subst hOpener
  cases hIf

end RecordWasm.Validation
