import RecordWasm.Proofs.Lowering.Refusals
import RecordWasm.Proofs.Syntax.Programs

/-!
# Complete trees have no holes to come to

Whatever code generation does with a complete tree, and in whichever context, it never asks for a
node that is not there.  The proof follows its recursion, one theorem for each of its functions;
what may be left out is never generated code for.
-/

namespace RecordWasm.Lowering

open Syntax Layout Wasm

theorem there_of_not_missing {expr : Expr} (hThere : ¬expr.isMissing = true) : expr ≠ .missing := by
  rintro rfl
  exact hThere rfl

mutual

theorem lowerStmts_spares : (stmts : List Stmt) → (∀ stmt ∈ stmts, stmt.Complete) →
    ∀ context, Spares (lowerStmts context stmts)
  | [], _, context => by
      rw [lowerStmts]
      exact spares_pure
  | stmt :: rest, hStmts, context => by
      rw [List.forall_mem_cons] at hStmts
      rw [lowerStmts]
      refine spares_bind (lowerStmt_spares stmt hStmts.1 context) fun first => ?_
      exact spares_bind (lowerStmts_spares rest hStmts.2 first.2) fun _ => spares_pure

theorem lowerStmt_spares : (stmt : Stmt) → stmt.Complete →
    ∀ context, Spares (lowerStmt context stmt)
  | .missing, hStmt, _ => nomatch hStmt
  | .declare pos name type value, .declare hValue, context => by
      rw [lowerStmt]
      refine spares_unless (apart (by simp [toString])) ?_
      refine spares_value (lowerExpr_spares value hValue _ _ _) fun _ => ?_
      exact spares_bind spares_newSlot fun _ => spares_pure
  | .assign pos target value, .assign _ hValue, context => by
      unfold lowerStmt
      split
      · split
        · exact spares_value (lowerExpr_spares value hValue _ _ _) fun _ => spares_pure
        · exact spares_ite (fun _ => spares_unsupported (by decide)) fun _ =>
            spares_fail (apart (by simp [toString]))
      · exact spares_unsupported (by decide)
      · exact spares_unsupported (by decide)
  | .result pos value, .result hValue, context => by
      rw [lowerStmt]
      split
      · exact spares_pure
      · exact spares_fail (apart (by simp [toString]))
      · exact spares_fail (by decide)
      · rename_i hThere _
        have hComplete := hValue (there_of_not_missing (by simp [hThere]))
        exact spares_value (lowerExpr_spares value hComplete _ _ _) fun _ => spares_pure
  | .eval pos value, .eval hValue, context => by
      rw [lowerStmt]
      exact spares_bind (lowerExpr_spares value hValue _ _ _) fun _ => spares_pure
  | .whileLoop pos cond body, .whileLoop hCond hBody, context => by
      rw [lowerStmt]
      refine spares_value (lowerExpr_spares cond hCond _ _ _) fun _ => ?_
      exact spares_bind (lowerStmts_spares body hBody _) fun _ => spares_pure
  | .forever pos body, .forever hBody, context => by
      rw [lowerStmt]
      exact spares_bind (lowerStmts_spares body hBody _) fun _ => spares_pure
  | .forRange pos var start stop body, .forRange hStart hStop hBody, context => by
      rw [lowerStmt]
      refine spares_unless (apart (by simp [toString])) ?_
      refine spares_value (lowerExpr_spares start hStart _ _ _) fun _ => ?_
      refine spares_bind spares_newSlot fun counter => ?_
      refine spares_value (lowerExpr_spares stop hStop _ _ _) fun _ => ?_
      refine spares_bind spares_newSlot fun limit => ?_
      exact spares_bind (lowerStmts_spares body hBody _) fun _ => spares_pure
  | .leave pos, _, context => by
      rw [lowerStmt]
      split
      · exact spares_pure
      · exact spares_fail (by decide)
  | .next pos, _, context => by
      rw [lowerStmt]
      split
      · exact spares_pure
      · exact spares_fail (by decide)

theorem lowerExpr_spares : (expr : Expr) → expr.Complete →
    ∀ context hint asArm, Spares (lowerExpr context hint asArm expr)
  | .missing, hExpr, _, _, _ => nomatch hExpr
  | .int _ _, _, _, _, _ => by
      rw [lowerExpr]
      exact spares_pure
  | .float _ _, _, _, _, _ => by
      rw [lowerExpr]
      exact spares_pure
  | .bool _ _, _, _, _, _ => by
      rw [lowerExpr]
      exact spares_pure
  | .ident tag name, _, context, _, _ => by
      rw [lowerExpr]
      exact lowerIdent_spares
  | .binary tag op left right, .binary hLeft hRight, context, hint, _ => by
      rw [lowerExpr]
      refine spares_ite (fun _ => ?_) fun _ => spares_unless (apart (by simp [toString])) ?_
      · refine spares_value (lowerExpr_spares left hLeft _ _ _) fun _ => ?_
        exact spares_value (lowerExpr_spares right hRight _ _ _) fun _ => spares_pure
      · refine spares_value (lowerExpr_spares left hLeft _ _ _) fun _ => ?_
        refine spares_value (lowerExpr_spares right hRight _ _ _) fun _ => ?_
        split
        · exact spares_unsupported (apart (by simp [toString]))
        · exact spares_pure
  | .unary tag op operand, .unary hOperand, context, hint, _ => by
      unfold lowerExpr
      split
      · exact spares_value (lowerExpr_spares operand hOperand _ _ _) fun _ => spares_pure
      · refine spares_ite (fun _ => ?_) fun _ => spares_unsupported (apart (by simp [toString]))
        refine spares_value (lowerExpr_spares operand hOperand _ _ _) fun _ => ?_
        split <;> exact spares_pure
      · exact spares_unsupported (apart (by simp [toString]))
  | .call tag function args, .call hArgs, context, _, _ => by
      have hCall : ∀ ref params (code : Code → Code), Spares (do
          checkArity context tag.pos ref params args
          return callCode ref (code (← lowerArgs context params args))) := by
        intro ref params code
        refine spares_bind checkArity_spares fun _ => ?_
        exact spares_bind (lowerArgs_spares args hArgs context params) fun _ => spares_pure
      rw [lowerExpr]
      split
      · exact hCall _ _ id
      · split
        · exact hCall _ _ (.localGet 0 :: ·)
        · split
          · exact hCall _ _ id
          · exact spares_fail (apart (by simp [toString]))
  | .methodCall tag receiver method args, .methodCall hReceiver hArgs, context, _, _ => by
      rw [lowerExpr]
      split
      · split
        · refine spares_bind (lowerExpr_spares receiver hReceiver _ _ _) fun _ => ?_
          refine spares_bind checkArity_spares fun _ => ?_
          exact spares_bind (lowerArgs_spares args hArgs context _) fun _ => spares_pure
        · exact spares_fail (apart (by simp [toString]))
      · exact spares_fail (apart (by simp [toString]))
  | .branch tag cond body otherwise, .branch hCond hBody hOtherwise, context, hint, _ => by
      -- a complete body is there, so the check for one lets it pass
      have hThere : ¬body.isMissing = true := by
        cases hBody <;> exact Bool.false_ne_true
      rw [lowerExpr, if_neg hThere]
      refine spares_value (lowerExpr_spares cond hCond _ _ _) fun _ => ?_
      refine spares_settled (lowerExpr_spares body hBody _ _ _) fun _ => ?_
      refine spares_ite (fun _ => spares_pure) fun hElse => ?_
      have hComplete := hOtherwise (there_of_not_missing hElse)
      exact spares_settled (lowerExpr_spares otherwise hComplete _ _ _) fun _ => spares_pure
  | .block tag stmts tail, .block hStmts hTail, context, hint, asArm => by
      rw [lowerExpr]
      refine spares_bind (lowerStmts_spares stmts hStmts context) fun _ => ?_
      refine spares_ite (fun _ => spares_pure) fun hThere => ?_
      have hComplete := hTail (there_of_not_missing hThere)
      exact spares_settled (lowerExpr_spares tail hComplete _ _ _) fun _ => spares_pure
  | .cases tag scrutinee arms, .cases hScrutinee hArms, context, hint, _ => by
      rw [lowerExpr]
      refine spares_unless (by decide) (spares_bind (checkPatterns_spares hArms) fun _ => ?_)
      refine spares_value (lowerExpr_spares scrutinee hScrutinee _ _ _) fun _ => ?_
      refine spares_bind spares_newSlot fun slot => ?_
      exact spares_bind (lowerArms_spares arms hArms context slot _) fun _ => spares_pure
  | .member tag subject field, .member hSubject, context, _, _ => by
      rw [lowerExpr]
      split
      · refine spares_value (lowerExpr_spares subject hSubject _ _ _) fun _ => ?_
        exact spares_bind loadField_spares fun _ => spares_pure
      · exact spares_fail (apart (by simp [toString]))
  | .construct tag record inits, .construct hInits, context, _, _ => by
      rw [lowerExpr]
      exact lowerConstruct_spares (lowerInits_spares inits hInits context)
  | .variant _ _ _, _, _, _, _ => by
      rw [lowerExpr]
      exact lowerVariant_spares
  | .macroCall tag name args, _, context, _, _ => by
      rw [lowerExpr]
      exact spares_unsupported (apart (by simp [toString]))
  | .string _ _, _, _, _, _ | .char _ _, _, _, _, _ | .null _, _, _, _, _ | .lambda _ _ _,
      _, _, _, _
  | .cast _ _ _, _, _, _, _ | .attempt _ _, _, _, _, _ | .quote _ _, _, _, _, _
  | .eval _ _, _, _, _, _ | .reflect _ _, _, _, _, _ | .list _ _, _, _, _, _
  | .tuple _ _, _, _, _, _ => by
      rw [lowerExpr]
      exact spares_unsupported (by decide)

theorem lowerArgs_spares : (args : List Expr) → (∀ arg ∈ args, arg.Complete) →
    ∀ context params, Spares (lowerArgs context params args)
  | [], _, _, [] | [], _, _, _ :: _ | _ :: _, _, _, [] => spares_pure
  | arg :: args, hArgs, context, want :: params => by
      rw [List.forall_mem_cons] at hArgs
      rw [lowerArgs]
      refine spares_value (lowerExpr_spares arg hArgs.1 _ _ _) fun _ => ?_
      exact spares_bind (lowerArgs_spares args hArgs.2 context params) fun _ => spares_pure

theorem lowerArms_spares : (arms : List Arm) → (∀ arm ∈ arms, arm.Complete) →
    ∀ context slot type, Spares (lowerArms context slot type arms)
  | [], _, context, slot, type => by
      rw [lowerArms]
      exact spares_pure
  | .mk _ (.wildcard _) body :: rest, hArms, context, slot, type => by
      obtain ⟨-, hBody⟩ := (List.forall_mem_cons.1 hArms).1
      rw [lowerArms]
      exact spares_bind (lowerExpr_spares body hBody _ _ _) fun _ => spares_settle
  | .mk _ (.bind _ name) body :: rest, hArms, context, slot, type => by
      obtain ⟨-, hBody⟩ := (List.forall_mem_cons.1 hArms).1
      rw [lowerArms]
      refine spares_bind spares_newSlot fun _ => ?_
      exact spares_settled (lowerExpr_spares body hBody _ _ _) fun _ => spares_pure
  | .mk _ (.literal _ value) body :: rest, hArms, context, slot, type => by
      rw [List.forall_mem_cons] at hArms
      obtain ⟨⟨⟨hValue⟩, hBody⟩, hRest⟩ := hArms
      rw [lowerArms]
      refine spares_value (lowerExpr_spares value hValue _ _ _) fun _ => ?_
      refine spares_settled (lowerExpr_spares body hBody _ _ _) fun _ => ?_
      exact spares_bind (lowerArms_spares rest hRest _ slot type) fun _ => spares_pure
  | .mk pos (.constructor _ _ _) _ :: _, _, context, _, _
  | .mk pos .missing _ :: _, _, context, _, _ => spares_unsupported (by decide)

theorem lowerInits_spares : (inits : List FieldInit) → (∀ init ∈ inits, init.Complete) →
    ∀ context name lower, (lowerInits context inits).lookup name = some lower →
      ∀ want, Spares (lower want)
  | [], _, _, _, _, hLookup => by
      rw [lowerInits] at hLookup
      cases hLookup
  | .mk pos label value :: rest, hInits, context, name, lower, hLookup => by
      rw [List.forall_mem_cons] at hInits
      obtain ⟨⟨hValue⟩, hRest⟩ := hInits
      rw [lowerInits, List.lookup_cons] at hLookup
      split at hLookup
      · cases hLookup
        intro want
        exact spares_bind (lowerExpr_spares value hValue _ _ _) fun _ => spares_expect
      · exact lowerInits_spares rest hRest context name lower hLookup

end

/-! ## Functions -/

/-- Splitting off the value at the end leaves complete parts. -/
theorem splitTail_complete {context : Context} {stmts : List Stmt}
    (hStmts : ∀ stmt ∈ stmts, stmt.Complete) :
    (∀ stmt ∈ (splitTail context stmts).1, stmt.Complete) ∧
      ∀ value ∈ (splitTail context stmts).2, value.Complete := by
  rw [splitTail]
  split
  · rename_i pos value hLast
    split
    · exact ⟨hStmts, nofun⟩
    · have hValue : value.Complete := by
        cases hStmts _ (List.mem_of_getLast? hLast)
        assumption
      exact ⟨fun stmt hStmt => hStmts stmt (List.dropLast_subset stmts hStmt),
        by simpa using hValue⟩
  · exact ⟨hStmts, nofun⟩

theorem lowerBody_spares {context : Context} {stmts : List Stmt}
    (hStmts : ∀ stmt ∈ stmts, stmt.Complete) : Spares (lowerBody context stmts) := by
  obtain ⟨hFront, hTail⟩ := @splitTail_complete context stmts hStmts
  rw [lowerBody]
  generalize splitTail context stmts = parts at hFront hTail ⊢
  obtain ⟨front, tail⟩ := parts
  refine spares_bind (lowerStmts_spares front hFront context) fun first => ?_
  cases tail with
  | some value =>
      exact spares_value (lowerExpr_spares value (hTail value rfl) _ _ _) fun _ => spares_pure
  | none => exact spares_ite (fun _ => spares_pure) fun _ => spares_pure

theorem bindParams_ordinary {context : Context} {slots : Slots} {params : List Param}
    {failure : Failure} (hParams : bindParams context slots params = .error failure) :
    Ordinary failure := by
  induction params generalizing context slots with
  | nil => cases hParams
  | cons param rest ih =>
      rw [bindParams] at hParams
      split at hParams
      · cases hParams
        exact ordinary_report (apart (by simp [Context.report, toString]))
      · exact ih hParams

theorem entryContext_ordinary {env : Env} {decl : FuncDecl} {failure : Failure}
    (hEntry : entryContext env decl = .error failure) : Ordinary failure := by
  unfold entryContext at hEntry
  split at hEntry
  · cases hEntry
  · split at hEntry
    · cases hEntry
      exact ordinary_report (apart (by simp [Context.report, toString]))
    · cases hEntry

/-- A complete function may be refused in any environment, but never for a hole. -/
theorem lowerFunction_ordinary {env : Env} {decl : FuncDecl} {failure : Failure}
    (hDecl : decl.Complete) (hLower : lowerFunction env decl = .error failure) :
    Ordinary failure := by
  simp only [lowerFunction, bind_error] at hLower
  rcases hLower with hEntry | ⟨entry, -, hParams | ⟨bound, -, hBody | ⟨code, -, hRest⟩⟩⟩
  · exact entryContext_ordinary hEntry
  · exact bindParams_ordinary hParams
  · exact lowerBody_spares hDecl bound.2 failure hBody
  · cases hRest

/-- Every text that is decoded to a program is decoded to a complete one.  Generating code for any
of its functions and methods, in any environment, is never refused because a node is not there. -/
theorem decoded_without_holes (text : String) (program : Program)
    (hText : decodeText text = .ok program) :
    program.Complete ∧
      ∀ decl, (decl ∈ program.functions ∨ ∃ record ∈ program.records, decl ∈ record.methods) →
        ∀ env failure, lowerFunction env decl = .error failure →
          ∀ detail ∈ failure.details, detail ∉ holeDetails := by
  have hComplete := complete_of_decodeText hText
  refine ⟨hComplete, fun decl hDecl env failure hLower => ?_⟩
  have hBody : decl.Complete := by
    rcases hDecl with hFunction | ⟨record, hRecord, hMethod⟩
    · exact hComplete.functions decl hFunction
    · exact hComplete.methods record hRecord decl hMethod
  exact lowerFunction_ordinary hBody hLower

/-- A function value without a body is complete, and it is refused for what it is. -/
theorem decoded_without_holes_lambda :
    let text := "\x7b\"functions\": [\x7b\"name\": \"f\", \"body\": [" ++
      "\x7b\"kind\": \"expr\", \"expr\": \x7b\"kind\": \"lambda\"\x7d\x7d]\x7d]\x7d"
    let env : Env := { registry := {}, heap := ⟨0, 0, 0, 0, 0, 0⟩, records := [], enums := [] }
    ∃ program decl failure, decodeText text = .ok program ∧ decl ∈ program.functions ∧
      lowerFunction env decl = .error failure ∧ failure.details = ["lambda"] ∧
      program.Complete ∧ ∀ detail ∈ failure.details, detail ∉ holeDetails := by
  intro text env
  have hRefused : (match decodeText text with
      | .ok program => program.functions.any fun decl =>
          match lowerFunction env decl with
          | .error failure => failure.details == ["lambda"]
          | .ok _ => false
      | .error _ => false) = true := by decide +kernel
  cases hText : decodeText text with
  | error cause =>
      rw [hText] at hRefused
      cases hRefused
  | ok program =>
      simp only [hText, List.any_eq_true] at hRefused
      obtain ⟨decl, hDecl, hRefused⟩ := hRefused
      obtain ⟨hComplete, hNone⟩ := decoded_without_holes text program hText
      cases hLower : lowerFunction env decl with
      | error failure =>
          simp only [hLower, beq_iff_eq] at hRefused
          exact ⟨program, decl, failure, rfl, hDecl, hLower, hRefused, hComplete,
            hNone decl (.inl hDecl) env failure hLower⟩
      | ok body =>
          rw [hLower] at hRefused
          cases hRefused

end RecordWasm.Lowering
