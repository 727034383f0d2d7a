import RecordWasm.Proofs.Evaluation.Derivations

/-!
# Whole functions

The body of a function is evaluated like a block, except that its last statement may be its value.
Whether it is depends on the type that the last expression has at the start of the function.
-/

namespace RecordWasm.Evaluation

open Syntax Machine Wasm Lowering

section Answers

variable {α : Type} {result : Ty}

theorem Ending.answer_within (ending : Ending (Option Word)) (depth : Nat) :
    (ending.within depth).answer result = ending.answer result := by
  cases ending <;> rfl

/-- A value that is not there or not asked for may be given up. -/
theorem Ending.answer_forget {ending : Ending (Option Word)}
    (hNone : result.isVoid = true ∨ ending.Valueless) :
    ending.forget.answer result = ending.answer result := by
  cases ending with
  | next value scope =>
      cases value with
      | none => rfl
      | some word =>
          rcases hNone with hVoid | hNone
          · simp [Ending.forget, Ending.bind, Ending.answer, hVoid]
          · exact absurd rfl (hNone word scope)
  | _ => rfl

/-- A function that comes to its end without the value that it should have traps. -/
theorem Ending.answer_bind_trap (ending : Ending α) (hSome : result.isVoid = false) :
    Ending.answer result (ending.bind fun _ _ => .trap .unreachable) =
      ending.forget.answer result := by
  cases ending with
  | next => simp [Ending.forget, Ending.bind, Ending.answer, hSome]
  | _ => rfl

end Answers

section Bodies

variable {functions : List String} {context : Context} {stmts : List Stmt}
variable {setting : Setting} {call : String → List Word → Answer}
variable {before after : Slots} {code : Code} {labels : List (Option String)}

/-- The code of a function follows the evaluation of its body. -/
theorem body_works (hBody : Body context stmts before code after)
    (hSound : Spot.Sound ⟨context, labels, before⟩ [])
    (hReading : Reading setting call functions context context)
    (hStarts : Starts call functions context) (hFits : Fits context before code.length)
    (hCarries : bodyCarries functions context stmts = true) :
    ∃ eval, setting.Works ⟨context, labels, before⟩ ⟨context, labels, after⟩
      (Leaves context.result) code
        eval ∧
      ∀ vars, (eval vars).answer context.result =
        (evalBody call setting.fuel vars stmts).answer context.result := by
  cases hBody with
  | @value front pos value _ middle _ inner code last hSome hType hFront hValue =>
      rw [bodyCarries, splitTail_append hSome hType, Bool.and_eq_true] at hCarries
      have hSame : context.Same inner := hFront.same
      obtain ⟨hEnv, hResult⟩ := foldl_behind_same context front
      obtain ⟨labels, hEncloses, hInner, hStmts⟩ := followed_of_derives hFront hSound hReading
        (hFits.part (.refl before 0) 0 (Nat.le_refl _) (by simp [Judgement.code])) hCarries.1
      have hLast := followed_of_derives hValue hInner
        (hReading.behind (hFront.behind hReading.alike) hEncloses.result hEnv hResult)
        (hFits.part hFront.grows 0 (Nat.le_of_eq hSame.frames) (by simp [Judgement.code]))
          hCarries.2
      refine ⟨_, hStmts.block hLast hEncloses hSame.frames hValue.grows, fun vars => ?_⟩
      rw [Ending.answer_within, evalBody_append]
  | void hVoid hStmts =>
      have hPlain := bodyCarries_none (splitTail_void hVoid stmts) hCarries
      obtain ⟨labels, hEncloses, -, hWorks⟩ :=
        followed_of_derives hStmts hSound hReading hFits hPlain
      have hBlock :=
        @Setting.Works.blockOnly _ _ _ context.result _ _ { type := context.result } hWorks
          hEncloses rfl
      simp only [hVoid, if_true] at hBlock
      refine ⟨_, hBlock, fun vars => ?_⟩
      have hGiven := forget_evalBody call setting.fuel vars stmts
      rw [Ending.answer_within, ← @Ending.answer_forget _ (evalBody call setting.fuel vars stmts)
        (.inl hVoid), hGiven]
      rfl
  | @trap _ _ _ inner code hSome hSplit hStmts =>
      have hPlain := bodyCarries_none hSplit hCarries
      obtain ⟨labels, hEncloses, -, hWorks⟩ := followed_of_derives hStmts hSound hReading
        (hFits.part (.refl before 0) 0 (Nat.le_refl _) (by simp [Judgement.code])) hPlain
      have hBlock :=
        @Setting.Works.blockOnly _ _ _ context.result _ _ { type := context.result } hWorks
          hEncloses rfl
      simp only [hSome, Bool.false_eq_true, if_false] at hBlock
      refine ⟨_, hBlock, fun vars => ?_⟩
      rw [Ending.answer_within, Ending.answer_bind_trap _ hSome, ← forget_evalBody]
      exact Ending.answer_forget (.inr (valueless_of_splitTail hStarts hSome hSplit hPlain _ _))

end Bodies

end RecordWasm.Evaluation
