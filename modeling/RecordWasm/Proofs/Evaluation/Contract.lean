import RecordWasm.Proofs.Evaluation.Locals
import RecordWasm.Proofs.Lowering.Calls

/-!
# Programs over words

The functions that the evaluator gives a meaning to compute with words, call each other and nothing
else, and carry types: every literal has the type at which it is used, every name a type, and a
block without a value is marked as one that is used for a value or not.  The types at which
expressions are used are those that lowering finds.  An expression without a type has no value
either.
-/

namespace RecordWasm.Evaluation

open Syntax Lowering

section Carrying

-- The functions that may be called.
variable (functions : List String)

mutual

def stmtsCarry (hidden : List String) (context : Context) : List Stmt → Bool
  | [] => true
  | stmt :: rest =>
      stmtCarries hidden context stmt && stmtsCarry hidden (context.behind stmt) rest

/-- Whether a statement is one over words that carries its types.  Names that are hidden are not
mentioned in it: the second bound of a range does not mention the variable of the range. -/
def stmtCarries (hidden : List String) (context : Context) : Stmt → Bool
  | .declare _ _ type value =>
      exprCarries hidden context (declaredType context type value) false value
  | .assign _ target value =>
      match target with
      | .ident _ name =>
          name ∉ hidden && (context.lookup? name).any fun slot =>
            exprCarries hidden context slot.type false value
      | _ => false
  | .result _ value => value.isMissing || exprCarries hidden context context.result false value
  | .eval _ value => exprCarries hidden context .void false value
  | .whileLoop _ cond body =>
      exprCarries hidden context .bool false cond && stmtsCarry hidden context body
  | .forRange _ var start stop body =>
      let type := rangeType context start stop
      exprCarries hidden context type false start &&
        exprCarries (var :: hidden) (context.typed var type) type false stop &&
        stmtsCarry hidden (context.typed var type) body
  | .forever _ body => stmtsCarry hidden context body
  | .leave _ | .next _ => true
  | .missing => false

/-- Whether an expression that is used at a type is one over words and carries its types.  One that
is used for its effects is used at `void`. -/
def exprCarries (hidden : List String) (context : Context) (want : Ty) (asArm : Bool) : Expr → Bool
  | .int tag _ => isWordType tag.type && (!isNumeric want || sameRepr tag.type want)
  | .bool _ _ => true
  | .ident tag name => name ∉ hidden && (context.lookup? name).isSome && !tag.type.isVoid
  | .binary _ op left right =>
      let type := if isLogical op then .bool else binaryType context op left right want
      exprCarries hidden context type false left && exprCarries hidden context type false right
  | .unary _ op operand =>
      let type := if op = "!" then .bool else negationType context operand want
      exprCarries hidden context type false operand
  | .call _ function args =>
      function ∈ functions && (context.env.function? function).any fun ref =>
        argsCarry hidden context ref.params args
  | .branch tag cond body otherwise =>
      let type := branchResult context (.branch tag cond body otherwise) body otherwise want
      exprCarries hidden context .bool false cond && exprCarries hidden context type true body &&
        (otherwise.isMissing || exprCarries hidden context type true otherwise)
  | .block tag stmts tail =>
      let type := yielded context tag stmts tail want asArm
      stmtsCarry hidden context stmts &&
        if tail.isMissing then tag.type.isVoid == type.isVoid
        else exprCarries hidden (stmts.foldl Context.behind context) type false tail
  | .cases tag scrutinee arms =>
      exprCarries hidden context (context.typeOf scrutinee) false scrutinee &&
        armsCarry hidden context (context.typeOf scrutinee)
          (casesResult context (.cases tag scrutinee arms) arms want) arms
  | _ => false

def argsCarry (hidden : List String) (context : Context) : List Ty → List Expr → Bool
  | want :: params, arg :: args =>
      exprCarries hidden context want false arg && argsCarry hidden context params args
  | _, _ => true

/-- Arms of a match over a subject, used at a type. -/
def armsCarry (hidden : List String) (context : Context) (subject want : Ty) : List Arm → Bool
  | [] => true
  | .mk _ pattern body :: rest =>
      (match pattern with
        | .wildcard _ => exprCarries hidden context want true body
        | .bind _ name => exprCarries hidden (context.typed name subject) want true body
        | .literal _ value =>
            exprCarries hidden context subject false value &&
              exprCarries hidden context want true body
        | _ => false) && armsCarry hidden context subject want rest

end

/-- The statements of a function, of which the last may be its value. -/
def bodyCarries (context : Context) (stmts : List Stmt) : Bool :=
  match splitTail context stmts with
  | (front, some value) =>
      stmtsCarry functions [] context front &&
        exprCarries functions [] (front.foldl Context.behind context) context.result false value
  | (front, none) => stmtsCarry functions [] context front

end Carrying

/-- Whether a function is one over words that carries its types. -/
def declCarries (program : Program) (env : Env) (decl : FuncDecl) : Bool :=
  decl.params.all (fun param => isWordType param.type) &&
    (decl.result.isVoid || isWordType decl.result) &&
    bodyCarries (program.functions.map FuncDecl.name) (entryPoint env decl) decl.body

theorem behind_same (context : Context) (stmt : Stmt) :
    (context.behind stmt).env = context.env ∧ (context.behind stmt).result = context.result := by
  cases stmt <;> exact ⟨rfl, rfl⟩

theorem foldl_behind_same (context : Context) (stmts : List Stmt) :
    (stmts.foldl Context.behind context).env = context.env ∧
      (stmts.foldl Context.behind context).result = context.result := by
  induction stmts generalizing context with
  | nil => exact ⟨rfl, rfl⟩
  | cons stmt rest ih =>
      obtain ⟨hEnv, hResult⟩ := behind_same context stmt
      exact ⟨(ih _).1.trans hEnv, (ih _).2.trans hResult⟩

/-- An expression does not end with a value. -/
def Ending.Valueless (ending : Ending (Option Word)) : Prop :=
  ∀ word scope, ending ≠ .next (some word) scope

namespace Ending

variable {α : Type} {ending : Ending (Option Word)}

theorem valueless_bind {begun : Ending α} {step : α → Scope → Ending (Option Word)}
    (hStep : ∀ value scope, (step value scope).Valueless) : (begun.bind step).Valueless := by
  cases begun with
  | next value scope => exact hStep value scope
  | _ => exact fun _ _ => nofun

theorem valueless_word {begun : Ending (Option Word)} {step : Word → Scope → Ending (Option Word)}
    (hStep : ∀ word scope, (step word scope).Valueless) : (begun.word step).Valueless := by
  refine valueless_bind fun value scope => ?_
  cases value with
  | none => exact fun _ _ => nofun
  | some word => exact hStep word scope

/-- What needs a value that is not there does not end with one. -/
theorem Valueless.word {step : Word → Scope → Ending (Option Word)} (hNone : ending.Valueless) :
    (ending.word step).Valueless := by
  cases ending with
  | next value scope =>
      cases value with
      | none => exact fun _ _ => nofun
      | some word => exact absurd rfl (hNone word scope)
  | _ => exact fun _ _ => nofun

theorem valueless_forget (ending : Ending α) : ending.forget.Valueless :=
  valueless_bind fun _ _ _ _ => nofun

theorem Valueless.within (hNone : ending.Valueless) (depth : Nat) :
    (ending.within depth).Valueless := by
  cases ending with
  | next value scope =>
      cases value with
      | none => exact fun _ _ => nofun
      | some word => exact absurd rfl (hNone word scope)
  | _ => exact fun _ _ => nofun

end Ending

theorem isVoid_joinTypes {left right : Expr} {first second : Ty}
    (hVoid : (Context.joinTypes left right first second).isVoid = true) : first.isVoid = true := by
  rw [Context.joinTypes] at hVoid
  split at hVoid
  · rename_i hBare
    simp [hVoid] at hBare
  · exact (isVoid_orDefault.1 hVoid).1

section Valueless

variable {call : String → List Word → Answer} {fuel : Nat} {functions : List String}
variable {start : Context}

/-- At the start of a function all names have values, and functions that should not have a result
have none. -/
structure Starts (call : String → List Word → Answer) (functions : List String) (start : Context) :
    Prop where
  typed : ∀ entry ∈ start.scope, entry.2.type.isVoid = false
  void : ∀ name ∈ functions, ∀ ref, start.env.function? name = some ref → ref.result.isVoid = true →
    ∀ words word, call name words ≠ .value (some word)

theorem Starts.identType {assigned : Ty} {name : String} (hStarts : Starts call functions start)
    (hAssigned : assigned.isVoid = false) : (start.identType assigned name).isVoid = false := by
  rw [Context.identType]
  cases hLookup : start.lookup? name with
  | some slot =>
      obtain ⟨entry, hEntry, rfl⟩ := mem_of_lookup hLookup
      exact hStarts.typed entry hEntry
  | none => simp [Context.freeType, hAssigned]

theorem Starts.answer {name : String} {ref : FuncRef} (hStarts : Starts call functions start)
    (hKnown : name ∈ functions) (hRef : start.env.function? name = some ref)
    (hVoid : ref.result.isVoid = true) (words : List Word) (scope : Scope) :
    ((call name words).ending scope).Valueless := by
  have hNone := hStarts.void name hKnown ref hRef hVoid words
  cases hAnswer : call name words with
  | value word =>
      cases word with
      | none => exact fun _ _ => nofun
      | some word => exact absurd hAnswer (hNone word)
  | trap | exhausted => exact fun _ _ => nofun

mutual

/-- An expression that has no type at the start of a function has no value, wherever it stands. -/
theorem valueless_of_isVoid (hStarts : Starts call functions start) :
    (expr : Expr) → {hidden : List String} → {other : Context} → {want : Ty} → {asArm : Bool} →
      other.env = start.env → exprCarries functions hidden other want asArm expr = true →
      (start.typeOf expr).isVoid = true → ∀ scope, (evalExpr call fuel scope expr).Valueless
  | .missing, _, _, _, _, _, _, _, _ => by
      rw [evalExpr]
      exact fun _ _ => nofun
  | .int tag number, _, _, _, _, _, _, hVoid, _ => by
      rw [Context.typeOf] at hVoid
      cases (isVoid_orDefault.1 hVoid).2
  | .bool tag truth, _, _, _, _, _, _, hVoid, _ => by
      rw [Context.typeOf] at hVoid
      cases hVoid
  | .ident tag name, _, _, _, _, _, hCarries, hVoid, _ => by
      simp only [exprCarries, Bool.and_eq_true, Bool.not_eq_true'] at hCarries
      rw [Context.typeOf, hStarts.identType hCarries.2] at hVoid
      cases hVoid
  | .binary tag op left right, _, _, _, _, hEnv, hCarries, hVoid, scope => by
      simp only [exprCarries, Bool.and_eq_true] at hCarries
      rw [Context.typeOf] at hVoid
      split at hVoid
      · cases hVoid
      · rw [evalExpr]
        exact (valueless_of_isVoid hStarts left hEnv hCarries.1 (isVoid_joinTypes hVoid) scope).word
  | .unary tag op operand, _, _, _, _, hEnv, hCarries, hVoid, scope => by
      rw [exprCarries] at hCarries
      rw [Context.typeOf] at hVoid
      split at hVoid
      · cases hVoid
      · rw [evalExpr]
        exact (valueless_of_isVoid hStarts operand hEnv hCarries hVoid scope).word
  | .call tag function args, _, _, _, _, hEnv, hCarries, hVoid, scope => by
      simp only [exprCarries, Bool.and_eq_true, decide_eq_true_eq, Option.any_eq_true] at hCarries
      obtain ⟨hKnown, ref, hRef, -⟩ := hCarries
      rw [hEnv] at hRef
      simp only [Context.typeOf, Context.callee?, hRef] at hVoid
      rw [evalExpr]
      exact Ending.valueless_bind fun words scope => hStarts.answer hKnown hRef hVoid words scope
  | .branch tag cond body otherwise, _, _, _, _, hEnv, hCarries, hVoid, scope => by
      simp only [exprCarries, Bool.and_eq_true, Bool.or_eq_true] at hCarries
      rw [evalExpr]
      refine Ending.valueless_word fun truth scope => ?_
      by_cases hMissing : otherwise.isMissing = true
      · rw [if_pos hMissing]
        split
        · exact Ending.valueless_forget _
        · exact fun _ _ => nofun
      · rw [if_neg hMissing]
        rw [Context.typeOf] at hVoid
        split at hVoid
        · rename_i hTag
          simp [hMissing, hVoid] at hTag
        · obtain ⟨hBody, hOtherwise⟩ := isVoid_orDefault.1 hVoid
          split
          · exact valueless_of_isVoid hStarts body hEnv hCarries.1.2 hBody scope
          · exact valueless_of_isVoid hStarts otherwise hEnv (hCarries.2.resolve_left hMissing)
              hOtherwise scope
  | .block tag stmts tail, _, other, _, _, hEnv, hCarries, hVoid, scope => by
      simp only [exprCarries, Bool.and_eq_true] at hCarries
      rw [Context.typeOf] at hVoid
      obtain ⟨hTag, hTail⟩ := isVoid_orDefault.1 hVoid
      rw [evalExpr]
      refine Ending.Valueless.within (Ending.valueless_bind fun _ scope => ?_) _
      by_cases hMissing : tail.isMissing = true
      · rw [if_pos hMissing, if_pos hTag]
        exact fun _ _ => nofun
      · rw [if_neg hMissing] at hCarries ⊢
        exact valueless_of_isVoid hStarts tail ((foldl_behind_same other stmts).1.trans hEnv)
          hCarries.2 hTail scope
  | .cases tag scrutinee arms, _, _, _, _, hEnv, hCarries, hVoid, scope => by
      simp only [exprCarries, Bool.and_eq_true] at hCarries
      rw [Context.typeOf] at hVoid
      rw [evalExpr]
      exact Ending.valueless_word fun subject scope => valueless_arms hStarts arms hEnv hCarries.2
        (isVoid_orDefault.1 hVoid).2 subject scope
  | .float _ _, _, _, _, _, _, hCarries, _, _ | .string _ _, _, _, _, _, _, hCarries, _, _
  | .char _ _, _, _, _, _, _, hCarries, _, _ | .null _, _, _, _, _, _, hCarries, _, _
  | .methodCall _ _ _ _, _, _, _, _, _, hCarries, _, _ | .member _ _ _, _, _, _, _, _,
      hCarries, _, _
  | .construct _ _ _, _, _, _, _, _, hCarries, _, _ | .variant _ _ _, _, _, _, _, _, hCarries, _, _
  | .lambda _ _ _, _, _, _, _, _, hCarries, _, _ | .cast _ _ _, _, _, _, _, _, hCarries, _, _
  | .attempt _ _, _, _, _, _, _, hCarries, _, _ | .quote _ _, _, _, _, _, _, hCarries, _, _
  | .eval _ _, _, _, _, _, _, hCarries, _, _ | .reflect _ _, _, _, _, _, _, hCarries, _, _
  | .macroCall _ _ _, _, _, _, _, _, hCarries, _, _ | .list _ _, _, _, _, _, _, hCarries, _, _
  | .tuple _ _, _, _, _, _, _, hCarries, _, _ => by simp [exprCarries] at hCarries

theorem valueless_arms (hStarts : Starts call functions start) :
    (arms : List Arm) → {hidden : List String} → {other : Context} → {subject want : Ty} →
      other.env = start.env → armsCarry functions hidden other subject want arms = true →
      (start.typeOfArms arms).isVoid = true →
      ∀ word scope, (evalArms call fuel scope word arms).Valueless
  | [], _, _, _, _, _, _, _, _, _ => by
      rw [evalArms]
      exact fun _ _ => nofun
  | .mk _ pattern body :: rest, _, _, _, _, hEnv, hCarries, hVoid, word, scope => by
      rw [Context.typeOfArms] at hVoid
      obtain ⟨hBody, hRest⟩ := isVoid_orDefault.1 hVoid
      cases pattern with
      | wildcard =>
          simp only [armsCarry, Bool.and_eq_true] at hCarries
          rw [evalArms]
          exact valueless_of_isVoid hStarts body hEnv hCarries.1 hBody scope
      | bind =>
          simp only [armsCarry, Bool.and_eq_true] at hCarries
          rw [evalArms]
          exact (valueless_of_isVoid hStarts body (by exact hEnv) hCarries.1 hBody _).within _
      | literal _ value =>
          simp only [armsCarry, Bool.and_eq_true] at hCarries
          rw [evalArms]
          refine Ending.valueless_word fun constant scope => ?_
          split
          · exact valueless_of_isVoid hStarts body hEnv hCarries.1.2 hBody scope
          · exact valueless_arms hStarts rest hEnv hCarries.2 hRest word scope
      | missing | constructor => simp [armsCarry] at hCarries

end

/-- A body whose last statement has no value has none. -/
theorem valueless_evalBody {stmts : List Stmt}
    (hLast : ∀ front pos value, stmts = front ++ [.eval pos value] →
      ∀ scope, (evalExpr call fuel scope value).Valueless) (scope : Scope) :
    (evalBody call fuel scope stmts).Valueless := by
  induction stmts generalizing scope with
  | nil => exact fun _ _ => nofun
  | cons stmt rest ih =>
      cases rest with
      | cons next others =>
          rw [evalBody_cons_cons]
          refine Ending.valueless_bind fun _ scope => ih (fun front pos value hRest => ?_) scope
          exact hLast (stmt :: front) pos value (by rw [hRest, List.cons_append])
      | nil =>
          cases stmt with
          | eval pos value => exact hLast [] pos value rfl scope
          | _ =>
              rw [evalBody]
              · exact Ending.valueless_bind fun _ _ _ _ => nofun
              · intro pos value hEval
                cases hEval

end Valueless

/-! ## Bodies without a value -/

section Bodies

variable {functions : List String} {context : Context} {front stmts : List Stmt}
variable {call : String → List Word → Answer}

theorem splitTail_append {pos : Position} {value : Expr} (hSome : context.result.isVoid = false)
    (hType : (context.typeOf value).isVoid = false) :
    splitTail context (front ++ [.eval pos value]) = (front, some value) := by
  simp [splitTail, hSome, hType]

theorem splitTail_void (hVoid : context.result.isVoid = true) (stmts : List Stmt) :
    splitTail context stmts = (stmts, none) := by
  rcases splitTail_cases context stmts with hNone | ⟨_, _, _, -, hSome, -⟩
  · exact hNone
  · rw [hVoid] at hSome
    cases hSome

theorem bodyCarries_none (hSplit : splitTail context stmts = (stmts, none))
    (hCarries : bodyCarries functions context stmts = true) :
    stmtsCarry functions [] context stmts = true := by
  rwa [bodyCarries, hSplit] at hCarries

theorem stmtsCarry_append {hidden : List String} {back : List Stmt}
    (hCarries : stmtsCarry functions hidden context (front ++ back) = true) :
    stmtsCarry functions hidden (front.foldl Context.behind context) back = true := by
  induction front generalizing context with
  | nil => exact hCarries
  | cons stmt rest ih =>
      rw [List.cons_append, stmtsCarry, Bool.and_eq_true] at hCarries
      exact ih hCarries.2

/-- A body that is not split ends without a value. -/
theorem valueless_of_splitTail (hStarts : Starts call functions context)
    (hSome : context.result.isVoid = false) (hSplit : splitTail context stmts = (stmts, none))
    (hCarries : stmtsCarry functions [] context stmts = true) (fuel : Nat) (scope : Scope) :
    (evalBody call fuel scope stmts).Valueless := by
  refine valueless_evalBody (fun front pos value hStmts => ?_) scope
  subst hStmts
  have hLast := stmtsCarry_append hCarries
  simp only [stmtsCarry, stmtCarries, Bool.and_true] at hLast
  have hVoid : (context.typeOf value).isVoid = true := by
    by_contra hType
    rw [splitTail_append hSome (by simpa using hType)] at hSplit
    cases (Prod.mk.inj hSplit).2
  exact valueless_of_isVoid hStarts value (foldl_behind_same context front).1 hLast hVoid

end Bodies

end RecordWasm.Evaluation
