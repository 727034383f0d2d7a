import RecordWasm.Machine.Numeric
import RecordWasm.Syntax.Tree
import Mathlib.Algebra.Group.Int.Defs

/-!
# What programs mean

An evaluator for programs over words.  It follows the syntax and knows neither slots nor labels nor
instructions.  Integers are computed as such and then brought into the range of their type, which is
two's complement arithmetic.  Both sides of every operator are evaluated, the left one first.  A
break or a return may leave an expression whose operands are only partly evaluated.

Fuel bounds the turns of every loop and the depth of calls.
-/

namespace RecordWasm.Evaluation

open Syntax Machine Wasm

/-- A value.  Truth values are words of 32 bits, of which all but zero count as true. -/
inductive Word where
  | i32 (value : Int32)
  | i64 (value : Int64)
  deriving DecidableEq, Repr

/-- The types whose values are words. -/
def isWordType : Ty → Bool
  | .i32 | .i64 | .bool => true
  | _ => false

namespace Word

def kind : Word → NumType
  | i32 _ => .i32
  | i64 _ => .i64

def toInt : Word → Int
  | i32 value => value.toInt
  | i64 value => value.toInt

/-- The integer in the range of the type of a word that differs from a number by a multiple of the
size of the range. -/
def wrap (like : Word) (number : Int) : Word :=
  match like with
  | i32 _ => i32 (Int32.ofInt number)
  | i64 _ => i64 (Int64.ofInt number)

/-- The least number that is too large for the type of a word. -/
def limit : Word → Int
  | i32 _ => 2 ^ 31
  | i64 _ => 2 ^ 63

def isTrue (word : Word) : Bool := word.toInt ≠ 0

def ofBool (truth : Bool) : Word := i32 (if truth then 1 else 0)

/-- A literal of a type. -/
def literal (type : Ty) (value : Int64) : Word :=
  match type with
  | .i64 => i64 value
  | _ => i32 value.toInt32

def negate (word : Word) : Word := word.wrap (-word.toInt)

/-- The bits that two words have in common. -/
def both : Word → Word → Word
  | i32 left, i32 right => i32 (left &&& right)
  | left, _ => left

/-- The bits that at least one of two words has. -/
def either : Word → Word → Word
  | i32 left, i32 right => i32 (left ||| right)
  | left, _ => left

/-- The quotient of two integers, rounded towards zero; there may be none, or none in range. -/
def quotient (limit dividend divisor : Int) : Except Trap Int :=
  if divisor = 0 then .error .divideByZero
  else if dividend.tdiv divisor = limit then .error .overflow
  else .ok (dividend.tdiv divisor)

/-- What is left of a division; it has the sign of the dividend. -/
def remainder (dividend divisor : Int) : Except Trap Int :=
  if divisor = 0 then .error .divideByZero else .ok (dividend.tmod divisor)

/-- An operator on two words of one type. -/
def apply (op : String) (left right : Word) : Except Trap Word :=
  let x := left.toInt
  let y := right.toInt
  match op with
  | "+" => .ok (left.wrap (x + y))
  | "-" => .ok (left.wrap (x - y))
  | "*" => .ok (left.wrap (x * y))
  | "/" => (quotient left.limit x y).map left.wrap
  | "%" => (remainder x y).map left.wrap
  | "==" => .ok (ofBool (x == y))
  | "!=" => .ok (ofBool (x != y))
  | "<" => .ok (ofBool (x < y))
  | "<=" => .ok (ofBool (x ≤ y))
  | ">" => .ok (ofBool (x > y))
  | ">=" => .ok (ofBool (x ≥ y))
  | "&&" => .ok (left.both right)
  | "||" => .ok (left.either right)
  | _ => .error .unreachable

end Word

/-- The words of the names in scope, innermost first.  A word without a name cannot be referred
to. -/
abbrev Scope := List (Option String × Word)

namespace Scope

def get? (scope : Scope) (name : String) : Option Word :=
  (scope.find? fun entry => entry.1 == some name).map Prod.snd

/-- Gives the innermost word of a name a new value. -/
def assign (name : String) (word : Word) : Scope → Scope
  | [] => []
  | entry :: rest =>
      if entry.1 = some name then (entry.1, word) :: rest else entry :: assign name word rest

/-- The outermost entries of a scope. -/
def outer (depth : Nat) (scope : Scope) : Scope := scope.drop (scope.length - depth)

/-- Names the innermost word. -/
def rename (name : String) : Scope → Scope
  | [] => []
  | (_, word) :: rest => (some name, word) :: rest

/-- Whether the innermost word is below a limit. -/
def below (limit : Word) : Scope → Bool
  | [] => false
  | (_, word) :: _ => word.toInt < limit.toInt

/-- Raises the innermost word by one. -/
def raise : Scope → Scope
  | [] => []
  | (name, word) :: rest => (name, word.wrap (word.toInt + 1)) :: rest

end Scope

/-- How a piece of a function ends: behind itself, with a break, with a continue, with a return, or
not at all. -/
inductive Ending (α : Type) where
  | next (value : α) (scope : Scope)
  | leave (scope : Scope)
  | again (scope : Scope)
  | ret (value : Option Word)
  | trap (cause : Trap)
  | exhausted

namespace Ending

variable {α β : Type}

def bind (ending : Ending α) (step : α → Scope → Ending β) : Ending β :=
  match ending with
  | next value scope => step value scope
  | leave scope => .leave scope
  | again scope => .again scope
  | ret value => .ret value
  | trap cause => .trap cause
  | exhausted => .exhausted

/-- Goes on with a value.  One that is needed is there in all programs that are compiled. -/
def word (ending : Ending (Option Word)) (step : Word → Scope → Ending β) : Ending β :=
  ending.bind fun value scope =>
    match value with
    | some word => step word scope
    | none => .trap .unreachable

/-- Gives up a value. -/
def forget (ending : Ending α) : Ending (Option Word) := ending.bind fun _ scope => .next none scope

/-- Gives up the names that were bound inside. -/
def within (depth : Nat) : Ending α → Ending α
  | next value scope => .next value (scope.outer depth)
  | leave scope => .leave (scope.outer depth)
  | again scope => .again (scope.outer depth)
  | ended => ended

/-- The end of the body of a loop tells whether there is another turn. -/
def turn (depth : Nat) : Ending α → Ending Bool
  | next _ scope | again scope => .next true (scope.outer depth)
  | leave scope => .next false (scope.outer depth)
  | ret value => .ret value
  | trap cause => .trap cause
  | exhausted => .exhausted

theorem forget_bind (ending : Ending α) (step : α → Scope → Ending β) :
    (ending.bind step).forget = ending.bind fun value scope => (step value scope).forget := by
  cases ending <;> rfl

end Ending

/-- Takes turns until one says that there is no other. -/
def turns (turn : Scope → Ending Bool) : (fuel : Nat) → Scope → Ending Unit
  | 0, _ => .exhausted
  | fuel + 1, scope =>
      (turn scope).bind fun go scope => if go then turns turn fuel scope else .next () scope

/-- How a call ends. -/
inductive Answer where
  | value (word : Option Word)
  | trap (cause : Trap)
  | exhausted
  deriving DecidableEq, Repr

def Answer.ending (answer : Answer) (scope : Scope) : Ending (Option Word) :=
  match answer with
  | value word => .next word scope
  | trap cause => .trap cause
  | exhausted => .exhausted

/-! ## Statements and expressions -/

section Syntax

-- How functions answer.
variable (call : String → List Word → Answer) (fuel : Nat)

mutual

def evalStmts (scope : Scope) : List Stmt → Ending Unit
  | [] => .next () scope
  | stmt :: rest => (evalStmt scope stmt).bind fun _ scope => evalStmts scope rest

def evalStmt (scope : Scope) : Stmt → Ending Unit
  | .missing => .trap .unreachable
  | .declare _ name _ value =>
      (evalExpr scope value).word fun word scope => .next () ((some name, word) :: scope)
  | .assign _ target value =>
      match target with
      | .ident _ name =>
          (evalExpr scope value).word fun word scope => .next () (scope.assign name word)
      | _ => .trap .unreachable
  | .result _ value =>
      if value.isMissing then .ret none
      else (evalExpr scope value).word fun word _ => .ret (some word)
  | .eval _ value => (evalExpr scope value).bind fun _ scope => .next () scope
  | .whileLoop _ cond body =>
      -- A break inside the condition belongs to the loop around.
      turns (fun scope => (evalExpr scope cond).word fun truth scope =>
        if truth.isTrue then (evalStmts scope body).turn scope.length else .next false scope)
        fuel scope
  | .forever _ body => turns (fun scope => (evalStmts scope body).turn scope.length) fuel scope
  | .forRange _ var start stop body =>
      -- The counter has no name yet when the second bound is evaluated, once and for all.
      Ending.within scope.length <|
        (evalExpr scope start).word fun first scope =>
          (evalExpr ((none, first) :: scope) stop).word fun limit scope =>
            turns (fun scope =>
              if scope.below limit then
                ((evalStmts scope body).turn scope.length).bind fun go scope =>
                  .next go (if go then scope.raise else scope)
              else .next false scope) fuel (scope.rename var)
  | .leave _ => .leave scope
  | .next _ => .again scope

/-- An expression, which may have a value. -/
def evalExpr (scope : Scope) : Expr → Ending (Option Word)
  | .missing => .next none scope
  | .int tag value => .next (some (.literal tag.type value)) scope
  | .bool _ truth => .next (some (.ofBool truth)) scope
  | .ident _ name =>
      match scope.get? name with
      | some word => .next (some word) scope
      | none => .trap .unreachable
  | .binary _ op left right =>
      (evalExpr scope left).word fun first scope =>
        (evalExpr scope right).word fun second scope =>
          match first.apply op second with
          | .ok word => .next (some word) scope
          | .error cause => .trap cause
  | .unary _ op operand =>
      (evalExpr scope operand).word fun word scope =>
        .next (some (if op = "!" then .ofBool (!word.isTrue) else word.negate)) scope
  | .call _ function args =>
      (evalArgs scope args).bind fun words scope => (call function words).ending scope
  | .branch _ cond body otherwise =>
      (evalExpr scope cond).word fun truth scope =>
        if otherwise.isMissing then
          if truth.isTrue then (evalExpr scope body).forget else .next none scope
        else if truth.isTrue then evalExpr scope body
        else evalExpr scope otherwise
  | .block tag stmts tail =>
      Ending.within scope.length <|
        (evalStmts scope stmts).bind fun _ scope =>
          if tail.isMissing then
            if tag.type.isVoid then .next none scope else .trap .unreachable
          else evalExpr scope tail
  | .cases _ scrutinee arms =>
      (evalExpr scope scrutinee).word fun subject scope => evalArms scope subject arms
  | _ => .trap .unreachable

def evalArgs (scope : Scope) : List Expr → Ending (List Word)
  | [] => .next [] scope
  | arg :: rest =>
      (evalExpr scope arg).word fun word scope =>
        (evalArgs scope rest).bind fun words scope => .next (word :: words) scope

/-- The first arm that fits; a match without one traps. -/
def evalArms (scope : Scope) (subject : Word) : List Arm → Ending (Option Word)
  | [] => .trap .unreachable
  | .mk _ pattern body :: rest =>
      match pattern with
      | .wildcard _ => evalExpr scope body
      | .bind _ name => (evalExpr ((some name, subject) :: scope) body).within scope.length
      | .literal _ value =>
          (evalExpr scope value).word fun constant scope =>
            if constant = subject then evalExpr scope body else evalArms scope subject rest
      | _ => .trap .unreachable

end

/-- Statements whose value is that of the last one, if it is an expression. -/
def evalBody (scope : Scope) : List Stmt → Ending (Option Word)
  | [] => .next none scope
  | [.eval _ value] => evalExpr call fuel scope value
  | stmt :: rest => (evalStmt call fuel scope stmt).bind fun _ scope => evalBody scope rest

theorem evalBody_cons_cons (scope : Scope) (stmt next : Stmt) (rest : List Stmt) :
    evalBody call fuel scope (stmt :: next :: rest) =
      (evalStmt call fuel scope stmt).bind fun _ scope =>
        evalBody call fuel scope (next :: rest) := by
  cases stmt <;> rfl

theorem evalBody_append (scope : Scope) (front : List Stmt) (pos : Position) (value : Expr) :
    evalBody call fuel scope (front ++ [.eval pos value]) =
      (evalStmts call fuel scope front).bind fun _ scope => evalExpr call fuel scope value := by
  induction front generalizing scope with
  | nil =>
      rw [evalStmts]
      rfl
  | cons stmt rest ih =>
      obtain ⟨next, others, hRest⟩ : ∃ next others, rest ++ [.eval pos value] = next :: others :=
        List.exists_cons_of_ne_nil (by simp)
      rw [List.cons_append, hRest, evalBody_cons_cons, evalStmts]
      cases evalStmt call fuel scope stmt with
      | next _ scope => exact hRest ▸ ih scope
      | _ => rfl

/-- Apart from its value, a body is evaluated like any statements. -/
theorem forget_evalBody (scope : Scope) (stmts : List Stmt) :
    (evalBody call fuel scope stmts).forget = (evalStmts call fuel scope stmts).forget := by
  induction stmts generalizing scope with
  | nil =>
      rw [evalStmts]
      rfl
  | cons stmt rest ih =>
      rw [evalStmts, Ending.forget_bind]
      cases rest with
      | cons next others =>
          rw [evalBody_cons_cons, Ending.forget_bind]
          simp only [ih]
      | nil =>
          have hNil (scope : Scope) : (evalStmts call fuel scope []).forget = .next none scope := by
            rw [evalStmts]
            rfl
          simp only [hNil]
          cases stmt with
          | eval pos value =>
              rw [evalBody, evalStmt]
              cases evalExpr call fuel scope value <;> rfl
          | _ =>
              rw [evalBody]
              · cases evalStmt call fuel scope _ <;> rfl
              · intro pos value hEval
                cases hEval

end Syntax

/-- The scope in which a function starts.  A parameter without a name cannot be referred to. -/
def entryScope : List Param → List Word → Scope
  | param :: params, word :: words =>
      entryScope params words ++ (if param.name = "" then [] else [(some param.name, word)])
  | _, _ => []

/-- What a function answers when its statements have ended.  One that should have a result and comes
to its end without one traps. -/
def Ending.answer (result : Ty) : Ending (Option Word) → Answer
  | next value _ =>
      if result.isVoid then .value none
      else
        match value with
        | some word => .value (some word)
        | none => .trap .unreachable
  | ret value => .value (if result.isVoid then none else value)
  | trap cause => .trap cause
  | exhausted => .exhausted
  | leave _ | again _ => .trap .unreachable

/-- Calls a function of a program. -/
def run (program : Program) : (fuel : Nat) → String → List Word → Answer
  | 0, _, _ => .exhausted
  | fuel + 1, name, words =>
      match program.functions.find? fun decl => decl.name == name with
      | some decl =>
          (evalBody (run program fuel) (fuel + 1) (entryScope decl.params words) decl.body).answer
            decl.result
      | none => .trap .unreachable

end RecordWasm.Evaluation
