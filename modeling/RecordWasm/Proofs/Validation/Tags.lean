import RecordWasm.Proofs.Lowering.Bodies
import RecordWasm.Proofs.Layout.Inheritance

/-!
# What is asked of assigned types

Most assigned types do not matter for the code that is generated, as the type of every value is
looked at again.  The exceptions are stated here: literals with a fraction, conditionals without an
alternative, and names that stand for a field of the receiver.
-/

namespace RecordWasm.Lowering

open Syntax Layout Wasm

section Tags

-- The types of the fields of the receiver that names stand for.
variable (path? : String → Option Ty)

mutual

def stmtsTagged (bound : List String) : List Stmt → Bool
  | [] => true
  | stmt :: rest => stmtTagged bound stmt && stmtsTagged (boundBehind bound stmt) rest

def stmtTagged (bound : List String) : Stmt → Bool
  | .declare _ _ _ value | .assign _ _ value | .result _ value | .eval _ value =>
      exprTagged bound value
  | .whileLoop _ cond body => exprTagged bound cond && stmtsTagged bound body
  | .forRange _ var start stop body =>
      exprTagged bound start && exprTagged (var :: bound) stop && stmtsTagged (var :: bound) body
  | .forever _ body => stmtsTagged bound body
  | .missing | .leave _ | .next _ => true

/-- Whether the types that matter are as they have to be, where the given names are bound. -/
def exprTagged (bound : List String) : Expr → Bool
  | .float tag _ => tag.type.isVoid || tag.type.isFloat
  | .ident tag name =>
      name ∈ bound || name == selfName || tag.type.isVoid ||
        (path? name).all (sameRepr tag.type)
  | .binary _ _ left right => exprTagged bound left && exprTagged bound right
  | .unary _ _ operand => exprTagged bound operand
  | .call _ _ args => argsTagged bound args
  | .methodCall _ receiver _ args => exprTagged bound receiver && argsTagged bound args
  | .branch tag cond body otherwise =>
      (!otherwise.isMissing || tag.type.isVoid) && exprTagged bound cond && exprTagged bound body &&
        exprTagged bound otherwise
  | .block _ stmts tail =>
      stmtsTagged bound stmts && exprTagged (stmts.foldl boundBehind bound) tail
  | .cases _ scrutinee arms => exprTagged bound scrutinee && armsTagged bound arms
  | .member _ subject _ => exprTagged bound subject
  | .construct _ _ inits => initsTagged bound inits
  | _ => true

def argsTagged (bound : List String) : List Expr → Bool
  | [] => true
  | arg :: rest => exprTagged bound arg && argsTagged bound rest

def armsTagged (bound : List String) : List Arm → Bool
  | [] => true
  | .mk _ pattern body :: rest =>
      (match pattern with
        | .bind _ name => exprTagged (name :: bound) body
        | .literal _ value => exprTagged bound value && exprTagged bound body
        | _ => exprTagged bound body) && armsTagged bound rest

def initsTagged (bound : List String) : List FieldInit → Bool
  | [] => true
  | .mk _ _ value :: rest => exprTagged bound value && initsTagged bound rest

end

variable {path?}

theorem stmtsTagged_append {bound : List String} {front back : List Stmt} :
    stmtsTagged path? bound (front ++ back) =
      (stmtsTagged path? bound front && stmtsTagged path? (front.foldl boundBehind bound)
        back) := by
  induction front generalizing bound with
  | nil => simp [stmtsTagged]
  | cons stmt rest ih => simp [stmtsTagged, ih, Bool.and_assoc]

theorem exprTagged_of_mem {bound : List String} {inits : List FieldInit} {init : FieldInit}
    (hTagged : initsTagged path? bound inits = true) (hInit : init ∈ inits) :
    exprTagged path? bound init.value = true := by
  induction inits with
  | nil => cases hInit
  | cons first rest ih =>
      obtain ⟨pos, name, value⟩ := first
      rw [initsTagged, Bool.and_eq_true] at hTagged
      rcases List.mem_cons.1 hInit with rfl | hRest
      · exact hTagged.1
      · exact ih hTagged.2 hRest

end Tags

/-- Whether an expression is tagged as it has to be where it stands. -/
def Context.tagged (context : Context) (expr : Expr) : Bool :=
  exprTagged context.receiverPathType? context.names expr

theorem Context.not_mem_names {context : Context} {name : String}
    (hLookup : context.lookup? name = none) : name ∉ context.names := by
  rw [lookup?, Option.map_eq_none_iff, List.find?_eq_none] at hLookup
  intro hMem
  obtain ⟨entry, hEntry, rfl⟩ := List.mem_map.1 hMem
  exact hLookup entry hEntry (by simp)

/-- The types of the fields of all records are known. -/
def Env.Typed (env : Env) : Prop :=
  ∀ name record field, env.registry.get? name = some record → field ∈ record.fields →
    (env.fieldType? name field.name).isSome

/-- A path yields the type that was found for it. -/
theorem Loads.type_eq {env : Env} {base type : Ty} {path : List String} {lowered : Lowered}
    (hLoads : Loads env base path lowered) (hType : pathType? env base path = some type) :
    lowered.type = type := by
  induction hLoads generalizing type with
  | here =>
      rw [pathType?] at hType
      exact Option.some.inj hType
  | @field name field record found rest deeper hGet hField hDeeper ih =>
      have hName : found.name = field := by simpa using List.find?_some hField
      rw [pathType?] at hType
      split at hType
      · rename_i declared hDeclared
        apply ih
        rw [Env.typeOfField, hName, hDeclared]
        exact hType
      · cases hType

/-- The type of a name that stands for a field of the receiver. -/
theorem freeType_path {context : Context} {type : Ty} {tag : Tag} {name : String}
    (hLookup : context.lookup? name = none) (hName : name ≠ selfName)
    (hPath : context.receiverPathType? name = some type)
    (hTagged : context.tagged (.ident tag name) = true) :
    numType? (context.freeType tag.type name) = numType? type := by
  have hFree := Context.not_mem_names hLookup
  simp only [Context.tagged, exprTagged, hFree, hName, hPath, decide_false, Bool.false_or,
    Bool.or_eq_true, beq_iff_eq, Option.all_some, false_or] at hTagged
  rw [Context.freeType]
  rcases hTagged with hVoid | hSame
  · rw [hVoid, if_neg (by simp), if_neg (fun hSelf => hName hSelf.2), hPath]
  · cases hVoid : tag.type.isVoid with
    | false => simpa [sameRepr] using hSame
    | true => rw [if_neg (by simp), if_neg (fun hSelf => hName hSelf.2), hPath]

theorem isNumeric_record (name : String) : isNumeric (.record name) = false := rfl

/-- Where a record is expected, operands keep their own type. -/
theorem binaryType_record (context : Context) (op : String) (left right : Expr) (name : String) :
    binaryType context op left right (.record name) = context.operandType left right := by
  rw [binaryType, isNumeric_record, Bool.and_false, Bool.false_and, Bool.false_and]
  rfl

theorem negationType_record (context : Context) (operand : Expr) (name : String) :
    negationType context operand (.record name) = context.typeOf operand := by
  rw [negationType, isNumeric_record, Bool.and_false]
  rfl

/-- A receiver is a word, although the type that its code yields is not looked at. -/
theorem Derives.receiver_word {context : Context} {record : String} {receiver : Expr}
    {lowered : Lowered} {before after : Slots} (hTyped : context.env.Typed)
    (hDerives : Derives before (.expr context (.record record) false receiver lowered) after)
    (hType : context.typeOf receiver = .record record) (hTagged : context.tagged receiver = true) :
    numType? lowered.type = some .i32 := by
  cases hDerives with
  | int hInt =>
      rw [hInt, if_neg (by simp [isNumeric, Ty.isInteger, Ty.isFloat])]
      rw [Context.typeOf] at hType
      rw [hType]
      rfl
  | float hFloat =>
      -- The type of a literal with a fraction is no record.
      rw [Context.typeOf, orDefault] at hType
      simp only [Context.tagged, exprTagged, Bool.or_eq_true] at hTagged
      split at hType
      · cases hType
      · rename_i hSome
        rw [hType] at hTagged hSome
        simp [Ty.isVoid, Ty.isFloat] at hTagged
  | bool | self | named | variant | logical | not | construct => rfl
  | bound hLookup =>
      rw [Context.typeOf, Context.identType, hLookup] at hType
      simp only at hType
      rw [hType]
      rfl
  | path hLookup hName hPath hLoads =>
      have hFree := freeType_path hLookup hName hPath hTagged
      rw [Context.typeOf, Context.identType, hLookup] at hType
      simp only at hType
      rw [hType] at hFree
      rw [Context.receiverPathType?] at hPath
      split at hPath
      · cases hPath
      · rw [hLoads.type_eq hPath, ← hFree]
        rfl
  | binary hLogical hBinary hVoid hLeft hRight hOperator =>
      rw [Context.typeOf] at hType
      split at hType
      · cases hType
      · rename_i hPlain
        rw [hLogical, Bool.or_false] at hPlain
        rw [binaryType_record, Context.operandType, hType] at hBinary
        simp only [hPlain, hBinary]
        rfl
  | negateFloat hNegation hRest | negateInt hNegation hRest =>
      rw [Context.typeOf, if_neg (by decide)] at hType
      rw [negationType_record, hType] at hNegation
      rw [hNegation]
      rfl
  | call hCalls hArgs =>
      rw [Context.typeOf, hCalls.1] at hType
      simp only at hType
      rw [callCode, hType]
      rfl
  | ownCall hNone hOwn hArgs =>
      rw [Context.typeOf, Context.callee?_own hNone hOwn] at hType
      simp only at hType
      rw [callCode, hType]
      rfl
  | methodCall hReceiver hMethod hAddress hArgs =>
      rw [Context.typeOf, hReceiver, Context.methodOf?, hMethod] at hType
      simp only at hType
      rw [callCode, hType]
      rfl
  | branchOnly hCond hBody =>
      rw [Context.typeOf, if_pos (by simp [Expr.isMissing])] at hType
      simp [Context.tagged, exprTagged, Expr.isMissing, hType, Ty.isVoid] at hTagged
  | branch hSome hBranch hCond hYes hNo =>
      rw [hBranch, branchResult, hType]
      simp only [hSome, Bool.false_eq_true, if_false, ite_self]
      rfl
  | blockOnly hWant | block _ hWant =>
      rw [hWant, yielded, blockResult, hType]
      simp only [Bool.false_eq_true, ite_self]
      rfl
  | cases hSubject hVoid _ hResult hScrutinee hArms =>
      rw [hResult, casesResult, hType]
      simp only [ite_self]
      rfl
  | member hSubject hGet hField hCode =>
      rw [Context.typeOf, hSubject] at hType
      simp only at hType
      obtain ⟨declared, hDeclared⟩ := Option.isSome_iff_exists.1
        (hTyped _ _ _ hGet (List.mem_of_find?_eq_some hField))
      have hName := List.find?_some hField
      simp only [beq_iff_eq] at hName
      rw [← hName, hDeclared, Option.getD_some] at hType
      simp only [Env.typeOfField, hDeclared, Option.getD_some, hType]
      rfl

end RecordWasm.Lowering
