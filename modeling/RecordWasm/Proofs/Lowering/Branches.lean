import RecordWasm.Proofs.Lowering.Nesting

/-!
# Where branches lead

A label counts the frames around a branch.  Every branch of generated code leads to one of the
frames of a loop, and it is the frame that the source asks for: `break` leads behind the innermost
loop whose body it stands in, `continue` to the next turn of that loop.  The frames are told apart
by what the code looks like, without the contexts that lowering keeps.
-/

namespace RecordWasm.Lowering

open Syntax Layout Wasm Machine

/-- The frames of a loop: the block behind whose end the loop is left, the loop itself, and the
block behind whose end a counter is raised. -/
inductive Part where
  | leave
  | again
  | next
  deriving DecidableEq, Repr

/-- A frame of one of the loops around a branch, which are numbered from the innermost. -/
structure Target where
  part : Part
  loop : Nat
  deriving DecidableEq, Repr

/-- The open frames, innermost first; those that belong to no loop are `none`. -/
abbrev Frames := List (Option Part)

/-- Where a label leads.  Beyond all open frames there is only that of the function. -/
def targetOf? (frames : Frames) (label : Nat) : Option Target :=
  frames[label]?.join.map fun part => ⟨part, (frames.take label).count (some .leave)⟩

/-- Whether steps start with raising a local by one. -/
def raises : List Step → Bool
  | .plain .localGet (.local read) :: .plain (.const _) one :: .plain (.int _ .add) .none ::
      .plain .localSet (.local written) :: _ =>
      read == written && (one == .i32 1 || one == .i64 1)
  | _ => false

/-- What a block is for, told what it stands in and in front of. -/
def partOf (outer : Frames) (body behind : List Step) : Option Part :=
  match body with
  | [.loop _ _] => some .leave
  | _ => if outer.head? = some (some .again) ∧ raises behind = true then some .next else none

mutual

/-- Where the branches of a step lead. -/
def stepTargets (frames : Frames) (behind : List Step) : Step → List (Option Target)
  | .block _ body => stepsTargets (partOf frames body behind :: frames) body
  | .loop _ body => stepsTargets (some .again :: frames) body
  | .choose _ yes no => stepsTargets (none :: frames) yes ++ stepsTargets (none :: frames) no
  | .br label | .brIf label => [targetOf? frames label]
  | .plain _ _ | .ret | .call _ | .unreachable => []

/-- Where the branches of steps lead, in their order. -/
def stepsTargets (frames : Frames) : List Step → List (Option Target)
  | [] => []
  | step :: rest => stepTargets frames rest step ++ stepsTargets frames rest

end

/-! ## Branches in the source -/

/-- The innermost loop whose body a piece of source stands in: its number among the loops that are
open there, and the frame of it that `continue` leads to. -/
structure Around where
  loop : Nat
  next : Part

/-- The same loop, seen from inside one more. -/
def Around.further (around : Around) : Around := { around with loop := around.loop + 1 }

section Source

variable (env : Env)

mutual

def stmtsTargets (around : Option Around) : List Stmt → List (Option Target)
  | [] => []
  | stmt :: rest => stmtTargets around stmt ++ stmtsTargets around rest

/-- Where the branches that a statement asks for should lead, in the order of evaluation.  A `break`
or `continue` that stands in no loop has nowhere to lead. -/
def stmtTargets (around : Option Around) : Stmt → List (Option Target)
  | .declare _ _ _ value | .assign _ _ value | .result _ value | .eval _ value =>
      exprTargets around value
  -- The condition is evaluated inside the loop but does not belong to its body.
  | .whileLoop _ cond body =>
      exprTargets (around.map .further) cond ++ some ⟨.leave, 0⟩ ::
        stmtsTargets (some ⟨0, .again⟩) body ++ [some ⟨.again, 0⟩]
  | .forever _ body => stmtsTargets (some ⟨0, .again⟩) body ++ [some ⟨.again, 0⟩]
  | .forRange _ _ start stop body =>
      exprTargets around start ++ exprTargets around stop ++ some ⟨.leave, 0⟩ ::
        stmtsTargets (some ⟨0, .next⟩) body ++ [some ⟨.again, 0⟩]
  | .leave _ => [around.map fun inner => ⟨.leave, inner.loop⟩]
  | .next _ => [around.map fun inner => ⟨inner.next, inner.loop⟩]
  | .missing => []

def exprTargets (around : Option Around) : Expr → List (Option Target)
  | .binary _ _ left right => exprTargets around left ++ exprTargets around right
  | .unary _ _ operand => exprTargets around operand
  | .call _ _ args => argsTargets around args
  | .methodCall _ receiver _ args => exprTargets around receiver ++ argsTargets around args
  | .branch _ cond body otherwise =>
      exprTargets around cond ++ exprTargets around body ++ exprTargets around otherwise
  | .block _ stmts tail => stmtsTargets around stmts ++ exprTargets around tail
  | .cases _ scrutinee arms => exprTargets around scrutinee ++ armsTargets around arms
  | .member _ subject _ => exprTargets around subject
  | .construct _ record inits =>
      (env.fieldNames record).flatMap fun field =>
        ((initsTargets around inits).lookup field).getD []
  | _ => []

def argsTargets (around : Option Around) : List Expr → List (Option Target)
  | [] => []
  | arg :: rest => exprTargets around arg ++ argsTargets around rest

/-- Arms behind one that takes everything are not compiled. -/
def armsTargets (around : Option Around) : List Arm → List (Option Target)
  | [] => []
  | .mk _ pattern body :: rest =>
      match pattern with
      | .wildcard _ | .bind _ _ => exprTargets around body
      | .literal _ value =>
          exprTargets around value ++ exprTargets around body ++ armsTargets around rest
      | _ => []

def initsTargets (around : Option Around) : List FieldInit → List (String × List (Option Target))
  | [] => []
  | .mk _ name value :: rest => (name, exprTargets around value) :: initsTargets around rest

end

end Source

mutual

def stmtsStray (inLoop : Bool) : List Stmt → Bool
  | [] => false
  | stmt :: rest => stmtStray inLoop stmt || stmtsStray inLoop rest

/-- Whether a `break` or `continue` stands in no loop.  Arms of a match behind one that takes
everything do not count. -/
def stmtStray (inLoop : Bool) : Stmt → Bool
  | .declare _ _ _ value | .result _ value | .eval _ value => exprStray inLoop value
  | .assign _ target value => exprStray inLoop target || exprStray inLoop value
  | .whileLoop _ cond body => exprStray inLoop cond || stmtsStray true body
  | .forever _ body => stmtsStray true body
  | .forRange _ _ start stop body =>
      exprStray inLoop start || exprStray inLoop stop || stmtsStray true body
  | .leave _ | .next _ => !inLoop
  | .missing => false

def exprStray (inLoop : Bool) : Expr → Bool
  | .binary _ _ left right => exprStray inLoop left || exprStray inLoop right
  | .unary _ _ operand | .cast _ operand _ | .attempt _ operand => exprStray inLoop operand
  | .quote _ operand | .eval _ operand | .lambda _ _ operand => exprStray inLoop operand
  | .call _ _ args | .macroCall _ _ args | .list _ args | .tuple _ args => argsStray inLoop args
  | .methodCall _ receiver _ args => exprStray inLoop receiver || argsStray inLoop args
  | .branch _ cond body otherwise =>
      exprStray inLoop cond || exprStray inLoop body || exprStray inLoop otherwise
  | .block _ stmts tail => stmtsStray inLoop stmts || exprStray inLoop tail
  | .cases _ scrutinee arms => exprStray inLoop scrutinee || armsStray inLoop arms
  | .member _ subject _ => exprStray inLoop subject
  | .construct _ _ inits => initsStray inLoop inits
  | .missing | .int _ _ | .float _ _ | .bool _ _ | .string _ _ | .char _ _ | .null _ => false
  | .ident _ _ | .variant _ _ _ | .reflect _ _ => false

def argsStray (inLoop : Bool) : List Expr → Bool
  | [] => false
  | arg :: rest => exprStray inLoop arg || argsStray inLoop rest

def armsStray (inLoop : Bool) : List Arm → Bool
  | [] => false
  | .mk _ pattern body :: rest =>
      exprStray inLoop body ||
        match pattern with
        | .wildcard _ | .bind _ _ => false
        | pattern => patternStray inLoop pattern || armsStray inLoop rest

def patternStray (inLoop : Bool) : Pattern → Bool
  | .literal _ value => exprStray inLoop value
  | .constructor _ _ args => patternsStray inLoop args
  | .missing | .wildcard _ | .bind _ _ => false

def patternsStray (inLoop : Bool) : List Pattern → Bool
  | [] => false
  | pattern :: rest => patternStray inLoop pattern || patternsStray inLoop rest

def initsStray (inLoop : Bool) : List FieldInit → Bool
  | [] => false
  | .mk _ _ value :: rest => exprStray inLoop value || initsStray inLoop rest

end

/-- A target, seen from inside one more frame. -/
def Target.within (part : Option Part) (target : Target) : Target :=
  if part = some .leave then { target with loop := target.loop + 1 } else target

theorem targetOf?_cons (part : Option Part) (frames : Frames) (label : Nat) :
    targetOf? (part :: frames) (label + 1) = (targetOf? frames label).map (Target.within part) := by
  simp only [targetOf?, List.getElem?_cons_succ, List.take_succ_cons, List.count_cons,
    Option.map_map]
  congr 1
  funext found
  by_cases hPart : part = some .leave <;> simp [Target.within, hPart]

/-- Loops, and blocks that are not put around one. -/
def isBare : Step → Bool
  | .block _ [.loop _ _] => false
  | .block _ _ | .loop _ _ => true
  | _ => false

/-- What stands behind a step matters only if the step is a bare block. -/
theorem stepTargets_of_not_bare {frames : Frames} {step : Step} {behind other : List Step}
    (hBare : isBare step = false) :
    stepTargets frames behind step = stepTargets frames other step := by
  cases step with
  | block arity body =>
      have hLoop : partOf frames body behind = partOf frames body other := by
        unfold isBare at hBare
        split at hBare
        · rename_i hBody
          cases hBody
          rfl
        · cases hBare
        · cases hBare
        · rename_i hBlock _
          exact absurd rfl (hBlock _ _)
      rw [stepTargets, stepTargets, hLoop]
  | _ => rfl

theorem stepsTargets_append {frames : Frames} {front back : List Step}
    (hFront : ∀ step ∈ front, isBare step = false) :
    stepsTargets frames (front ++ back) = stepsTargets frames front ++
      stepsTargets frames back := by
  induction front with
  | nil => rfl
  | cons step rest ih =>
      rw [List.cons_append, stepsTargets, stepsTargets, ih fun other hOther =>
        hFront other (List.mem_cons_of_mem _ hOther), List.append_assoc,
        stepTargets_of_not_bare (hFront step List.mem_cons_self)]

variable {types : List FuncType}

/-- Code that stands inside frames is read as steps whose branches lead to the given targets, unless
there are more frames than labels. -/
def Aims (types : List FuncType) (frames : Frames) (code : Code)
    (targets : List (Option Target)) : Prop :=
  frames.length + code.length < 2 ^ 32 → ∃ steps, Reads types code steps ∧
    (∀ step ∈ steps, isBare step = false) ∧ stepsTargets frames steps = targets ∧ none ∉ targets

namespace Aims

variable {frames : Frames} {code first second test yes no : Code}
variable {targets firstTargets secondTargets : List (Option Target)}

theorem nil : Aims types frames [] [] := fun _ => ⟨[], .nil, by simp, rfl, by simp⟩

theorem append (hFirst : Aims types frames first firstTargets)
    (hSecond : Aims types frames second secondTargets) :
    Aims types frames (first ++ second) (firstTargets ++ secondTargets) := by
  intro hFew
  rw [List.length_append] at hFew
  obtain ⟨steps, hReads, hBare, rfl, hSome⟩ := hFirst (by omega)
  obtain ⟨others, hOthers, hOthersBare, rfl, hOthersSome⟩ := hSecond (by omega)
  refine ⟨steps ++ others, hReads.append hOthers, ?_, stepsTargets_append hBare, ?_⟩
  · intro step hStep
    exact (List.mem_append.1 hStep).elim (hBare step) (hOthersBare step)
  · rw [List.mem_append]
    exact fun hNone => hNone.elim hSome hOthersSome

/-- Code behind code without branches. -/
theorem before (hFirst : Aims types frames first []) (hSecond : Aims types frames second targets) :
    Aims types frames (first ++ second) targets := hFirst.append hSecond

/-- Code in front of code without branches. -/
theorem behind (hFirst : Aims types frames first targets) (hSecond : Aims types frames second []) :
    Aims types frames (first ++ second) targets := by
  simpa using hFirst.append hSecond

theorem cons {instr : Instr} (hFirst : Aims types frames [instr] [])
    (hRest : Aims types frames code targets) : Aims types frames (instr :: code) targets :=
  hFirst.before hRest

/-- A step that is no frame and no branch. -/
theorem single {instr : Instr} {step : Step} (hReads : Reads types [instr] [step])
    (hBare : isBare step = false) (hNone : stepTargets frames [] step = []) :
    Aims types frames [instr] [] :=
  fun _ => ⟨_, hReads, by simpa using hBare, by simp [stepsTargets, hNone], by simp⟩

theorem plain {opcode : Opcode} {immediate : Immediate} (hPlain : isPlain opcode = true) :
    Aims types frames [opcode.with immediate] [] := single (Reads.plain hPlain) rfl rfl

theorem operation {opcode : Opcode} (hPlain : isPlain opcode = true) :
    Aims types frames [opcode.instr] [] := plain hPlain

theorem localGet (index : UInt32) : Aims types frames [.localGet index] [] := plain rfl

theorem localSet (index : UInt32) : Aims types frames [.localSet index] [] := plain rfl

theorem i32Const (value : Int32) : Aims types frames [.i32Const value] [] := plain rfl

theorem constInt (type : Ty) (value : Int64) : Aims types frames [constInt type value] [] := by
  cases type <;> exact plain rfl

theorem constFloat (type : Ty) (bits : UInt64) : Aims types frames [constFloat type bits] [] := by
  cases type <;> exact plain rfl

theorem load (field : Field) : Aims types frames [loadInstr field] [] :=
  @plain _ _ (.load _) (.mem _) rfl

theorem store (field : Field) : Aims types frames [storeInstr field] [] :=
  @plain _ _ (.store _) (.mem _) rfl

theorem call (function : UInt32) : Aims types frames [.call function] [] :=
  single (Reads.call function) rfl rfl

theorem ret : Aims types frames [Opcode.ret.instr] [] := single Reads.ret rfl rfl

theorem unreachable : Aims types frames [Opcode.unreachable.instr] [] :=
  single Reads.unreachable rfl rfl

theorem br {label : UInt32} {target : Target}
    (hTarget : frames.length < 2 ^ 32 → targetOf? frames label.toNat = some target) :
    Aims types frames [.br label] [some target] := by
  intro hFew
  have hLabel := hTarget (by omega)
  exact ⟨_, Reads.br label, by simp [isBare], by simp [stepsTargets, stepTargets, hLabel], by simp⟩

theorem discard {lowered : Lowered} (hCode : Aims types frames lowered.code targets) :
    Aims types frames (discard lowered) targets := by
  rw [Lowering.discard]
  split
  · exact hCode
  · exact hCode.behind (operation rfl)

theorem ifThen (hYes : Aims types (none :: frames) yes targets) :
    Aims types frames (.ifThen voidBlock :: yes ++ [.close]) targets := by
  intro hFew
  obtain ⟨steps, hReads, hBare, rfl, hSome⟩ := hYes (by simp at hFew ⊢; omega)
  exact ⟨_, Reads.ifThen Arity.ofBlockType?_void hReads, by simp [isBare],
    by simp [stepsTargets, stepTargets], hSome⟩

theorem ifElse (type : Ty) (hYes : Aims types (none :: frames) yes firstTargets)
    (hNo : Aims types (none :: frames) no secondTargets) :
    Aims types frames
      (.ifThen (blockType type) :: yes ++ Opcode.otherwise.instr :: no ++ [.close])
      (firstTargets ++ secondTargets) := by
  intro hFew
  obtain ⟨steps, hReads, hBare, rfl, hSome⟩ := hYes (by simp at hFew ⊢; omega)
  obtain ⟨others, hOthers, hOthersBare, rfl, hOthersSome⟩ := hNo (by simp at hFew ⊢; omega)
  refine ⟨_, Reads.ifElse (ofBlockType?_blockType type) hReads hOthers, by simp [isBare],
    by simp [stepsTargets, stepTargets], ?_⟩
  rw [List.mem_append]
  exact fun hNone => hNone.elim hSome hOthersSome

theorem branch (type : Ty) {testTargets : List (Option Target)}
    (hTest : Aims types frames test testTargets)
    (hYes : Aims types (none :: frames) yes firstTargets)
    (hNo : Aims types (none :: frames) no secondTargets) :
    Aims types frames
      (test ++ .ifThen (blockType type) :: yes ++ Opcode.otherwise.instr :: no ++ [.close])
      (testTargets ++ firstTargets ++ secondTargets) := by
  simpa using hTest.append (ifElse type hYes hNo)

theorem literalArm (slot : Slot) (type : Ty) {testTargets : List (Option Target)}
    (hTest : Aims types frames test testTargets)
    (hYes : Aims types (none :: frames) yes firstTargets)
    (hNo : Aims types (none :: frames) no secondTargets) :
    Aims types frames (literalArmCode slot type test yes no)
      (testTargets ++ firstTargets ++ secondTargets) := by
  have hSame := (localGet slot.index).cons (hTest.behind (operation (isPlain_equality slot.type)))
  simpa [literalArmCode] using hSame.append (ifElse type hYes hNo)

theorem stepsTargets_loopSteps (frames : Frames) (inside : List Step) :
    stepsTargets frames (loopSteps inside) =
      stepsTargets (some .again :: some .leave :: frames) (inside ++ [.br 0]) := by
  simp [loopSteps, stepsTargets, stepTargets, partOf]

theorem whileLoop (context : Context)
    (hTest : Aims types (some .again :: some .leave :: frames) test firstTargets)
    (hBody : Aims types (some .again :: some .leave :: frames) code secondTargets) :
    Aims types frames (whileCode context test code)
      (firstTargets ++ some ⟨.leave, 0⟩ :: secondTargets ++ [some ⟨.again, 0⟩]) := by
  intro hFew
  obtain ⟨steps, hReads, hBare, rfl, hSome⟩ := hTest (by simp [whileCode] at hFew ⊢; omega)
  obtain ⟨others, hOthers, hOthersBare, rfl, hOthersSome⟩ :=
    hBody (by simp [whileCode] at hFew ⊢; omega)
  have hGuard (inner : Frames) : stepsTargets inner [.plain (.eqz .w32) .none, .brIf 1] =
      [targetOf? inner 1] := rfl
  refine ⟨_, reads_while context hReads hOthers, by simp [loopSteps, isBare], ?_,
    by simp [hSome, hOthersSome]⟩
  rw [stepsTargets_loopSteps, guardSteps, List.append_assoc, List.append_assoc,
    stepsTargets_append hBare, stepsTargets_append (by simp [isBare]), hGuard,
    stepsTargets_append hOthersBare]
  simp [stepsTargets, stepTargets, targetOf?]

theorem forever (context : Context)
    (hBody : Aims types (some .again :: some .leave :: frames) code targets) :
    Aims types frames (foreverCode context code) (targets ++ [some ⟨.again, 0⟩]) := by
  intro hFew
  obtain ⟨steps, hReads, hBare, rfl, hSome⟩ := hBody (by simp [foreverCode] at hFew ⊢; omega)
  refine ⟨_, reads_forever context hReads, by simp [loopSteps, isBare], ?_, by simp [hSome]⟩
  rw [stepsTargets_loopSteps, stepsTargets_append hBare]
  simp [stepsTargets, stepTargets, targetOf?]

/-- The steps that raise the counter of a range are seen as such. -/
theorem raises_raiseSteps {type : Ty} (hType : type.isInteger = true) (counter : UInt32)
    (rest : List Step) : raises (raiseSteps type counter ++ rest) = true := by
  cases type with
  | i32 | i64 => simp [raiseSteps, constStep, raises]
  | _ => cases hType

/-- Branches of the raising steps there are none. -/
theorem stepsTargets_raiseSteps (type : Ty) (counter : UInt32) (frames : Frames)
    (rest : List Step) :
    stepsTargets frames (raiseSteps type counter ++ rest) = stepsTargets frames rest := by
  cases type <;> rfl

/-- The branches inside a loop that counts.  Its inner block is recognized by what stands behind. -/
theorem stepsTargets_turnSteps {type : Ty} (hType : type.isInteger = true) (counter limit : UInt32)
    {steps : List Step} (hBare : ∀ step ∈ steps, isBare step = false) :
    stepsTargets (some .again :: some .leave :: frames)
        (turnSteps type counter limit steps ++ [.br 0]) =
      some ⟨.leave, 0⟩ :: stepsTargets (some .next :: some .again :: some .leave :: frames) steps ++
        [some ⟨.again, 0⟩] := by
  have hPart : partOf (some .again :: some .leave :: frames) steps
      (raiseSteps type counter ++ [.br 0]) = some .next := by
    unfold partOf
    split
    · exact absurd (hBare _ List.mem_cons_self) (by simp [isBare])
    · simp [raises_raiseSteps hType]
  simp only [turnSteps, limitSteps, List.cons_append, List.nil_append, stepsTargets, stepTargets,
    hPart, stepsTargets_raiseSteps]
  simp [targetOf?]

theorem range (context : Context) {type : Ty} (hType : type.isInteger = true)
    (counter limit : UInt32) {bodyTargets : List (Option Target)}
    (hFirst : Aims types frames first firstTargets)
    (hSecond : Aims types frames second secondTargets)
    (hBody : Aims types (some .next :: some .again :: some .leave :: frames) code bodyTargets) :
    Aims types frames (rangeCode context type counter limit first second code)
      (firstTargets ++ secondTargets ++ some ⟨.leave, 0⟩ :: bodyTargets ++ [some ⟨.again, 0⟩]) := by
  intro hFew
  obtain ⟨steps, hReads, hBare, rfl, hSome⟩ := hFirst (by simp [rangeCode] at hFew ⊢; omega)
  obtain ⟨others, hOthers, hOthersBare, rfl, hOthersSome⟩ :=
    hSecond (by simp [rangeCode] at hFew ⊢; omega)
  obtain ⟨body, hBodyReads, hBodyBare, rfl, hBodySome⟩ :=
    hBody (by simp [rangeCode] at hFew ⊢; omega)
  refine ⟨_, reads_range context hReads hOthers hBodyReads, ?_, ?_,
    by simp [hSome, hOthersSome, hBodySome]⟩
  · intro step hStep
    simp only [loopSteps, List.mem_append, List.mem_cons, List.not_mem_nil, or_false] at hStep
    rcases hStep with (hStep | rfl | hStep) | rfl | rfl
    · exact hBare step hStep
    · rfl
    · exact hOthersBare step hStep
    · rfl
    · rfl
  · rw [stepsTargets_append (by
      simp only [List.mem_append, List.mem_cons]
      rintro step (hStep | rfl | hStep)
      · exact hBare step hStep
      · rfl
      · exact hOthersBare step hStep), stepsTargets_append hBare]
    simp only [stepsTargets, stepTargets, List.nil_append, stepsTargets_loopSteps,
      stepsTargets_turnSteps hType counter limit hBodyBare]
    simp

end Aims

/-! ## Contexts and the frames around them -/

/-- An open frame, numbered from the outermost, is a target. -/
structure Marks (frames : Frames) (frame : Nat) (target : Target) : Prop where
  inside : frame < frames.length
  target : targetOf? frames (frames.length - 1 - frame) = some target

/-- The innermost frame of a loop. -/
theorem Marks.head (part : Part) (frames : Frames) :
    Marks (some part :: frames) frames.length ⟨part, 0⟩ where
  inside := Nat.lt_succ_self _
  target := by
    have hLabel : (some part :: frames).length - 1 - frames.length = 0 := by
      rw [List.length_cons]
      omega
    rw [hLabel]
    rfl

theorem Marks.cons {frames : Frames} {frame : Nat} {target : Target}
    (hMarks : Marks frames frame target) (part : Option Part) :
    Marks (part :: frames) frame (target.within part) where
  inside := Nat.lt_succ_of_lt hMarks.inside
  target := by
    have hInside := hMarks.inside
    have hLabel : (part :: frames).length - 1 - frame = frames.length - 1 - frame + 1 := by
      rw [List.length_cons]
      omega
    rw [hLabel, targetOf?_cons, hMarks.target]
    rfl

/-- A context keeps the numbers of the frames of the loop that a piece of source stands in. -/
structure Knows (context : Context) (frames : Frames) (around : Option Around) : Prop where
  count : frames.length = context.frames
  loop : ∀ targets, context.loop = some targets → ∃ inner, around = some inner ∧
    Marks frames targets.leave ⟨.leave, inner.loop⟩ ∧
    Marks frames targets.next ⟨inner.next, inner.loop⟩

namespace Knows

variable {context : Context} {frames : Frames} {around : Option Around}

theorem bind (hKnows : Knows context frames around) (name : String) (slot : Slot) :
    Knows (context.bind name slot) frames around := ⟨hKnows.count, hKnows.loop⟩

theorem inFrame (hKnows : Knows context frames around) :
    Knows context.inFrame (none :: frames) around where
  count := by
    rw [List.length_cons, hKnows.count]
    rfl
  loop := by
    intro targets hLoop
    obtain ⟨inner, rfl, hLeave, hNext⟩ := hKnows.loop targets hLoop
    exact ⟨inner, rfl, hLeave.cons none, hNext.cons none⟩

theorem inLoop (hKnows : Knows context frames around) :
    Knows context.inLoop (some .again :: some .leave :: frames) (around.map .further) where
  count := by
    rw [List.length_cons, List.length_cons, hKnows.count]
    rfl
  loop := by
    intro targets hLoop
    obtain ⟨inner, rfl, hLeave, hNext⟩ := hKnows.loop targets hLoop
    exact ⟨inner.further, rfl, (hLeave.cons (some .leave)).cons (some .again),
      (hNext.cons (some .leave)).cons (some .again)⟩

/-- The body of a loop knows the frames of the loop. -/
theorem looping (hKnows : Knows context frames around) :
    Knows (context.inLoop.looping context.frames (context.frames + 1))
      (some .again :: some .leave :: frames) (some ⟨0, .again⟩) where
  count := hKnows.inLoop.count
  loop := by
    intro targets hLoop
    cases hLoop
    rw [← hKnows.count]
    exact ⟨_, rfl, (Marks.head .leave frames).cons (some .again),
      Marks.head .again (some .leave :: frames)⟩

/-- The body of a loop that counts stands in one more block. -/
theorem counting (hKnows : Knows context frames around) (name : String) (slot : Slot) :
    Knows ((context.bind name slot).inLoop.inFrame.looping context.frames (context.frames + 2))
      (some .next :: some .again :: some .leave :: frames) (some ⟨0, .next⟩) where
  count := by
    rw [List.length_cons, hKnows.inLoop.count]
    rfl
  loop := by
    intro targets hLoop
    cases hLoop
    rw [← hKnows.count]
    exact ⟨_, rfl, ((Marks.head .leave frames).cons (some .again)).cons (some .next),
      Marks.head .next (some .again :: some .leave :: frames)⟩

/-- The label of a frame leads to it if there are no more frames than labels. -/
theorem label {frame : Nat} {target : Target} (hKnows : Knows context frames around)
    (hMarks : Marks frames frame target) (hFew : frames.length < 2 ^ 32) :
    targetOf? frames (context.label frame).toNat = some target := by
  have hLabel : (context.label frame).toNat = frames.length - 1 - frame := by
    rw [Context.label, ← hKnows.count, toNat_toUInt32 (by omega)]
  rw [hLabel, hMarks.target]

end Knows

/-- Where the branches of the initializers of some fields should lead. -/
def storesTargets (env : Env) (around : Option Around) (inits : List FieldInit)
    (fields : List String) : List (Option Target) :=
  fields.flatMap fun field => ((initsTargets env around inits).lookup field).getD []

theorem storesTargets_cons {env : Env} {around : Option Around} {inits : List FieldInit}
    {init : FieldInit} {field : String} {rest : List String}
    (hInit : initOf? inits field = some init) :
    storesTargets env around inits (field :: rest) =
      exprTargets env around init.value ++ storesTargets env around inits rest := by
  have hFirst : (initsTargets env around inits).lookup field =
      some (exprTargets env around init.value) := by
    rw [lookup_inits rfl (fun _ _ _ _ => rfl), hInit, Option.map_some]
  rw [storesTargets, List.flatMap_cons, hFirst]
  rfl

/-- Where the branches of a judgement should lead. -/
def Judgement.targets (around : Option Around) : Judgement → List (Option Target)
  | stmts context source _ _ => stmtsTargets context.env around source
  | stmt context source _ _ => stmtTargets context.env around source
  | expr context _ _ source _ | value context _ source _ | settled context _ _ source _ =>
      exprTargets context.env around source
  | args context _ source _ => argsTargets context.env around source
  | arms context _ _ source _ => armsTargets context.env around source
  | stores context _ _ inits fields _ =>
      storesTargets context.env around inits (fields.map Field.name)

theorem Knows.congr {context other : Context} {frames : Frames} {around : Option Around}
    (hKnows : Knows context frames around)
    (hSame : context.Same other) : Knows other frames around :=
  ⟨hKnows.count.trans hSame.frames.symm, by rw [hSame.loop]; exact hKnows.loop⟩

theorem Loads.aims {env : Env} {base : Ty} {path : List String} {lowered : Lowered}
    {frames : Frames} (hLoads : Loads env base path lowered) :
    Aims types frames lowered.code [] := by
  induction hLoads with
  | here => exact .nil
  | field _ _ _ ih => exact (Aims.load _).cons ih

theorem aims_alloc {env : Env} {decl : String} {record : Record} {address : UInt32} {code : Code}
    {frames : Frames} (hAlloc : allocCode env decl record address = .ok code) :
    Aims types frames code [] :=
  fun _ => ⟨_, reads_alloc hAlloc, by simp [allocSteps, isBare], rfl, by simp⟩

/-- The branches of code that has a derivation lead where they should. -/
theorem Derives.aims {before after : Slots} {judgement : Judgement}
    (hDerives : Derives before judgement after) {frames : Frames} {around : Option Around}
    (hKnows : Knows judgement.context frames around) :
    Aims types frames judgement.code (judgement.targets around) := by
  induction hDerives generalizing frames around with
  | nil | noArgs | stored => exact .nil
  | cons hFirst _ ihFirst ihRest =>
      have hSame : Context.Same _ _ := hFirst.same
      have hOthers := ihRest (hKnows.congr hSame)
      simp only [Judgement.targets, hSame.env] at hOthers
      exact (ihFirst hKnows).append hOthers
  | declare _ _ _ ih | assign _ _ ih => exact (ih hKnows).behind (.localSet _)
  | leaveVoid => exact .ret
  | leaveWith _ _ ih => exact (ih hKnows).behind .ret
  | eval _ ih | value _ _ ih | kept _ _ _ ih | wildcard _ ih => exact ih hKnows
  | whileLoop _ _ ihTest ihBody => exact .whileLoop _ (ihTest hKnows.inLoop) (ihBody hKnows.looping)
  | forever _ ih => exact .forever _ (ih hKnows.looping)
  | forRange _ hType _ _ _ ihStart ihStop ihBody =>
      exact .range _ hType _ _ (ihStart hKnows) (ihStop (hKnows.bind _ _))
        (ihBody (hKnows.counting _ _))
  | leave hLoop =>
      obtain ⟨inner, rfl, hLeave, -⟩ := hKnows.loop _ hLoop
      exact .br (hKnows.label hLeave)
  | next hLoop =>
      obtain ⟨inner, rfl, -, hNext⟩ := hKnows.loop _ hLoop
      exact .br (hKnows.label hNext)
  | discarded _ _ ih => exact .discard (ih hKnows)
  | int => exact .constInt _ _
  | float => exact .constFloat _ _
  | bool | named | variant => exact .i32Const _
  | bound | self => exact .localGet _
  | path _ _ _ hLoads => exact (Aims.localGet _).cons hLoads.aims
  | logical _ _ _ ihLeft ihRight =>
      refine ((ihLeft hKnows).append (ihRight hKnows)).behind ?_
      split <;> exact .operation rfl
  | binary _ _ _ _ _ hOperator ihLeft ihRight =>
      exact ((ihLeft hKnows).append (ihRight hKnows)).behind
        (.operation (isPlain_operator hOperator))
  | not _ ih | negateFloat _ _ _ ih => exact (ih hKnows).behind (.operation rfl)
  | negateInt _ _ _ ih => exact (Aims.constInt _ _).cons ((ih hKnows).behind (.operation rfl))
  | call _ _ ih => exact (ih hKnows).behind (.call _)
  | ownCall _ _ _ ih => exact (Aims.localGet _).cons ((ih hKnows).behind (.call _))
  | methodCall _ _ _ _ ihReceiver ihArgs =>
      exact ((ihReceiver hKnows).append (ihArgs hKnows)).behind (.call _)
  | arg _ _ ihFirst ihRest => exact (ihFirst hKnows).append (ihRest hKnows)
  | branchOnly _ _ ihTest ihBody =>
      have hCode := (ihTest hKnows).append (Aims.ifThen (ihBody hKnows.inFrame))
      simpa [Judgement.targets, exprTargets, Judgement.code, Context.inFrame] using hCode
  | branch _ _ _ _ _ ihTest ihYes ihNo =>
      exact .branch _ (ihTest hKnows) (ihYes hKnows.inFrame) (ihNo hKnows.inFrame)
  | blockOnly _ _ ih =>
      simp only [Judgement.targets, exprTargets, List.append_nil, Judgement.code]
      split
      · exact ih hKnows
      · exact (ih hKnows).behind .unreachable
  | block _ _ hStmts _ ihStmts ihTail =>
      have hSame : Context.Same _ _ := hStmts.same
      have hLast := ihTail (hKnows.congr hSame)
      simp only [Judgement.targets, hSame.env] at hLast
      exact (ihStmts hKnows).append hLast
  | cases _ _ _ _ _ _ ihScrutinee ihArms =>
      exact (ihScrutinee hKnows).append ((Aims.localSet _).cons (ihArms hKnows))
  | noArm => exact .unreachable
  | bind _ ih => exact (Aims.localGet _).cons ((Aims.localSet _).cons (ih (hKnows.bind _ _)))
  | literal _ _ _ ihValue ihBody ihRest =>
      exact .literalArm _ _ (ihValue hKnows) (ihBody hKnows.inFrame) (ihRest hKnows.inFrame)
  | member _ _ _ _ ih => exact (ih hKnows).behind (.load _)
  | construct hGet _ hAlloc _ ih =>
      simp only [Judgement.targets, exprTargets, Env.fieldNames, hGet]
      exact ((aims_alloc hAlloc).before (ih hKnows)).behind (.localGet _)
  | store hInit _ _ ihValue ihRest =>
      simp only [Judgement.targets, List.map_cons, storesTargets_cons hInit]
      exact (Aims.localGet _).cons ((ihValue hKnows).append ((Aims.store _).cons (ihRest hKnows)))

/-- Whether a `break` or `continue` of a judgement stands in no loop.  Of initializers those of the
given fields count. -/
def Judgement.stray (inLoop : Bool) : Judgement → Bool
  | stmts _ source _ _ => stmtsStray inLoop source
  | stmt _ source _ _ => stmtStray inLoop source
  | expr _ _ _ source _ | value _ _ source _ | settled _ _ _ source _ => exprStray inLoop source
  | args _ _ source _ => argsStray inLoop source
  | arms _ _ _ source _ => armsStray inLoop source
  | stores _ _ _ inits fields _ =>
      fields.any fun field => (initOf? inits field.name).any fun init => exprStray inLoop init.value

/-- If every initializer is for a field of its own, those of all fields are all. -/
theorem initsStray_eq_any (inLoop : Bool) (inits : List FieldInit) :
    initsStray inLoop inits = inits.any fun init => exprStray inLoop init.value := by
  induction inits with
  | nil => rfl
  | cons init rest ih =>
      obtain ⟨pos, name, value⟩ := init
      rw [initsStray, ih]
      rfl

theorem initsStray_of_assigns {record : Record} {inits : List FieldInit} {inLoop : Bool}
    (hAssigns : Assigns record inits)
    (hFields : (record.fields.any fun field =>
      (initOf? inits field.name).any fun init => exprStray inLoop init.value) = false) :
    initsStray inLoop inits = false := by
  rw [initsStray_eq_any, List.any_eq_false]
  intro init hInit
  obtain ⟨field, hField, hName⟩ := hAssigns.fields init hInit
  have hNone := List.any_eq_false.1 hFields field hField
  rwa [hName, initOf?_of_mem hAssigns.names hInit, Option.any_some] at hNone

/-- In source that has a derivation, every `break` and `continue` stands in a loop. -/
theorem Derives.not_stray {before after : Slots} {judgement : Judgement}
    (hDerives : Derives before judgement after) :
    judgement.stray judgement.context.loop.isSome = false := by
  induction hDerives with
  | nil | leaveVoid | int | float | bool | bound | self | path | named | variant | noArgs | noArm
  | stored => rfl
  | cons hFirst _ ihFirst ihRest =>
      rw [Judgement.context, Context.Same.loop hFirst.same] at ihRest
      exact Bool.or_eq_false_iff.2 ⟨ihFirst, ihRest⟩
  | declare _ _ _ ih | assign _ _ ih | leaveWith _ _ ih | eval _ ih | forever _ ih | value _ _ ih
  | discarded _ _ ih | kept _ _ _ ih | not _ ih | negateFloat _ _ _ ih | negateInt _ _ _ ih
  | call _ _ ih | ownCall _ _ _ ih | member _ _ _ _ ih => exact ih
  | whileLoop _ _ ihFirst ihSecond | logical _ _ _ ihFirst ihSecond
  | binary _ _ _ _ _ _ ihFirst ihSecond | methodCall _ _ _ _ ihFirst ihSecond
  | arg _ _ ihFirst ihSecond | cases _ _ _ _ _ _ ihFirst ihSecond =>
      exact Bool.or_eq_false_iff.2 ⟨ihFirst, ihSecond⟩
  | forRange _ _ _ _ _ ihStart ihStop ihBody =>
      exact Bool.or_eq_false_iff.2 ⟨Bool.or_eq_false_iff.2 ⟨ihStart, ihStop⟩, ihBody⟩
  | leave hLoop | next hLoop => simp [Judgement.stray, Judgement.context, stmtStray, hLoop]
  | branchOnly _ _ ihTest ihBody =>
      exact Bool.or_eq_false_iff.2 ⟨Bool.or_eq_false_iff.2 ⟨ihTest, ihBody⟩, rfl⟩
  | branch _ _ _ _ _ ihTest ihYes ihNo =>
      exact Bool.or_eq_false_iff.2 ⟨Bool.or_eq_false_iff.2 ⟨ihTest, ihYes⟩, ihNo⟩
  | blockOnly _ _ ih => exact Bool.or_eq_false_iff.2 ⟨ih, rfl⟩
  | block _ _ hStmts _ ihStmts ihTail =>
      rw [Judgement.context, Context.Same.loop hStmts.same] at ihTail
      exact Bool.or_eq_false_iff.2 ⟨ihStmts, ihTail⟩
  | wildcard _ ih | bind _ ih => exact Bool.or_eq_false_iff.2 ⟨ih, rfl⟩
  | literal _ _ _ ihValue ihBody ihRest =>
      exact Bool.or_eq_false_iff.2 ⟨ihBody, Bool.or_eq_false_iff.2 ⟨ihValue, ihRest⟩⟩
  | construct _ hAssigns _ _ ih => exact initsStray_of_assigns hAssigns ih
  | store hInit _ _ ihValue ihRest =>
      refine Bool.or_eq_false_iff.2 ⟨?_, ihRest⟩
      simp only [hInit, Option.any_some]
      exact ihValue

/-! ## Whole functions -/

theorem stmtsTargets_append (env : Env) (around : Option Around) (front back : List Stmt) :
    stmtsTargets env around (front ++ back) =
      stmtsTargets env around front ++ stmtsTargets env around back := by
  induction front with
  | nil => rfl
  | cons stmt rest ih => rw [List.cons_append, stmtsTargets, stmtsTargets, ih, List.append_assoc]

theorem stmtsStray_append (inLoop : Bool) (front back : List Stmt) :
    stmtsStray inLoop (front ++ back) = (stmtsStray inLoop front || stmtsStray inLoop back) := by
  induction front with
  | nil => rfl
  | cons stmt rest ih => rw [List.cons_append, stmtsStray, stmtsStray, ih, Bool.or_assoc]

variable {context : Context} {stmts : List Stmt} {before after : Slots} {code : Code}

theorem Body.aims {frames : Frames} {around : Option Around}
    (hBody : Body context stmts before code after) (hKnows : Knows context frames around) :
    Aims types frames code (stmtsTargets context.env around stmts) := by
  cases hBody with
  | value _ _ hFront hValue =>
      have hSame : Context.Same _ _ := hFront.same
      have hLast := @Derives.aims types _ _ _ hValue _ _ (hKnows.congr hSame)
      simp only [Judgement.targets, hSame.env] at hLast
      simp only [stmtsTargets_append, stmtsTargets, stmtTargets, List.append_nil]
      exact (hFront.aims hKnows).append hLast
  | void _ hStmts => exact hStmts.aims hKnows
  | trap _ _ hStmts => exact (hStmts.aims hKnows).behind .unreachable

theorem Body.not_stray (hBody : Body context stmts before code after) :
    stmtsStray context.loop.isSome stmts = false := by
  cases hBody with
  | value _ _ hFront hValue =>
      have hLast := hValue.not_stray
      rw [Judgement.context, Context.Same.loop hFront.same] at hLast
      rw [stmtsStray_append]
      exact Bool.or_eq_false_iff.2 ⟨hFront.not_stray, Bool.or_eq_false_iff.2 ⟨hLast, rfl⟩⟩
  | void _ hStmts | trap _ _ hStmts => exact hStmts.not_stray

/-- The instructions of a function nest, and one closing instruction at their end closes the
function.  All branches lead to frames of loops: `break` behind the innermost loop whose body it
stands in, `continue` to the next turn of that loop, and none leads to the frame of the function.
The condition of a `while` is not part of its body: a `break` or `continue` in it counts to the loop
around the `while`, and is refused if there is none.  A function with a `break` or `continue` that
stands in no loop is refused, unless it stands in an arm of a match behind one that takes
everything. -/
theorem branches_lead (types : List FuncType) (env : Env) (decl : FuncDecl) :
    (∀ body, lowerFunction env decl = .ok body → body.instrs.length < 2 ^ 32 →
      ∃ steps, Step.ofInstrs? types body.instrs = some steps ∧
        stepsTargets [] steps = stmtsTargets env none decl.body ∧
        none ∉ stepsTargets [] steps) ∧
      (stmtsStray false decl.body = true →
        ∃ failure, lowerFunction env decl = .error failure) := by
  refine ⟨fun body hLower hFew => ?_, fun hStray => ?_⟩
  · obtain ⟨code, after, -, -, hInstrs, hBody, -⟩ := lowerFunction_derives hLower
    have hKnows : Knows (entryPoint env decl) [] none := ⟨rfl, nofun⟩
    have hShort : code.length < 2 ^ 32 := by
      rw [hInstrs, List.length_append] at hFew
      omega
    obtain ⟨steps, hReads, -, hTargets, hSome⟩ := hBody.aims hKnows (by simpa using hShort)
    exact ⟨steps, by rw [hInstrs]; exact hReads.ofInstrs?, hTargets, hTargets ▸ hSome⟩
  · cases hLower : lowerFunction env decl with
    | error failure => exact ⟨failure, rfl⟩
    | ok body =>
        obtain ⟨_, _, -, -, -, hBody, -⟩ := lowerFunction_derives hLower
        have hNone : stmtsStray false decl.body = false := hBody.not_stray
        rw [hStray] at hNone
        cases hNone

/-- A function that counts.  In each turn it starts another loop, whose condition may go on with the
next turn of the first and whose body is left at once. -/
def skipping : FuncDecl where
  name := "skipping"
  params := [⟨{}, "times", .i64⟩]
  result := .void
  body := [
    .forRange {} "turn" (.int {} 0) (.ident {} "times") [
      .whileLoop {} (.block {} [
          .eval {} (.branch {} (.binary {} "==" (.ident {} "turn") (.int {} 2))
            (.block {} [.next {}] .missing) .missing)] (.bool {} true))
        [.leave {}]]]

/-- In its condition, `continue` leads out of the inner loop to the end of the turn; in its body,
`break` leads behind it.  Without the outer loop, the condition has nowhere to go on. -/
theorem branches_lead_skipping :
    (∃ (body : FunctionBody) (steps : List Step),
      lowerFunction ⟨{}, ⟨8, 65536, 0, 1, 0, 1⟩, [], [], [], [], []⟩ skipping = .ok body ∧
      Step.ofInstrs? [] body.instrs = some steps ∧
      stepsTargets [] steps = [some ⟨.leave, 0⟩, some ⟨.next, 1⟩, some ⟨.leave, 0⟩,
        some ⟨.leave, 0⟩, some ⟨.again, 0⟩, some ⟨.again, 0⟩]) ∧
    ∃ failure, lowerFunction ⟨{}, ⟨8, 65536, 0, 1, 0, 1⟩, [], [], [], [], []⟩
      { skipping with body := [.whileLoop {} (.block {} [.next {}] (.bool {} true)) []] } =
        .error failure := by
  refine ⟨?_, (branches_lead [] _ _).2 (by decide)⟩
  obtain ⟨body, hLower, hFew⟩ := @ok_of_any _ _
    (lowerFunction ⟨{}, ⟨8, 65536, 0, 1, 0, 1⟩, [], [], [], [], []⟩ skipping)
    (fun body => body.instrs.length < 2 ^ 32) (by decide +kernel)
  obtain ⟨steps, hSteps, hTargets, -⟩ := (branches_lead [] _ _).1 body hLower
    (of_decide_eq_true hFew)
  exact ⟨body, steps, hLower, hSteps, hTargets.trans (by decide)⟩

end RecordWasm.Lowering
