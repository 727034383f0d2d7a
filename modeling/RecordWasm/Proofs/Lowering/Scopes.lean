import RecordWasm.Proofs.Lowering.Names
import RecordWasm.Proofs.Lowering.Uses

/-!
# The scope of a range

A range counts in a new local.  This local belongs to the range alone: no code in front of the range
or behind it reads it, and behind the range every name means what it meant before.  The lower bound
is lowered where the range stands.  The upper bound is lowered when the variable is already bound,
so that it is lowered where the range stands only if it does not mention the variable.
-/

namespace RecordWasm.Lowering

open Syntax Layout Wasm

/-- A statement that counts, and the names in scope where it stands, innermost first. -/
structure Range where
  names : List String
  pos : Position
  var : String
  start : Expr
  stop : Expr
  body : List Stmt

def Range.stmt (range : Range) : Stmt :=
  .forRange range.pos range.var range.start range.stop range.body

section Source

variable (env : Env)

mutual

def stmtsRanges (names : List String) : List Stmt → List Range
  | [] => []
  | stmt :: rest => stmtRanges names stmt ++ stmtsRanges (boundBehind names stmt) rest

/-- The ranges in a statement, as far as they are compiled.  The variable of a range is in scope in
its upper bound. -/
def stmtRanges (names : List String) : Stmt → List Range
  | .declare _ _ _ value | .assign _ _ value | .result _ value | .eval _ value =>
      exprRanges names value
  | .whileLoop _ cond body => exprRanges names cond ++ stmtsRanges names body
  | .forever _ body => stmtsRanges names body
  | .forRange pos var start stop body =>
      ⟨names, pos, var, start, stop, body⟩ :: (exprRanges names start ++
        exprRanges (var :: names) stop ++ stmtsRanges (var :: names) body)
  | .leave _ | .next _ | .missing => []

def exprRanges (names : List String) : Expr → List Range
  | .binary _ _ left right => exprRanges names left ++ exprRanges names right
  | .unary _ _ operand => exprRanges names operand
  | .call _ _ args => argsRanges names args
  | .methodCall _ receiver _ args => exprRanges names receiver ++ argsRanges names args
  | .branch _ cond body otherwise =>
      exprRanges names cond ++ exprRanges names body ++ exprRanges names otherwise
  | .block _ stmts tail =>
      stmtsRanges names stmts ++ exprRanges (stmts.foldl boundBehind names) tail
  | .cases _ scrutinee arms => exprRanges names scrutinee ++ armsRanges names arms
  | .member _ subject _ => exprRanges names subject
  | .construct _ record inits =>
      (env.fieldNames record).flatMap fun field => ((initsRanges names inits).lookup field).getD []
  | _ => []

def argsRanges (names : List String) : List Expr → List Range
  | [] => []
  | arg :: rest => exprRanges names arg ++ argsRanges names rest

/-- Arms behind one that takes everything are not compiled. -/
def armsRanges (names : List String) : List Arm → List Range
  | [] => []
  | .mk _ pattern body :: rest =>
      match pattern with
      | .wildcard _ => exprRanges names body
      | .bind _ name => exprRanges (name :: names) body
      | .literal _ value =>
          exprRanges names value ++ exprRanges names body ++ armsRanges names rest
      | _ => []

def initsRanges (names : List String) : List FieldInit → List (String × List Range)
  | [] => []
  | .mk _ name value :: rest => (name, exprRanges names value) :: initsRanges names rest

end

end Source

theorem stmtsRanges_append (env : Env) (names : List String) (front back : List Stmt) :
    stmtsRanges env names (front ++ back) =
      stmtsRanges env names front ++ stmtsRanges env (front.foldl boundBehind names) back := by
  induction front generalizing names with
  | nil => rfl
  | cons stmt rest ih =>
      rw [List.cons_append, stmtsRanges, stmtsRanges, ih, List.append_assoc, List.foldl_cons]

/-- The ranges in the initializers of some fields. -/
def storesRanges (env : Env) (names : List String) (inits : List FieldInit) (fields : List String) :
    List Range :=
  fields.flatMap fun field => ((initsRanges env names inits).lookup field).getD []

theorem storesRanges_cons {env : Env} {names : List String} {inits : List FieldInit}
    {init : FieldInit} {field : String} {rest : List String}
    (hInit : initOf? inits field = some init) :
    storesRanges env names inits (field :: rest) =
      exprRanges env names init.value ++ storesRanges env names inits rest := by
  have hFirst : (initsRanges env names inits).lookup field =
      some (exprRanges env names init.value) := by
    rw [lookup_inits rfl (fun _ _ _ _ => rfl), hInit, Option.map_some]
  rw [storesRanges, List.flatMap_cons, hFirst]
  rfl

/-- The ranges in a judgement. -/
def Judgement.ranges : Judgement → List Range
  | stmts context source _ _ => stmtsRanges context.env context.names source
  | stmt context source _ _ => stmtRanges context.env context.names source
  | expr context _ _ source _ | value context _ source _ | settled context _ _ source _ =>
      exprRanges context.env context.names source
  | args context _ source _ => argsRanges context.env context.names source
  | arms context _ _ source _ => armsRanges context.env context.names source
  | stores context _ _ inits fields _ =>
      storesRanges context.env context.names inits (fields.map Field.name)

/-- What statements bind. -/
def Judgement.Binds : Judgement → Prop
  | stmts context source _ behind => behind.names = source.foldl boundBehind context.names
  | stmt context source _ behind => behind.names = boundBehind context.names source
  | _ => True

theorem Derives.binds {before after : Slots} {judgement : Judgement}
    (hDerives : Derives before judgement after) : judgement.Binds := by
  induction hDerives with
  | cons _ _ ihFirst ihRest =>
      simp only [Judgement.Binds] at ihFirst ihRest ⊢
      rw [ihRest, ihFirst, List.foldl_cons]
  | nil | declare | assign | leaveVoid | leaveWith | eval | whileLoop | forever | forRange | leave
  | next => rfl
  | _ => trivial

/-! ## Compiled ranges -/

/-- A range where it is compiled: its context, the slots at the ends of its parts, and their
code. -/
structure Loop where
  range : Range
  context : Context
  slots : Slots
  first : Slots
  second : Slots
  after : Slots
  lower : Code
  upper : Code
  inside : Code

namespace Loop

variable (loop : Loop)

/-- The type that is counted in. -/
def type : Ty := rangeType loop.context loop.range.start loop.range.stop

/-- The slot of the variable. -/
def counter : Slot := loop.first.next loop.type

/-- The slot that keeps the upper bound. -/
def limit : Slot := loop.second.next loop.type

/-- The context in which the variable is bound. -/
def counting : Context := loop.context.bind loop.range.var loop.counter

/-- The context of the body. -/
def around : Context :=
  loop.counting.inLoop.inFrame.looping loop.context.frames (loop.context.frames + 2)

def code : Code :=
  rangeCode loop.context loop.type loop.counter.index loop.limit.index loop.lower loop.upper
    loop.inside

/-- The parts of a range have been lowered one after the other. -/
structure Compiled : Prop where
  names : loop.context.names = loop.range.names
  integer : loop.type.isInteger = true
  start : Derives loop.slots (.value loop.context loop.type loop.range.start loop.lower) loop.first
  stop : Derives (loop.first.push loop.type)
    (.value loop.counting loop.type loop.range.stop loop.upper) loop.second
  body : ∃ inner, Derives (loop.second.push loop.type)
    (.stmts loop.around loop.range.body loop.inside inner) loop.after
  settled : loop.context.Settled loop.slots
  room : loop.after.size ≤ 2 ^ 32

end Loop

/-- A context inside another one: it has more names at most. -/
structure Context.Within (outer context : Context) : Prop where
  env : context.env = outer.env
  receiver : context.receiver = outer.receiver
  scope : outer.scope <:+ context.scope

theorem Context.Within.refl (context : Context) : context.Within context :=
  ⟨rfl, rfl, List.suffix_rfl⟩

/-- A context inside another one, all of whose slots are among those that were handed out. -/
structure Context.Sited (context home : Context) (slots : Slots) : Prop where
  settled : context.Settled slots
  within : home.Within context

namespace Context.Sited

variable {home context : Context} {slots more : Slots}

theorem later (hSited : context.Sited home slots) (hMore : slots.size ≤ more.size) :
    context.Sited home more := ⟨hSited.settled.later hMore, hSited.within⟩

theorem inFrame (hSited : context.Sited home slots) : context.inFrame.Sited home slots :=
  ⟨hSited.settled.inFrame, hSited.within.env, hSited.within.receiver, hSited.within.scope⟩

theorem looping (hSited : context.Sited home slots) (leave next : Nat) :
    (context.looping leave next).Sited home slots :=
  ⟨hSited.settled.looping leave next, hSited.within.env, hSited.within.receiver,
    hSited.within.scope⟩

theorem bind (hSited : context.Sited home slots) (name : String) (type : Ty) :
    (context.bind name (slots.next type)).Sited home (slots.push type) :=
  ⟨hSited.settled.bind name type, hSited.within.env, hSited.within.receiver,
    hSited.within.scope.trans (List.suffix_cons _ _)⟩

end Context.Sited

/-- Statements put names in front of those in scope. -/
theorem Derives.scope_behind {before after : Slots} {judgement : Judgement}
    (hDerives : Derives before judgement after) :
    judgement.context.scope <:+ judgement.behind.scope := by
  induction hDerives with
  | cons _ _ ihFirst ihRest => exact ihFirst.trans ihRest
  | declare => exact List.suffix_cons _ _
  | _ => exact List.suffix_rfl

theorem Derives.sited_behind {before after : Slots} {judgement : Judgement} {home : Context}
    (hDerives : Derives before judgement after) (hRoom : after.size ≤ 2 ^ 32)
    (hEnv : judgement.behind.env = judgement.context.env)
    (hSited : judgement.context.Sited home before) : judgement.behind.Sited home after :=
  ⟨hDerives.settled_behind hRoom hSited.settled, hEnv.trans hSited.within.env,
    (hDerives.names_behind hRoom).1.trans hSited.within.receiver,
    hSited.within.scope.trans hDerives.scope_behind⟩

/-- A read of a local that is not among some new ones, unless a name means it. -/
def Elsewhere (low high : Nat) (context : Context) : Use → Prop
  | .reads index => index.toNat < low ∨ high ≤ index.toNat ∨ context.Shows index
  | .writes _ => True

section Elsewhere

variable {low high : Nat} {home context : Context} {code : Code} {before after : Slots}

theorem Using.unread {index : UInt32} (hCode : Using (Elsewhere low high context) code)
    (hLow : low ≤ index.toNat) (hHigh : index.toNat < high) (hHidden : ¬ context.Shows index) :
    Use.reads index ∉ uses code := by
  intro hRead
  rcases hCode _ hRead with hLess | hMore | hShows
  · exact absurd hLow (Nat.not_le.2 hLess)
  · exact absurd hHigh (Nat.not_lt.2 hMore)
  · exact hHidden hShows

/-- Behind statements, names mean those of the earlier locals that they meant before. -/
theorem Derives.shows_behind {judgement : Judgement} (hDerives : Derives before judgement after)
    (hRoom : after.size ≤ 2 ^ 32) {index : UInt32} (hOld : index.toNat < before.size)
    (hShows : judgement.behind.Shows index) : judgement.context.Shows index := by
  obtain ⟨hReceiver, hScope⟩ := hDerives.names_behind hRoom
  rcases hShows with ⟨entry, hEntry, rfl⟩ | hMethod
  · rcases hScope entry hEntry with hBefore | hNew
    · exact .inl ⟨entry, hBefore, rfl⟩
    · exact absurd hNew.1 (Nat.not_le.2 hOld)
  · exact .inr (hReceiver ▸ hMethod)

theorem Context.Shows.of_bind {name : String} {slot : Slot} {index : UInt32}
    (hShows : (context.bind name slot).Shows index) :
    index = slot.index ∨ context.Shows index := by
  rcases hShows with ⟨entry, hEntry, rfl⟩ | hMethod
  · rcases List.mem_cons.1 hEntry with rfl | hOld
    · exact .inl rfl
    · exact .inr (.inl ⟨entry, hOld, rfl⟩)
  · exact .inr (.inr hMethod)

theorem Derives.elsewhere {judgement : Judgement} (hDerives : Derives before judgement after)
    (hRoom : after.size ≤ 2 ^ 32) (hApart : after.size ≤ low ∨ high ≤ before.size)
    (hShows : ∀ index, judgement.context.Shows index → Elsewhere low high context (.reads index))
    (hKnown : ∀ index ∈ judgement.known, Elsewhere low high context (.reads index)) :
    Using (Elsewhere low high context) judgement.code := by
  refine (hDerives.using hRoom).mono fun use hUse => ?_
  cases use with
  | writes index => trivial
  | reads index =>
      rcases hUse with ⟨hLow, hHigh⟩ | hShown | hListed
      · rcases hApart with hFront | hBack
        · exact .inl (hHigh.trans_le hFront)
        · exact .inr (.inl (hBack.trans hLow))
      · exact hShows index hShown
      · exact hKnown index hListed

/-- The slots of all names are among those that were handed out. -/
structure Judgement.Settled (home : Context) (before : Slots) (judgement : Judgement) : Prop where
  context : judgement.context.Sited home before
  known : ∀ index ∈ judgement.known, index.toNat < before.size

theorem Judgement.Settled.of {judgement : Judgement}
    (hContext : judgement.context.Sited home before) (hKnown : judgement.known = []) :
    judgement.Settled home before := ⟨hContext, by simp [hKnown]⟩

/-- Code does not read what is handed out behind it. -/
theorem Derives.in_front {judgement : Judgement} (hDerives : Derives before judgement after)
    (hRoom : after.size ≤ 2 ^ 32) (hSettled : judgement.Settled home before)
    (hLow : after.size ≤ low) :
    Using (Elsewhere low high context) judgement.code := by
  have hLess := hDerives.grows.size_le.trans hLow
  refine hDerives.elsewhere hRoom (.inl hLow) (fun index hShows => .inl ?_)
    fun index hKnown => .inl ?_
  · exact (hSettled.context.settled.shows hShows).trans_le hLess
  · exact (hSettled.known index hKnown).trans_le hLess

/-- Code reads those of the locals handed out before it that names mean. -/
theorem Derives.in_back {judgement : Judgement} (hDerives : Derives before judgement after)
    (hRoom : after.size ≤ 2 ^ 32) (hHigh : high ≤ before.size) (hKnown : judgement.known = []) :
    Using (Elsewhere low high judgement.context) judgement.code :=
  hDerives.elsewhere hRoom (.inr hHigh) (fun _ hShows => .inr (.inr hShows)) (by simp [hKnown])

end Elsewhere

/-- Slots that are handed out, among all of a function. -/
structure Slots.Among (slots final : Slots) : Prop where
  params : final.params = slots.params
  locals : slots.locals <+: final.locals
  few : final.size ≤ 2 ^ 32

theorem Slots.Among.before {before after final : Slots} {count : Nat} (hAmong : after.Among final)
    (hGrows : before.Grows after count) : before.Among final :=
  ⟨hAmong.params.trans hGrows.params, hGrows.locals.trans hAmong.locals, hAmong.few⟩

theorem Slots.Among.room {slots final : Slots} (hAmong : slots.Among final) :
    slots.size ≤ 2 ^ 32 := by
  have hLocals := hAmong.locals.length_le
  have hFew := hAmong.few
  rw [Slots.size, hAmong.params] at hFew
  rw [Slots.size]
  omega

/-- A compiled range stands in code, and its counter is new, is read by no code around it and is not
what a name means behind. -/
structure Loop.Placed (loop : Loop) (home : Context) (final : Slots) (low high : Nat)
    (behind : Context) (code : Code) : Prop where
  compiled : loop.Compiled
  within : home.Within loop.context
  among : loop.after.Among final
  low : low ≤ loop.counter.index.toNat
  high : loop.counter.index.toNat < high
  hidden : ¬ behind.Shows loop.counter.index
  inside : ∃ front back, code = front ++ loop.code ++ back ∧
    Use.reads loop.counter.index ∉ uses front ∧ Use.reads loop.counter.index ∉ uses back

/-- Code holds compiled ranges. -/
def Contains (home : Context) (final : Slots) (low high : Nat) (behind : Context) (code : Code)
    (ranges : List Range) : Prop :=
  ∃ loops : List Loop, loops.map Loop.range = ranges ∧
    ∀ loop ∈ loops, loop.Placed home final low high behind code

namespace Contains

variable {low middle later high lower higher : Nat} {home inner outer : Context} {slots : Slots}
variable {code piece front back first second : Code} {ranges others : List Range} {final : Slots}

theorem none : Contains home final low high outer code [] := ⟨[], rfl, by simp⟩

theorem single {loop : Loop} (hLoop : loop.Placed home final low high outer code) :
    Contains home final low high outer code [loop.range] := ⟨[loop], rfl, by simpa using hLoop⟩

theorem both (hFirst : Contains home final low high outer code ranges)
    (hSecond : Contains home final low high outer code others) :
    Contains home final low high outer code (ranges ++ others) := by
  obtain ⟨loops, rfl, hLoops⟩ := hFirst
  obtain ⟨more, rfl, hMore⟩ := hSecond
  refine ⟨loops ++ more, List.map_append, fun loop hLoop => ?_⟩
  exact (List.mem_append.1 hLoop).elim (hLoops loop) (hMore loop)

/-- A part of code holds its ranges as well inside the whole. -/
theorem within (hPart : Contains home final low high inner piece ranges)
    (hCode : code = front ++ piece ++ back) (hFront : Using (Elsewhere low high inner) front)
    (hBack : Using (Elsewhere low high inner) back) (hLow : lower ≤ low) (hHigh : high ≤ higher)
    (hShows : ∀ index, low ≤ index.toNat → index.toNat < high → outer.Shows index →
      inner.Shows index) : Contains home final lower higher outer code ranges := by
  obtain ⟨loops, rfl, hLoops⟩ := hPart
  refine ⟨loops, rfl, fun loop hLoop => ?_⟩
  obtain ⟨hCompiled, hWithin, hAmong, hLess, hMore, hHidden, before, after, rfl, hBefore, hAfter⟩ :=
    hLoops loop hLoop
  refine ⟨hCompiled, hWithin, hAmong, hLow.trans hLess, hMore.trans_le hHigh,
    fun hShown => hHidden (hShows _ hLess hMore hShown), front ++ before, after ++ back, ?_, ?_, ?_⟩
  · simp [hCode]
  · rw [uses_append, List.mem_append]
    exact fun hRead => hRead.elim (hFront.unread hLess hMore hHidden) hBefore
  · rw [uses_append, List.mem_append]
    exact fun hRead => hRead.elim hAfter (hBack.unread hLess hMore hHidden)

/-- Where a context has only slots from before, none of its names means a new one. -/
theorem outward (hPart : Contains home final low high inner code ranges)
    (hSettled : outer.Settled slots) (hLow : slots.size ≤ low) :
    Contains home final low high outer code ranges := by
  refine hPart.within (List.append_nil _).symm .nil .nil le_rfl le_rfl fun index hNew _ hShows => ?_
  exact absurd (hSettled.shows hShows) (Nat.not_lt.2 (hLow.trans hNew))

theorem wide (hPart : Contains home final low high outer code ranges) (hLow : lower ≤ low)
    (hHigh : high ≤ higher) : Contains home final lower higher outer code ranges :=
  hPart.within (List.append_nil _).symm .nil .nil hLow hHigh fun _ _ _ hShows => hShows

theorem behind (hPart : Contains home final low high outer piece ranges)
    (hBack : Using (Elsewhere low high outer) back) :
    Contains home final low high outer (piece ++ back) ranges :=
  hPart.within rfl .nil hBack le_rfl le_rfl fun _ _ _ hShows => hShows

theorem before (hFront : Using (Elsewhere low high outer) front)
    (hPart : Contains home final low high outer piece ranges) :
    Contains home final low high outer (front ++ piece) ranges :=
  hPart.within (List.append_nil _).symm hFront .nil le_rfl le_rfl fun _ _ _ hShows => hShows

theorem cons {instr : Instr} (hInstr : Using (Elsewhere low high outer) [instr])
    (hPart : Contains home final low high outer piece ranges) :
    Contains home final low high outer (instr :: piece) ranges :=
  hPart.before hInstr

/-- Code that is followed by other code, neither of which reads what is new in the other. -/
theorem append (hFirst : Contains home final low middle outer first ranges)
    (hSecond : Contains home final later high outer second others)
    (hFront : Using (Elsewhere later high outer) first)
    (hBack : Using (Elsewhere low middle outer) second) (hLow : low ≤ later)
    (hHigh : middle ≤ high) :
    Contains home final low high outer (first ++ second) (ranges ++ others) :=
  ((hFirst.behind hBack).wide le_rfl hHigh).both ((hSecond.before hFront).wide hLow le_rfl)

end Contains

/-! ## All ranges -/

namespace Loop.Compiled

variable {loop : Loop} {home inner : Context} {final : Slots} {ranges : List Range}

/-- The counter and the limit have the slots between the parts. -/
theorem sizes (hCompiled : loop.Compiled) : loop.slots.size ≤ loop.first.size ∧
    loop.first.size + 1 ≤ loop.second.size ∧ loop.second.size + 1 ≤ loop.after.size := by
  obtain ⟨_, hBody⟩ := hCompiled.body
  have hStop := hCompiled.stop.grows.size_le
  have hInside := hBody.grows.size_le
  rw [Slots.size_push] at hStop hInside
  exact ⟨hCompiled.start.grows.size_le, hStop, hInside⟩

theorem toNat_counter (hCompiled : loop.Compiled) :
    loop.counter.index.toNat = loop.first.size := by
  have hSizes := hCompiled.sizes
  have hRoom := hCompiled.room
  exact Slots.toNat_next (by omega)

theorem toNat_limit (hCompiled : loop.Compiled) : loop.limit.index.toNat = loop.second.size := by
  have hSizes := hCompiled.sizes
  have hRoom := hCompiled.room
  exact Slots.toNat_next (by omega)

theorem sited_counting (hCompiled : loop.Compiled) (hWithin : home.Within loop.context) :
    loop.counting.Sited home (loop.first.push loop.type) :=
  (Context.Sited.later ⟨hCompiled.settled, hWithin⟩ hCompiled.sizes.1).bind _ _

theorem placed (hCompiled : loop.Compiled) (hWithin : home.Within loop.context)
    (hAmong : loop.after.Among final) :
    loop.Placed home final loop.slots.size loop.after.size loop.context loop.code := by
  have hSizes := hCompiled.sizes
  have hCounter := hCompiled.toNat_counter
  refine ⟨hCompiled, hWithin, hAmong, by omega, by omega, fun hShows => ?_, [], [], by simp,
    by simp [uses], by simp [uses]⟩
  have hOld := hCompiled.settled.shows hShows
  omega

/-- The lower bound stands in front of all code that reads the counter. -/
theorem start_contains (hCompiled : loop.Compiled)
    (hStart : Contains home final loop.slots.size loop.first.size loop.context loop.lower ranges) :
    Contains home final loop.slots.size loop.after.size loop.context loop.code ranges := by
  obtain ⟨hFirst, hSecond, hAfter⟩ := hCompiled.sizes
  have hRoom := hCompiled.room
  have hLimit := hCompiled.toNat_limit
  obtain ⟨_, hInside⟩ := hCompiled.body
  have hCounterRead : Elsewhere loop.slots.size loop.first.size loop.context
      (.reads loop.counter.index) := .inr (.inl hCompiled.toNat_counter.ge)
  have hLimitRead : Elsewhere loop.slots.size loop.first.size loop.context
      (.reads loop.limit.index) := .inr (.inl (by omega))
  have hShows : ∀ index, loop.counting.Shows index →
      Elsewhere loop.slots.size loop.first.size loop.context (.reads index) := by
    intro index hShows
    rcases hShows.of_bind with rfl | hOuter
    · exact hCounterRead
    · exact .inr (.inr hOuter)
  have hUpper := hCompiled.stop.elsewhere (by omega) (.inr (by rw [Slots.size_push]; omega)) hShows
    (by simp [Judgement.known])
  have hOthers := hInside.elsewhere hRoom (.inr (by rw [Slots.size_push]; omega)) hShows
    (by simp [Judgement.known])
  exact ((((((hStart.behind (.localSet trivial)).behind hUpper).behind (.localSet trivial)).behind
    (.rangeTest _ _ hCounterRead hLimitRead)).behind hOthers).behind
    (.rangeRaise _ _ hCounterRead trivial)).wide le_rfl (by omega)

theorem stop_contains (hCompiled : loop.Compiled)
    (hStop : Contains home final (loop.first.size + 1) loop.second.size loop.counting loop.upper
      ranges) :
    Contains home final loop.slots.size loop.after.size loop.context loop.code ranges := by
  obtain ⟨hFirst, hSecond, hAfter⟩ := hCompiled.sizes
  have hRoom := hCompiled.room
  have hCounter := hCompiled.toNat_counter
  obtain ⟨_, hInside⟩ := hCompiled.body
  have hCounterRead : Elsewhere (loop.first.size + 1) loop.second.size loop.counting
      (.reads loop.counter.index) := .inl (by omega)
  have hLimitRead : Elsewhere (loop.first.size + 1) loop.second.size loop.counting
      (.reads loop.limit.index) := .inr (.inl hCompiled.toNat_limit.ge)
  have hLower : Using (Elsewhere (loop.first.size + 1) loop.second.size loop.counting) loop.lower :=
    hCompiled.start.in_front (by omega) (.of ⟨hCompiled.settled, .refl _⟩ rfl) (Nat.le_succ _)
  have hOthers :
      Using (Elsewhere (loop.first.size + 1) loop.second.size loop.counting) loop.inside :=
    hInside.in_back hRoom (by rw [Slots.size_push]; omega) rfl
  have hCode : Contains home final (loop.first.size + 1) loop.second.size loop.counting loop.code
      ranges :=
    ((((hStop.before (hLower.append (.localSet trivial))).behind (.localSet trivial)).behind
      (.rangeTest _ _ hCounterRead hLimitRead)).behind hOthers).behind
      (.rangeRaise _ _ hCounterRead trivial)
  exact (hCode.outward hCompiled.settled (by omega)).wide (by omega) (by omega)

theorem body_contains (hCompiled : loop.Compiled)
    (hBody : Contains home final (loop.second.size + 1) loop.after.size inner loop.inside ranges) :
    Contains home final loop.slots.size loop.after.size loop.context loop.code ranges := by
  obtain ⟨hFirst, hSecond, hAfter⟩ := hCompiled.sizes
  have hRoom := hCompiled.room
  have hCounter := hCompiled.toNat_counter
  have hLimit := hCompiled.toNat_limit
  have hCounterRead : Elsewhere (loop.second.size + 1) loop.after.size inner
      (.reads loop.counter.index) := .inl (by omega)
  have hLimitRead : Elsewhere (loop.second.size + 1) loop.after.size inner
      (.reads loop.limit.index) := .inl (by omega)
  have hLower : Using (Elsewhere (loop.second.size + 1) loop.after.size inner) loop.lower :=
    hCompiled.start.in_front (by omega) (.of ⟨hCompiled.settled, .refl _⟩ rfl) (by omega)
  have hUpper : Using (Elsewhere (loop.second.size + 1) loop.after.size inner) loop.upper :=
    hCompiled.stop.in_front (by omega) (.of (hCompiled.sited_counting (.refl _)) rfl)
      (Nat.le_succ _)
  have hCode : Contains home final (loop.second.size + 1) loop.after.size inner loop.code ranges :=
    (hBody.before ((((hLower.append (.localSet trivial)).append hUpper).append
      (.localSet trivial)).append (.rangeTest _ _ hCounterRead hLimitRead))).behind
      (.rangeRaise _ _ hCounterRead trivial)
  exact (hCode.outward hCompiled.settled (by omega)).wide (by omega) le_rfl

end Loop.Compiled

/-- The code of a judgement holds the ranges of its source. -/
def Judgement.Held (home : Context) (final before after : Slots) (judgement : Judgement) : Prop :=
  after.Among final → judgement.Settled home before →
    Contains home final before.size after.size judgement.behind judgement.code judgement.ranges

section Constructs

variable {home context inner outer : Context} {before middle second after final : Slots}
variable {tag : Tag} {pos place : Position} {hint type : Ty} {asArm : Bool} {slot : Slot}
variable {test code others front back : Code} {ranges more : List Range}

/-- Code of a judgement in front of code of another one. -/
theorem Contains.linked {left right : Judgement} (hLeft : Derives before left middle)
    (hRight : Derives middle right after) (hAmong : after.Among final)
    (hSettled : left.Settled home before) (hKnown : right.known = [])
    (hContext : right.context = outer)
    (hFirst : Contains home final before.size middle.size outer left.code ranges)
    (hSecond : Contains home final middle.size after.size outer right.code more) :
    Contains home final before.size after.size outer (left.code ++ right.code)
      (ranges ++ more) := by
  subst hContext
  exact hFirst.append hSecond (hLeft.in_front (hAmong.before hRight.grows).room hSettled le_rfl)
    (hRight.in_back hAmong.room le_rfl hKnown) hLeft.grows.size_le hRight.grows.size_le

theorem held_cons {stmt : Stmt} {rest : List Stmt}
    (hFirst : Derives before (.stmt context stmt front inner) middle)
    (hRest : Derives middle (.stmts inner rest back outer) after)
    (ihFirst : (Judgement.stmt context stmt front inner).Held home final before middle)
    (ihRest : (Judgement.stmts inner rest back outer).Held home final middle after) :
    (Judgement.stmts context (stmt :: rest) (front ++ back) outer).Held home final before
      after := by
  intro hAmong hSettled
  have hMore := hRest.grows.size_le
  have hFirstAmong := hAmong.before hRest.grows
  have hSame : Context.Same _ _ := hFirst.same
  have hInner := hFirst.sited_behind hFirstAmong.room hSame.env hSettled.context
  have hFront := (ihFirst hFirstAmong (.of hSettled.context rfl)).within rfl .nil
    (hRest.in_back hAmong.room le_rfl rfl) le_rfl hMore
    fun _ _ hOld hShows => hRest.shows_behind hAmong.room hOld hShows
  have hBack := (ihRest hAmong (.of hInner rfl)).before
    (hFirst.in_front hFirstAmong.room (.of hSettled.context rfl) le_rfl)
  have hNames : Context.names _ = _ := hFirst.binds
  simp only [Judgement.ranges, hSame.env, hNames] at hBack
  exact hFront.both (hBack.wide hFirst.grows.size_le le_rfl)

theorem held_declare {name : String} {given : Ty} {value : Expr}
    (ih : (Judgement.value context type value code).Held home final before after) :
    (Judgement.stmt context (.declare pos name given value)
      (code ++ [.localSet (after.next type).index]) (context.bind name (after.next type))).Held
        home final
        before (after.push type) := by
  intro hAmong hSettled
  have hPush := after.size_push type
  have hRoom := hAmong.room
  have hNext := @Slots.toNat_next after type (by omega)
  refine (ih (hAmong.before (.push _ _)) (.of hSettled.context rfl)).within rfl .nil
    (.localSet trivial) le_rfl (by omega) fun index _ hOld hShows => ?_
  refine hShows.of_bind.resolve_left fun hSame => ?_
  rw [hSame, hNext] at hOld
  exact Nat.lt_irrefl _ hOld

theorem held_while {cond : Expr} {body : List Stmt}
    (hTest : Derives before (.value context.inLoop .bool cond test) middle)
    (hBody : Derives middle
      (.stmts (context.inLoop.looping context.frames (context.frames + 1)) body code inner) after)
    (ihTest : (Judgement.value context.inLoop .bool cond test).Held home final before middle)
    (ihBody :
      (Judgement.stmts (context.inLoop.looping context.frames (context.frames + 1)) body code
      inner).Held home final middle after) :
    (Judgement.stmt context (.whileLoop pos cond body) (whileCode context test code) context).Held
      home
      final before after := by
  intro hAmong hSettled
  have hLess := hTest.grows.size_le
  have hMore := hBody.grows.size_le
  have hTestAmong := hAmong.before hBody.grows
  have hInLoop := hSettled.context.inFrame.inFrame
  have hTestPart := (ihTest hTestAmong (.of hInLoop rfl)).outward hSettled.context.settled le_rfl
  have hBodyPart := (ihBody hAmong (.of ((hInLoop.later hLess).looping _ _) rfl)).outward
    hSettled.context.settled hLess
  refine (((hTestPart.before ((Using.none rfl).cons (.none rfl))).behind
    ((Using.none rfl).cons (.none rfl))).append hBodyPart ?_
    (hBody.in_back hAmong.room le_rfl rfl) hLess hMore).behind
    ((Using.none rfl).cons ((Using.none rfl).cons (.none rfl)))
  exact (((Using.none rfl).cons (.none rfl)).append
    (hTest.in_front hTestAmong.room (.of hInLoop rfl) le_rfl)).append
    ((Using.none rfl).cons (.none rfl))

theorem held_branchOnly {cond body : Expr}
    (hTest : Derives before (.value context .bool cond test) middle)
    (hBody : Derives middle (.settled context.inFrame .void true body code) after)
    (ihTest : (Judgement.value context .bool cond test).Held home final before middle)
    (ihBody : (Judgement.settled context.inFrame .void true body code).Held home final middle
      after) : (Judgement.expr context hint asArm (.branch tag cond body .missing)
      ⟨test ++ .ifThen voidBlock :: code ++ [.close], .void⟩).Held home final before after := by
  intro hAmong hSettled
  have hLess := hTest.grows.size_le
  have hMore := hBody.grows.size_le
  have hTestAmong := hAmong.before hBody.grows
  have hTestPart := ihTest hTestAmong (.of hSettled.context rfl)
  have hBodyPart := (ihBody hAmong (.of (hSettled.context.later hLess).inFrame rfl)).outward
    hSettled.context.settled hLess
  simp only [Judgement.ranges, exprRanges, List.append_nil]
  exact (hTestPart.append (hBodyPart.cons (.none rfl))
    (hTest.in_front hTestAmong.room (.of hSettled.context rfl) le_rfl)
    ((Using.none rfl).cons (hBody.in_back hAmong.room le_rfl rfl))
    hLess hMore).behind (.none rfl)

theorem held_branch {cond body otherwise : Expr} {yes no : Code}
    (hTest : Derives before (.value context .bool cond test) middle)
    (hYes : Derives middle (.settled context.inFrame type true body yes) second)
    (hNo : Derives second (.settled context.inFrame type true otherwise no) after)
    (ihTest : (Judgement.value context .bool cond test).Held home final before middle)
    (ihYes : (Judgement.settled context.inFrame type true body yes).Held home final middle second)
    (ihNo : (Judgement.settled context.inFrame type true otherwise no).Held home final
      second after) :
    (Judgement.expr context hint asArm (.branch tag cond body otherwise)
      ⟨test ++ .ifThen (blockType type) :: yes ++ Opcode.otherwise.instr :: no ++ [.close],
        type⟩).Held
        home final before after := by
  intro hAmong hSettled
  have hLess := hTest.grows.size_le
  have hMiddle := hYes.grows.size_le
  have hMore := hNo.grows.size_le
  have hYesAmong := hAmong.before hNo.grows
  have hTestAmong := hYesAmong.before hYes.grows
  have hInside := (hSettled.context.later hLess).inFrame
  have hTestPart := ihTest hTestAmong (.of hSettled.context rfl)
  have hYesPart := (ihYes hYesAmong (.of hInside rfl)).outward hSettled.context.settled hLess
  have hNoPart := (ihNo hAmong (.of (hInside.later hMiddle) rfl)).outward hSettled.context.settled
    (hLess.trans hMiddle)
  refine ((hTestPart.append (hYesPart.cons (.none rfl)) ?_ ?_ hLess hMiddle).append
    (hNoPart.cons (.none rfl)) ?_ ?_ (hLess.trans hMiddle) hMore).behind (.none rfl)
  · exact hTest.in_front hTestAmong.room (.of hSettled.context rfl) le_rfl
  · exact (Using.none rfl).cons (hYes.in_back hYesAmong.room le_rfl rfl)
  · exact (hTest.in_front hTestAmong.room (.of hSettled.context rfl) hMiddle).append
      ((Using.none rfl).cons (hYes.in_front hYesAmong.room (.of hInside rfl) le_rfl))
  · exact (Using.none rfl).cons (hNo.in_back hAmong.room le_rfl rfl)

theorem held_block {want : Ty} {stmts : List Stmt} {tail : Expr} {last : Code}
    (hStmts : Derives before (.stmts context stmts code inner) middle)
    (hTail : Derives middle (.settled inner want false tail last) after)
    (ihStmts : (Judgement.stmts context stmts code inner).Held home final before middle)
    (ihTail : (Judgement.settled inner want false tail last).Held home final middle after) :
    (Judgement.expr context hint asArm (.block tag stmts tail) ⟨code ++ last, want⟩).Held home
      final before
      after := by
  intro hAmong hSettled
  have hStmtsAmong := hAmong.before hTail.grows
  have hSame : Context.Same _ _ := hStmts.same
  have hStmtsPart := ihStmts hStmtsAmong (.of hSettled.context rfl)
  have hTailPart := ihTail hAmong
    (.of (hStmts.sited_behind hStmtsAmong.room hSame.env hSettled.context) rfl)
  have hNames : Context.names _ = _ := hStmts.binds
  simp only [Judgement.ranges, hSame.env, hNames] at hTailPart
  exact (Contains.linked hStmts hTail hAmong (.of hSettled.context rfl) rfl rfl hStmtsPart
    hTailPart).outward hSettled.context.settled le_rfl

theorem held_cases {subject : Ty} {scrutinee : Expr} {arms : List Arm}
    (hScrutinee : Derives before (.value context subject scrutinee code) middle)
    (hArms : Derives (middle.push subject) (.arms context (middle.next subject) type arms others)
      after)
    (ihScrutinee : (Judgement.value context subject scrutinee code).Held home final before middle)
    (ihArms : (Judgement.arms context (middle.next subject) type arms others).Held home final
      (middle.push subject) after) :
    (Judgement.expr context hint asArm (.cases tag scrutinee arms)
      ⟨code ++ .localSet (middle.next subject).index :: others, type⟩).Held home final before
        after := by
  intro hAmong hSettled
  have hPush := middle.size_push subject
  have hLess := hScrutinee.grows.size_le
  have hMore := hArms.grows.size_le
  have hScrutineeAmong := hAmong.before ((Slots.Grows.push middle subject).trans hArms.grows)
  have hRoom := hAmong.room
  have hNext := @Slots.toNat_next middle subject (by omega)
  have hKnown : ∀ index ∈ [(middle.next subject).index], index.toNat = middle.size := by
    simpa using hNext
  have hScrutineePart := ihScrutinee hScrutineeAmong (.of hSettled.context rfl)
  have hArmsPart := ihArms hAmong ⟨hSettled.context.later (by omega),
    fun index hIndex => by rw [hKnown index hIndex]; omega⟩
  refine hScrutineePart.append (hArmsPart.cons (.localSet trivial)) ?_ ?_ (by omega) (by omega)
  · exact hScrutinee.in_front hScrutineeAmong.room (.of hSettled.context rfl) (by omega)
  · refine (Using.localSet trivial).cons (hArms.elsewhere hAmong.room (.inr (by omega)) ?_ ?_)
    · exact fun _ hShows => .inr (.inr hShows)
    · exact fun index hIndex => .inr (.inl (hKnown index hIndex).ge)

theorem held_bind {name : String} {body : Expr} {rest : List Arm}
    (ih : (Judgement.settled (context.bind name (before.next slot.type)) type true body code).Held
      home final (before.push slot.type) after) :
    (Judgement.arms context slot type (.mk pos (.bind place name) body :: rest)
      (.localGet slot.index :: .localSet (before.next slot.type).index :: code)).Held home
        final before
        after := by
  intro hAmong hSettled
  have hPush := before.size_push slot.type
  have hSlot := hSettled.known slot.index List.mem_cons_self
  have hBodyPart := (ih hAmong (.of (hSettled.context.bind _ _) rfl)).outward
    hSettled.context.settled (by omega)
  exact ((hBodyPart.cons (.localSet trivial)).cons (.localGet (.inl (by omega)))).wide
    (by omega) le_rfl

theorem held_literal {value body : Expr} {rest : List Arm} {constant : Code}
    (hValue : Derives before (.value context slot.type value constant) middle)
    (hBody : Derives middle (.settled context.inFrame type true body code) second)
    (hRest : Derives second (.arms context.inFrame slot type rest others) after)
    (ihValue : (Judgement.value context slot.type value constant).Held home final before middle)
    (ihBody : (Judgement.settled context.inFrame type true body code).Held home final middle second)
    (ihRest : (Judgement.arms context.inFrame slot type rest others).Held home final second after) :
    (Judgement.arms context slot type (.mk pos (.literal place value) body :: rest)
      (literalArmCode slot type constant code others)).Held home final before after := by
  intro hAmong hSettled
  have hLess := hValue.grows.size_le
  have hMiddle := hBody.grows.size_le
  have hMore := hRest.grows.size_le
  have hBodyAmong := hAmong.before hRest.grows
  have hValueAmong := hBodyAmong.before hBody.grows
  have hSlot := hSettled.known _ List.mem_cons_self
  have hInside := (hSettled.context.later hLess).inFrame
  have hValuePart := ihValue hValueAmong (.of hSettled.context rfl)
  have hBodyPart := (ihBody hBodyAmong (.of hInside rfl)).outward hSettled.context.settled hLess
  have hRestPart := (ihRest hAmong ⟨hInside.later hMiddle, fun index hIndex =>
    (hSettled.known index hIndex).trans_le (hLess.trans hMiddle)⟩).outward hSettled.context.settled
    (hLess.trans hMiddle)
  refine ((((hValuePart.cons (.localGet (.inl hSlot))).behind ((Using.none rfl).cons
    (.none rfl))).append hBodyPart ?_ ?_ hLess hMiddle).append (hRestPart.cons (.none rfl)) ?_ ?_
    (hLess.trans hMiddle) hMore).behind (.none rfl)
  · exact ((Using.localGet (.inl (hSlot.trans_le hLess))).cons
      (hValue.in_front hValueAmong.room (.of hSettled.context rfl) le_rfl)).append
      ((Using.none rfl).cons (.none rfl))
  · exact hBody.in_back hBodyAmong.room le_rfl rfl
  · exact ((((Using.localGet (.inl (hSlot.trans_le (hLess.trans hMiddle)))).cons
      (hValue.in_front hValueAmong.room (.of hSettled.context rfl) hMiddle)).append
      ((Using.none rfl).cons (.none rfl)))).append
      (hBody.in_front hBodyAmong.room (.of hInside rfl) le_rfl)
  · refine (Using.none rfl).cons (hRest.elsewhere hAmong.room (.inr le_rfl) ?_ ?_)
    · exact fun _ hShows => .inr (.inr hShows)
    · exact fun index hIndex => .inl (hSettled.known index hIndex)

theorem held_construct {name : String} {record : Record} {inits : List FieldInit} {alloc : Code}
    (hRecord : context.env.registry.get? name = some record)
    (hAlloc : allocCode context.env context.name record (before.next (.record name)).index =
      .ok alloc)
    (hStores : Derives (before.push (.record name))
      (.stores context name (before.next (.record name)).index inits record.fields code) after)
    (ih : (Judgement.stores context name (before.next (.record name)).index inits record.fields
      code).Held home final (before.push (.record name)) after) :
    (Judgement.expr context hint asArm (.construct tag name inits)
      ⟨alloc ++ code ++ [.localGet (before.next (.record name)).index], .record name⟩).Held home
        final before
        after := by
  intro hAmong hSettled
  have hPush := before.size_push (.record name)
  have hMore := hStores.grows.size_le
  have hRoom := hAmong.room
  have hNext := @Slots.toNat_next before (.record name) (by omega)
  have hAddress : (before.next (.record name)).index.toNat < (before.push (.record name)).size := by
    omega
  simp only [Judgement.ranges, exprRanges, Env.fieldNames, hRecord]
  have hStoresPart := ih hAmong ⟨hSettled.context.later (by omega), by
    simpa [Judgement.known] using hAddress⟩
  exact ((hStoresPart.before (.alloc hAlloc trivial)).behind
    (.localGet (.inl hAddress))).wide (by omega) le_rfl

theorem held_store {name : String} {address : UInt32} {inits : List FieldInit} {init : FieldInit}
    {field : Field} {rest : List Field} (hInit : initOf? inits field.name = some init)
    (hValue : Derives before (.value context (context.env.typeOfField name field) init.value code)
      middle)
    (hRest : Derives middle (.stores context name address inits rest others) after)
    (ihValue : (Judgement.value context (context.env.typeOfField name field) init.value code).Held
      home final before middle)
    (ihRest : (Judgement.stores context name address inits rest others).Held home final
      middle after) :
    (Judgement.stores context name address inits (field :: rest)
      (.localGet address :: code ++ storeInstr field :: others)).Held home final before after := by
  intro hAmong hSettled
  have hLess := hValue.grows.size_le
  have hMore := hRest.grows.size_le
  have hValueAmong := hAmong.before hRest.grows
  have hAddress := hSettled.known _ List.mem_cons_self
  have hValuePart := ihValue hValueAmong (.of hSettled.context rfl)
  have hRestPart := ihRest hAmong ⟨hSettled.context.later hLess,
    fun index hIndex => (hSettled.known index hIndex).trans_le hLess⟩
  simp only [Judgement.ranges, List.map_cons, storesRanges_cons hInit]
  refine (hValuePart.cons (.localGet (.inl hAddress))).append (hRestPart.cons (.none rfl)) ?_ ?_
    hLess hMore
  · exact (Using.localGet (.inl (hAddress.trans_le hLess))).cons
      (hValue.in_front hValueAmong.room (.of hSettled.context rfl) le_rfl)
  · refine (Using.none rfl).cons (hRest.elsewhere hAmong.room (.inr le_rfl) ?_ ?_)
    · exact fun _ hShows => .inr (.inr hShows)
    · exact fun index hIndex => .inl (hSettled.known index hIndex)

theorem held_forRange {var : String} {start stop : Expr} {body : List Stmt} {lower upper : Code}
    {first : Slots} (hType : type = rangeType context start stop) (hInteger : type.isInteger = true)
    (hStart : Derives before (.value context type start lower) first)
    (hStop : Derives (first.push type) (.value (context.bind var (first.next type)) type stop upper)
      second)
    (hBody : Derives (second.push type)
      (.stmts ((context.bind var (first.next type)).inLoop.inFrame.looping
      context.frames (context.frames + 2)) body code inner) after)
    (ihStart : (Judgement.value context type start lower).Held home final before first)
    (ihStop : (Judgement.value (context.bind var (first.next type)) type stop upper).Held home final
      (first.push type) second)
    (ihBody : (Judgement.stmts ((context.bind var (first.next type)).inLoop.inFrame.looping
      context.frames (context.frames + 2)) body code inner).Held home final
        (second.push type) after) :
    (Judgement.stmt context (.forRange pos var start stop body)
      (rangeCode context type (first.next type).index (second.next type).index lower upper code)
      context).Held home final before after := by
  intro hAmong hSettled
  subst hType
  have hCompiled : Loop.Compiled ⟨⟨context.names, pos, var, start, stop, body⟩, context, before,
      first, second, after, lower, upper, code⟩ :=
    ⟨rfl, hInteger, hStart, hStop, ⟨_, hBody⟩, hSettled.context.settled, hAmong.room⟩
  have hCounting := hCompiled.sited_counting hSettled.context.within
  have hSecond := hAmong.before ((Slots.Grows.push second _).trans hBody.grows)
  have hFirst := hSecond.before ((Slots.Grows.push first _).trans hStop.grows)
  have hStartPart := ihStart hFirst (.of hSettled.context rfl)
  have hStopPart := ihStop hSecond (.of hCounting rfl)
  have hBodyPart := ihBody hAmong (.of (((hCounting.later
    hStop.grows.size_le).later (by simp)).inFrame.inFrame.inFrame.looping _ _) rfl)
  rw [Slots.size_push] at hStopPart hBodyPart
  have hHere := hCompiled.placed hSettled.context.within hAmong
  exact (Contains.single hHere).both (((hCompiled.start_contains hStartPart).both
    (hCompiled.stop_contains hStopPart)).both (hCompiled.body_contains hBodyPart))

end Constructs

/-- Derived code holds all ranges of its source. -/
theorem Derives.contains {home : Context} {before after final : Slots} {judgement : Judgement}
    (hDerives : Derives before judgement after) (hAmong : after.Among final)
    (hSettled : judgement.Settled home before) :
    Contains home final before.size after.size judgement.behind judgement.code
      judgement.ranges := by
  induction hDerives with
  | nil | leaveVoid | leave | next | int | float | bool | bound | self | path | named | variant
  | noArgs | noArm | stored => exact .none
  | cons hFirst hRest ihFirst ihRest => exact held_cons hFirst hRest ihFirst ihRest hAmong hSettled
  | declare _ _ _ ih => exact held_declare ih hAmong hSettled
  | assign _ _ ih => exact (ih hAmong (.of hSettled.context rfl)).behind (.localSet trivial)
  | leaveWith _ _ ih | not _ ih | negateFloat _ _ _ ih | call _ _ ih | member _ _ _ _ ih =>
      exact (ih hAmong (.of hSettled.context rfl)).behind (.none rfl)
  | eval _ ih | value _ _ ih | kept _ _ _ ih | wildcard _ ih =>
      exact ih hAmong (.of hSettled.context rfl)
  | negateInt _ _ _ ih =>
      exact ((ih hAmong (.of hSettled.context rfl)).behind (.none rfl)).cons (.constInt _ _)
  | discarded _ _ ih =>
      have hCode := ih hAmong (.of hSettled.context rfl)
      simp only [Judgement.code, discard]
      split
      · exact hCode
      · exact hCode.behind (.none rfl)
  | whileLoop hTest hBody ihTest ihBody =>
      exact held_while hTest hBody ihTest ihBody hAmong hSettled
  | forever _ ih =>
      have hInside := ih hAmong (.of (hSettled.context.inFrame.inFrame.looping _ _) rfl)
      exact ((hInside.outward hSettled.context.settled le_rfl).before
        ((Using.none rfl).cons (.none rfl))).behind
        ((Using.none rfl).cons ((Using.none rfl).cons (.none rfl)))
  | logical _ hLeft hRight ihLeft ihRight | binary _ _ _ hLeft hRight _ ihLeft ihRight
  | methodCall _ _ hLeft hRight ihLeft ihRight =>
      have hLeftPart := ihLeft (hAmong.before hRight.grows) (.of hSettled.context rfl)
      have hRightPart := ihRight hAmong (.of (hSettled.context.later hLeft.grows.size_le) rfl)
      exact (Contains.linked hLeft hRight hAmong (.of hSettled.context rfl) rfl rfl hLeftPart
        hRightPart).behind (.none rfl)
  | ownCall _ hOwn _ ih =>
      have hReceiver := hSettled.context.settled.receiver (receiver_of_own hOwn)
      exact ((ih hAmong (.of hSettled.context rfl)).behind (.none rfl)).cons
        (.localGet (.inl hReceiver))
  | arg hFirst hRest ihFirst ihRest =>
      have hFirstPart := ihFirst (hAmong.before hRest.grows) (.of hSettled.context rfl)
      have hRestPart := ihRest hAmong (.of (hSettled.context.later hFirst.grows.size_le) rfl)
      exact Contains.linked hFirst hRest hAmong (.of hSettled.context rfl) rfl rfl
        hFirstPart hRestPart
  | branchOnly hTest hBody ihTest ihBody =>
      exact held_branchOnly hTest hBody ihTest ihBody hAmong hSettled
  | branch _ _ hTest hYes hNo ihTest ihYes ihNo =>
      exact held_branch hTest hYes hNo ihTest ihYes ihNo hAmong hSettled
  | blockOnly _ _ ih =>
      have hCode := (ih hAmong (.of hSettled.context rfl)).outward hSettled.context.settled le_rfl
      simp only [Judgement.ranges, exprRanges, List.append_nil, Judgement.code]
      split
      · exact hCode
      · exact hCode.behind (.none rfl)
  | block _ _ hStmts hTail ihStmts ihTail =>
      exact held_block hStmts hTail ihStmts ihTail hAmong hSettled
  | cases _ _ _ _ hScrutinee hArms ihScrutinee ihArms =>
      exact held_cases hScrutinee hArms ihScrutinee ihArms hAmong hSettled
  | bind _ ih => exact held_bind ih hAmong hSettled
  | literal hValue hBody hRest ihValue ihBody ihRest =>
      exact held_literal hValue hBody hRest ihValue ihBody ihRest hAmong hSettled
  | construct hRecord _ hAlloc hStores ih =>
      exact held_construct hRecord hAlloc hStores ih hAmong hSettled
  | store hInit hValue hRest ihValue ihRest =>
      exact held_store hInit hValue hRest ihValue ihRest hAmong hSettled
  | forRange hType hInteger hStart hStop hBody ihStart ihStop ihBody =>
      exact held_forRange hType hInteger hStart hStop hBody ihStart ihStop ihBody hAmong hSettled

/-! ## Functions -/

theorem settled_entryPoint (env : Env) (decl : FuncDecl) :
    (entryPoint env decl).Settled ⟨(paramTypes decl).length, []⟩ := by
  constructor
  · intro entry hEntry
    obtain ⟨place, hIndex, hType⟩ := mem_entryScope hEntry
    have hPlace := (List.getElem?_eq_some_iff.1 hType).1
    have hLess := toNat_toUInt32_le place
    rw [hIndex, Slots.size, List.length_nil, Nat.add_zero]
    exact hLess.trans_lt hPlace
  · intro hReceiver
    have hMethod : decl.isMethod = true := by simpa [FuncDecl.isMethod, entryPoint] using hReceiver
    rw [Slots.size, length_paramTypes, if_pos hMethod]
    exact Nat.lt_add_right _ (Nat.add_comm 1 _ ▸ Nat.succ_pos _)

theorem Body.contains {context : Context} {stmts : List Stmt} {before after : Slots} {code : Code}
    (hBody : Body context stmts before code after) (hRoom : after.size ≤ 2 ^ 32)
    (hSettled : context.Settled before) :
    Contains context after before.size after.size context code
      (stmtsRanges context.env context.names stmts) := by
  have hHere : context.Sited context before := ⟨hSettled, .refl context⟩
  have hAmong : after.Among after := ⟨rfl, List.prefix_rfl, hRoom⟩
  cases hBody with
  | value _ _ hFront hValue =>
      have hMore := hValue.grows.size_le
      have hFrontRoom := hMore.trans hRoom
      have hSame : Context.Same _ _ := hFront.same
      have hNames : Context.names _ = _ := hFront.binds
      have hFrontPart := hFront.contains (hAmong.before hValue.grows) (.of hHere rfl)
      have hValuePart := hValue.contains hAmong
        (.of (hFront.sited_behind hFrontRoom hSame.env hHere) rfl)
      simp only [Judgement.ranges, hSame.env, hNames] at hValuePart
      simp only [stmtsRanges_append, stmtsRanges, stmtRanges, List.append_nil]
      exact (hFrontPart.append hValuePart (hFront.in_front hFrontRoom (.of hHere rfl) le_rfl)
        (hValue.in_back hRoom le_rfl rfl) hFront.grows.size_le hMore).outward hSettled le_rfl
  | void _ hStmts => exact (hStmts.contains hAmong (.of hHere rfl)).outward hSettled le_rfl
  | trap _ _ hStmts =>
      exact ((hStmts.contains hAmong (.of hHere rfl)).outward hSettled le_rfl).behind (.none rfl)

/-- The ranges of a function, where they are compiled. -/
theorem lowerFunction_contains {env : Env} {decl : FuncDecl} {body : FunctionBody}
    (hLower : lowerFunction env decl = .ok body)
    (hRoom : (paramTypes decl).length + body.locals.length ≤ 2 ^ 32) : ∃ final : Slots,
      final.params = (paramTypes decl).length ∧ body.locals = final.locals.map NumType.valType ∧
      Contains (entryPoint env decl) final (paramTypes decl).length final.size (entryPoint env decl)
        body.instrs (stmtsRanges env (entryPoint env decl).names decl.body) := by
  obtain ⟨code, after, -, hLocals, hInstrs, hBody, -⟩ := lowerFunction_derives hLower
  have hSize : after.size ≤ 2 ^ 32 := by
    rw [hLocals, List.length_map] at hRoom
    rw [Slots.size, hBody.grows.params]
    exact hRoom
  rw [hInstrs]
  exact ⟨after, hBody.grows.params, hLocals,
    (hBody.contains hSize (settled_entryPoint env decl)).behind (.none rfl)⟩

namespace Loop.Compiled

variable {loop : Loop}

theorem derives (hCompiled : loop.Compiled) :
    Derives loop.slots (.stmt loop.context loop.range.stmt loop.code loop.context) loop.after := by
  obtain ⟨_, hBody⟩ := hCompiled.body
  exact .forRange rfl hCompiled.integer hCompiled.start hCompiled.stop hBody

/-- The lower bound does not read the counter. -/
theorem unread_lower (hCompiled : loop.Compiled) :
    Use.reads loop.counter.index ∉ uses loop.lower := by
  have hSizes := hCompiled.sizes
  have hRoom := hCompiled.room
  have hCounter := hCompiled.toNat_counter
  have hLower : Using (Elsewhere loop.first.size (loop.first.size + 1) loop.context) loop.lower :=
    hCompiled.start.in_front (by omega) (.of ⟨hCompiled.settled, .refl _⟩ rfl) le_rfl
  exact hLower.unread hCounter.ge (by omega) fun hShows => by
    have hOld := hCompiled.settled.shows hShows
    omega

/-- Names other than the variable mean the same where it is bound. -/
theorem agrees (hFree : loop.range.var ∉ exprNames loop.range.stop) :
    loop.counting.Agrees (exprNames loop.range.stop) loop.context where
  env := rfl
  name := rfl
  receiver := rfl
  result := rfl
  frames := rfl
  loop := rfl
  lookup := by
    intro name hName
    rw [Loop.counting, Context.lookup?_bind, if_neg]
    exact fun hSame => hFree (hSame ▸ hName)

/-- An upper bound without the variable is lowered where the range stands. -/
theorem stop_outside (hCompiled : loop.Compiled)
    (hFree : loop.range.var ∉ exprNames loop.range.stop) :
    Derives (loop.first.push loop.type)
      (.value loop.context loop.type loop.range.stop loop.upper) loop.second :=
  hCompiled.stop.moves (List.Subset.refl _) (agrees hFree)

theorem unread_upper (hCompiled : loop.Compiled)
    (hFree : loop.range.var ∉ exprNames loop.range.stop) :
    Use.reads loop.counter.index ∉ uses loop.upper := by
  have hSizes := hCompiled.sizes
  have hRoom := hCompiled.room
  have hCounter := hCompiled.toNat_counter
  have hUpper : Using (Elsewhere loop.first.size (loop.first.size + 1) loop.context) loop.upper :=
    (hCompiled.stop_outside hFree).in_back (by omega) (by simp) rfl
  exact hUpper.unread hCounter.ge (by omega) fun hShows => by
    have hOld := hCompiled.settled.shows hShows
    omega

end Loop.Compiled

/-- Every range of a function is compiled in the scope in which it stands, and leaves this scope as
it is.  No code in front of the range or behind it reads its counter.  The lower bound is lowered in
that scope and does not read the counter.  The upper bound is lowered where the variable is bound;
if it does not mention the variable, this is as good as in the scope of the range, and it does not
read the counter either. -/
theorem ranges_scoped {env : Env} {decl : FuncDecl} {body : FunctionBody}
    (hLower : lowerFunction env decl = .ok body)
    (hRoom : (paramTypes decl).length + body.locals.length ≤ 2 ^ 32) :
    ∃ loops : List Loop,
      loops.map Loop.range = stmtsRanges env (entryPoint env decl).names decl.body ∧
      ∀ loop ∈ loops,
        ((entryPoint env decl).Within loop.context ∧ loop.context.names = loop.range.names) ∧
        lowerStmt loop.context loop.range.stmt loop.slots =
          .ok ((loop.code, loop.context), loop.after) ∧
        (∃ front back, body.instrs = front ++ loop.code ++ back ∧
          Use.reads loop.counter.index ∉ uses front ∧ Use.reads loop.counter.index ∉ uses back) ∧
        ((Judgement.value loop.context loop.type loop.range.start loop.lower).Generated loop.slots
            loop.first ∧ Use.reads loop.counter.index ∉ uses loop.lower) ∧
        (Judgement.value loop.counting loop.type loop.range.stop loop.upper).Generated
          (loop.first.push loop.type) loop.second ∧
        (loop.range.var ∉ exprNames loop.range.stop →
          (Judgement.value loop.context loop.type loop.range.stop loop.upper).Generated
            (loop.first.push loop.type) loop.second ∧
          Use.reads loop.counter.index ∉ uses loop.upper) := by
  obtain ⟨_, -, -, loops, hLoops, hPlaced⟩ := lowerFunction_contains hLower hRoom
  refine ⟨loops, hLoops, fun loop hLoop => ?_⟩
  obtain ⟨hCompiled, hWithin, -, -, -, -, hInside⟩ := hPlaced loop hLoop
  refine ⟨⟨hWithin, hCompiled.names⟩, hCompiled.derives.generated, hInside,
    ⟨hCompiled.start.generated, hCompiled.unread_lower⟩, hCompiled.stop.generated, fun hFree => ?_⟩
  exact ⟨(hCompiled.stop_outside hFree).generated, hCompiled.unread_upper hFree⟩

/-- A function with one range inside another, whose bounds mention the outer variable. -/
def triangle : FuncDecl where
  name := "triangle"
  params := [⟨{}, "n", .i64⟩]
  result := .i64
  body := [
    .declare {} "total" .void (.int {} 0),
    .forRange {} "i" (.int {} 0) (.ident {} "n") [
      .forRange {} "j" (.ident {} "i") (.ident {} "n") [
        .assign {} (.ident {} "total") (.binary {} "+" (.ident {} "total") (.int {} 1))]],
    .result {} (.ident {} "total")]

theorem ranges_scoped_triangle :
    ∃ (body : FunctionBody) (loops : List Loop),
      lowerFunction ⟨{}, ⟨8, 65536, 0, 1, 0, 1⟩, [], [], [], [], []⟩ triangle = .ok body ∧
      loops.map (fun loop => (loop.range.var, loop.context.names)) =
        [("i", ["total", "n"]), ("j", ["i", "total", "n"])] ∧
      ∀ loop ∈ loops,
        (∃ front back, body.instrs = front ++ loop.code ++ back ∧
          Use.reads loop.counter.index ∉ uses front ∧ Use.reads loop.counter.index ∉ uses back) ∧
        (Judgement.value loop.context loop.type loop.range.stop loop.upper).Generated
          (loop.first.push loop.type) loop.second := by
  obtain ⟨body, hLower, hFew⟩ := @ok_of_any _ _
    (lowerFunction ⟨{}, ⟨8, 65536, 0, 1, 0, 1⟩, [], [], [], [], []⟩ triangle)
    (fun body => (paramTypes triangle).length + body.locals.length ≤ 2 ^ 32) (by decide +kernel)
  obtain ⟨loops, hLoops, hAll⟩ := ranges_scoped hLower (of_decide_eq_true hFew)
  refine ⟨body, loops, hLower, ?_, fun loop hLoop => ?_⟩
  · have hVars : loops.map (fun loop => (loop.range.var, loop.range.names)) =
        [("i", ["total", "n"]), ("j", ["i", "total", "n"])] := by
      have hSites := congrArg (List.map fun range => (range.var, range.names)) hLoops
      rw [List.map_map] at hSites
      exact hSites.trans (by decide +kernel)
    rw [← hVars]
    exact List.map_congr_left fun loop hLoop => by rw [(hAll loop hLoop).1.2]
  · obtain ⟨-, -, hInside, -, -, hStop⟩ := hAll loop hLoop
    have hFree : ∀ range ∈ loops.map Loop.range, range.var ∉ exprNames range.stop := by
      rw [hLoops]
      decide +kernel
    exact ⟨hInside, (hStop (hFree _ (List.mem_map_of_mem hLoop))).1⟩

/-- A function whose range ends at a parameter of the name of its variable. -/
def shadowing : FuncDecl where
  name := "shadowing"
  params := [⟨{}, "i", .i64⟩]
  result := .i64
  body := [
    .declare {} "turns" .void (.int {} 0),
    .forRange {} "i" (.int {} 0) (.ident {} "i") [
      .assign {} (.ident {} "turns") (.binary {} "+" (.ident {} "turns") (.int {} 1))],
    .result {} (.ident {} "turns")]

/-- Where the range stands the name means the parameter, which has the first local.  The code of the
function does not read this local: the upper bound is the counter, which holds the lower bound. -/
theorem upper_bound_shadowed :
    ∃ body, lowerFunction ⟨{}, ⟨8, 65536, 0, 1, 0, 1⟩, [], [], [], [], []⟩ shadowing = .ok body ∧
      (entryPoint ⟨{}, ⟨8, 65536, 0, 1, 0, 1⟩, [], [], [], [], []⟩ shadowing).lookup? "i" =
        some ⟨0, .i64⟩ ∧
      Use.reads 0 ∉ uses body.instrs ∧
      [.i64Const 0, .localSet 2, .localGet 2, .localSet 3] <:+: body.instrs := by
  obtain ⟨body, hLower, hCheck⟩ := @ok_of_any _ _
    (lowerFunction ⟨{}, ⟨8, 65536, 0, 1, 0, 1⟩, [], [], [], [], []⟩ shadowing)
    (fun body => Use.reads 0 ∉ uses body.instrs ∧
      [.i64Const 0, .localSet 2, .localGet 2, .localSet 3] <:+: body.instrs) (by decide +kernel)
  exact ⟨body, hLower, by decide +kernel, of_decide_eq_true hCheck⟩

end RecordWasm.Lowering
