import RecordWasm.Proofs.Lowering.Structure
import RecordWasm.Proofs.Machine.Writes

/-!
# Which locals code uses

Slots are handed out once.  Code reads the locals of the names in scope, the receiver and new ones,
and it writes the locals of the names that the source assigns and new ones.  What a name refers to
is told by the source: a declaration hides an earlier name, and so do the variable of a range inside
its body and the name that an arm binds.
-/

namespace RecordWasm.Lowering

open Syntax Layout Wasm

/-- Whether a statement declares a name, so that an earlier one is out of reach behind it. -/
def hides (stmt : Stmt) (name : String) : Bool :=
  match stmt with
  | .declare _ declared _ _ => declared == name
  | _ => false

mutual

/-- The names that statements assign, and those that are assigned behind them, as far as they mean
names from outside. -/
def stmtsAssigned : List Stmt → (behind : List String) → List String
  | [], behind => behind
  | stmt :: rest, behind =>
      stmtAssigned stmt ++ (stmtsAssigned rest behind).filter fun name => !hides stmt name

def stmtAssigned : Stmt → List String
  | .assign _ (.ident _ name) value => name :: exprAssigned value
  | .declare _ _ _ value | .assign _ _ value | .result _ value | .eval _ value => exprAssigned value
  | .whileLoop _ cond body => exprAssigned cond ++ stmtsAssigned body []
  | .forever _ body => stmtsAssigned body []
  | .forRange _ var start stop body =>
      exprAssigned start ++ exprAssigned stop ++ (stmtsAssigned body []).filter (· ≠ var)
  | .leave _ | .next _ | .missing => []

def exprAssigned : Expr → List String
  | .binary _ _ left right => exprAssigned left ++ exprAssigned right
  | .unary _ _ operand => exprAssigned operand
  | .call _ _ args => argsAssigned args
  | .methodCall _ receiver _ args => exprAssigned receiver ++ argsAssigned args
  | .branch _ cond body otherwise =>
      exprAssigned cond ++ exprAssigned body ++ exprAssigned otherwise
  | .block _ stmts tail => stmtsAssigned stmts (exprAssigned tail)
  | .cases _ scrutinee arms => exprAssigned scrutinee ++ armsAssigned arms
  | .member _ subject _ => exprAssigned subject
  | .construct _ _ inits => initsAssigned inits
  | _ => []

def argsAssigned : List Expr → List String
  | [] => []
  | arg :: rest => exprAssigned arg ++ argsAssigned rest

/-- Arms behind one that takes everything are not compiled. -/
def armsAssigned : List Arm → List String
  | [] => []
  | .mk _ pattern body :: rest =>
      match pattern with
      | .wildcard _ => exprAssigned body
      | .bind _ name => (exprAssigned body).filter (· ≠ name)
      | .literal _ value => exprAssigned value ++ exprAssigned body ++ armsAssigned rest
      | _ => []

def initsAssigned : List FieldInit → List String
  | [] => []
  | .mk _ _ value :: rest => exprAssigned value ++ initsAssigned rest

end

theorem initsAssigned_of_mem {inits : List FieldInit} {init : FieldInit} (hInit : init ∈ inits) :
    exprAssigned init.value ⊆ initsAssigned inits := by
  induction inits with
  | nil => cases hInit
  | cons first rest ih =>
      obtain ⟨pos, name, value⟩ := first
      rw [initsAssigned]
      rcases List.mem_cons.1 hInit with rfl | hRest
      · exact List.subset_append_left _ _
      · exact List.Subset.trans (ih hRest) (List.subset_append_right _ _)

/-- The names that a judgement assigns. -/
def Judgement.assigned : Judgement → List String
  | stmts _ source _ _ => stmtsAssigned source []
  | stmt _ source _ _ => stmtAssigned source
  | expr _ _ _ source _ | value _ _ source _ | settled _ _ _ source _ => exprAssigned source
  | args _ _ source _ => argsAssigned source
  | arms _ _ _ source _ => armsAssigned source
  | stores _ _ _ inits _ _ => initsAssigned inits

/-- A local that names can mean: that of a name in scope, or the receiver. -/
def Context.Shows (context : Context) (index : UInt32) : Prop :=
  (∃ entry ∈ context.scope, entry.2.index = index) ∨ context.receiver ≠ "" ∧ index = 0

/-- A use of a local that is new, that names can mean or that is known besides.  What is written is
new or meant by one of the given names. -/
def Allowed (context : Context) (known : List UInt32) (assigned : List String) (low high : Nat)
    (use : Use) : Prop :=
  (low ≤ use.index.toNat ∧ use.index.toNat < high) ∨
    match use with
    | .reads index => context.Shows index ∨ index ∈ known
    | .writes index => ∃ name ∈ assigned, ∃ slot, context.lookup? name = some slot ∧
        slot.index = index

section Allowed

variable {context : Context} {known more : List UInt32} {assigned names : List String}
variable {low high lower higher : Nat} {use : Use}

theorem Allowed.mono (hUse : Allowed context known assigned low high use) (hKnown : known ⊆ more)
    (hNames : assigned ⊆ names) (hLow : lower ≤ low) (hHigh : high ≤ higher) :
    Allowed context more names lower higher use := by
  rcases hUse with hNew | hOld
  · exact .inl ⟨hLow.trans hNew.1, hNew.2.trans_le hHigh⟩
  · right
    cases use with
    | reads index => exact hOld.imp_right fun hIndex => hKnown hIndex
    | writes index =>
        obtain ⟨name, hName, hSlot⟩ := hOld
        exact ⟨name, hNames hName, hSlot⟩

theorem Context.lookup?_bind (context : Context) (name wanted : String) (slot : Slot) :
    (context.bind name slot).lookup? wanted =
      if name = wanted then some slot else context.lookup? wanted := by
  by_cases hName : name = wanted <;> simp [Context.lookup?, Context.bind, hName]

theorem Context.mem_of_lookup? {name : String} {slot : Slot}
    (hLookup : context.lookup? name = some slot) :
    ∃ entry ∈ context.scope, entry.2.index = slot.index := by
  obtain ⟨entry, hFind, rfl⟩ := Option.map_eq_some_iff.1 hLookup
  exact ⟨entry, List.mem_of_find?_eq_some hFind, rfl⟩

/-- Where a name is bound to a new slot, all that is assigned under this name is new. -/
theorem Allowed.unbind {name : String} {slot : Slot}
    (hUse : Allowed (context.bind name slot) known assigned low high use)
    (hSlot : low ≤ slot.index.toNat ∧ slot.index.toNat < high) :
    Allowed context known (assigned.filter (· ≠ name)) low high use := by
  rcases hUse with hNew | hOld
  · exact .inl hNew
  · cases use with
    | reads index =>
        rcases hOld with (⟨entry, hEntry, rfl⟩ | hReceiver) | hKnown
        · rcases List.mem_cons.1 hEntry with rfl | hScope
          · exact .inl hSlot
          · exact .inr (.inl (.inl ⟨entry, hScope, rfl⟩))
        · exact .inr (.inl (.inr hReceiver))
        · exact .inr (.inr hKnown)
    | writes index =>
        obtain ⟨wanted, hWanted, found, hFound, rfl⟩ := hOld
        rw [Context.lookup?_bind] at hFound
        by_cases hName : name = wanted
        · rw [if_pos hName] at hFound
          cases hFound
          exact .inl hSlot
        · rw [if_neg hName] at hFound
          refine .inr ⟨wanted, List.mem_filter.2 ⟨hWanted, ?_⟩, found, hFound, rfl⟩
          exact decide_eq_true fun hSame => hName hSame.symm

/-- A new local may be known. -/
theorem Allowed.forget {index : UInt32}
    (hUse : Allowed context (index :: known) assigned low high use)
    (hIndex : low ≤ index.toNat ∧ index.toNat < high) :
    Allowed context known assigned low high use := by
  rcases hUse with hNew | hOld
  · exact .inl hNew
  · cases use with
    | reads other =>
        rcases hOld with hShows | hKnown
        · exact .inr (.inl hShows)
        · rcases List.mem_cons.1 hKnown with rfl | hRest
          · exact .inl hIndex
          · exact .inr (.inr hRest)
    | writes other => exact .inr hOld

end Allowed

/-! ## Code and its uses -/

/-- The code in front of the body of a range: its loop is left if the counter has reached the
limit. -/
def rangeTest (context : Context) (type : Ty) (counter limit : UInt32) : Code :=
  [.block voidBlock, .loop voidBlock, .localGet counter, .localGet limit,
    (Opcode.compareInt (intWidth type) .geS).instr, .brIf (context.inLoop.label context.frames),
    .block voidBlock]

/-- The code behind the body of a range: the counter is raised. -/
def rangeRaise (context : Context) (type : Ty) (counter : UInt32) : Code :=
  [.close, .localGet counter, constInt type 1, (Opcode.int (intWidth type) .add).instr,
    .localSet counter, .br (context.inLoop.label (context.frames + 1)), .close, .close]

theorem rangeCode_eq (context : Context) (type : Ty) (counter limit : UInt32)
    (first last body : Code) :
    rangeCode context type counter limit first last body =
      first ++ [.localSet counter] ++ last ++ [.localSet limit] ++
        rangeTest context type counter limit ++ body ++ rangeRaise context type counter := rfl

/-- All uses of locals in code have a property. -/
def Using (allowed : Use → Prop) (code : Code) : Prop := ∀ use ∈ uses code, allowed use

namespace Using

variable {allowed : Use → Prop} {code first second : Code}

theorem nil : Using allowed [] := by
  intro use hUse
  cases hUse

theorem append (hFirst : Using allowed first) (hSecond : Using allowed second) :
    Using allowed (first ++ second) := by
  intro use hUse
  rw [uses_append, List.mem_append] at hUse
  exact hUse.elim (hFirst use) (hSecond use)

theorem cons {instr : Instr} (hFirst : Using allowed [instr]) (hRest : Using allowed code) :
    Using allowed (instr :: code) := hFirst.append hRest

theorem mono {other : Use → Prop} (hCode : Using other code)
    (hOther : ∀ use, other use → allowed use) : Using allowed code :=
  fun use hUse => hOther use (hCode use hUse)

theorem none {instr : Instr} (hNone : instr.use? = Option.none) : Using allowed [instr] := by
  intro use hUse
  simp [uses, hNone] at hUse

theorem instr (opcode : Opcode) : Using allowed [opcode.instr] := none rfl

theorem localGet {index : UInt32} (hRead : allowed (.reads index)) :
    Using allowed [.localGet index] := by
  intro use hUse
  cases List.mem_singleton.1 (hUse : use ∈ [Use.reads index])
  exact hRead

theorem localSet {index : UInt32} (hWrite : allowed (.writes index)) :
    Using allowed [.localSet index] := by
  intro use hUse
  cases List.mem_singleton.1 (hUse : use ∈ [Use.writes index])
  exact hWrite

theorem localTee {index : UInt32} (hWrite : allowed (.writes index)) :
    Using allowed [.localTee index] := by
  intro use hUse
  cases List.mem_singleton.1 (hUse : use ∈ [Use.writes index])
  exact hWrite

theorem constInt (type : Ty) (value : Int64) : Using allowed [constInt type value] := by
  cases type <;> exact none rfl

theorem constFloat (type : Ty) (bits : UInt64) : Using allowed [constFloat type bits] := by
  cases type <;> exact none rfl

theorem discard {lowered : Lowered} (hCode : Using allowed lowered.code) :
    Using allowed (discard lowered) := by
  rw [Lowering.discard]
  split
  · exact hCode
  · exact hCode.append (instr _)

theorem loads {env : Env} {base : Ty} {path : List String} {lowered : Lowered}
    (hLoads : Loads env base path lowered) : Using allowed lowered.code := by
  induction hLoads with
  | here => exact nil
  | field _ _ _ ih => exact (none rfl).cons ih

theorem alloc {env : Env} {decl : String} {record : Record} {address : UInt32}
    (hAlloc : allocCode env decl record address = .ok code) (hWrite : allowed (.writes address)) :
    Using allowed code := by
  rw [allocCode] at hAlloc
  split at hAlloc
  · cases hAlloc
  · cases hAlloc
    exact (none rfl).cons ((none rfl).cons ((none rfl).cons ((localTee hWrite).cons
      ((none rfl).cons ((none rfl).cons ((none rfl).cons (none rfl)))))))

theorem whileLoop (context : Context) (hTest : Using allowed first) (hBody : Using allowed code) :
    Using allowed (whileCode context first code) :=
  (((((none rfl).cons (none rfl)).append hTest).append ((none rfl).cons (none rfl))).append
    hBody).append ((none rfl).cons ((none rfl).cons (none rfl)))

theorem forever (context : Context) (hBody : Using allowed code) :
    Using allowed (foreverCode context code) :=
  (((none rfl).cons (none rfl)).append hBody).append ((none rfl).cons ((none rfl).cons (none rfl)))

theorem rangeTest (context : Context) (type : Ty) {counter limit : UInt32}
    (hCounter : allowed (.reads counter)) (hLimit : allowed (.reads limit)) :
    Using allowed (rangeTest context type counter limit) :=
  (none rfl).cons ((none rfl).cons ((localGet hCounter).cons ((localGet hLimit).cons
    ((none rfl).cons ((none rfl).cons (none rfl))))))

theorem rangeRaise (context : Context) (type : Ty) {counter : UInt32}
    (hReads : allowed (.reads counter)) (hWrites : allowed (.writes counter)) :
    Using allowed (rangeRaise context type counter) :=
  (none rfl).cons ((localGet hReads).cons ((constInt type 1).cons ((none rfl).cons
    ((localSet hWrites).cons ((none rfl).cons ((none rfl).cons (none rfl)))))))

/-- A range uses its counter and its limit besides what its parts use. -/
theorem range (context : Context) (type : Ty) {counter limit : UInt32}
    (hLower : Using allowed first) (hUpper : Using allowed second) (hBody : Using allowed code)
    (hReads : allowed (.reads counter)) (hWrites : allowed (.writes counter))
    (hLimit : allowed (.reads limit)) (hSet : allowed (.writes limit)) :
    Using allowed (rangeCode context type counter limit first second code) := by
  rw [rangeCode_eq]
  exact (((((hLower.append (localSet hWrites)).append hUpper).append (localSet hSet)).append
    (rangeTest context type hReads hLimit)).append hBody).append
    (rangeRaise context type hReads hWrites)

theorem branchOnly (type : Int32) (hTest : Using allowed first) (hYes : Using allowed second) :
    Using allowed (first ++ .ifThen type :: second ++ [.close]) :=
  (hTest.append ((none rfl).cons hYes)).append (none rfl)

theorem branch (type : Int32) (hTest : Using allowed code) (hYes : Using allowed first)
    (hNo : Using allowed second) :
    Using allowed
      (code ++ .ifThen type :: first ++ Opcode.otherwise.instr :: second ++ [.close]) :=
  ((hTest.append ((none rfl).cons hYes)).append ((none rfl).cons hNo)).append (none rfl)

theorem literalArm (slot : Slot) (type : Ty) (hRead : allowed (.reads slot.index))
    (hTest : Using allowed code) (hYes : Using allowed first) (hNo : Using allowed second) :
    Using allowed (literalArmCode slot type code first second) :=
  (((((localGet hRead).cons hTest).append ((instr _).cons (none rfl))).append hYes).append
    ((none rfl).cons hNo)).append (none rfl)

end Using

@[simp] theorem Slots.size_push (slots : Slots) (type : Ty) :
    (slots.push type).size = slots.size + 1 := by
  simp [Slots.size, Slots.push, Nat.add_assoc]

/-- The number of the next slot, as long as there are words for all of them. -/
theorem Slots.toNat_next {slots : Slots} {type : Ty} (hRoom : slots.size < 2 ^ 32) :
    (slots.next type).index.toNat = slots.size := toNat_toUInt32 hRoom

/-- All names in scope, and the receiver, have slots among those that were handed out. -/
structure Context.Settled (context : Context) (slots : Slots) : Prop where
  scope : ∀ entry ∈ context.scope, entry.2.index.toNat < slots.size
  receiver : context.receiver ≠ "" → 0 < slots.size

namespace Context.Settled

variable {context : Context} {slots more : Slots}

theorem later (hSettled : context.Settled slots) (hMore : slots.size ≤ more.size) :
    context.Settled more :=
  ⟨fun entry hEntry => (hSettled.scope entry hEntry).trans_le hMore,
    fun hMethod => (hSettled.receiver hMethod).trans_le hMore⟩

theorem inFrame (hSettled : context.Settled slots) : context.inFrame.Settled slots :=
  ⟨hSettled.scope, hSettled.receiver⟩

theorem looping (hSettled : context.Settled slots) (leave next : Nat) :
    (context.looping leave next).Settled slots := ⟨hSettled.scope, hSettled.receiver⟩

theorem bind (hSettled : context.Settled slots) (name : String) (type : Ty) :
    (context.bind name (slots.next type)).Settled (slots.push type) := by
  have hMore : slots.size ≤ (slots.push type).size := by simp
  constructor
  · intro entry hEntry
    rcases List.mem_cons.1 hEntry with rfl | hOld
    · exact slots.next_lt type
    · exact (hSettled.scope entry hOld).trans_le hMore
  · exact (hSettled.later hMore).receiver

theorem shows (hSettled : context.Settled slots) {index : UInt32} (hShows : context.Shows index) :
    index.toNat < slots.size := by
  rcases hShows with ⟨entry, hEntry, rfl⟩ | ⟨hMethod, rfl⟩
  · exact hSettled.scope entry hEntry
  · exact hSettled.receiver hMethod

end Context.Settled

/-- The context behind a judgement. -/
def Judgement.behind : Judgement → Context
  | stmts _ _ _ behind | stmt _ _ _ behind => behind
  | other => other.context

variable {before middle after : Slots}

/-- Statements bind names to new slots and leave the others in scope. -/
theorem Derives.names_behind {judgement : Judgement} (hDerives : Derives before judgement after)
    (hRoom : after.size ≤ 2 ^ 32) :
    judgement.behind.receiver = judgement.context.receiver ∧
      ∀ entry ∈ judgement.behind.scope, entry ∈ judgement.context.scope ∨
        before.size ≤ entry.2.index.toNat ∧ entry.2.index.toNat < after.size := by
  induction hDerives with
  | cons hFirst hRest ihFirst ihRest =>
      have hMore := hRest.grows.size_le
      have hEarlier := hFirst.grows.size_le
      obtain ⟨hFirstReceiver, hFirstScope⟩ := ihFirst (hMore.trans hRoom)
      obtain ⟨hRestReceiver, hRestScope⟩ := ihRest hRoom
      refine ⟨hRestReceiver.trans hFirstReceiver, fun entry hEntry => ?_⟩
      rcases hRestScope entry hEntry with hInner | hNew
      · exact (hFirstScope entry hInner).imp_right fun hNew => ⟨hNew.1, hNew.2.trans_le hMore⟩
      · exact .inr ⟨hEarlier.trans hNew.1, hNew.2⟩
  | @declare _ last _ _ _ _ type _ _ _ _ hValue _ =>
      have hMore := hValue.grows.size_le
      rw [Slots.size_push] at hRoom
      refine ⟨rfl, fun entry hEntry => ?_⟩
      rcases List.mem_cons.1 hEntry with rfl | hOld
      · right
        rw [Slots.toNat_next (by omega), Slots.size_push]
        exact ⟨hMore, Nat.lt_succ_self _⟩
      · exact .inl hOld
  | _ => exact ⟨rfl, fun _ hEntry => .inl hEntry⟩

theorem Derives.settled_behind {judgement : Judgement} (hDerives : Derives before judgement after)
    (hRoom : after.size ≤ 2 ^ 32) (hSettled : judgement.context.Settled before) :
    judgement.behind.Settled after := by
  obtain ⟨hReceiver, hScope⟩ := hDerives.names_behind hRoom
  have hMore := hDerives.grows.size_le
  constructor
  · intro entry hEntry
    rcases hScope entry hEntry with hOld | hNew
    · exact (hSettled.scope entry hOld).trans_le hMore
    · exact hNew.2
  · rw [hReceiver]
    exact (hSettled.later hMore).receiver

section Behind

variable {context inner : Context} {known : List UInt32} {names : List String} {high : Nat}
variable {use : Use} {code : Code}

theorem Allowed.behind_stmt {stmt : Stmt}
    (hStmt : Derives before (.stmt context stmt code inner) middle)
    (hUse : Allowed inner known names middle.size high use) (hRoom : middle.size ≤ 2 ^ 32)
    (hHigh : middle.size ≤ high) :
    Allowed context known (names.filter fun name => !hides stmt name) before.size high use := by
  have hMore := hStmt.grows.size_le
  cases hStmt with
  | @declare _ last _ _ name _ type _ _ _ _ hValue =>
      have hLess := hValue.grows.size_le
      rw [Slots.size_push] at hRoom hHigh hUse
      have hWide := hUse.mono (fun _ hIndex => hIndex) (fun _ hName => hName)
        (hLess.trans (Nat.le_succ _)) le_rfl
      have hFree := hWide.unbind (by rw [Slots.toNat_next (by omega)]; omega)
      refine hFree.mono (fun _ hIndex => hIndex) ?_ le_rfl le_rfl
      intro wanted hWanted
      rw [List.mem_filter] at hWanted ⊢
      refine ⟨hWanted.1, ?_⟩
      have hOther := of_decide_eq_true hWanted.2
      simp only [hides, Bool.not_eq_true', beq_eq_false_iff_ne]
      exact fun hSame => hOther hSame.symm
  | _ =>
      refine hUse.mono (fun _ hIndex => hIndex) ?_ hMore le_rfl
      intro wanted hWanted
      exact List.mem_filter.2 ⟨hWanted, rfl⟩

/-- What is allowed behind statements is allowed for them and what stands behind. -/
theorem Allowed.behind_stmts {stmts : List Stmt}
    (hStmts : Derives before (.stmts context stmts code inner) middle)
    (hUse : Allowed inner known names middle.size high use) (hRoom : middle.size ≤ 2 ^ 32)
    (hHigh : middle.size ≤ high) :
    Allowed context known (stmtsAssigned stmts names) before.size high use := by
  induction stmts generalizing context before code with
  | nil =>
      cases hStmts
      rwa [stmtsAssigned]
  | cons stmt rest ih =>
      cases hStmts with
      | cons hFirst hRest =>
          have hMore := hRest.grows.size_le
          have hOuter :=
            Allowed.behind_stmt hFirst (ih hRest) (hMore.trans hRoom) (hMore.trans hHigh)
          rw [stmtsAssigned]
          exact hOuter.mono (fun _ hIndex => hIndex) (List.subset_append_right _ _) le_rfl le_rfl

theorem stmtsAssigned_subset (stmts : List Stmt) (names : List String) :
    stmtsAssigned stmts [] ⊆ stmtsAssigned stmts names := by
  induction stmts with
  | nil => simp [stmtsAssigned]
  | cons stmt rest ih =>
      simp only [stmtsAssigned]
      exact List.append_subset.2 ⟨List.subset_append_left _ _,
        List.subset_append_of_subset_right _ (List.filter_subset _ ih)⟩

end Behind

/-! ## All code -/

/-- What is known besides the names in scope: the slot of a match, or the address of a new
record. -/
def Judgement.known : Judgement → List UInt32
  | arms _ slot _ _ _ => [slot.index]
  | stores _ _ address _ _ _ => [address]
  | _ => []

/-- What a judgement may use. -/
def Judgement.Allows (before after : Slots) (judgement : Judgement) : Use → Prop :=
  Allowed judgement.context judgement.known judgement.assigned before.size after.size

section Parts

variable {context : Context} {known : List UInt32} {assigned names : List String}
variable {low high lower higher : Nat} {code : Code}

/-- Uses that are allowed for a part are allowed for the whole. -/
theorem Using.part (hCode : Using (Allowed context known assigned low high) code)
    (hNames : assigned ⊆ names) (hLow : lower ≤ low) (hHigh : high ≤ higher) :
    Using (Allowed context known names lower higher) code :=
  hCode.mono fun _ hUse => hUse.mono (List.Subset.refl _) hNames hLow hHigh

/-- A part may use besides what the whole knows. -/
theorem Using.among (hCode : Using (Allowed context [] assigned low high) code)
    (hNames : assigned ⊆ names) (hLow : lower ≤ low) (hHigh : high ≤ higher) :
    Using (Allowed context known names lower higher) code :=
  hCode.mono fun _ hUse => hUse.mono (List.nil_subset _) hNames hLow hHigh

/-- What is assigned under a name that is bound to a new slot does not count outside. -/
theorem Using.unbind {name : String} {slot : Slot}
    (hCode : Using (Allowed (context.bind name slot) known assigned low high) code)
    (hSlot : lower ≤ slot.index.toNat ∧ slot.index.toNat < higher)
    (hNames : assigned.filter (· ≠ name) ⊆ names) (hLow : lower ≤ low) (hHigh : high ≤ higher) :
    Using (Allowed context known names lower higher) code := by
  intro use hUse
  have hWide := (hCode.part (List.Subset.refl _) hLow hHigh) use hUse
  exact (hWide.unbind hSlot).mono (List.Subset.refl _) hNames le_rfl le_rfl

theorem Using.forget {index : UInt32}
    (hCode : Using (Allowed context [index] assigned low high) code)
    (hIndex : lower ≤ index.toNat ∧ index.toNat < higher) (hNames : assigned ⊆ names)
    (hLow : lower ≤ low) (hHigh : high ≤ higher) :
    Using (Allowed context [] names lower higher) code :=
  fun use hUse => ((hCode.part hNames hLow hHigh) use hUse).forget hIndex

end Parts

theorem Slots.next_new {slots : Slots} {type : Ty} {low high : Nat} (hLow : low ≤ slots.size)
    (hHigh : (slots.push type).size ≤ high) (hRoom : high ≤ 2 ^ 32) :
    low ≤ (slots.next type).index.toNat ∧ (slots.next type).index.toNat < high := by
  rw [Slots.size_push] at hHigh
  rw [Slots.toNat_next (by omega)]
  exact ⟨hLow, by omega⟩

/-- Code uses the locals that its source means, and new ones. -/
theorem Derives.using {judgement : Judgement} (hDerives : Derives before judgement after)
    (hRoom : after.size ≤ 2 ^ 32) : Using (judgement.Allows before after) judgement.code := by
  induction hDerives with
  | nil | noArgs | stored => exact .nil
  | leaveVoid | leave | next | bool | named | variant | noArm => exact .none rfl
  | int => exact .constInt _ _
  | float => exact .constFloat _ _
  | cons hFirst hRest ihFirst ihRest =>
      have hMore := hRest.grows.size_le
      refine ((ihFirst (hMore.trans hRoom)).part (List.subset_append_left _ _) le_rfl hMore).append
        ((ihRest hRoom).mono fun use hUse => ?_)
      have hOuter := Allowed.behind_stmt hFirst hUse (hMore.trans hRoom) hMore
      exact hOuter.mono (List.Subset.refl _) (List.subset_append_right _ _) le_rfl le_rfl
  | @declare _ last _ _ _ _ type _ _ _ _ hValue ih =>
      have hPush := last.size_push type
      have hLess := hValue.grows.size_le
      refine ((ih (by omega)).part (List.Subset.refl _) le_rfl (by omega)).append (.localSet ?_)
      exact .inl (Slots.next_new hLess le_rfl hRoom)
  | assign hLookup _ ih =>
      refine ((ih hRoom).part (List.subset_cons_self _ _) le_rfl le_rfl).append
        (.localSet (.inr ?_))
      exact ⟨_, List.mem_cons_self, _, hLookup, rfl⟩
  | leaveWith _ _ ih | not _ ih | negateFloat _ _ _ ih | call _ _ ih | member _ _ _ _ ih =>
      exact (ih hRoom).append (.none rfl)
  | eval _ ih | value _ _ ih | kept _ _ _ ih => exact ih hRoom
  | discarded _ _ ih => exact .discard (ih hRoom)
  | whileLoop hTest hBody ihTest ihBody =>
      have hMore := hBody.grows.size_le
      exact .whileLoop _
        ((ihTest (hMore.trans hRoom)).part (List.subset_append_left _ _) le_rfl hMore)
        ((ihBody hRoom).part (List.subset_append_right _ _) hTest.grows.size_le le_rfl)
  | forever _ ih => exact .forever _ (ih hRoom)
  | @forRange slots first second last _ _ _ _ _ _ _ type _ _ _ _ _ hStart hStop hBody ihStart ihStop
      ihBody =>
      have hFirst := first.size_push type
      have hSecond := second.size_push type
      have hLess := hStart.grows.size_le
      have hStopMore := hStop.grows.size_le
      have hBodyMore := hBody.grows.size_le
      have hCounter : slots.size ≤ (first.next type).index.toNat ∧
          (first.next type).index.toNat < last.size := Slots.next_new hLess (by omega) hRoom
      have hLimit : slots.size ≤ (second.next type).index.toNat ∧
          (second.next type).index.toNat < last.size := Slots.next_new (by omega) hBodyMore hRoom
      refine .range _ _ ?_ ?_ ?_ (.inl hCounter) (.inl hCounter) (.inl hLimit) (.inl hLimit)
      · refine (ihStart (by omega)).part ?_ le_rfl (by omega)
        exact List.subset_append_of_subset_left _ (List.subset_append_left _ _)
      · refine (ihStop (by omega)).unbind hCounter ?_ (by omega) (by omega)
        exact List.Subset.trans List.filter_sublist.subset
          (List.subset_append_of_subset_left _ (List.subset_append_right _ _))
      · exact (ihBody hRoom).unbind hCounter (List.subset_append_right _ _) (by omega) le_rfl
  | bound hLookup => exact .localGet (.inr (.inl (.inl (Context.mem_of_lookup? hLookup))))
  | self _ hMethod => exact .localGet (.inr (.inl (.inr ⟨hMethod, rfl⟩)))
  | path _ _ hPath hLoads =>
      exact (Using.localGet (.inr (.inl (.inr ⟨receiver_of_path hPath, rfl⟩)))).cons (.loads hLoads)
  | logical _ hLeft hRight ihLeft ihRight | binary _ _ _ hLeft hRight _ ihLeft ihRight
  | methodCall _ _ hLeft hRight ihLeft ihRight =>
      have hMore := hRight.grows.size_le
      exact (((ihLeft (hMore.trans hRoom)).part (List.subset_append_left _ _) le_rfl hMore).append
        ((ihRight hRoom).part (List.subset_append_right _ _) hLeft.grows.size_le le_rfl)).append
        (.none rfl)
  | negateInt _ _ _ ih => exact (Using.constInt _ _).cons ((ih hRoom).append (.none rfl))
  | ownCall _ hOwn _ ih =>
      exact (Using.localGet (.inr (.inl (.inr ⟨receiver_of_own hOwn, rfl⟩)))).cons
        ((ih hRoom).append (.none rfl))
  | arg hFirst hRest ihFirst ihRest =>
      have hMore := hRest.grows.size_le
      exact ((ihFirst (hMore.trans hRoom)).part (List.subset_append_left _ _) le_rfl hMore).append
        ((ihRest hRoom).part (List.subset_append_right _ _) hFirst.grows.size_le le_rfl)
  | branchOnly hTest hBody ihTest ihBody =>
      have hMore := hBody.grows.size_le
      refine .branchOnly _ ((ihTest (hMore.trans hRoom)).part ?_ le_rfl hMore)
        ((ihBody hRoom).part ?_ hTest.grows.size_le le_rfl)
      · exact List.subset_append_of_subset_left _ (List.subset_append_left _ _)
      · exact List.subset_append_of_subset_left _ (List.subset_append_right _ _)
  | branch _ _ hTest hYes hNo ihTest ihYes ihNo =>
      have hYesMore := hYes.grows.size_le
      have hNoMore := hNo.grows.size_le
      have hLess := hTest.grows.size_le
      refine .branch _ ((ihTest (by omega)).part ?_ le_rfl (by omega))
        ((ihYes (by omega)).part ?_ hLess hNoMore)
        ((ihNo hRoom).part (List.subset_append_right _ _) (by omega) le_rfl)
      · exact List.subset_append_of_subset_left _ (List.subset_append_left _ _)
      · exact List.subset_append_of_subset_left _ (List.subset_append_right _ _)
  | blockOnly _ _ ih =>
      simp only [Judgement.code]
      split
      · exact ih hRoom
      · exact Using.append (ih hRoom) (.none rfl)
  | block _ _ hStmts hTail ihStmts ihTail =>
      have hMore := hTail.grows.size_le
      refine ((ihStmts (hMore.trans hRoom)).part (stmtsAssigned_subset _ _) le_rfl hMore).append
        ((ihTail hRoom).mono fun use hUse => ?_)
      exact Allowed.behind_stmts hStmts hUse (hMore.trans hRoom) hMore
  | cases _ _ _ _ hScrutinee hArms ihScrutinee ihArms =>
      have hLess := hScrutinee.grows.size_le
      have hMore := hArms.grows.size_le
      have hNew := Slots.next_new hLess hMore hRoom
      rw [Slots.size_push] at hMore
      refine ((ihScrutinee (by omega)).part (List.subset_append_left _ _) le_rfl (by omega)).append
        ((Using.localSet (.inl hNew)).cons ?_)
      exact (ihArms hRoom).forget hNew (List.subset_append_right _ _) (by simp; omega) le_rfl
  | wildcard _ ih => exact (ih hRoom).among (List.Subset.refl _) le_rfl le_rfl
  | bind hBody ih =>
      have hMore := hBody.grows.size_le
      have hNew := Slots.next_new le_rfl hMore hRoom
      refine (Using.localGet (.inr (.inr List.mem_cons_self))).cons
        ((Using.localSet (.inl hNew)).cons ?_)
      have hCode := (ih hRoom).unbind hNew (List.Subset.refl _) (by simp) le_rfl
      exact hCode.among (List.Subset.refl _) le_rfl le_rfl
  | literal hValue hBody hRest ihValue ihBody ihRest =>
      have hBodyMore := hBody.grows.size_le
      have hRestMore := hRest.grows.size_le
      have hLess := hValue.grows.size_le
      refine .literalArm _ _ (.inr (.inr List.mem_cons_self))
        ((ihValue (by omega)).among ?_ le_rfl (by omega))
        ((ihBody (by omega)).among ?_ hLess hRestMore)
        ((ihRest hRoom).part (List.subset_append_right _ _) (by omega) le_rfl)
      · exact List.subset_append_of_subset_left _ (List.subset_append_left _ _)
      · exact List.subset_append_of_subset_left _ (List.subset_append_right _ _)
  | construct _ _ hAlloc hStores ih =>
      have hMore := hStores.grows.size_le
      have hNew := Slots.next_new le_rfl hMore hRoom
      exact ((Using.alloc hAlloc (.inl hNew)).append
        ((ih hRoom).forget hNew (List.Subset.refl _) (by simp) le_rfl)).append
        (.localGet (.inl hNew))
  | store hInit hValue hRest ihValue ihRest =>
      have hMore := hRest.grows.size_le
      have hNames := initsAssigned_of_mem (List.mem_of_find?_eq_some hInit)
      refine ((Using.localGet (.inr (.inr List.mem_cons_self))).cons
        ((ihValue (hMore.trans hRoom)).among hNames le_rfl hMore)).append ((Using.none rfl).cons ?_)
      exact (ihRest hRoom).part (List.Subset.refl _) hValue.grows.size_le le_rfl

end RecordWasm.Lowering
