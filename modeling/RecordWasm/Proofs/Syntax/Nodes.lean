import RecordWasm.Syntax.Node
import Mathlib.Order.Basic
import Mathlib.Tactic.Common

/-!
# Parts of nodes

What is read from a value is made of values that are nested in it.  Reading a member keeps this,
also where a repeated member is read over an earlier one, so that it holds of whole nodes.
-/

namespace RecordWasm

open Json

theorem Json.Value.depth_le_items {items : List Value} {item : Value} (hItem : item ∈ items) :
    item.depth ≤ Value.depthOfItems items := by
  induction items with
  | nil => cases hItem
  | cons first rest ih =>
      rw [Value.depthOfItems]
      cases hItem with
      | head => exact Nat.le_max_left _ _
      | tail _ hRest => exact Nat.le_trans (ih hRest) (Nat.le_max_right _ _)

theorem Json.Value.depth_le_members {members : List (String × Value)} {entry : String × Value}
    (hEntry : entry ∈ members) : entry.2.depth ≤ Value.depthOfMembers members := by
  induction members with
  | nil => cases hEntry
  | cons first rest ih =>
      rw [Value.depthOfMembers]
      cases hEntry with
      | head => exact Nat.le_max_left _ _
      | tail _ hRest => exact Nat.le_trans (ih hRest) (Nat.le_max_right _ _)

theorem Json.Value.depth_pos (value : Value) : 0 < value.depth := by
  cases value <;> simp [Value.depth]

/-- An item of an array is nested in it. -/
theorem Json.Value.depth_item_lt {spelling : Spelling} {items : List Value} {item : Value}
    (hItem : item ∈ items) : item.depth < (Value.array spelling items).depth := by
  rw [Value.depth]
  exact Nat.lt_succ_of_le (Value.depth_le_items hItem)

/-- A member of an object is nested in it. -/
theorem Json.Value.depth_member_lt {spelling : Spelling} {members : List (String × Value)}
    {entry : String × Value} (hEntry : entry ∈ members) :
    entry.2.depth < (Value.object spelling members).depth := by
  rw [Value.depth]
  exact Nat.lt_succ_of_le (Value.depth_le_members hEntry)

namespace Json.Fill

variable {α : Type} {property : α → Prop} {value : Value}

/-- What the members of an object keep holds of what is read from it. -/
theorem object_keeps {member : String → Fill α} {before after : α}
    (hMember : ∀ key child before after, child.depth < value.depth → property before →
      member key child before = some after → property after)
    (hBefore : property before) (hFill : object member value before = some after) :
    property after := by
  cases value with
  | null =>
      cases hFill
      exact hBefore
  | object spelling members =>
      have hNested : ∀ entry ∈ members, entry.2.depth < (Value.object spelling members).depth :=
        fun _ hEntry => Value.depth_member_lt hEntry
      rw [object] at hFill
      generalize (Value.object spelling members).depth = bound at hMember hNested
      induction members generalizing before with
      | nil =>
          cases hFill
          exact hBefore
      | cons entry rest ih =>
          rw [List.foldlM_cons, Option.bind_eq_bind, Option.bind_eq_some_iff] at hFill
          obtain ⟨middle, hEntry, hRest⟩ := hFill
          rw [List.forall_mem_cons] at hNested
          exact ih (hMember _ entry.2 _ _ hNested.1 hBefore hEntry) hRest hNested.2
  | _ => cases hFill

theorem itemsOver_keeps {item : Fill α} {blank : α} {values : List Value} {places after : List α}
    (hBlank : property blank)
    (hItem : ∀ child ∈ values, ∀ before after, property before →
      item child before = some after → property after)
    (hPlaces : ∀ place ∈ places, property place)
    (hFill : itemsOver item blank values places = some after) :
    ∀ place ∈ after, property place := by
  induction values generalizing places after with
  | nil =>
      cases hFill
      exact List.forall_mem_nil _
  | cons child values ih =>
      rw [List.forall_mem_cons] at hItem
      cases places with
      | nil =>
          simp only [itemsOver, bind, Option.bind_eq_some_iff, pure, Option.some.injEq] at hFill
          obtain ⟨first, hChild, rest, hValues, rfl⟩ := hFill
          rw [List.forall_mem_cons]
          exact ⟨hItem.1 _ _ hBlank hChild, ih hItem.2 hPlaces hValues⟩
      | cons old places =>
          rw [List.forall_mem_cons] at hPlaces
          simp only [itemsOver, bind, Option.bind_eq_some_iff, pure, Option.some.injEq] at hFill
          obtain ⟨first, hChild, rest, hValues, rfl⟩ := hFill
          rw [List.forall_mem_cons]
          exact ⟨hItem.1 _ _ hPlaces.1 hChild, ih hItem.2 hPlaces.2 hValues⟩

end Json.Fill

/-- What holds of all items of a list, also of those behind it. -/
def Json.Reread.All {α : Type} (property : α → Prop) (list : Reread α) : Prop :=
  ∀ place ∈ list.items ++ list.spare, property place

namespace Json.Fill

variable {α : Type} {property : α → Prop} {value : Value}

/-- What the items of a list keep holds of all items that are read. -/
theorem list_keeps {item : Fill α} {blank : α} {before after : Reread α} (hBlank : property blank)
    (hItem : ∀ child before after, child.depth < value.depth → property before →
      item child before = some after → property after)
    (hBefore : before.All property) (hFill : list item blank value before = some after) :
    after.All property := by
  unfold list at hFill
  split at hFill
  · cases hFill
    exact List.forall_mem_nil _
  · cases hFill
    exact List.forall_mem_nil _
  · simp only [bind, Option.bind_eq_some_iff, pure, Option.some.injEq] at hFill
    obtain ⟨items, hItems, rfl⟩ := hFill
    intro place hPlace
    rcases List.mem_append.1 hPlace with hRead | hSpare
    · exact itemsOver_keeps hBlank
        (fun child hChild before after => hItem child before after (Value.depth_item_lt hChild))
        hBefore hItems place hRead
    · exact hBefore place (List.mem_of_mem_drop hSpare)
  · cases hFill

theorem values_depth {before after : List Value} (hFill : values value before = some after) :
    ∀ child ∈ after, child.depth < value.depth := by
  unfold values at hFill
  split at hFill
  · cases hFill
    exact List.forall_mem_nil _
  · cases hFill
    exact fun child hChild => Value.depth_item_lt hChild
  · cases hFill

end Json.Fill

namespace Syntax

/-! ## What nodes are made of -/

/-- A place holds nothing as deep as a bound. -/
def Shallow (bound : Nat) (place : Option Value) : Prop := ∀ value ∈ place, value.depth < bound

structure ArmNode.Within (bound : Nat) (node : ArmNode) : Prop where
  pattern : Shallow bound node.pattern
  body : Shallow bound node.body

structure FieldInitNode.Within (bound : Nat) (node : FieldInitNode) : Prop where
  value : Shallow bound node.value

structure Node.Within (bound : Nat) (node : Node) : Prop where
  value : Shallow bound node.value
  target : Shallow bound node.target
  expr : Shallow bound node.expr
  cond : Shallow bound node.cond
  body : Shallow bound node.body
  consequent : Shallow bound node.consequent
  otherwise : Shallow bound node.otherwise
  start : Shallow bound node.start
  stop : Shallow bound node.stop
  left : Shallow bound node.left
  right : Shallow bound node.right
  operand : Shallow bound node.operand
  args : ∀ value ∈ node.args, value.depth < bound
  receiver : Shallow bound node.receiver
  stmts : ∀ value ∈ node.stmts, value.depth < bound
  tail : Shallow bound node.tail
  scrutinee : Shallow bound node.scrutinee
  arms : node.arms.All (ArmNode.Within bound)
  object : Shallow bound node.object
  fields : node.fields.All (FieldInitNode.Within bound)
  elems : ∀ value ∈ node.elems, value.depth < bound

structure FuncNode.Within (bound : Nat) (node : FuncNode) : Prop where
  body : ∀ value ∈ node.body, value.depth < bound

structure RecordNode.Within (bound : Nat) (node : RecordNode) : Prop where
  methods : node.methods.All (FuncNode.Within bound)

structure ProgramNode.Within (bound : Nat) (node : ProgramNode) : Prop where
  records : node.records.All (RecordNode.Within bound)
  functions : node.functions.All (FuncNode.Within bound)

variable {bound : Nat} {value : Value}

theorem shallow_none : Shallow bound none := nofun

theorem shallow_some (hValue : value.depth < bound) : Shallow bound (some value) := by
  rintro _ ⟨⟩
  exact hValue

theorem ArmNode.within_fill {before after : ArmNode} (hValue : value.depth ≤ bound)
    (hBefore : before.Within bound) (hFill : ArmNode.fill value before = some after) :
    after.Within bound := by
  refine Fill.object_keeps ?_ hBefore hFill
  intro key child before after hChild hBefore hMember
  have hShallow := shallow_some (Nat.lt_of_lt_of_le hChild hValue)
  split at hMember
  · cases hMember
    exact { hBefore with pattern := hShallow }
  · cases hMember
    exact { hBefore with body := hShallow }
  · obtain ⟨pos, -, rfl⟩ := Option.map_eq_some_iff.1 hMember
    exact { hBefore with }

theorem FieldInitNode.within_fill {before after : FieldInitNode} (hValue : value.depth ≤ bound)
    (hBefore : before.Within bound) (hFill : FieldInitNode.fill value before = some after) :
    after.Within bound := by
  refine Fill.object_keeps ?_ hBefore hFill
  intro key child before after hChild hBefore hMember
  split at hMember
  · obtain ⟨name, -, rfl⟩ := Option.map_eq_some_iff.1 hMember
    exact { hBefore with }
  · cases hMember
    exact { hBefore with value := shallow_some (Nat.lt_of_lt_of_le hChild hValue) }
  · obtain ⟨pos, -, rfl⟩ := Option.map_eq_some_iff.1 hMember
    exact { hBefore with }

theorem Node.within_fillText {key : String} {before after : Node} (hBefore : before.Within bound)
    (hFill : before.fillText key value = some after) : after.Within bound := by
  unfold Node.fillText at hFill
  split at hFill <;>
    · obtain ⟨_, -, rfl⟩ := Option.map_eq_some_iff.1 hFill
      exact { hBefore with }

theorem Node.within_fillList {key : String} {before after : Node} (hValue : value.depth ≤ bound)
    (hBefore : before.Within bound) (hFill : before.fillList key value = some after) :
    after.Within bound := by
  have hValues {old values : List Value} (hRead : Fill.values value old = some values) :
      ∀ child ∈ values, child.depth < bound :=
    fun child hChild => Nat.lt_of_lt_of_le (Fill.values_depth hRead child hChild) hValue
  unfold Node.fillList at hFill
  split at hFill
  · obtain ⟨args, hRead, rfl⟩ := Option.map_eq_some_iff.1 hFill
    exact { hBefore with args := hValues hRead }
  · obtain ⟨stmts, hRead, rfl⟩ := Option.map_eq_some_iff.1 hFill
    exact { hBefore with stmts := hValues hRead }
  · obtain ⟨elems, hRead, rfl⟩ := Option.map_eq_some_iff.1 hFill
    exact { hBefore with elems := hValues hRead }
  · obtain ⟨arms, hRead, rfl⟩ := Option.map_eq_some_iff.1 hFill
    refine { hBefore with
      arms := Fill.list_keeps ⟨shallow_none, shallow_none⟩ ?_ hBefore.arms hRead }
    intro child before after hChild
    exact ArmNode.within_fill (Nat.le_trans (Nat.le_of_lt hChild) hValue)
  · obtain ⟨fields, hRead, rfl⟩ := Option.map_eq_some_iff.1 hFill
    refine { hBefore with fields := Fill.list_keeps ⟨shallow_none⟩ ?_ hBefore.fields hRead }
    intro child before after hChild
    exact FieldInitNode.within_fill (Nat.le_trans (Nat.le_of_lt hChild) hValue)
  · obtain ⟨params, -, rfl⟩ := Option.map_eq_some_iff.1 hFill
    exact { hBefore with }
  · exact Node.within_fillText hBefore hFill

theorem Node.within_fillMember {key : String} {before after : Node} (hValue : value.depth < bound)
    (hBefore : before.Within bound) (hFill : before.fillMember key value = some after) :
    after.Within bound := by
  have hShallow := shallow_some hValue
  unfold Node.fillMember at hFill
  split at hFill
  · cases hFill; exact { hBefore with value := hShallow }
  · cases hFill; exact { hBefore with target := hShallow }
  · cases hFill; exact { hBefore with expr := hShallow }
  · cases hFill; exact { hBefore with cond := hShallow }
  · cases hFill; exact { hBefore with consequent := hShallow }
  · cases hFill; exact { hBefore with otherwise := hShallow }
  · cases hFill; exact { hBefore with body := hShallow }
  · cases hFill; exact { hBefore with start := hShallow }
  · cases hFill; exact { hBefore with stop := hShallow }
  · cases hFill; exact { hBefore with left := hShallow }
  · cases hFill; exact { hBefore with right := hShallow }
  · cases hFill; exact { hBefore with operand := hShallow }
  · cases hFill; exact { hBefore with receiver := hShallow }
  · cases hFill; exact { hBefore with tail := hShallow }
  · cases hFill; exact { hBefore with scrutinee := hShallow }
  · cases hFill; exact { hBefore with object := hShallow }
  · exact Node.within_fillList (Nat.le_of_lt hValue) hBefore hFill

theorem Node.within_blank : Node.Within bound {} := by
  constructor
  case arms | fields => exact List.forall_mem_nil _
  case args | stmts | elems => exact List.forall_mem_nil _
  all_goals exact shallow_none

/-- A node is made of values that are nested in the one it was read from. -/
theorem Node.within_fill {node : Node} (hFill : Node.fill value {} = some node) :
    node.Within value.depth := by
  refine Fill.object_keeps ?_ Node.within_blank hFill
  intro key child before after hChild
  exact Node.within_fillMember hChild

theorem FuncNode.within_fill {before after : FuncNode} (hValue : value.depth ≤ bound)
    (hBefore : before.Within bound) (hFill : FuncNode.fill value before = some after) :
    after.Within bound := by
  refine Fill.object_keeps ?_ hBefore hFill
  intro key child before after hChild hBefore hMember
  split at hMember <;> obtain ⟨_, hRead, rfl⟩ := Option.map_eq_some_iff.1 hMember
  case h_4 =>
      have hDepth := Nat.le_trans (Nat.le_of_lt hChild) hValue
      exact ⟨fun item hItem => Nat.lt_of_lt_of_le (Fill.values_depth hRead item hItem) hDepth⟩
  all_goals exact { hBefore with }

/-- Functions that are read as a list over others. -/
theorem FuncNode.within_fillList {before after : Reread FuncNode} (hValue : value.depth ≤ bound)
    (hBefore : before.All (FuncNode.Within bound))
    (hFill : Fill.list FuncNode.fill {} value before = some after) :
    after.All (FuncNode.Within bound) := by
  refine Fill.list_keeps ⟨List.forall_mem_nil _⟩ ?_ hBefore hFill
  intro child before after hChild
  exact FuncNode.within_fill (Nat.le_trans (Nat.le_of_lt hChild) hValue)

theorem RecordNode.within_fill {before after : RecordNode} (hValue : value.depth ≤ bound)
    (hBefore : before.Within bound) (hFill : RecordNode.fill value before = some after) :
    after.Within bound := by
  refine Fill.object_keeps ?_ hBefore hFill
  intro key child before after hChild hBefore hMember
  split at hMember <;> obtain ⟨_, hRead, rfl⟩ := Option.map_eq_some_iff.1 hMember
  case h_4 =>
      have hDepth := Nat.le_trans (Nat.le_of_lt hChild) hValue
      exact ⟨FuncNode.within_fillList hDepth hBefore.methods hRead⟩
  all_goals exact { hBefore with }

/-- The functions and methods of a program are made of values that are nested in its text. -/
theorem ProgramNode.within_fill {node : ProgramNode}
    (hFill : ProgramNode.fill value {} = some node) :
    node.Within value.depth := by
  have hBlank : ProgramNode.Within value.depth {} := ⟨List.forall_mem_nil _, List.forall_mem_nil _⟩
  refine Fill.object_keeps ?_ hBlank hFill
  intro key child before after hChild hBefore hMember
  have hDepth := Nat.le_of_lt hChild
  split at hMember
  case h_2 =>
      obtain ⟨records, hRead, rfl⟩ := Option.map_eq_some_iff.1 hMember
      have hBlank : RecordNode.Within value.depth {} := ⟨List.forall_mem_nil _⟩
      refine { hBefore with records := Fill.list_keeps hBlank ?_ hBefore.records hRead }
      intro item before after hItem
      exact RecordNode.within_fill (Nat.le_trans (Nat.le_of_lt hItem) hDepth)
  case h_5 =>
      obtain ⟨functions, hRead, rfl⟩ := Option.map_eq_some_iff.1 hMember
      exact { hBefore with functions := FuncNode.within_fillList hDepth hBefore.functions hRead }
  case h_6 =>
      cases hMember
      exact hBefore
  all_goals
    obtain ⟨_, -, rfl⟩ := Option.map_eq_some_iff.1 hMember
    exact { hBefore with }

end Syntax

end RecordWasm
