import RecordWasm.Syntax.Decode
import RecordWasm.Proofs.Syntax.Nodes

/-!
# The traversal of a program text

Decoding goes through a text from place to place.  Which places are parts of which depends on the
text alone, and so does what is wrong with a place.  `visits` lists the places that are gone
through, in order; a place comes before its parts, which are nested in the same value or in values
inside it.
-/

namespace RecordWasm.Syntax

open Json

/-- What is found where a node is looked for. -/
inductive Looked where
  | absent
  | malformed
  | node (value : Value)

def look (place : Option Value) : Looked :=
  match place with
  | none | some .null => .absent
  | some value => if (Node.fill value {}).isSome then .node value else .malformed

/-- The node of a value. -/
def nodeOf (value : Value) : Node := (Node.fill value {}).getD {}

/-- The kinds of nodes that are expressions. -/
def exprKinds : List String :=
  ["int", "float", "bool", "string", "char", "null", "ident", "binary", "unary", "call",
    "method_call", "if", "block", "match", "member", "struct", "enum_variant", "lambda", "cast",
    "try", "quote", "eval", "reflect", "macro", "list", "tuple"]

/-- No expression can be had from a place. -/
def Vacant (place : Option Value) : Prop :=
  match look place with
  | .absent | .malformed => True
  | .node value => (nodeOf value).kind ∉ exprKinds

/-- A place of a text in the role that it is decoded in, with the path that leads there. -/
inductive Place where
  | function (path : List String) (node : FuncNode)
  | stmt (path : List String) (value : Value)
  | body (path : List String) (place : Option Value)
  | expr (path : List String) (place : Option Value)
  | optional (path : List String) (place : Option Value)
  | block (path : List String) (place : Option Value)
  | pattern (path : List String) (place : Option Value)
  | exprNode (path : List String) (value : Value)
  /-- A block: an expression of that kind, or the consequent of a branch, whatever its kind is. -/
  | blockNode (path : List String) (value : Value)

/-- The report of something wrong. -/
def fault (path : List String) (pos : Position) (detail : String) : Report :=
  { phase := .decode, kind := .invalidData, path, pos, detail }

/-- The reports of a place that should hold a node. -/
def vacancies (path : List String) (place : Option Value) (detail : String) : List Report :=
  match look place with
  | .absent => [fault path {} detail]
  | .malformed => [fault path {} "malformed node", fault path {} detail]
  | .node _ => []

/-- The reports of a node that should be an expression. -/
def exprReports (path : List String) (node : Node) : List Report :=
  match node.kind with
  | "int" =>
      match Decimal.readInt 64 (written node.value) with
      | .ok _ => []
      | .error _ => [fault path node.pos s!"invalid int literal {written node.value}"]
  | "float" =>
      match Decimal.readDouble (written node.value) with
      | .ok _ => []
      | .error _ => [fault path node.pos s!"invalid float literal {written node.value}"]
  | "bool" =>
      match node.value with
      | some (.bool _) | some .null => []
      | _ => [fault path node.pos s!"invalid bool literal {written node.value}"]
  | kind =>
      if kind ∈ exprKinds then []
      else [fault path node.pos s!"unknown expression kind {Text.quoted kind}"]

/-- The kinds of nodes that are patterns. -/
def patternKinds : List String := ["literal", "wildcard", "bind", "constructor"]

/-- What is wrong with a place itself, whatever its parts are. -/
def Place.reports : Place → List Report
  | .function path node =>
      if node.name = "" then [fault path node.pos "function without a name"] else []
  | .stmt path value =>
      vacancies path (some value) "missing statement" ++
        match look (some value) with
        | .node value =>
            if (nodeOf value).kind = "" then
              [fault path (nodeOf value).pos "statement without kind"] else []
        | _ => []
  | .body path place =>
      match place with
      | none | some .null | some (.array _ _) => []
      | some _ => [fault path {} "body must be an array"]
  | .expr path place => vacancies path place "missing expression"
  | .optional path place =>
      match look place with
      | .malformed => [fault path {} "malformed node"]
      | _ => []
  | .block path place => vacancies path place "missing block"
  | .pattern path place =>
      let path := path ++ ["pattern"]
      vacancies path place "missing pattern" ++
        match look place with
        | .node value =>
            let node := nodeOf value
            if node.kind ∈ patternKinds then []
            else [fault path node.pos s!"unknown pattern kind {Text.quoted node.kind}"]
        | _ => []
  | .exprNode path value => exprReports path (nodeOf value)
  | .blockNode _ _ => []

/-- A block whose tail is there but is malformed or of an unknown kind.  Its type would be that of
the tail. -/
def Place.Breaks : Place → Prop
  | .blockNode _ value =>
      match look (nodeOf value).tail with
      | .absent => False
      | .malformed => True
      | .node tail => (nodeOf tail).kind ∉ exprKinds
  | _ => False

/-- The places of a list of parts, each told its number. -/
def numbered {α : Type} (items : List α) (places : Nat → α → List Place) : List Place :=
  items.zipIdx.flatMap fun (item, index) => places index item

def stmtPlaces (path : List String) (values : List Value) : List Place :=
  numbered values fun index value => [.stmt (path ++ [toString index]) value]

def exprPlaces (path : List String) (field : String) (values : List Value) : List Place :=
  numbered values fun index value => [.expr (path ++ [s!"{field}.{index}"]) (some value)]

/-- An expression that may be left out, but not be malformed. -/
def givenExpr (path : List String) (place : Option Value) : List Place :=
  if present place then [.expr path place] else []

/-- The statements of a loop; a body that is no array has none. -/
def bodyItems : Option Value → List Value
  | some (.array _ items) => items
  | _ => []

/-- The parts of a statement. -/
def stmtParts (path : List String) (value : Value) : List Place :=
  let node := nodeOf value
  match node.kind with
  | "let" => [.expr (path ++ ["value"]) node.value]
  | "assign" => [.expr (path ++ ["target"]) node.target, .expr (path ++ ["value"]) node.value]
  | "return" => givenExpr (path ++ ["value"]) node.value
  | "expr" => [.expr (path ++ ["expr"]) node.expr]
  | "while" => [.expr (path ++ ["cond"]) node.cond, .body path node.body]
  | "for" =>
      [.expr (path ++ ["start"]) node.start, .expr (path ++ ["end"]) node.stop,
        .body path node.body]
  | "loop" => [.body path node.body]
  | "break" | "continue" | "" => []
  | _ => [.exprNode path value]

/-- The parts of a node that is an expression. -/
def exprParts (path : List String) (value : Value) : List Place :=
  let node := nodeOf value
  match node.kind with
  | "int" | "float" | "bool" | "string" | "char" | "null" | "ident" | "enum_variant" | "reflect" =>
      []
  | "binary" => [.expr (path ++ ["left"]) node.left, .expr (path ++ ["right"]) node.right]
  | "unary" => [.expr (path ++ ["operand"]) node.operand]
  | "call" | "macro" => exprPlaces path "args" node.args
  | "method_call" =>
      .expr (path ++ ["receiver"]) node.receiver :: exprPlaces path "args" node.args
  | "if" =>
      .expr (path ++ ["cond"]) node.cond :: .block (path ++ ["then"]) node.consequent ::
        givenExpr (path ++ ["else"]) node.otherwise
  | "block" => [.blockNode path value]
  | "match" =>
      .expr (path ++ ["scrutinee"]) node.scrutinee :: numbered node.arms.items fun index arm =>
        let path := path ++ ["arms", toString index]
        [.pattern path arm.pattern, .expr (path ++ ["body"]) arm.body]
  | "member" => [.expr (path ++ ["object"]) node.object]
  | "struct" =>
      numbered node.fields.items fun _ field => [.expr (path ++ [field.name]) field.value]
  | "lambda" => [.optional path node.body]
  | "cast" | "try" => [.expr (path ++ ["expr"]) node.expr]
  | "quote" | "eval" => [.optional path node.expr]
  | "list" | "tuple" => exprPlaces path "elems" node.elems
  | _ => []

/-- The parts of a node that is a pattern. -/
def patternParts (path : List String) (value : Value) : List Place :=
  let node := nodeOf value
  match node.kind with
  | "literal" => [.expr (path ++ ["value"]) node.value]
  | "constructor" => numbered node.args fun _ value => [.pattern path (some value)]
  | _ => []

/-- The parts of a place, in the order in which they are decoded. -/
def Place.parts : Place → List Place
  | .function path node => stmtPlaces path node.body
  | .stmt path value =>
      match look (some value) with
      | .node value => stmtParts path value
      | _ => []
  | .body path place => stmtPlaces (path ++ ["body"]) (bodyItems place)
  | .expr path place =>
      match look place with
      | .node value => [.exprNode path value]
      | _ => []
  | .optional path place =>
      match look place with
      | .node _ => [.expr (path ++ ["expr"]) place]
      | _ => []
  | .block path place =>
      match look place with
      | .node value => [.blockNode path value]
      | _ => []
  | .pattern path place =>
      match look place with
      | .node value => patternParts (path ++ ["pattern"]) value
      | _ => []
  | .exprNode path value => exprParts path value
  | .blockNode path value =>
      stmtPlaces path (nodeOf value).stmts ++ givenExpr (path ++ ["tail"]) (nodeOf value).tail

/-! ## Parts are nested -/

def depthOf : Option Value → Nat
  | none => 0
  | some value => value.depth

/-- How far a place is from places without parts. -/
def Place.rank : Place → Nat
  | .function _ node => 4 * Value.depthOfItems node.body + 2
  | .stmt _ value => 4 * value.depth + 1
  | .optional _ place => 4 * depthOf place + 2
  | .body _ place | .expr _ place | .block _ place | .pattern _ place => 4 * depthOf place + 1
  | .exprNode _ value => 4 * value.depth
  | .blockNode _ value => 4 * value.depth - 1

theorem Shallow.depthOf_lt {bound : Nat} {place : Option Value} (hShallow : Shallow bound place)
    (hBound : 0 < bound) : depthOf place < bound := by
  cases place with
  | none => exact hBound
  | some value => exact hShallow value rfl

theorem within_nodeOf (value : Value) : (nodeOf value).Within value.depth := by
  rw [nodeOf]
  cases hFill : Node.fill value {} with
  | none => exact Node.within_blank
  | some node => exact Node.within_fill hFill

theorem present_iff {place : Option Value} : present place = true ↔ look place ≠ .absent := by
  cases place with
  | none => simp [present, look]
  | some value =>
      cases value with
      | null => simp [present, look]
      | _ =>
          simp only [present, look]
          split <;> simp

/-- A block breaks the decoder by a tail that no expression can be had from. -/
theorem breaks_iff {path : List String} {value : Value} :
    (Place.blockNode path value).Breaks ↔
      present (nodeOf value).tail = true ∧ Vacant (nodeOf value).tail := by
  rw [present_iff, Place.Breaks, Vacant]
  cases look (nodeOf value).tail <;> simp

theorem eq_of_look {place : Option Value} {value : Value} (hLook : look place = .node value) :
    place = some value := by
  unfold look at hLook
  split at hLook
  · cases hLook
  · cases hLook
  · split at hLook
    · cases hLook
      rfl
    · cases hLook

theorem depth_bodyItems {place : Option Value} {child : Value} (hChild : child ∈ bodyItems place) :
    child.depth < depthOf place := by
  unfold bodyItems at hChild
  split at hChild
  · rename_i spelling items
    exact @Value.depth_item_lt spelling items child hChild
  · cases hChild

theorem forall_numbered {α : Type} {items : List α} {places : Nat → α → List Place}
    {property : Place → Prop}
    (hItems : ∀ index, ∀ item ∈ items, ∀ part ∈ places index item, property part) :
    ∀ part ∈ numbered items places, property part := by
  intro part hPart
  obtain ⟨⟨item, index⟩, hItem, hPart⟩ := List.mem_flatMap.1 hPart
  exact hItems index item (List.fst_mem_of_mem_zipIdx hItem) part hPart

theorem forall_pair {property : Place → Prop} {first second : Place} (hFirst : property first)
    (hSecond : property second) : ∀ part ∈ [first, second], property part :=
  List.forall_mem_cons.2 ⟨hFirst, List.forall_mem_singleton.2 hSecond⟩

/-- A place inside a value, apart from the value's own node. -/
def Inside (value : Value) (part : Place) : Prop := part.rank + 1 < 4 * value.depth

section Inside

variable {path : List String} {place : Option Value} {value : Value}

theorem inside_expr (hShallow : Shallow value.depth place) : Inside value (.expr path place) := by
  have := hShallow.depthOf_lt value.depth_pos
  simp only [Inside, Place.rank]
  omega

theorem inside_body (hShallow : Shallow value.depth place) : Inside value (.body path place) :=
  @inside_expr path place value hShallow

theorem inside_block (hShallow : Shallow value.depth place) : Inside value (.block path place) :=
  @inside_expr path place value hShallow

theorem inside_pattern (hShallow : Shallow value.depth place) :
    Inside value (.pattern path place) :=
  @inside_expr path place value hShallow

theorem inside_optional (hShallow : Shallow value.depth place) :
    Inside value (.optional path place) := by
  have := hShallow.depthOf_lt value.depth_pos
  simp only [Inside, Place.rank]
  omega

theorem inside_stmtPlaces {values : List Value}
    (hValues : ∀ child ∈ values, child.depth < value.depth) :
    ∀ part ∈ stmtPlaces path values, Inside value part := by
  refine forall_numbered fun index child hChild => List.forall_mem_singleton.2 ?_
  have := hValues child hChild
  simp only [Inside, Place.rank]
  omega

theorem inside_exprPlaces {field : String} {values : List Value}
    (hValues : ∀ child ∈ values, child.depth < value.depth) :
    ∀ part ∈ exprPlaces path field values, Inside value part :=
  forall_numbered fun _ child hChild =>
    List.forall_mem_singleton.2 (inside_expr (shallow_some (hValues child hChild)))

theorem inside_givenExpr (hShallow : Shallow value.depth place) :
    ∀ part ∈ givenExpr path place, Inside value part := by
  rw [givenExpr]
  split
  · exact List.forall_mem_singleton.2 (inside_expr hShallow)
  · exact List.forall_mem_nil _

theorem inside_stmtParts :
    ∀ part ∈ stmtParts path value, Inside value part ∨ part = .exprNode path value := by
  have hWithin := within_nodeOf value
  have hBody : Inside value (.body path (nodeOf value).body) := inside_body hWithin.body
  rw [stmtParts]
  split
  case h_1 => exact List.forall_mem_singleton.2 (.inl (inside_expr hWithin.value))
  case h_2 =>
      exact forall_pair (.inl (inside_expr hWithin.target)) (.inl (inside_expr hWithin.value))
  case h_3 => exact fun part hPart => .inl (inside_givenExpr hWithin.value part hPart)
  case h_4 => exact List.forall_mem_singleton.2 (.inl (inside_expr hWithin.expr))
  case h_5 => exact forall_pair (.inl (inside_expr hWithin.cond)) (.inl hBody)
  case h_6 =>
      exact List.forall_mem_cons.2 ⟨.inl (inside_expr hWithin.start),
        forall_pair (.inl (inside_expr hWithin.stop)) (.inl hBody)⟩
  case h_7 => exact List.forall_mem_singleton.2 (.inl hBody)
  case h_8 | h_9 | h_10 => exact List.forall_mem_nil _
  case h_11 => exact List.forall_mem_singleton.2 (.inr rfl)

theorem inside_exprParts :
    ∀ part ∈ exprParts path value, Inside value part ∨ part = .blockNode path value := by
  have hWithin := within_nodeOf value
  have hArgs : ∀ part ∈ exprPlaces path "args" (nodeOf value).args,
      Inside value part ∨ part = .blockNode path value :=
    fun part hPart => .inl (inside_exprPlaces hWithin.args part hPart)
  have hElems : ∀ part ∈ exprPlaces path "elems" (nodeOf value).elems,
      Inside value part ∨ part = .blockNode path value :=
    fun part hPart => .inl (inside_exprPlaces hWithin.elems part hPart)
  rw [exprParts]
  split
  case h_10 =>
      exact forall_pair (.inl (inside_expr hWithin.left)) (.inl (inside_expr hWithin.right))
  case h_11 => exact List.forall_mem_singleton.2 (.inl (inside_expr hWithin.operand))
  case h_12 | h_13 => exact hArgs
  case h_14 => exact List.forall_mem_cons.2 ⟨.inl (inside_expr hWithin.receiver), hArgs⟩
  case h_15 =>
      refine List.forall_mem_cons.2 ⟨.inl (inside_expr hWithin.cond),
        List.forall_mem_cons.2 ⟨?_, ?_⟩⟩
      · exact .inl (inside_block hWithin.consequent)
      · exact fun part hPart => .inl (inside_givenExpr hWithin.otherwise part hPart)
  case h_16 => exact List.forall_mem_singleton.2 (.inr rfl)
  case h_17 =>
      refine List.forall_mem_cons.2 ⟨.inl (inside_expr hWithin.scrutinee), forall_numbered ?_⟩
      intro index arm hArm
      have hArm := hWithin.arms arm (List.mem_append_left _ hArm)
      exact forall_pair (.inl (inside_pattern hArm.pattern)) (.inl (inside_expr hArm.body))
  case h_18 => exact List.forall_mem_singleton.2 (.inl (inside_expr hWithin.object))
  case h_19 =>
      refine forall_numbered fun _ field hField => List.forall_mem_singleton.2 (.inl ?_)
      exact inside_expr (hWithin.fields field (List.mem_append_left _ hField)).value
  case h_20 => exact List.forall_mem_singleton.2 (.inl (inside_optional hWithin.body))
  case h_21 | h_22 => exact List.forall_mem_singleton.2 (.inl (inside_expr hWithin.expr))
  case h_23 | h_24 => exact List.forall_mem_singleton.2 (.inl (inside_optional hWithin.expr))
  case h_25 | h_26 => exact hElems
  case h_27 => exact List.forall_mem_nil _
  all_goals exact List.forall_mem_nil _

theorem inside_patternParts : ∀ part ∈ patternParts path value, Inside value part := by
  have hWithin := within_nodeOf value
  rw [patternParts]
  split
  case h_1 => exact List.forall_mem_singleton.2 (inside_expr hWithin.value)
  case h_2 =>
      refine forall_numbered fun _ child hChild => List.forall_mem_singleton.2 ?_
      exact inside_pattern (shallow_some (hWithin.args child hChild))
  case h_3 => exact List.forall_mem_nil _

end Inside

/-- The parts of a place are nested in it. -/
theorem Place.rank_parts (place : Place) : ∀ part ∈ place.parts, part.rank < place.rank := by
  have hNested {value : Value} {part : Place} (hInside : Inside value part) {rank : Nat}
      (hRank : 4 * value.depth - 1 ≤ rank) : part.rank < rank := by
    rw [Inside] at hInside
    omega
  cases place with
  | function path node =>
      rw [Place.parts, stmtPlaces]
      refine forall_numbered fun index child hChild => List.forall_mem_singleton.2 ?_
      have := Value.depth_le_items hChild
      simp only [Place.rank]
      omega
  | stmt path value =>
      intro part hPart
      rw [Place.parts] at hPart
      split at hPart
      · rename_i found hLook
        cases eq_of_look hLook
        rcases inside_stmtParts part hPart with hInside | rfl
        · exact hNested hInside (by simp only [Place.rank]; omega)
        · simp only [Place.rank]
          omega
      · cases hPart
  | body path place =>
      rw [Place.parts, stmtPlaces]
      refine forall_numbered fun index child hChild => List.forall_mem_singleton.2 ?_
      have := depth_bodyItems hChild
      simp only [Place.rank]
      omega
  | expr path place | block path place =>
      intro part hPart
      rw [Place.parts] at hPart
      split at hPart
      · rename_i found hLook
        cases eq_of_look hLook
        cases List.mem_singleton.1 hPart
        simp only [Place.rank, depthOf]
        omega
      · cases hPart
  | optional path place =>
      intro part hPart
      rw [Place.parts] at hPart
      split at hPart
      · cases List.mem_singleton.1 hPart
        simp only [Place.rank]
        omega
      · cases hPart
  | pattern path place =>
      intro part hPart
      rw [Place.parts] at hPart
      split at hPart
      · rename_i found hLook
        cases eq_of_look hLook
        exact hNested (inside_patternParts part hPart) (by simp only [Place.rank, depthOf]; omega)
      · cases hPart
  | exprNode path value =>
      intro part hPart
      have := value.depth_pos
      rcases inside_exprParts part hPart with hInside | rfl
      · exact hNested hInside (by simp only [Place.rank]; omega)
      · simp only [Place.rank]
        omega
  | blockNode path value =>
      intro part hPart
      have hWithin := within_nodeOf value
      rcases List.mem_append.1 hPart with hStmts | hTail
      · exact hNested (inside_stmtPlaces hWithin.stmts part hStmts) (Nat.le_refl _)
      · exact hNested (inside_givenExpr hWithin.tail part hTail) (Nat.le_refl _)

/-- The places that decoding goes through from a place on, in order. -/
def Place.visits (place : Place) : List Place :=
  place :: place.parts.attach.flatMap fun part => part.1.visits
termination_by place.rank
decreasing_by exact place.rank_parts part.1 part.2

theorem Place.visits_eq (place : Place) :
    place.visits = place :: place.parts.flatMap Place.visits := by
  conv_rhs => rw [← place.parts.attach_map_subtype_val, List.flatMap_map]
  rw [Place.visits]

end RecordWasm.Syntax
