import RecordWasm.Proofs.Syntax.Complete
import RecordWasm.Proofs.Syntax.Pieces

/-!
# Decoding follows the traversal

Each kind of place is decoded by a function of its own, which looks for a node and decodes the parts
that its kind calls for.  With fuel for a place there is fuel for its parts, so that one step for
each kind of place shows that decoding goes through all that the traversal visits, whatever the
nesting.
-/

namespace RecordWasm.Syntax

open Json

variable {α β : Type}

section Looking

variable {path : List String} {place : Option Value} {value : Value} {next : Option Node → Decode α}

theorem readNode_eq : readNode path place =
    match look place with
    | .absent => pure none
    | .malformed => do
        fail path {} "malformed node"
        return none
    | .node value => pure (some (nodeOf value)) := by
  unfold readNode look
  split
  · rfl
  · rfl
  · rename_i value _
    cases hFill : Node.fill value {} <;> simp [nodeOf, hFill]

theorem readNode_bind (hLook : look place = .node value) :
    readNode path place >>= next = next (some (nodeOf value)) := by
  rw [readNode_eq, hLook]
  rfl

/-- Where no node is found, what is missing is reported, behind what is malformed. -/
theorem runs_vacant {good : α → Prop} {detail : String} {missing : α}
    (hVacant : ∀ value, look place ≠ .node value)
    (hNone : next none = (do fail path {} detail; pure missing)) :
    Runs False (vacancies path place detail) good (readNode path place >>= next) := by
  rw [readNode_eq, vacancies]
  cases hLook : look place with
  | absent =>
      change Runs _ _ _ (next none)
      rw [hNone]
      exact runs_fail (runs_pure trivial)
  | malformed =>
      change Runs _ _ _ (do fail path {} "malformed node"; next none)
      rw [hNone]
      exact runs_fail (runs_fail (runs_pure trivial))
  | node value => exact absurd hLook (hVacant value)

/-- A place that should hold a node. -/
theorem follows_look {self : Place} {good : α → Prop} {detail : String} {missing : α}
    (hBreaks : ¬self.Breaks)
    (hVacant : (∀ value, look place ≠ .node value) →
      self.parts = [] ∧ self.reports = vacancies path place detail)
    (hNone : next none = (do fail path {} detail; pure missing))
    (hNode : ∀ value, look place = .node value → Follows [self] good (next (some (nodeOf value)))) :
    Follows [self] good (readNode path place >>= next) := by
  by_cases hFound : ∃ value, look place = .node value
  · obtain ⟨value, hLook⟩ := hFound
    rw [readNode_bind hLook]
    exact hNode value hLook
  · have hNot : ∀ value, look place ≠ .node value := fun value hLook => hFound ⟨value, hLook⟩
    obtain ⟨hParts, hReports⟩ := hVacant hNot
    refine follows_leaf hBreaks hParts ?_
    rw [hReports]
    exact runs_vacant hNot hNone

end Looking

/-- What holds of everything that a piece of decoding gives. -/
def Yields (property : α → Prop) (decode : Decode α) : Prop :=
  ∀ first value last, decode first = .ok (value, last) → property value

theorem yields_pure {property : α → Prop} {value : α} (hValue : property value) :
    Yields property (pure value) := by
  rintro first _ last ⟨⟩
  exact hValue

theorem yields_bind {property : β → Prop} {decode : Decode α} {next : α → Decode β}
    (hNext : ∀ value, Yields property (next value)) : Yields property (decode >>= next) := by
  intro first result last hRun
  have hBind : (decode >>= next) first = decode first >>= fun found => next found.1 found.2 := rfl
  rw [hBind] at hRun
  cases hDecode : decode first with
  | error crash =>
      rw [hDecode] at hRun
      cases hRun
  | ok found =>
      rw [hDecode] at hRun
      exact hNext found.1 found.2 result last hRun

theorem yields_throw {property : α → Prop} : Yields property (throw .untypedTail) := by
  intro first value last hThrow
  cases hThrow

theorem yields_blockNode {fuel : Nat} {path : List String} {node : Node} :
    Yields (fun expr => expr.isMissing = false) (decodeBlockNode (fuel + 1) path node) := by
  rw [decodeBlockNode]
  refine yields_bind fun stmts => ?_
  split
  · refine yields_bind fun tail => ?_
    split
    · exact yields_throw
    · exact yields_pure rfl
  · exact yields_pure rfl

/-- A node of a known kind is decoded to something. -/
theorem yields_known {fuel : Nat} {path : List String} {node : Node}
    (hKnown : node.kind ∈ exprKinds) :
    Yields (fun expr => expr.isMissing = false) (decodeExprNode (fuel + 2) path node) := by
  rw [decodeExprNode]
  split
  case h_1 =>
      rw [decodeInt]
      split
      · exact yields_pure rfl
      · exact yields_bind fun _ => yields_pure rfl
  case h_2 =>
      rw [decodeFloat]
      split
      · exact yields_pure rfl
      · exact yields_bind fun _ => yields_pure rfl
  case h_3 =>
      rw [decodeBool]
      split
      · exact yields_pure rfl
      · exact yields_pure rfl
      · exact yields_bind fun _ => yields_pure rfl
  case h_12 =>
      refine yields_bind fun _ => yields_bind fun _ => ?_
      split
      · exact yields_bind fun _ => yields_pure rfl
      · exact yields_pure rfl
  case h_13 => exact yields_blockNode
  case h_27 =>
      simp only [exprKinds, List.mem_cons, List.not_mem_nil, or_false] at hKnown
      simp_all
  -- the other kinds end with their own constructor, behind none, one or two parts
  all_goals
    first
      | exact yields_pure rfl
      | exact yields_bind fun _ => yields_pure rfl
      | exact yields_bind fun _ => yields_bind fun _ => yields_pure rfl

/-- A node of another kind is reported. -/
theorem decodeExprNode_unknown {fuel : Nat} {path : List String} {node : Node}
    (hUnknown : node.kind ∉ exprKinds) :
    decodeExprNode (fuel + 1) path node = (do
      fail path node.pos s!"unknown expression kind {Text.quoted node.kind}"
      return .missing) := by
  rw [decodeExprNode]
  split
  case h_27 => rfl
  all_goals
    rename_i hKind
    refine absurd ?_ hUnknown
    rw [hKind]
    decide

theorem exprParts_unknown {path : List String} {value : Value}
    (hUnknown : (nodeOf value).kind ∉ exprKinds) : exprParts path value = [] := by
  rw [exprParts]
  split
  case h_27 => rfl
  all_goals
    rename_i hKind
    refine absurd ?_ hUnknown
    rw [hKind]
    decide

theorem exprReports_unknown {path : List String} {node : Node} (hUnknown : node.kind ∉ exprKinds) :
    exprReports path node =
      [fault path node.pos s!"unknown expression kind {Text.quoted node.kind}"] := by
  rw [exprReports]
  split
  case h_4 => exact if_neg hUnknown
  all_goals
    rename_i hKind
    refine absurd ?_ hUnknown
    rw [hKind]
    decide

/-- An expression is missing exactly if none can be had from its place. -/
theorem yields_expr {fuel : Nat} {path : List String} {place : Option Value} :
    Yields (fun expr => expr.isMissing = true ↔ Vacant place)
      (decodeExpr (fuel + 3) path place) := by
  rw [decodeExpr, readNode_eq, Vacant]
  cases hLook : look place with
  | absent =>
      change Yields _ (do fail path {} "missing expression"; pure Expr.missing)
      exact yields_bind fun _ => yields_pure (iff_of_true rfl trivial)
  | malformed =>
      change Yields _ (do
        fail path {} "malformed node"
        fail path {} "missing expression"
        pure Expr.missing)
      exact yields_bind fun _ => yields_bind fun _ => yields_pure (iff_of_true rfl trivial)
  | node value =>
      change Yields _ (decodeExprNode (fuel + 2) path (nodeOf value))
      by_cases hKnown : (nodeOf value).kind ∈ exprKinds
      · intro first expr last hRun
        have := yields_known hKnown first expr last hRun
        simp [this, hKnown]
      · intro first expr last hRun
        rw [decodeExprNode_unknown hKnown] at hRun
        cases hRun
        exact iff_of_true rfl hKnown

/-! ## One step for every kind of place -/

theorem depthOf_pos {place : Option Value} (hPresent : present place = true) :
    0 < depthOf place := by
  cases place with
  | none => cases hPresent
  | some value => exact value.depth_pos

theorem Place.rank_pos (place : Place) : 0 < place.rank := by
  cases place with
  | exprNode path value | blockNode path value =>
      have := value.depth_pos
      simp only [Place.rank]
      omega
  | _ =>
      simp only [Place.rank]
      omega

/-- Fuel for a place suffices for its parts. -/
theorem Place.rank_le {place : Place} {fuel : Nat} (hRank : place.rank ≤ fuel + 1) :
    ∀ part ∈ place.parts, part.rank ≤ fuel :=
  fun part hPart => Nat.le_of_lt_succ (Nat.lt_of_lt_of_le (place.rank_parts part hPart) hRank)

/-- Decoding with some fuel follows all places that the fuel suffices for. -/
structure Decodes (fuel : Nat) : Prop where
  stmt : ∀ path value, (Place.stmt path value).rank ≤ fuel →
    Follows [.stmt path value] Stmt.Complete (decodeStmt fuel path value)
  body : ∀ path place, (Place.body path place).rank ≤ fuel →
    Follows [.body path place] (fun stmts => ∀ stmt ∈ stmts, stmt.Complete)
      (decodeBody fuel path place)
  expr : ∀ path place, (Place.expr path place).rank ≤ fuel →
    Follows [.expr path place] Expr.Complete (decodeExpr fuel path place)
  optional : ∀ path place, (Place.optional path place).rank ≤ fuel →
    Follows [.optional path place] (fun expr => expr ≠ .missing → expr.Complete)
      (decodeOptional fuel path place)
  exprNode : ∀ path value, (Place.exprNode path value).rank ≤ fuel →
    Follows [.exprNode path value] Expr.Complete (decodeExprNode fuel path (nodeOf value))
  block : ∀ path place, (Place.block path place).rank ≤ fuel →
    Follows [.block path place] Expr.Complete (decodeBlock fuel path place)
  blockNode : ∀ path value, (Place.blockNode path value).rank ≤ fuel →
    Follows [.blockNode path value] Expr.Complete (decodeBlockNode fuel path (nodeOf value))
  pattern : ∀ path place, (Place.pattern path place).rank ≤ fuel →
    Follows [.pattern path place] Pattern.Complete (decodePattern fuel path place)

namespace Decodes

variable {fuel : Nat} {path : List String} {place : Option Value} {value : Value}

/-- A place whose only part is the node that is found there. -/
theorem follows_found {self : Place} {part : Value → Place} {next : Option Node → Decode Expr}
    {good : Expr → Prop} {detail : String} {nothing : Expr} (hBreaks : ¬self.Breaks)
    (hParts : self.parts = match look place with | .node value => [part value] | _ => [])
    (hReports : self.reports = vacancies path place detail)
    (hNone : next none = (do fail path {} detail; pure nothing)) (hRank : self.rank ≤ fuel + 1)
    (hNode : ∀ value, (part value).rank ≤ fuel →
      Follows [part value] good (next (some (nodeOf value)))) :
    Follows [self] good (readNode path place >>= next) := by
  have hInside := Place.rank_le hRank
  refine follows_look hBreaks (fun hVacant => ⟨?_, hReports⟩) hNone fun value hLook => ?_
  · rw [hParts]
    cases hLook : look place with
    | node value => exact absurd hLook (hVacant value)
    | absent | malformed => rfl
  · rw [hLook] at hParts
    rw [hParts, List.forall_mem_singleton] at hInside
    refine follows_place hBreaks (by rw [hReports, vacancies, hLook]) ?_
    rw [hParts]
    exact hNode value hInside

theorem expr_succ (hFuel : Decodes fuel) (hRank : (Place.expr path place).rank ≤ fuel + 1) :
    Follows [.expr path place] Expr.Complete (decodeExpr (fuel + 1) path place) := by
  rw [decodeExpr]
  exact follows_found id rfl rfl rfl hRank (hFuel.exprNode path)

theorem block_succ (hFuel : Decodes fuel) (hRank : (Place.block path place).rank ≤ fuel + 1) :
    Follows [.block path place] Expr.Complete (decodeBlock (fuel + 1) path place) := by
  rw [decodeBlock]
  exact follows_found id rfl rfl rfl hRank (hFuel.blockNode path)

theorem optional_succ (hFuel : Decodes fuel) (hRank : (Place.optional path place).rank ≤ fuel + 1) :
    Follows [.optional path place] (fun expr => expr ≠ .missing → expr.Complete)
      (decodeOptional (fuel + 1) path place) := by
  rw [decodeOptional, readNode_eq]
  have hInside := Place.rank_le hRank
  cases hLook : look place with
  | absent =>
      refine follows_leaf id (by rw [Place.parts, hLook]) ?_
      rw [Place.reports, hLook]
      exact runs_pure fun hThere => absurd rfl hThere
  | malformed =>
      refine follows_leaf id (by rw [Place.parts, hLook]) ?_
      rw [Place.reports, hLook]
      exact runs_fail (runs_pure trivial)
  | node value =>
      have hParts : (Place.optional path place).parts = [.expr (path ++ ["expr"]) place] := by
        rw [Place.parts, hLook]
      rw [hParts, List.forall_mem_singleton] at hInside
      refine follows_place id (by rw [Place.reports, hLook]) ?_
      rw [hParts]
      exact (hFuel.expr _ place hInside).imp fun expr hComplete _ => hComplete

theorem stmts_follow (hFuel : Decodes fuel) {values : List Value}
    (hInside : ∀ part ∈ stmtPlaces path values, part.rank ≤ fuel) :
    Follows (stmtPlaces path values) (fun stmts => ∀ stmt ∈ stmts, stmt.Complete)
      (decodeStmts (decodeStmt fuel) path values) := by
  refine follows_items fun value index hValue => hFuel.stmt _ value (hInside _ ?_)
  exact List.mem_flatMap.2 ⟨(value, index), hValue, List.mem_singleton_self _⟩

theorem exprs_follow (hFuel : Decodes fuel) {field : String} {values : List Value}
    (hInside : ∀ part ∈ exprPlaces path field values, part.rank ≤ fuel) :
    Follows (exprPlaces path field values) (fun exprs => ∀ expr ∈ exprs, expr.Complete)
      (decodeExprs (decodeExpr fuel) path field values) := by
  refine follows_items fun value index hValue => hFuel.expr _ _ (hInside _ ?_)
  exact List.mem_flatMap.2 ⟨(value, index), hValue, List.mem_singleton_self _⟩

theorem body_succ (hFuel : Decodes fuel) (hRank : (Place.body path place).rank ≤ fuel + 1) :
    Follows [.body path place] (fun stmts => ∀ stmt ∈ stmts, stmt.Complete)
      (decodeBody (fuel + 1) path place) := by
  have hInside := Place.rank_le hRank
  unfold decodeBody
  split
  · exact follows_leaf id rfl (runs_pure (List.forall_mem_nil _))
  · exact follows_leaf id rfl (runs_pure (List.forall_mem_nil _))
  · exact follows_place id rfl (hFuel.stmts_follow hInside)
  · rename_i value hNull hArray
    cases value with
    | null => exact (hNull rfl).elim
    | array spelling items => exact (hArray spelling items rfl).elim
    | _ => exact follows_leaf id rfl (runs_fail (runs_pure trivial))

theorem givenExpr_follows (hFuel : Decodes fuel)
    (hInside : ∀ part ∈ givenExpr path place, part.rank ≤ fuel) {β : Type} {good : β → Prop}
    {result : Expr → β} (hMissing : good (result .missing))
    (hGiven : ∀ expr : Expr, expr.Complete → good (result expr)) :
    Follows (givenExpr path place) good
      (if present place then do return result (← decodeExpr fuel path place)
        else pure (result .missing)) := by
  rw [givenExpr] at hInside ⊢
  split
  · rename_i hPresent
    rw [if_pos hPresent, List.forall_mem_singleton] at hInside
    exact (hFuel.expr path place hInside).last hGiven
  · exact follows_pure hMissing

theorem stmt_succ (hFuel : Decodes fuel) (hRank : (Place.stmt path value).rank ≤ fuel + 1) :
    Follows [.stmt path value] Stmt.Complete (decodeStmt (fuel + 1) path value) := by
  rw [decodeStmt]
  refine follows_look id (fun hVacant => ?_) rfl fun found hLook => ?_
  · cases hLook : look (some value) <;> simp_all [Place.parts, Place.reports]
  · have hParts : (Place.stmt path value).parts = stmtParts path found := by
      rw [Place.parts, hLook]
    have hReports : (Place.stmt path value).reports =
        if (nodeOf found).kind = "" then [fault path (nodeOf found).pos "statement without kind"]
        else [] := by
      rw [Place.reports, vacancies, hLook, List.nil_append]
    have hInside := Place.rank_le hRank
    rw [hParts] at hInside
    dsimp only
    split
    case h_10 hKind =>
        refine follows_leaf id (by simp only [hParts, stmtParts, hKind]) ?_
        rw [hReports, if_pos hKind]
        exact runs_fail (runs_pure trivial)
    case h_11 =>
        have hNode : stmtParts path found = [.exprNode path found] := by simp only [stmtParts, *]
        have hKind : (nodeOf found).kind ≠ "" := by assumption
        rw [hNode, List.forall_mem_singleton] at hInside
        refine follows_place id (by rw [hReports, if_neg hKind]) ?_
        rw [hParts, hNode]
        exact (hFuel.exprNode path found hInside).last fun expr => .eval
    all_goals
      rename_i hKind
      refine follows_place id (by rw [hReports, hKind, if_neg (by decide)]) ?_
      rw [hParts]
      simp only [stmtParts, hKind] at hInside ⊢
      try rw [List.forall_mem_cons] at hInside
    · exact (hFuel.expr _ _ hInside.1).last fun value => .declare
    · rw [List.forall_mem_singleton] at hInside
      refine (hFuel.expr _ _ hInside.1).cons fun target => ?_
      exact (hFuel.expr _ _ hInside.2).last fun value hValue hTarget => .assign hTarget hValue
    · exact hFuel.givenExpr_follows hInside (.result fun hThere => absurd rfl hThere)
        fun value hValue => .result fun _ => hValue
    · exact (hFuel.expr _ _ hInside.1).last fun value => .eval
    · rw [List.forall_mem_singleton] at hInside
      refine (hFuel.expr _ _ hInside.1).cons fun cond => ?_
      exact (hFuel.body _ _ hInside.2).last fun body hBody hCond => .whileLoop hCond hBody
    · rw [List.forall_mem_cons, List.forall_mem_singleton] at hInside
      refine (hFuel.expr _ _ hInside.1).cons fun start => ?_
      refine (hFuel.expr _ _ hInside.2.1).cons fun stop => ?_
      exact (hFuel.body _ _ hInside.2.2).last fun body hBody hStop hStart =>
        .forRange hStart hStop hBody
    · exact (hFuel.body _ _ hInside.1).last fun body => .forever
    · exact follows_pure .leave
    · exact follows_pure .next

theorem pattern_succ (hFuel : Decodes fuel) (hRank : (Place.pattern path place).rank ≤ fuel + 1) :
    Follows [.pattern path place] Pattern.Complete (decodePattern (fuel + 1) path place) := by
  rw [decodePattern]
  have hInside := Place.rank_le hRank
  refine follows_look id (fun hVacant => ?_) rfl fun found hLook => ?_
  · cases hLook : look place <;> simp_all [Place.parts, Place.reports]
  · have hParts : (Place.pattern path place).parts = patternParts (path ++ ["pattern"]) found := by
      rw [Place.parts, hLook]
    have hReports : (Place.pattern path place).reports =
        if (nodeOf found).kind ∈ patternKinds then []
        else [fault (path ++ ["pattern"]) (nodeOf found).pos
          s!"unknown pattern kind {Text.quoted (nodeOf found).kind}"] := by
      simp only [Place.reports, vacancies, hLook, List.nil_append]
    rw [hParts] at hInside
    dsimp only
    split
    case h_5 =>
        have hNone : patternParts (path ++ ["pattern"]) found = [] := by
          simp only [patternParts, *]
        have hKind : (nodeOf found).kind ∉ patternKinds := by
          simp only [patternKinds, List.mem_cons, List.not_mem_nil, or_false, not_or]
          exact ⟨by assumption, by assumption, by assumption, by assumption⟩
        refine follows_leaf id (by rw [hParts, hNone]) ?_
        rw [hReports, if_neg hKind]
        exact runs_fail (runs_pure trivial)
    all_goals
      rename_i hKind
      refine follows_place id (by rw [hReports, hKind, if_pos (by decide)]) ?_
      rw [hParts]
      simp only [patternParts, hKind] at hInside ⊢
    · rw [List.forall_mem_singleton] at hInside
      exact (hFuel.expr _ _ hInside).last fun value => .literal
    · exact follows_pure .wildcard
    · exact follows_pure .bind
    · refine Follows.last (follows_items fun value index hValue => hFuel.pattern _ _ (hInside _ ?_))
        fun args => .constructor
      exact List.mem_flatMap.2 ⟨(value, index), hValue, List.mem_singleton_self _⟩

/-- The tail of a block, which has to have a type. -/
theorem tail_runs {decode : Decode Expr} {good : β → Prop} {result : Expr → β}
    (hDecode : Follows [.expr path place] Expr.Complete decode)
    (hYields : Yields (fun expr => expr.isMissing = true ↔ Vacant place) decode)
    (hGood : ∀ tail : Expr, tail.Complete → good (result tail)) :
    Runs (Vacant place ∨ Breaking [.expr path place]) (reportsOf [.expr path place]) good
      (do
        let tail ← decode
        if tail.isMissing then throw .untypedTail
        return result tail) := by
  intro first
  obtain ⟨hCrash, hRun⟩ := hDecode first
  by_cases hBreaking : Breaking [.expr path place]
  · refine ⟨fun _ => ?_, fun hNot => absurd (.inr hBreaking) hNot⟩
    simp only [bind, StateT.bind, hCrash hBreaking]
    rfl
  · obtain ⟨tail, hTail, hComplete⟩ := hRun hBreaking
    have hMissing := hYields first tail _ hTail
    by_cases hVacant : Vacant place
    · refine ⟨fun _ => ?_, fun hNot => absurd (.inl hVacant) hNot⟩
      simp only [bind, StateT.bind, hTail, Except.bind, hMissing.2 hVacant]
      rfl
    · refine ⟨fun hEither => absurd hEither (not_or.2 ⟨hVacant, hBreaking⟩), fun _ => ?_⟩
      have hThere : tail.isMissing = false := Bool.not_eq_true _ ▸ mt hMissing.1 hVacant
      refine ⟨result tail, ?_, fun hNone => hGood tail (hComplete hNone)⟩
      simp only [bind, StateT.bind, hTail, Except.bind, hThere]
      rfl

theorem blockNode_succ (hFuel : Decodes fuel)
    (hRank : (Place.blockNode path value).rank ≤ fuel + 1) :
    Follows [.blockNode path value] Expr.Complete
      (decodeBlockNode (fuel + 1) path (nodeOf value)) := by
  have hInside := Place.rank_le hRank
  rw [Place.parts, List.forall_mem_append] at hInside
  have hStmts := hFuel.stmts_follow hInside.1
  have hTail := hInside.2
  rw [decodeBlockNode]
  rw [givenExpr] at hTail
  by_cases hPresent : present (nodeOf value).tail = true
  · rw [if_pos hPresent, List.forall_mem_singleton] at hTail
    obtain ⟨less, rfl⟩ : ∃ less, fuel = less + 3 := by
      have := depthOf_pos hPresent
      rw [Place.rank] at hTail
      exact ⟨fuel - 3, by omega⟩
    simp only [hPresent, if_true]
    refine (Runs.bind hStmts fun stmts => tail_runs (hFuel.expr _ _ hTail) yields_expr ?_).congr
      ?_ ?_
    · intro tail hComplete hStmts
      exact .block hStmts fun _ => hComplete
    · rw [breaking_place, Place.parts, breaking_append, givenExpr, if_pos hPresent]
      simp only [breaks_iff, hPresent, true_and]
      tauto
    · rw [reportsOf_place, Place.parts, reportsOf_append, givenExpr, if_pos hPresent]
      rfl
  · simp only [hPresent, Bool.false_eq_true, if_false]
    refine follows_place (fun hBreaks => hPresent (breaks_iff.1 hBreaks).1) rfl ?_
    rw [Place.parts, givenExpr, if_neg hPresent, List.append_nil]
    exact hStmts.last fun stmts hComplete => .block hComplete fun hThere => absurd rfl hThere

/-- A node whose parts are decoded one after the other. -/
theorem exprNode_of {good : Expr → Prop} {decode : Decode Expr} {parts : List Place}
    (hReports : exprReports path (nodeOf value) = []) (hParts : exprParts path value = parts)
    (hDecode : Follows parts good decode) : Follows [.exprNode path value] good decode := by
  refine follows_place id hReports ?_
  rw [Place.parts, hParts]
  exact hDecode

/-- A node without parts. -/
theorem exprNode_leaf {decode : Decode Expr} (hParts : exprParts path value = [])
    (hDecode : Runs False (exprReports path (nodeOf value)) Expr.Complete decode) :
    Follows [.exprNode path value] Expr.Complete decode :=
  follows_leaf id hParts hDecode

theorem exprNode_succ (hFuel : Decodes fuel) (hRank : (Place.exprNode path value).rank ≤ fuel + 1) :
    Follows [.exprNode path value] Expr.Complete
      (decodeExprNode (fuel + 1) path (nodeOf value)) := by
  by_cases hKnown : (nodeOf value).kind ∈ exprKinds
  case neg =>
      refine exprNode_leaf (exprParts_unknown hKnown) ?_
      rw [exprReports_unknown hKnown, decodeExprNode_unknown hKnown]
      exact runs_fail (runs_pure trivial)
  have hInside := Place.rank_le hRank
  rw [Place.parts] at hInside
  rw [decodeExprNode]
  split
  case h_1 hKind =>
      refine exprNode_leaf (by simp only [exprParts, hKind]) ?_
      simp only [exprReports, hKind, decodeInt]
      cases Decimal.readInt 64 (written (nodeOf value).value) with
      | ok number => exact runs_pure .int
      | error cause => exact runs_fail (runs_pure trivial)
  case h_2 hKind =>
      refine exprNode_leaf (by simp only [exprParts, hKind]) ?_
      simp only [exprReports, hKind, decodeFloat]
      cases Decimal.readDouble (written (nodeOf value).value) with
      | ok bits => exact runs_pure .float
      | error cause => exact runs_fail (runs_pure trivial)
  case h_3 hKind =>
      refine exprNode_leaf (by simp only [exprParts, hKind]) ?_
      simp only [exprReports, hKind, decodeBool]
      cases (nodeOf value).value with
      | none => exact runs_fail (runs_pure trivial)
      | some given =>
          cases given with
          | bool | null => exact runs_pure .bool
          | number | string | array | object => exact runs_fail (runs_pure trivial)
  case h_27 =>
      simp only [exprKinds, List.mem_cons, List.not_mem_nil, or_false] at hKnown
      simp_all
  all_goals
    rename_i hKind
    have hNone : exprReports path (nodeOf value) = [] := by
      simp only [exprReports, hKind]
      exact if_pos (by decide)
    refine exprNode_of hNone rfl ?_
    simp only [exprParts, hKind] at hInside ⊢
    try rw [List.forall_mem_cons] at hInside
  case h_4 => exact follows_pure .string
  case h_5 => exact follows_pure .char
  case h_6 => exact follows_pure .null
  case h_7 => exact follows_pure .ident
  case h_8 =>
      rw [List.forall_mem_singleton] at hInside
      refine (hFuel.expr _ _ hInside.1).cons fun left => ?_
      exact (hFuel.expr _ _ hInside.2).last fun right hRight hLeft => .binary hLeft hRight
  case h_9 => exact (hFuel.expr _ _ hInside.1).last fun operand => .unary
  case h_10 => exact (hFuel.exprs_follow hInside).last fun args => .call
  case h_11 =>
      refine (hFuel.expr _ _ hInside.1).cons fun receiver => ?_
      exact (hFuel.exprs_follow hInside.2).last fun args hArgs hReceiver =>
        .methodCall hReceiver hArgs
  case h_12 =>
      rw [List.forall_mem_cons] at hInside
      refine (hFuel.expr _ _ hInside.1).cons fun cond => ?_
      refine (hFuel.block _ _ hInside.2.1).cons fun body => ?_
      refine hFuel.givenExpr_follows hInside.2.2 ?_ fun otherwise hOtherwise hBody hCond => ?_
      · exact fun hBody hCond => .branch hCond hBody fun hThere => absurd rfl hThere
      · exact .branch hCond hBody fun _ => hOtherwise
  case h_13 => exact hFuel.blockNode _ _ hInside.1
  case h_14 =>
      refine (hFuel.expr _ _ hInside.1).cons fun scrutinee => ?_
      refine Follows.last (follows_items fun arm index hArm => ?_) fun arms hArms hScrutinee =>
        .cases hScrutinee hArms
      have hPart :=
        fun part hPart => hInside.2 part (List.mem_flatMap.2 ⟨(arm, index), hArm, hPart⟩)
      rw [List.forall_mem_cons, List.forall_mem_singleton] at hPart
      refine (hFuel.pattern _ _ hPart.1).cons fun pattern => ?_
      exact (hFuel.expr _ _ hPart.2).last fun body hBody hPattern => .mk hPattern hBody
  case h_15 => exact (hFuel.expr _ _ hInside.1).last fun subject => .member
  case h_16 =>
      refine Follows.last (follows_items fun field index hField => ?_) fun fields => .construct
      have hPart :=
        hInside _ (List.mem_flatMap.2 ⟨(field, index), hField, List.mem_singleton_self _⟩)
      exact (hFuel.expr _ _ hPart).last fun value => .mk
  case h_17 => exact follows_pure .variant
  case h_18 => exact (hFuel.optional _ _ hInside.1).last fun body => .lambda
  case h_19 => exact (hFuel.expr _ _ hInside.1).last fun operand => .cast
  case h_20 => exact (hFuel.expr _ _ hInside.1).last fun operand => .attempt
  case h_21 => exact (hFuel.optional _ _ hInside.1).last fun operand => .quote
  case h_22 => exact (hFuel.optional _ _ hInside.1).last fun operand => .eval
  case h_23 => exact follows_pure .reflect
  case h_24 => exact (hFuel.exprs_follow hInside).last fun args => .macroCall
  case h_25 => exact (hFuel.exprs_follow hInside).last fun elems => .list
  case h_26 => exact (hFuel.exprs_follow hInside).last fun elems => .tuple

end Decodes

/-- Fuel for a place is fuel for everything that is visited from it. -/
theorem decodes : (fuel : Nat) → Decodes fuel
  | 0 => by
      constructor <;> exact fun _ _ hRank => absurd hRank (Nat.not_le_of_gt (Place.rank_pos _))
  | fuel + 1 => {
      stmt := fun _ _ => (decodes fuel).stmt_succ
      body := fun _ _ => (decodes fuel).body_succ
      expr := fun _ _ => (decodes fuel).expr_succ
      optional := fun _ _ => (decodes fuel).optional_succ
      exprNode := fun _ _ => (decodes fuel).exprNode_succ
      block := fun _ _ => (decodes fuel).block_succ
      blockNode := fun _ _ => (decodes fuel).blockNode_succ
      pattern := fun _ _ => (decodes fuel).pattern_succ }

end RecordWasm.Syntax
