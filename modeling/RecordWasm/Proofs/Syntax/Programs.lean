import RecordWasm.Proofs.Syntax.Decoding

/-!
# Outcomes of decoding programs

A text of the form of a program is gone through from its methods to its functions.  Decoding it
crashes exactly if the traversal comes to a block that cannot be typed.  Otherwise it gives the
first of all reports in the order of the traversal, and without any report a program without holes.
-/

namespace RecordWasm.Syntax

open Json

/-- The methods of a record. -/
def RecordNode.places (path : List String) (node : RecordNode) : List Place :=
  numbered node.methods.items fun index method =>
    [.function (path ++ ["methods", toString index]) method]

/-- The methods and functions of a program, from which everything else is visited. -/
def ProgramNode.places (node : ProgramNode) : List Place :=
  (numbered node.records.items fun index record => record.places ["records", toString index]) ++
  numbered node.functions.items fun index function =>
    [.function ["functions", toString index] function]

/-- The form of a program that a text has. -/
def programNode? (text : String) : Option ProgramNode :=
  parseFirst text >>= fun value => ProgramNode.fill value {}

variable {fuel : Nat} {path : List String}

theorem function_follows {node : FuncNode} {receiver : String}
    (hRank : (Place.function path node).rank ≤ fuel + 1) :
    Follows [.function path node] FuncDecl.Complete (decodeFunction fuel path receiver node) := by
  have hBody := ((decodes fuel).stmts_follow (Place.rank_le hRank)).last
    fun body (hBody : ∀ stmt ∈ body, stmt.Complete) =>
      show FuncDecl.Complete {
        pos := node.pos
        name := node.name
        receiver
        params := node.params.items.map ParamNode.param
        result := Ty.ofText node.result
        body } from hBody
  rw [decodeFunction]
  split
  · rename_i hName
    refine (runs_fail (hBody.imp fun _ _ => trivial)).congr ?_ ?_
    · rw [breaking_place]
      exact or_iff_right id
    · rw [reportsOf_place, Place.reports, if_pos hName]
      rfl
  · rename_i hName
    exact follows_place id (if_neg hName) hBody

/-- Fuel for a text suffices for its functions. -/
theorem FuncNode.Within.rank_le {bound : Nat} {node : FuncNode} (hWithin : node.Within bound)
    (hBound : 0 < bound) : (Place.function path node).rank ≤ 4 * bound + 1 := by
  have hDepth : Value.depthOfItems node.body < bound := by
    have hValues := hWithin.body
    generalize node.body = values at hValues
    induction values with
    | nil => exact hBound
    | cons value rest ih =>
        rw [List.forall_mem_cons] at hValues
        exact Nat.max_lt.2 ⟨hValues.1, ih hValues.2⟩
  simp only [Place.rank]
  omega

variable {bound : Nat}

theorem record_follows {node : RecordNode} (hWithin : node.Within bound) (hBound : 0 < bound)
    (hFuel : 4 * bound ≤ fuel) :
    Follows (node.places path) (fun record => ∀ method ∈ record.methods, method.Complete)
      (decodeRecord fuel path node) := by
  rw [decodeRecord, RecordNode.places]
  refine Follows.last (follows_items fun method index hMethod => function_follows ?_)
    fun methods hMethods => hMethods
  have hInside := hWithin.methods method
    (List.mem_append_left _ (List.fst_mem_of_mem_zipIdx hMethod))
  exact Nat.le_trans (hInside.rank_le hBound) (by omega)

theorem program_follows {node : ProgramNode} (hWithin : node.Within bound) (hBound : 0 < bound)
    (hFuel : 4 * bound ≤ fuel) :
    Follows node.places Program.Complete (decodeProgram fuel node) := by
  have hRecord : ∀ record index, (record, index) ∈ node.records.items.zipIdx →
      Follows (record.places ["records", toString index])
        (fun record => ∀ method ∈ record.methods, method.Complete)
        (decodeRecord fuel ["records", toString index] record) := by
    intro record index hRecord
    refine record_follows ?_ hBound hFuel
    exact hWithin.records record (List.mem_append_left _ (List.fst_mem_of_mem_zipIdx hRecord))
  rw [decodeProgram, ProgramNode.places]
  refine (follows_items hRecord).append fun records => ?_
  refine Follows.last (follows_items fun function index hFunction => function_follows ?_)
    fun functions hFunctions hRecords => ⟨hFunctions, hRecords⟩
  have hInside := hWithin.functions function
    (List.mem_append_left _ (List.fst_mem_of_mem_zipIdx hFunction))
  exact Nat.le_trans (hInside.rank_le hBound) (by omega)

/-- Decoding a text of the form of a program comes to a crash, to the first report, or to a program
without holes. -/
theorem decodeText_runs {text : String} {node : ProgramNode}
    (hForm : programNode? text = some node) :
    (Breaking node.places → decodeText text = .error .crash) ∧ (¬Breaking node.places →
      (∀ report rest, reportsOf node.places = report :: rest →
        decodeText text = .error (.failed report.failure)) ∧
      (reportsOf node.places = [] → ∃ program, decodeText text = .ok program ∧
        program.Complete)) := by
  rw [programNode?, Option.bind_eq_bind, Option.bind_eq_some_iff] at hForm
  obtain ⟨value, hText, hFill⟩ := hForm
  have hFollows := program_follows (ProgramNode.within_fill hFill) value.depth_pos
    (Nat.le_add_right (4 * value.depth) 4)
  obtain ⟨hCrash, hRun⟩ := hFollows none
  simp only [decodeText, hText, hFill]
  refine ⟨fun hBreaking => ?_, fun hNot => ?_⟩
  · rw [hCrash hBreaking]
  · obtain ⟨program, hProgram, hComplete⟩ := hRun hNot
    rw [hProgram]
    refine ⟨fun report rest hReports => ?_, fun hNone => ?_⟩
    · rw [hReports]
      rfl
    · rw [hNone]
      exact ⟨program, rfl, hComplete hNone⟩

theorem decodeText_formless {text : String} (hForm : programNode? text = none) :
    decodeText text = .error notAProgram := by
  rw [programNode?, Option.bind_eq_bind, Option.bind_eq_none_iff] at hForm
  unfold decodeText
  split
  · rfl
  · rename_i value hValue
    rw [hForm value hValue]

/-- What is decoded to a program has the form of one, and nothing is missing in it. -/
theorem complete_of_decodeText {text : String} {program : Program}
    (hText : decodeText text = .ok program) : program.Complete := by
  cases hForm : programNode? text with
  | none =>
      rw [decodeText_formless hForm] at hText
      cases hText
  | some node =>
      obtain ⟨hCrash, hOther⟩ := decodeText_runs hForm
      have hNot : ¬Breaking node.places := by
        intro hBreaking
        rw [hCrash hBreaking] at hText
        cases hText
      obtain ⟨hFirst, hNone⟩ := hOther hNot
      cases hReports : reportsOf node.places with
      | nil =>
          obtain ⟨decoded, hDecoded, hComplete⟩ := hNone hReports
          rw [hText] at hDecoded
          obtain rfl : program = decoded := Except.ok.inj hDecoded
          exact hComplete
      | cons report rest =>
          rw [hFirst report rest hReports] at hText
          cases hText

/-- For every text of the form of a program, decoding crashes exactly if the traversal comes to a
block whose tail is there but malformed or of an unknown kind.  For every other text it gives a
program, or the first of all reports in the order of the traversal if there are any. -/
theorem crash_or_first_report (text : String) (node : ProgramNode)
    (hForm : programNode? text = some node) :
    (decodeText text = .error .crash ↔ ∃ place ∈ visitsOf node.places, place.Breaks) ∧
    ((¬∃ place ∈ visitsOf node.places, place.Breaks) →
      match (visitsOf node.places).flatMap Place.reports with
      | [] => ∃ program, decodeText text = .ok program
      | first :: _ => decodeText text = .error (.failed first.failure)) := by
  obtain ⟨hCrash, hOther⟩ := decodeText_runs hForm
  refine ⟨⟨fun hText => ?_, hCrash⟩, fun hNot => ?_⟩
  · by_contra hNot
    obtain ⟨hFirst, hNone⟩ := hOther hNot
    cases hReports : reportsOf node.places with
    | nil =>
        obtain ⟨program, hProgram, -⟩ := hNone hReports
        rw [hText] at hProgram
        cases hProgram
    | cons report rest =>
        have hFailed := hFirst report rest hReports
        rw [hText] at hFailed
        cases hFailed
  · obtain ⟨hFirst, hNone⟩ := hOther hNot
    split
    · rename_i hReports
      obtain ⟨program, hProgram, -⟩ := hNone hReports
      exact ⟨program, hProgram⟩
    · rename_i report rest hReports
      exact hFirst report rest hReports

/-- A function whose only statement is a block with a tail of an unknown kind. -/
theorem crash_or_first_report_tail :
    let text := "\x7b\"functions\": [\x7b\"name\": \"f\", \"body\": [" ++
      "\x7b\"kind\": \"block\", \"tail\": \x7b\"kind\": \"number\"\x7d\x7d]\x7d]\x7d"
    ∃ node, programNode? text = some node ∧ decodeText text = .error .crash ∧
      ∃ place ∈ visitsOf node.places, place.Breaks := by
  intro text
  have hCrashes : (decodeText text matches .error .crash) = true := by decide +kernel
  have hText : decodeText text = .error .crash := by
    split at hCrashes
    · assumption
    · cases hCrashes
  cases hForm : programNode? text with
  | none =>
      rw [decodeText_formless hForm] at hText
      cases hText
  | some node => exact ⟨node, rfl, hText, (crash_or_first_report text node hForm).1.1 hText⟩

end RecordWasm.Syntax
