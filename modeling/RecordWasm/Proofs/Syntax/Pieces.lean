import RecordWasm.Proofs.Syntax.Traversal

/-!
# Pieces of decoding

Decoding goes through the places of a text and records what is wrong with each.  `Runs` says what a
piece of it comes to: a crash, or else a tree, with the first of its reports recorded if nothing was
before, and a good tree if there are no reports.  Pieces in sequence add up, so that decoding a list
of places `Follows` the places that their traversal visits.
-/

namespace RecordWasm.Syntax

open Json

variable {α β : Type}

/-- A piece of decoding crashes, or it records the first of the reports unless one has been recorded
before; what it gives is good if it has nothing to report. -/
def Runs (breaks : Prop) (reports : List Report) (good : α → Prop) (decode : Decode α) : Prop :=
  ∀ first, (breaks → decode first = .error .untypedTail) ∧
    (¬breaks → ∃ value, decode first = .ok (value, first.or reports.head?) ∧
      (reports = [] → good value))

theorem runs_pure {good : α → Prop} {value : α} (hGood : good value) :
    Runs False [] good (pure value) :=
  fun first =>
    ⟨False.elim, fun _ => ⟨value, by rw [List.head?_nil, Option.or_none]; rfl, fun _ => hGood⟩⟩

/-- Behind something wrong a tree need not be good. -/
theorem runs_fail {breaks : Prop} {reports : List Report} {good : α → Prop} {path : List String}
    {pos : Position} {detail : String} {decode : Decode α}
    (hDecode : Runs breaks reports (fun _ => True) decode) :
    Runs breaks (fault path pos detail :: reports) good (do fail path pos detail; decode) := by
  intro first
  obtain ⟨hCrash, hRun⟩ := hDecode (first.or (some (fault path pos detail)))
  have hFail : (do fail path pos detail; decode) first =
      decode (first.or (some (fault path pos detail))) := by
    cases first <;> rfl
  rw [hFail]
  refine ⟨hCrash, fun hNot => ?_⟩
  obtain ⟨value, hValue, -⟩ := hRun hNot
  refine ⟨value, ?_, nofun⟩
  rw [hValue, Option.or_assoc]
  rfl

/-- Pieces in sequence report in sequence. -/
theorem Runs.bind {breaks breaksNext : Prop} {reports reportsNext : List Report} {good : α → Prop}
    {goodNext : β → Prop} {decode : Decode α} {next : α → Decode β}
    (hDecode : Runs breaks reports good decode)
    (hNext : ∀ value, Runs breaksNext reportsNext (fun result => good value → goodNext result)
      (next value)) :
    Runs (breaks ∨ breaksNext) (reports ++ reportsNext) goodNext (decode >>= next) := by
  intro first
  obtain ⟨hCrash, hRun⟩ := hDecode first
  have hBind : (decode >>= next) first = decode first >>= fun found => next found.1 found.2 := rfl
  rw [hBind]
  by_cases hBreaks : breaks
  · rw [hCrash hBreaks]
    exact ⟨fun _ => rfl, fun hNot => absurd (.inl hBreaks) hNot⟩
  · obtain ⟨value, hValue, hGood⟩ := hRun hBreaks
    obtain ⟨hCrashNext, hRunNext⟩ := hNext value (first.or reports.head?)
    rw [hValue]
    refine ⟨fun hEither => hCrashNext (hEither.resolve_left hBreaks), fun hNot => ?_⟩
    obtain ⟨result, hResult, hGoodNext⟩ := hRunNext fun hBreaksNext => hNot (.inr hBreaksNext)
    refine ⟨result, ?_, fun hNone => ?_⟩
    · rw [List.head?_append, ← Option.or_assoc]
      exact hResult
    · obtain ⟨hReports, hReportsNext⟩ := List.append_eq_nil_iff.1 hNone
      exact hGoodNext hReportsNext (hGood hReports)

theorem Runs.congr {breaks breaks' : Prop} {reports reports' : List Report} {good : α → Prop}
    {decode : Decode α} (hDecode : Runs breaks reports good decode) (hBreaks : breaks' ↔ breaks)
    (hReports : reports' = reports) : Runs breaks' reports' good decode := by
  rw [propext hBreaks, hReports]
  exact hDecode

theorem Runs.imp {breaks : Prop} {reports : List Report} {good good' : α → Prop} {decode : Decode α}
    (hDecode : Runs breaks reports good decode) (hGood : ∀ value, good value → good' value) :
    Runs breaks reports good' decode := by
  intro first
  obtain ⟨hCrash, hRun⟩ := hDecode first
  refine ⟨hCrash, fun hNot => ?_⟩
  obtain ⟨value, hValue, hIf⟩ := hRun hNot
  exact ⟨value, hValue, fun hNone => hGood value (hIf hNone)⟩

/-- The places that are gone through from some places on. -/
def visitsOf (places : List Place) : List Place := places.flatMap Place.visits

/-- The traversal comes to a block that cannot be typed. -/
def Breaking (places : List Place) : Prop := ∃ place ∈ visitsOf places, place.Breaks

/-- What is wrong with the places of a traversal, in order. -/
def reportsOf (places : List Place) : List Report := (visitsOf places).flatMap Place.reports

/-- Decoding goes through places. -/
def Follows (places : List Place) (good : α → Prop) (decode : Decode α) : Prop :=
  Runs (Breaking places) (reportsOf places) good decode

section Follows

variable {places rest : List Place} {place : Place} {good : α → Prop} {goodNext : β → Prop}
variable {decode : Decode α} {next : α → Decode β}

theorem breaking_append {first second : List Place} :
    Breaking (first ++ second) ↔ Breaking first ∨ Breaking second := by
  simp only [Breaking, visitsOf, List.flatMap_append, List.mem_append, or_and_right, exists_or]

theorem reportsOf_append {first second : List Place} :
    reportsOf (first ++ second) = reportsOf first ++ reportsOf second := by
  simp only [reportsOf, visitsOf, List.flatMap_append]

theorem breaking_place : Breaking [place] ↔ place.Breaks ∨ Breaking place.parts := by
  simp only [Breaking, visitsOf, List.flatMap_cons, List.flatMap_nil, List.append_nil,
    place.visits_eq, List.mem_cons, or_and_right, exists_or, exists_eq_left]

theorem reportsOf_place : reportsOf [place] = place.reports ++ reportsOf place.parts := by
  rw [reportsOf, visitsOf, List.flatMap_singleton, place.visits_eq, List.flatMap_cons]
  rfl

theorem follows_pure {value : α} (hGood : good value) : Follows [] good (pure value) :=
  (runs_pure hGood).congr (by simp [Breaking, visitsOf]) rfl

theorem Follows.append (hDecode : Follows places good decode)
    (hNext : ∀ value, Follows rest (fun result => good value → goodNext result) (next value)) :
    Follows (places ++ rest) goodNext (decode >>= next) :=
  (Runs.bind hDecode hNext).congr breaking_append reportsOf_append

theorem Follows.cons (hDecode : Follows [place] good decode)
    (hNext : ∀ value, Follows rest (fun result => good value → goodNext result) (next value)) :
    Follows (place :: rest) goodNext (decode >>= next) :=
  hDecode.append hNext

/-- The last place of several. -/
theorem Follows.last (hDecode : Follows places good decode)
    {result : α → β} (hResult : ∀ value, good value → goodNext (result value)) :
    Follows places goodNext (decode >>= fun value => pure (result value)) := by
  rw [← List.append_nil places]
  exact hDecode.append fun value => follows_pure (hResult value)

/-- A place that has nothing wrong with itself. -/
theorem follows_place (hBreaks : ¬place.Breaks) (hReports : place.reports = [])
    (hParts : Follows place.parts good decode) : Follows [place] good decode := by
  refine hParts.congr ?_ ?_
  · rw [breaking_place]
    exact or_iff_right hBreaks
  · rw [reportsOf_place, hReports, List.nil_append]

/-- A place without parts. -/
theorem follows_leaf (hBreaks : ¬place.Breaks) (hParts : place.parts = [])
    (hReports : Runs False place.reports good decode) : Follows [place] good decode := by
  refine hReports.congr ?_ ?_
  · rw [breaking_place, hParts]
    simp [hBreaks, Breaking, visitsOf]
  · rw [reportsOf_place, hParts]
    exact List.append_nil _

/-- The items of a list are gone through in turn. -/
theorem follows_items {γ : Type} {items : List α} {parts : Nat → α → List Place} {good : γ → Prop}
    {decode : Nat → α → Decode γ}
    (hItems : ∀ item index, (item, index) ∈ items.zipIdx →
      Follows (parts index item) good (decode index item)) :
    Follows (numbered items parts) (fun results => ∀ result ∈ results, good result)
      (decodeItems decode 0 items) := by
  rw [numbered]
  generalize 0 = start at hItems
  induction items generalizing start with
  | nil => exact follows_pure (List.forall_mem_nil _)
  | cons item rest ih =>
      rw [List.zipIdx_cons] at hItems ⊢
      rw [List.flatMap_cons, decodeItems]
      refine (hItems item start List.mem_cons_self).append fun first => ?_
      refine (ih (start + 1) fun other index hOther => ?_).last fun results hResults hFirst => ?_
      · exact hItems other index (List.mem_cons_of_mem _ hOther)
      · exact List.forall_mem_cons.2 ⟨hFirst, hResults⟩

end Follows

end RecordWasm.Syntax
