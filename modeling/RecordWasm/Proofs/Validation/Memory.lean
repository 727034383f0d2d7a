import RecordWasm.Wasm.Module.Reserve
import RecordWasm.Proofs.Binary.Canonical

/-!
# Limited memory is the only thing that stops reading

A reader that makes room answers as the one that does not, unless it is refused the room.  A request
that is out of proportion to the bytes that are left is made only in front of bytes that are refused
in any case, because every item that a count announces takes at least one byte.
-/

namespace RecordWasm.Wasm.Reserving

open Binary

variable {ε δ α β : Type} {room left : Nat} {start : Cursor}

/-- The most that is ever asked for at once. -/
def mostBytes : Nat := (2 ^ 32 - 1) * Import.size

/-- What a computation that may be stopped comes to beside one that cannot; `left` is the number of
bytes to be read. -/
inductive Settles (room left : Nat) : Except (Halt ε) α → Except ε α → Prop
  | same (result : Except ε α) : Settles room left (result.mapError .failed) result
  /-- The request is in proportion to the bytes. -/
  | refused {bytes : Nat} {result : Except ε α} : room < bytes → bytes ≤ mostBytes →
      bytes ≤ left * Import.size → Settles room left (.error (.crash (.memory bytes))) result
  /-- The request is in vain. -/
  | spared {bytes : Nat} {cause : ε} : room < bytes → bytes ≤ mostBytes →
      Settles room left (.error (.crash (.memory bytes))) (.error cause)

/-- The same of what readers answer from a cursor on. -/
inductive Agrees (room : Nat) (start : Cursor) :
    EStateM.Result (Halt ε) Cursor α → EStateM.Result ε Cursor α → Prop
  | ok {value : α} {next : Cursor} : next.rest.length ≤ start.rest.length →
      Agrees room start (.ok value next) (.ok value next)
  | failed {cause : ε} {stop : Cursor} :
      Agrees room start (.error (.failed cause) stop) (.error cause stop)
  | refused {bytes : Nat} {stop : Cursor} {result : EStateM.Result ε Cursor α} : room < bytes →
      bytes ≤ mostBytes → bytes ≤ start.rest.length * Import.size →
      Agrees room start (.error (.crash (.memory bytes)) stop) result
  | spared {bytes : Nat} {stop other : Cursor} {cause : ε} : room < bytes → bytes ≤ mostBytes →
      Agrees room start (.error (.crash (.memory bytes)) stop) (.error cause other)

/-- A reader that may be stopped beside one that cannot. -/
def Follows (room : Nat) (reading : Reserving ε α) (plain : EStateM ε Cursor α) : Prop :=
  ∀ start, Agrees room start (reading start) (plain start)

namespace Settles

variable {reading : Except (Halt ε) α} {plain : Except ε α}

theorem mono {fewer : Nat} (hSettles : Settles room fewer reading plain) (hFewer : fewer ≤ left) :
    Settles room left reading plain := by
  cases hSettles with
  | same => exact .same plain
  | refused hRoom hMost hLeft =>
      exact .refused hRoom hMost (hLeft.trans (Nat.mul_le_mul_right _ hFewer))
  | spared hRoom hMost => exact .spared hRoom hMost

theorem mapError (hSettles : Settles room left reading plain) (describe : ε → δ) :
    Settles room left (reading.mapError (Halt.map describe)) (plain.mapError describe) := by
  cases hSettles with
  | same =>
      cases plain with
      | error cause => exact .same (.error (describe cause))
      | ok value => exact .same (.ok value)
  | refused hRoom hMost hLeft => exact .refused hRoom hMost hLeft
  | spared hRoom hMost => exact .spared hRoom hMost

theorem bind (hSettles : Settles room left reading plain) {rest : α → Except (Halt ε) β}
    {plainRest : α → Except ε β}
    (hRest : ∀ value, plain = .ok value → Settles room left (rest value) (plainRest value)) :
    Settles room left (reading >>= rest) (plain >>= plainRest) := by
  cases hSettles with
  | same =>
      cases plain with
      | error cause => exact .same (.error cause)
      | ok value => exact hRest value rfl
  | refused hRoom hMost hLeft => exact .refused hRoom hMost hLeft
  | spared hRoom hMost => exact .spared hRoom hMost

theorem outcome (hSettles : Settles room left reading plain) :
    reading = plain.mapError .failed ∨
      ∃ asked, reading = .error (.crash (.memory asked)) ∧ room < asked ∧ asked ≤ mostBytes ∧
        (left * Import.size < asked → ∃ cause, plain = .error cause) := by
  cases hSettles with
  | same => exact .inl rfl
  | refused hRoom hMost hLeft =>
      exact .inr ⟨_, rfl, hRoom, hMost, fun hMore => absurd hLeft (Nat.not_le_of_lt hMore)⟩
  | spared hRoom hMost => exact .inr ⟨_, rfl, hRoom, hMost, fun _ => ⟨_, rfl⟩⟩

end Settles

namespace Agrees

variable {reading : Reserving ε α} {plain : EStateM ε Cursor α}

theorem mono {next : Cursor} {answer : EStateM.Result (Halt ε) Cursor α}
    {result : EStateM.Result ε Cursor α} (hAgrees : Agrees room next answer result)
    (hNext : next.rest.length ≤ start.rest.length) : Agrees room start answer result := by
  cases hAgrees with
  | ok hFewer => exact .ok (hFewer.trans hNext)
  | failed => exact .failed
  | refused hRoom hMost hLeft =>
      exact .refused hRoom hMost (hLeft.trans (Nat.mul_le_mul_right _ hNext))
  | spared hRoom hMost => exact .spared hRoom hMost

/-- Readers agree if those in front do and those behind do wherever these get to. -/
theorem bind {rest : α → Reserving ε β} {plainRest : α → EStateM ε Cursor β}
    (hFirst : Agrees room start (reading start) (plain start))
    (hRest : ∀ value next, plain start = .ok value next → next.rest.length ≤ start.rest.length →
      Agrees room start (rest value next) (plainRest value next)) :
    Agrees room start ((reading >>= rest) start) ((plain >>= plainRest) start) := by
  rw [bind_apply, bind_apply]
  generalize hPlain : plain start = result at hFirst
  generalize reading start = answer at hFirst
  cases hFirst with
  | ok hFewer => exact hRest _ _ hPlain hFewer
  | failed => exact .failed
  | refused hRoom hMost hLeft => exact .refused hRoom hMost hLeft
  | spared hRoom hMost => exact .spared hRoom hMost

end Agrees

namespace Follows

variable {reading : Reserving ε α} {plain : EStateM ε Cursor α} {relation : α → Nat → Prop}

/-- A reader that cannot be stopped follows itself. -/
theorem of (hSpends : Spends plain relation) : Follows room (Reserving.of plain) plain := by
  intro start
  rw [Reserving.of, EStateM.adaptExcept]
  cases hPlain : plain start with
  | error cause stop => exact .failed
  | ok value next =>
      obtain ⟨spent, hSpent, -⟩ := hSpends _ _ _ hPlain
      exact .ok (by omega)

theorem pure (value : α) : Follows room (Pure.pure value : Reserving ε α) (Pure.pure value) :=
  fun _ => .ok (Nat.le_refl _)

theorem bind (hFirst : Follows room reading plain) {rest : α → Reserving ε β}
    {plainRest : α → EStateM ε Cursor β}
    (hRest : ∀ value, Follows room (rest value) (plainRest value)) :
    Follows room (reading >>= rest) (plain >>= plainRest) :=
  fun start => (hFirst start).bind fun value next _ hFewer => (hRest value next).mono hFewer

theorem mapError {reading : Reserving ReadError α} {plain : Read α}
    (hFollows : Follows room reading plain) (describe : ReadError → SectionError) :
    Follows room (Reserving.mapError describe reading) (liftRead describe plain) := by
  intro start
  have hStart := hFollows start
  rw [Reserving.mapError, EStateM.adaptExcept, liftRead]
  generalize plain start = result at hStart
  generalize reading start = answer at hStart
  cases hStart with
  | ok hFewer => exact .ok hFewer
  | failed => exact .failed
  | refused hRoom hMost hLeft => exact .refused hRoom hMost hLeft
  | spared hRoom hMost => exact .spared hRoom hMost

/-- Room is made in front of a reader that takes a byte for every item, if it succeeds. -/
theorem reserve {count : UInt32} {size : Nat} (hSize : size ≤ Import.size)
    (hFollows : Follows room reading plain)
    (hSpends : Spends plain fun _ spent => count.toNat ≤ spent) :
    Follows room (Reserving.reserve room (count.toNat * size) >>= fun _ => reading) plain := by
  intro start
  have hMost : count.toNat * size ≤ mostBytes :=
    Nat.mul_le_mul (Nat.le_sub_one_of_lt count.toNat_lt) hSize
  rw [Reserving.reserve]
  split
  · exact hFollows start
  · rename_i hRoom
    cases hPlain : plain start with
    | error cause stop => exact .spared (Nat.lt_of_not_le hRoom) hMost
    | ok value next =>
        obtain ⟨spent, hSpent, -, hCount⟩ := hSpends _ _ _ hPlain
        exact .refused (Nat.lt_of_not_le hRoom) hMost (Nat.mul_le_mul (by omega) hSize)

/-- Room is made for counted bytes or locals. -/
theorem count {size : Nat} (hSize : size ≤ Import.size) {plain : Nat → Read α}
    (hSpends : ∀ count, Spends (plain count) fun _ spent => count ≤ spent) :
    Follows room (Reserving.count room size >>= fun count => Reserving.of (plain count))
      (Read.u32 >>= fun count => plain count.toNat) := by
  rw [Reserving.count, bind_assoc]
  refine (Follows.of spends_u32).bind fun count => ?_
  simp only [bind_assoc, pure_bind]
  exact (Follows.of (hSpends _)).reserve hSize (hSpends _)

/-- Every item that a count announces takes a byte at least. -/
theorem items {size : Nat} (hSize : size ≤ Import.size) {item : Nat → Reserving SectionError α}
    {plain : Nat → ReadSection α} {write : α → List UInt8} {good : α → Prop}
    (hItem : ∀ index, Follows room (item index) (plain index))
    (hPlain : ∀ index, Condenses (plain index) write good)
    (hWrite : ∀ one, 1 ≤ (write one).length) :
    Follows room (Reserving.items room size item) (Wasm.items plain) := by
  have hFrom (index count : Nat) :
      Follows room (itemsFrom item index count) (itemsFrom plain index count) := by
    induction count generalizing index with
    | zero => exact .pure []
    | succ count ih => exact (hItem index).bind fun first => (ih (index + 1)).bind fun _ => .pure _
  rw [Reserving.items, Wasm.items]
  refine (Follows.of (spends_lift spends_u32 .read)).bind fun count =>
    (hFrom 0 count.toNat).reserve hSize ?_
  exact (spends_itemsFrom hPlain 0 _).mono fun _ _ hList => count_le_of_listed hList hWrite

end Follows

theorem follows_vec : Follows room (vec room) Read.vec :=
  Follows.count (by decide) fun count => (Spends.take count).mono fun _ _ hTake => hTake.2.ge

theorem follows_name : Follows room (name room) Read.name := by
  refine follows_vec.bind fun content => ?_
  have hText : Spends (Read.text content) fun _ _ => True := by
    rw [Read.text]
    split
    · exact .pure trivial
    · exact .failHere _
  exact .of hText

theorem follows_valTypes : Follows room (valTypes room) ValType.readAll :=
  Follows.count (by decide) fun count => (spends_times condenses_valType count).mono
    fun _ _ hList => count_le_of_listed hList fun _ => Nat.le_refl 1

theorem follows_funcType (index : Nat) :
    Follows room (funcType room index) (FuncType.read index) := by
  refine (Follows.of (spends_lift Spends.byte .read)).bind fun form => ?_
  split
  · exact fun _ => .failed
  · exact (follows_valTypes.mapError _).bind fun params =>
      (follows_valTypes.mapError _).bind fun results => .pure _

theorem follows_import (index : Nat) :
    Follows room (importItem room index) (Import.read index) :=
  (follows_name.mapError _).bind fun module => (follows_name.mapError _).bind fun name =>
    .of (spends_importNamed module name)

theorem follows_export (index : Nat) :
    Follows room (exportItem room index) (Export.read index) :=
  (follows_name.mapError _).bind fun name => .of (spends_exportNamed name)

theorem Agrees.settles {reading : EStateM.Result (Halt ε) Cursor α}
    {plain : EStateM.Result ε Cursor α} (hAgrees : Agrees room start reading plain) :
    Settles room start.rest.length (answer reading) (answer plain) := by
  cases hAgrees with
  | ok => exact .same (.ok _)
  | failed => exact .same (.error _)
  | refused hRoom hMost hLeft => exact .refused hRoom hMost hLeft
  | spared hRoom hMost => exact .spared hRoom hMost

theorem walks_localRun : Walks LocalRun.read :=
  Walks.u32.bind fun _ => Walks.byte.bind fun _ => .pure _

/-- The locals of a body end inside its bytes. -/
theorem settles_bodyParts (room : Nat) (bytes : List UInt8) :
    Settles room bytes.length (answer (bodyParts room bytes (.start bytes)))
      (FuncBody.ofBytes bytes) := by
  let locals : Read (List LocalRun) :=
    Read.u32 >>= fun count => Read.times LocalRun.read count.toNat
  have hLocals : Follows room
      (count room LocalRun.size >>= fun count => of (Read.times LocalRun.read count)) locals :=
    Follows.count (by decide) fun count => (spends_times condenses_localRun count).mono
      fun _ _ hList => count_le_of_listed hList fun _ => by simp [LocalRun.encode]
  have hWalks : Walks locals := Walks.u32.bind fun count => walks_localRun.times count.toNat
  let code (runs : List LocalRun) : Read FuncBody := fun cursor => .ok ⟨runs, cursor.rest⟩ cursor
  have hPlain : FuncBody.ofBytes bytes = answer ((locals >>= code) (.start bytes)) := by
    rw [bind_apply, FuncBody.ofBytes]
    cases hRuns : locals (.start bytes) <;>
      simp only [locals] at hRuns <;> simp only [hRuns] <;> rfl
  rw [hPlain, bodyParts, ← bind_assoc]
  refine Agrees.settles ((hLocals (.start bytes)).bind fun runs next hRuns hFewer => ?_)
  obtain ⟨taken, hTaken, hPosition⟩ := hWalks _ _ _ hRuns
  have hBytes : bytes = taken ++ next.rest := hTaken
  have hPlace : next.position = taken.length := hPosition.trans (Nat.zero_add _)
  have hCode : sliceFrom bytes next.position =
      (pure next.rest : Reserving ReadError (List UInt8)) := by
    rw [sliceFrom, hPlace, hBytes, if_pos (by simp), List.drop_left]
  change Agrees room _
    ((sliceFrom bytes next.position >>= fun code => pure (FuncBody.mk runs code)) next) _
  rw [hCode]
  exact .ok hFewer

/-- A vector is no longer than the bytes that it is read from. -/
theorem spends_content :
    Spends Read.vec fun content spent => content.length < 2 ^ 32 ∧ content.length ≤ spent :=
  spends_vec.mono fun content spent hVec => by
    have hWritten := hVec.2 content (Nat.le_refl _)
    simp only [Write.vec, List.length_append] at hWritten
    exact ⟨hVec.1, by omega⟩

theorem follows_body (index : Nat) : Follows room (body room index) (FuncBody.read index) := by
  intro start
  refine (follows_vec.mapError _ start).bind fun bytes next hVec hFewer => ?_
  obtain ⟨spent, hSpent, -, -, hLength⟩ := spends_lift spends_content _ _ _ _ hVec
  have hInside : bytes.length ≤ start.rest.length := by omega
  have hParts := (settles_bodyParts room bytes).mono hInside
  generalize FuncBody.ofBytes bytes = plain at hParts
  generalize answer (bodyParts room bytes (.start bytes)) = parts at hParts
  cases hParts with
  | same =>
      cases plain with
      | error cause => exact .failed
      | ok body => exact .ok hFewer
  | refused hRoom hMost hLeft => exact .refused hRoom hMost hLeft
  | spared hRoom hMost => exact .spared hRoom hMost

/-- A name takes no more bytes than its section has. -/
theorem agrees_custom {content : List UInt8} (hSize : content.length < 2 ^ 32) :
    Agrees room (.start content) (custom room content.length (.start content))
      (CustomSection.read content.length (.start content)) := by
  refine (follows_name.mapError _ (.start content)).bind fun name next hName hFewer => ?_
  obtain ⟨spent, hSpent, hPlace, -⟩ := spends_lift spends_name _ _ _ _ hName
  simp only [Cursor.start, Nat.zero_add] at hSpent hPlace
  have hCount : ¬((content.length : Int) - next.position < 0) := by omega
  have hRest : Agrees room (.start content)
      ((of (liftRead .read (Read.bytes ((content.length : Int) - next.position))) >>= fun rest =>
        pure (CustomSection.mk name rest)) next)
      ((liftRead .read (Read.bytes ((content.length : Int) - next.position)) >>= fun rest =>
        pure (CustomSection.mk name rest)) next) :=
    ((Follows.of (spends_lift (spends_bytes _) .read)).bind (fun rest => .pure _) next).mono hFewer
  change Agrees room _ ((if (content.length : Int) - next.position < 0 then _ else
    reserve room ((content.length : Int) - next.position).toNat >>= fun _ => _) next) _
  rw [if_neg hCount, reserve]
  split
  · exact hRest
  · rename_i hRoom
    have hAsked : ((content.length : Int) - next.position).toNat ≤ content.length := by omega
    refine .refused (Nat.lt_of_not_le hRoom) ?_ ?_
    · have hMost : 2 ^ 32 ≤ mostBytes := by decide
      omega
    · exact hAsked.trans (Nat.le_mul_of_pos_right _ (by decide))

/-! ## Sections -/

theorem settles_readInto (room : Nat) (kind : Section) {content : List UInt8} (module : Module)
    (hSize : content.length < 2 ^ 32) :
    Settles room content.length (answer (readInto room kind content module (.start content)))
      (answer (kind.readInto content module (.start content))) := by
  have hItems {α : Type} {size : Nat} {item : Nat → Reserving SectionError α}
      {plain : Nat → ReadSection α} {use : List α → Module}
      (hFollows : Follows room (items room size item) (Wasm.items plain)) :
      Settles room content.length (answer ((items room size item >>= fun list => pure (use list))
        (.start content))) (answer ((Wasm.items plain >>= fun list => pure (use list))
        (.start content))) :=
    (hFollows.bind (fun _ => .pure _) (.start content)).settles
  cases kind with
  | custom => exact ((agrees_custom hSize).bind fun _ _ _ hFewer => .ok hFewer).settles
  | types =>
      exact hItems <| .items (by decide) follows_funcType condenses_funcType
        (by simp [FuncType.encode])
  | imports =>
      exact hItems <| .items (by decide) follows_import condenses_import
        (by simp [Import.encode]; omega)
  | functions =>
      have hIndex (_ : Nat) : Condenses (liftRead .read Read.u32) Write.u32 fun _ => True :=
        (spends_lift spends_u32 .read).mono fun _ _ hGroups => ⟨trivial, hGroups.length_u32⟩
      exact hItems <| .items (by decide) (fun index => .of (hIndex index)) hIndex
        Assembly.length_u32_pos
  | exports =>
      exact hItems <| .items (by decide) follows_export condenses_export
        (by simp [Export.encode]; omega)
  | code => exact hItems <| .items (by decide) follows_body condenses_body length_vec_pos
  | memories =>
      have hMemories : Spends (Section.memories.readInto content module) fun _ _ => True :=
        (condenses_items fun _ => condenses_limits).map fun _ _ _ => trivial
      exact (Follows.of hMemories (.start content)).settles
  | globals =>
      have hGlobals : Spends (Section.globals.readInto content module) fun _ _ => True :=
        (condenses_items condenses_global).map fun _ _ _ => trivial
      exact (Follows.of hGlobals (.start content)).settles

/-- A section takes at least one byte. -/
theorem length_of_readSection {last found : UInt8} {module result : Module} {cursor stop : Cursor}
    (hRead : readSection room (last, module, cursor) = .ok (.inr (found, result, stop))) :
    stop.rest.length < cursor.rest.length := by
  obtain ⟨bytes, position⟩ := cursor
  rw [readSection] at hRead
  cases bytes with
  | nil => cases hRead
  | cons id rest =>
      have hContent : Agrees room ⟨rest, position + 1⟩ (vec room ⟨rest, position + 1⟩)
          (Read.vec ⟨rest, position + 1⟩) := follows_vec _
      simp only at hRead
      split at hRead
      · cases hRead
      · generalize vec room ⟨rest, position + 1⟩ = content at hContent hRead
        generalize Read.vec ⟨rest, position + 1⟩ = plain at hContent
        cases hContent with
        | failed | refused | spared => cases hRead
        | ok hFewer =>
            simp only at hRead
            split at hRead
            · cases hRead
            · obtain ⟨_, _, hState⟩ := bind_ok.1 hRead
              cases hState
              exact Nat.lt_succ_of_le hFewer

/-- Section by section, reading goes on as it does without a limit. -/
theorem settles_readSections (count : Nat) (last : UInt8) (module : Module) (cursor : Cursor) :
    Settles room cursor.rest.length (readSections room count (last, module, cursor))
      (Module.parseSections count last module cursor) := by
  induction count generalizing last module cursor with
  | zero => exact .same (.ok module)
  | succ count ih =>
      obtain ⟨bytes, position⟩ := cursor
      rw [readSections, readSection, Module.parseSections]
      cases bytes with
      | nil => exact .same (.ok module)
      | cons id rest =>
          simp only
          split
          · exact .same (.error _)
          · have hContent : Agrees room ⟨rest, position + 1⟩ (vec room ⟨rest, position + 1⟩)
                (Read.vec ⟨rest, position + 1⟩) := follows_vec _
            generalize hVec : Read.vec ⟨rest, position + 1⟩ = result at hContent
            generalize vec room ⟨rest, position + 1⟩ = reading at hContent
            cases hContent with
            | failed => exact .same (.error _)
            | refused hRoom hMost hLeft =>
                exact .refused hRoom hMost
                  (hLeft.trans (Nat.mul_le_mul_right _ (Nat.le_succ rest.length)))
            | spared hRoom hMost => exact .spared hRoom hMost
            | @ok content next hFewer =>
                simp only
                cases Section.ofId? id with
                | none => exact .same (.error _)
                | some kind =>
                    obtain ⟨spent, hSpent, -, hSize, hLength⟩ := spends_content _ _ _ hVec
                    simp only at hSpent hFewer
                    have hInside : content.length ≤ (id :: rest).length := by
                      rw [List.length_cons]
                      omega
                    have hInto := (settles_readInto room kind module hSize).mono hInside
                    have hRest := (hInto.mapError (ParseError.inSection kind)).bind fun found _ =>
                      (ih (if id = Section.custom.id then last else id) found next).mono
                        (hFewer.trans (Nat.le_succ rest.length))
                    simp only [bind_assoc, pure_bind]
                    cases hPlain : kind.readInto content module (.start content) <;>
                      rw [hPlain] at hRest <;> exact hRest

theorem length_of_readHeaderWord {word : UInt32} {mismatch : ParseError} {cursor next : Cursor}
    (hRead : readHeaderWord word mismatch cursor = .ok next) :
    next.rest.length ≤ cursor.rest.length := by
  rw [readHeaderWord] at hRead
  split at hRead
  · cases hRead
  · rename_i value after hValue
    obtain ⟨spent, hSpent, -⟩ := spends_f32 _ _ _ hValue
    split at hRead
    · cases hRead
      omega
    · cases hRead

/-- Reading in limited memory comes to what reading comes to, or is refused the room that it asks
for. -/
theorem settles_parse (room : Nat) (bytes : List UInt8) :
    Settles room bytes.length (parse room bytes) (Module.parse bytes) := by
  rw [parse, Module.parse]
  refine (Settles.same _).bind fun first hFirst => (Settles.same _).bind fun second hSecond => ?_
  exact (settles_readSections _ _ _ _).mono
    ((length_of_readHeaderWord hSecond).trans (length_of_readHeaderWord hFirst))

/-- A module that is read in limited memory is the one that is read without a limit. -/
theorem parse_ok {bytes : List UInt8} {module : Module} (hParse : parse room bytes = .ok module) :
    Module.parse bytes = .ok module := by
  obtain hSame | ⟨asked, hCrash, -⟩ := (settles_parse room bytes).outcome
  · exact mapError_ok.1 (hSame.symm.trans hParse)
  · cases hCrash.symm.trans hParse

end RecordWasm.Wasm.Reserving
