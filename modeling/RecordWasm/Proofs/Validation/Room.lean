import RecordWasm.Proofs.Validation.Memory

/-!
# More room

What is read under a limit is read the same way under a higher one, up to the first request that the
lower one refuses.  So a module that finds enough room finds enough wherever there is more.
-/

namespace RecordWasm.Wasm.Reserving

open Binary

variable {ε δ α β : Type} {room more : Nat}

/-- Two answers under a lower and a higher limit: they are the same unless the lower one stands in
the way of a request that the higher one grants. -/
def Eases (room more : Nat) (tight ample : Except (Halt ε) α) : Prop :=
  tight = ample ∨ ∃ asked, room < asked ∧ asked ≤ more ∧ tight = .error (.crash (.memory asked))

/-- The same of readers, from every cursor on and with the cursor that they reach. -/
def Widens (room more : Nat) (tight ample : Reserving ε α) : Prop :=
  ∀ start, tight start = ample start ∨ ∃ asked stop, room < asked ∧ asked ≤ more ∧
    tight start = .error (.crash (.memory asked)) stop

namespace Eases

variable {tight ample : Except (Halt ε) α}

theorem mapError (hEases : Eases room more tight ample) (describe : ε → δ) :
    Eases room more (tight.mapError (Halt.map describe)) (ample.mapError (Halt.map describe)) := by
  obtain rfl | ⟨asked, hRoom, hMore, rfl⟩ := hEases
  · exact .inl rfl
  · exact .inr ⟨asked, hRoom, hMore, rfl⟩

theorem bind (hFirst : Eases room more tight ample) {tightRest ampleRest : α → Except (Halt ε) β}
    (hRest : ∀ value, Eases room more (tightRest value) (ampleRest value)) :
    Eases room more (tight >>= tightRest) (ample >>= ampleRest) := by
  obtain rfl | ⟨asked, hRoom, hMore, rfl⟩ := hFirst
  · cases tight with
    | error halt => exact .inl rfl
    | ok value => exact hRest value
  · exact .inr ⟨asked, hRoom, hMore, rfl⟩

end Eases

namespace Widens

variable {tight ample : Reserving ε α}

theorem refl (reading : Reserving ε α) : Widens room more reading reading :=
  fun _ => .inl rfl

theorem bind (hFirst : Widens room more tight ample) {tightRest ampleRest : α → Reserving ε β}
    (hRest : ∀ value, Widens room more (tightRest value) (ampleRest value)) :
    Widens room more (tight >>= tightRest) (ample >>= ampleRest) := by
  intro start
  rw [bind_apply, bind_apply]
  obtain hSame | ⟨asked, stop, hRoom, hMore, hTight⟩ := hFirst start
  · rw [hSame]
    cases ample start with
    | error halt stop => exact .inl rfl
    | ok value next => exact hRest value next
  · rw [hTight]
    exact .inr ⟨asked, stop, hRoom, hMore, rfl⟩

theorem mapError {tight ample : Reserving δ α} (hWidens : Widens room more tight ample)
    (describe : δ → ε) :
    Widens room more (Reserving.mapError describe tight) (Reserving.mapError describe ample) := by
  intro start
  rw [Reserving.mapError, Reserving.mapError, EStateM.adaptExcept, EStateM.adaptExcept]
  obtain hSame | ⟨asked, stop, hRoom, hMore, hTight⟩ := hWidens start
  · exact .inl (by rw [hSame])
  · exact .inr ⟨asked, stop, hRoom, hMore, by rw [hTight]; rfl⟩

theorem eases (hWidens : Widens room more tight ample) (start : Cursor) :
    Eases room more (answer (tight start)) (answer (ample start)) := by
  obtain hSame | ⟨asked, stop, hRoom, hMore, hTight⟩ := hWidens start
  · exact .inl (by rw [hSame])
  · exact .inr ⟨asked, hRoom, hMore, by rw [hTight]; rfl⟩

/-- The one step that a limit decides. -/
theorem reserve (hMore : room ≤ more) (bytes : Nat) :
    Widens room more (Reserving.reserve room bytes : Reserving ε Unit)
      (Reserving.reserve more bytes) := by
  intro start
  rw [Reserving.reserve, Reserving.reserve]
  by_cases hRoom : bytes ≤ room
  · rw [if_pos hRoom, if_pos (hRoom.trans hMore)]
    exact .inl rfl
  · by_cases hGranted : bytes ≤ more
    · rw [if_neg hRoom]
      exact .inr ⟨bytes, start, Nat.lt_of_not_le hRoom, hGranted, rfl⟩
    · rw [if_neg hRoom, if_neg hGranted]
      exact .inl rfl

theorem count (hMore : room ≤ more) (size : Nat) :
    Widens room more (Reserving.count room size) (Reserving.count more size) :=
  (refl _).bind fun _ => (reserve hMore _).bind fun _ => refl _

theorem items (hMore : room ≤ more) (size : Nat)
    {tight ample : Nat → Reserving SectionError α}
    (hItem : ∀ index, Widens room more (tight index) (ample index)) :
    Widens room more (Reserving.items room size tight) (Reserving.items more size ample) := by
  have hFrom (index count : Nat) :
      Widens room more (itemsFrom tight index count) (itemsFrom ample index count) := by
    induction count generalizing index with
    | zero => exact refl _
    | succ count ih => exact (hItem index).bind fun _ => (ih (index + 1)).bind fun _ => refl _
  exact (refl _).bind fun _ => (reserve hMore _).bind fun _ => hFrom 0 _

end Widens

variable (hMore : room ≤ more)
include hMore

theorem widens_vec : Widens room more (vec room) (vec more) :=
  (Widens.count hMore 1).bind fun _ => .refl _

theorem widens_name : Widens room more (name room) (name more) :=
  (widens_vec hMore).bind fun _ => .refl _

theorem widens_valTypes : Widens room more (valTypes room) (valTypes more) :=
  (Widens.count hMore 1).bind fun _ => .refl _

theorem widens_funcType (index : Nat) :
    Widens room more (funcType room index) (funcType more index) := by
  refine (Widens.refl _).bind fun form => ?_
  split
  · exact .refl _
  · exact ((widens_valTypes hMore).mapError _).bind fun _ =>
      ((widens_valTypes hMore).mapError _).bind fun _ => .refl _

theorem widens_import (index : Nat) :
    Widens room more (importItem room index) (importItem more index) :=
  ((widens_name hMore).mapError _).bind fun _ =>
    ((widens_name hMore).mapError _).bind fun _ => .refl _

theorem widens_export (index : Nat) :
    Widens room more (exportItem room index) (exportItem more index) :=
  ((widens_name hMore).mapError _).bind fun _ => .refl _

theorem widens_bodyParts (bytes : List UInt8) :
    Widens room more (bodyParts room bytes) (bodyParts more bytes) :=
  (Widens.count hMore _).bind fun _ => .refl _

theorem widens_body (index : Nat) : Widens room more (body room index) (body more index) := by
  refine ((widens_vec hMore).mapError _).bind fun bytes start => ?_
  obtain hSame | ⟨asked, hRoom, hGranted, hTight⟩ :=
    (widens_bodyParts hMore bytes).eases (.start bytes)
  · rw [hSame]
    exact .inl rfl
  · rw [hTight]
    exact .inr ⟨asked, start, hRoom, hGranted, rfl⟩

theorem widens_custom (size : Nat) : Widens room more (custom room size) (custom more size) := by
  refine ((widens_name hMore).mapError _).bind fun name => (Widens.refl _).bind fun position => ?_
  simp only
  split
  · exact (Widens.refl _).bind fun _ => (Widens.reserve hMore _).bind fun _ => .refl _
  · exact (Widens.reserve hMore _).bind fun _ => .refl _

theorem widens_readInto (kind : Section) (content : List UInt8) (module : Module) :
    Widens room more (readInto room kind content module) (readInto more kind content module) := by
  cases kind with
  | custom => exact (widens_custom hMore _).bind fun _ => .refl _
  | types => exact (Widens.items hMore _ (widens_funcType hMore)).bind fun _ => .refl _
  | imports => exact (Widens.items hMore _ (widens_import hMore)).bind fun _ => .refl _
  | functions => exact (Widens.items hMore _ fun _ => .refl _).bind fun _ => .refl _
  | exports => exact (Widens.items hMore _ (widens_export hMore)).bind fun _ => .refl _
  | code => exact (Widens.items hMore _ (widens_body hMore)).bind fun _ => .refl _
  | memories | globals => exact .refl _

theorem eases_readSection (last : UInt8) (module : Module) (cursor : Cursor) :
    Eases room more (readSection room (last, module, cursor))
      (readSection more (last, module, cursor)) := by
  obtain ⟨bytes, position⟩ := cursor
  rw [readSection, readSection]
  cases bytes with
  | nil => exact .inl rfl
  | cons id rest =>
      simp only
      split
      · exact .inl rfl
      · obtain hSame | ⟨asked, stop, hRoom, hGranted, hTight⟩ :=
          widens_vec hMore ⟨rest, position + 1⟩
        · rw [hSame]
          cases vec more ⟨rest, position + 1⟩ with
          | error halt stop => exact .inl rfl
          | ok content next =>
              cases Section.ofId? id with
              | none => exact .inl rfl
              | some kind =>
                  exact (((widens_readInto hMore kind content module).eases _).mapError _).bind
                    fun _ => .inl rfl
        · rw [hTight]
          exact .inr ⟨asked, hRoom, hGranted, rfl⟩

theorem eases_readSections (count : Nat) (state : UInt8 × Module × Cursor) :
    Eases room more (readSections room count state) (readSections more count state) := by
  induction count generalizing state with
  | zero => exact .inl rfl
  | succ count ih =>
      refine (eases_readSection hMore state.1 state.2.1 state.2.2).bind fun found => ?_
      cases found with
      | inl module => exact .inl rfl
      | inr next => exact ih next

/-- More room changes an answer only where a request is granted that was refused. -/
theorem eases_parseValid (bytes : List UInt8) :
    Eases room more (parseValid room bytes) (parseValid more bytes) := by
  have hParse : Eases room more (parse room bytes) (parse more bytes) := by
    refine Eases.bind (.inl rfl) fun first => Eases.bind (.inl rfl) fun second => ?_
    exact eases_readSections hMore _ _
  exact (hParse.mapError _).bind fun _ => .inl rfl

end RecordWasm.Wasm.Reserving
