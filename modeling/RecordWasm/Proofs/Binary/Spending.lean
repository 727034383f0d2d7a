import RecordWasm.Proofs.Binary.Instructions
import RecordWasm.Proofs.Binary.Numbers

/-!
# What is read is written in no more bytes

`Spends` is the counterpart of `Takes`: whatever bytes a reader meets, it relates the value that the
reader gives to the number of bytes that it takes for it.  Numbers may be read from more groups than
they need, and are never written in more groups than they were read from.
-/

namespace RecordWasm.Binary

/-- A reader in front of another. -/
theorem bind_apply {ε α β : Type} (first : EStateM ε Cursor α) (rest : α → EStateM ε Cursor β)
    (cursor : Cursor) : (first >>= rest) cursor =
      match first cursor with
      | .ok value next => rest value next
      | .error cause stopped => .error cause stopped := by
  change EStateM.bind first rest cursor = _
  rw [EStateM.bind]
  cases first cursor <;> rfl

/-- Whatever a reader gives is related to the number of bytes that are taken for it. -/
def Spends {ε α : Type} (read : EStateM ε Cursor α) (relation : α → Nat → Prop) : Prop :=
  ∀ cursor value next, read cursor = .ok value next → ∃ spent,
    cursor.rest.length = spent + next.rest.length ∧ next.position = cursor.position + spent ∧
      relation value spent

namespace Spends

variable {ε α β : Type} {read first : EStateM ε Cursor α} {relation between : α → Nat → Prop}

theorem pure {value : α} (hValue : relation value 0) :
    Spends (Pure.pure value : EStateM ε Cursor α) relation := by
  intro cursor found next hRead
  cases hRead
  exact ⟨0, (Nat.zero_add _).symm, rfl, hValue⟩

theorem throw (cause : ε) : Spends (throw cause : EStateM ε Cursor α) relation := by
  intro cursor value next hRead
  cases hRead

theorem throw_bind (cause : ε) {rest : α → EStateM ε Cursor β} {relation : β → Nat → Prop} :
    Spends ((MonadExcept.throw cause : EStateM ε Cursor α) >>= rest) relation := by
  intro cursor value next hRead
  cases hRead

theorem bind {rest : α → EStateM ε Cursor β} {relation : β → Nat → Prop}
    (hFirst : Spends first between)
    (hRest : ∀ value few, between value few → Spends (rest value) fun found more =>
      relation found (few + more)) : Spends (first >>= rest) relation := by
  intro cursor value next hRead
  rw [bind_apply] at hRead
  split at hRead
  · rename_i middle stop hMiddle
    obtain ⟨few, hFew, hPlace, hBetween⟩ := hFirst _ _ _ hMiddle
    obtain ⟨more, hMore, hLater, hRelation⟩ := hRest _ _ hBetween _ _ _ hRead
    exact ⟨few + more, by omega, by omega, hRelation⟩
  · cases hRead

theorem mono (hRead : Spends read between) (hWeaker : ∀ value spent, between value spent →
    relation value spent) : Spends read relation := by
  intro cursor value next hValue
  obtain ⟨spent, hLength, hPlace, hBetween⟩ := hRead _ _ _ hValue
  exact ⟨spent, hLength, hPlace, hWeaker _ _ hBetween⟩

theorem map {relation : β → Nat → Prop} {use : α → β} (hFirst : Spends first between)
    (hUse : ∀ value spent, between value spent → relation (use value) spent) :
    Spends (first >>= fun found => Pure.pure (use found)) relation :=
  hFirst.bind fun value spent hBetween => .pure (hUse value spent hBetween)

theorem byte : Spends Read.byte fun _ spent => spent = 1 := by
  intro cursor value next hRead
  rw [Read.byte] at hRead
  split at hRead
  · cases hRead
  · rename_i first rest hBytes
    cases hRead
    exact ⟨1, by rw [hBytes, List.length_cons, Nat.add_comm], rfl, rfl⟩

theorem take (count : Nat) :
    Spends (Read.take count) fun bytes spent => bytes.length = count ∧ spent = count := by
  intro cursor value next hRead
  rw [Read.take] at hRead
  split at hRead
  · cases hRead
  · rename_i hEnough
    cases hRead
    rw [List.length_take] at hEnough
    refine ⟨count, ?_, rfl, ?_, rfl⟩
    · rw [List.length_drop]
      omega
    · rw [List.length_take]
      omega

theorem failHere (cause : Nat → ReadError) {relation : α → Nat → Prop} :
    Spends (Read.failHere cause : Read α) relation := by
  intro cursor value next hRead
  cases hRead

/-- A reader of a number spends the bytes of the number. -/
theorem number {read : Read α} {groups : Nat} {Accepts : List UInt8 → Prop} {value : List UInt8 → α}
    (hAnswers : ∀ cursor, Answers groups Accepts value cursor (read cursor))
    (hRelation : ∀ number, Number number → relation (value number) number.length) :
    Spends read relation := by
  intro cursor found next hRead
  have hResult := hAnswers cursor
  rw [hRead] at hResult
  cases hResult with
  | @taken number rest position hNumber hShort hAccepts =>
      exact ⟨number.length, List.length_append, rfl, hRelation number hNumber⟩

end Spends

theorem length_unsignedGroups_le {more value groups : Nat} (hFits : value < 128 ^ (groups + 1)) :
    (Write.unsignedGroups more value).length ≤ groups + 1 := by
  induction groups generalizing more value with
  | zero =>
      have hSmall : value < 128 := by simpa using hFits
      cases more with
      | zero => exact Nat.le_refl 1
      | succ more => rw [Write.unsignedGroups, if_pos hSmall]; exact Nat.le_refl 1
  | succ groups ih =>
      cases more with
      | zero => exact Nat.le_add_left 1 _
      | succ more =>
          rw [Write.unsignedGroups]
          split
          · exact Nat.le_add_left 1 _
          · have hRest := @ih more (value / 128) (by rw [Nat.pow_succ] at hFits; omega)
            rw [List.length_cons]
            omega

section Unsigned

/-- A number is written in so many groups at most. -/
def Groups (value spent : Nat) : Prop := ∃ more, spent = more + 1 ∧ value < 128 ^ (more + 1)

variable {value spent : Nat}

theorem Groups.le (hGroups : Groups value spent) {less : Nat} (hLess : less ≤ value) :
    Groups less spent := by
  obtain ⟨more, rfl, hValue⟩ := hGroups
  exact ⟨more, rfl, Nat.lt_of_le_of_lt hLess hValue⟩

theorem Groups.length_u64 {number : UInt64} (hGroups : Groups number.toNat spent) :
    (Write.u64 number).length ≤ spent := by
  obtain ⟨more, rfl, hValue⟩ := hGroups
  exact length_unsignedGroups_le hValue

theorem Groups.length_u32 {number : UInt32} (hGroups : Groups number.toNat spent) :
    (Write.u32 number).length ≤ spent :=
  Groups.length_u64 (by rwa [UInt32.toNat_toUInt64])

theorem spends_unsigned (groups : Nat) : Spends (Read.unsignedGroups groups 0 0) Groups := by
  refine .number (answers_unsigned groups) fun number hNumber => ?_
  have hPositive := hNumber.length_pos
  refine ⟨number.length - 1, by omega, ?_⟩
  rw [Nat.sub_add_cancel hPositive]
  exact hNumber.unsignedValue_lt

theorem spends_u32 : Spends Read.u32 fun number spent => Groups number.toNat spent := by
  rw [Read.u32]
  refine (spends_unsigned _).bind fun value few hGroups => ?_
  split
  · exact .pure (hGroups.le (by simp [Nat.mod_le]))
  · exact .failHere _

theorem spends_u64 : Spends Read.u64 fun number spent => Groups number.toNat spent :=
  (spends_unsigned _).map fun value spent hGroups => hGroups.le (by simp [Nat.mod_le])

end Unsigned

theorem length_signedGroups_le {more groups : Nat} {value : Int}
    (hLow : -(64 * 128 ^ groups) ≤ value) (hHigh : value < 64 * 128 ^ groups) :
    (Write.signedGroups more value).length ≤ groups + 1 := by
  induction groups generalizing more value with
  | zero =>
      cases more with
      | zero => exact Nat.le_refl 1
      | succ more => rw [Write.signedGroups, if_pos ⟨by omega, by omega⟩]; exact Nat.le_refl 1
  | succ groups ih =>
      cases more with
      | zero => exact Nat.le_add_left 1 _
      | succ more =>
          rw [Write.signedGroups]
          split
          · exact Nat.le_add_left 1 _
          · rw [Int.pow_succ] at hLow hHigh
            have hRest := @ih more (value / 128) (by omega) (by omega)
            rw [List.length_cons]
            omega

/-- Signed numbers are read from as many groups as hold them. -/
theorem spends_signedGroups (groups : Nat) :
    Spends (Read.signedGroups groups 0 0) fun value spent => ∃ more, spent = more + 1 ∧
      -(64 * 128 ^ more) ≤ value ∧ value < 64 * 128 ^ more := by
  refine .number (answers_signed groups) fun number hNumber => ?_
  have hPositive := hNumber.length_pos
  exact ⟨number.length - 1, by omega, hNumber.signedValue_bounds⟩

/-- A signed number whose low bits are kept is still written in so many groups. -/
theorem spends_signed {α : Type} {ofInt : Int → α} {toInt : α → Int} {bits groups : Nat}
    (hBits : 64 * 128 ^ groups ≤ 2 ^ bits)
    (hSame : ∀ value, -(2 ^ bits) ≤ value → value < 2 ^ bits → toInt (ofInt value) = value)
    (hBounds : ∀ number, -(64 * 128 ^ (groups + 1)) ≤ toInt number ∧
      toInt number < 64 * 128 ^ (groups + 1)) (budget : Nat) :
    Spends (do return ofInt (← Read.signedGroups budget 0 0)) fun number spent =>
      (Write.signedGroups 9 (toInt number)).length ≤ spent := by
  refine (spends_signedGroups budget).map ?_
  rintro value _ ⟨more, rfl, hLow, hHigh⟩
  rcases Nat.lt_or_ge groups more with hMany | hFew
  · have hLength := @length_signedGroups_le 9 (groups + 1) _ (hBounds (ofInt value)).1
      (hBounds (ofInt value)).2
    omega
  · have hPower : (64 * 128 ^ more : Int) ≤ 2 ^ bits := by
      have hNat :=
        Nat.le_trans (Nat.mul_le_mul_left 64 (Nat.pow_le_pow_right (by decide) hFew)) hBits
      exact_mod_cast hNat
    rw [hSame value (by omega) (by omega)]
    exact length_signedGroups_le hLow hHigh

theorem spends_s32 : Spends Read.s32 fun number spent => (Write.s32 number).length ≤ spent := by
  refine (@spends_signed _ Int32.ofInt Int32.toInt 31 3 (by decide) ?_ ?_ _).mono ?_
  · intro value hLow hHigh
    exact Int32.toInt_ofInt_of_le hLow hHigh
  · intro number
    have hLow := number.le_toInt
    have hHigh := number.toInt_lt
    omega
  · intro number spent hLength
    rwa [Write.s32, Write.s64, Int32.toInt_toInt64]

theorem spends_s64 : Spends Read.s64 fun number spent => (Write.s64 number).length ≤ spent := by
  refine @spends_signed _ Int64.ofInt Int64.toInt 63 8 (by decide) ?_ ?_ _
  · intro value hLow hHigh
    exact Int64.toInt_ofInt_of_le hLow hHigh
  · intro number
    have hLow := number.le_toInt
    have hHigh := number.toInt_lt
    omega

theorem spends_bytes (size : Int) :
    Spends (Read.bytes size) fun content _ => (content.length : Int) = size := by
  cases size with
  | ofNat count => exact (Spends.take count).mono fun content _ hTake => by rw [hTake.1]; rfl
  | negSucc count => exact .failHere _

theorem spends_f32 : Spends Read.f32 fun bits spent => (Write.f32 bits).length = spent :=
  (Spends.take 4).map fun digits spent hTake => by
    rw [Write.f32, Machine.length_littleEndian, hTake.2]

theorem spends_f64 : Spends Read.f64 fun bits spent => (Write.f64 bits).length = spent :=
  (Spends.take 8).map fun digits spent hTake => by
    rw [Write.f64, Machine.length_littleEndian, hTake.2]

/-- A vector has a length of 32 bits, and one that is no longer is written in no more bytes. -/
theorem spends_vec : Spends Read.vec fun content spent => content.length < 2 ^ 32 ∧
    ∀ shorter : List UInt8, shorter.length ≤ content.length →
      (Write.vec shorter).length ≤ spent := by
  rw [Read.vec]
  refine spends_u32.bind fun count few hGroups => (Spends.take _).mono ?_
  rintro content _ ⟨hLength, rfl⟩
  have hFew := count.toNat_lt
  refine ⟨by omega, fun shorter hShorter => ?_⟩
  have hCount : shorter.length.toUInt32.toNat = shorter.length := toNat_toUInt32 (by omega)
  have hLess : shorter.length.toUInt32.toNat ≤ count.toNat := by omega
  have hFront := (hGroups.le hLess).length_u32
  rw [Write.vec, List.length_append]
  omega

theorem toUTF8_of_fromUTF8? {content : List UInt8} {text : String}
    (hText : String.fromUTF8? ⟨content.toArray⟩ = some text) : text.toUTF8.toList = content := by
  rw [String.fromUTF8?] at hText
  split at hText
  · cases hText
    rw [ByteArray.toList, toList_loop]
    rfl
  · cases hText

theorem spends_name : Spends Read.name fun text spent => (Write.name text).length ≤ spent := by
  rw [Read.name]
  refine spends_vec.bind fun content few hVec => ?_
  rw [Read.text]
  split
  · rename_i text hText
    refine .pure ?_
    rw [Write.name, toUTF8_of_fromUTF8? hText]
    exact hVec.2 content (Nat.le_refl _)
  · exact .failHere _

section Sequences

/-- A reader gives good values, and each is written in no more bytes than it was read from. -/
def Condenses {ε α : Type} (read : EStateM ε Cursor α) (write : α → List UInt8) (good : α → Prop) :
    Prop :=
  Spends read fun value spent => good value ∧ (write value).length ≤ spent

variable {α : Type} {write : α → List UInt8} {good : α → Prop}

/-- What a reader gives for a whole byte string is written in no more bytes than that. -/
theorem Condenses.whole {ε : Type} {read : EStateM ε Cursor α} {content : List UInt8} {value : α}
    {next : Cursor} (hRead : Condenses read write good)
    (hWhole : read (.start content) = .ok value next) :
    good value ∧ (write value).length + next.rest.length ≤ content.length := by
  obtain ⟨spent, hLength, -, hGood, hWrite⟩ := hRead _ _ _ hWhole
  have hContent : content.length = spent + next.rest.length := hLength
  exact ⟨hGood, by omega⟩

/-- Items in turn are written in no more bytes than were taken for them. -/
def Listed (write : α → List UInt8) (good : α → Prop) (count : Nat) (list : List α) (spent : Nat) :
    Prop :=
  list.length = count ∧ (∀ one ∈ list, good one) ∧ (list.flatMap write).length ≤ spent

theorem Listed.nil : Listed write good 0 [] 0 := ⟨rfl, by simp, Nat.le_refl 0⟩

theorem Listed.cons {first : α} {rest : List α} {count few more : Nat} (hFirst : good first)
    (hFew : (write first).length ≤ few) (hRest : Listed write good count rest more) :
    Listed write good (count + 1) (first :: rest) (few + more) := by
  obtain ⟨rfl, hGood, hMore⟩ := hRest
  refine ⟨rfl, List.forall_mem_cons.2 ⟨hFirst, hGood⟩, ?_⟩
  rw [List.flatMap_cons, List.length_append]
  exact Nat.add_le_add hFew hMore

/-- Items behind their number. -/
theorem Listed.sequence {list : List α} {number : UInt32} {few more : Nat}
    (hNumber : Groups number.toNat few) (hList : Listed write good number.toNat list more) :
    (∀ one ∈ list, good one) ∧ (Write.sequence write list).length ≤ few + more := by
  obtain ⟨hCount, hGood, hMore⟩ := hList
  have hFew := hNumber.length_u32
  rw [Write.sequence, hCount, Nat.toUInt32_eq, UInt32.ofNat_toNat, List.length_append]
  exact ⟨hGood, Nat.add_le_add hFew hMore⟩

theorem spends_times {item : Read α} (hItem : Condenses item write good) (count : Nat) :
    Spends (Read.times item count) (Listed write good count) := by
  induction count with
  | zero => exact .pure .nil
  | succ count ih =>
      exact hItem.bind fun first few hFirst =>
        ih.map fun rest more hRest => hRest.cons hFirst.1 hFirst.2

/-- Items of raw bytes behind their number. -/
theorem condenses_times {item : Read α} (hItem : Condenses item write good) :
    Condenses (do Read.times item (← Read.u32).toNat) (Write.sequence write)
      fun list => ∀ one ∈ list, good one :=
  spends_u32.bind fun _ _ hNumber =>
    (spends_times hItem _).mono fun _ _ hList => hList.sequence hNumber

end Sequences

/-! ## What is left -/

/-- A reader leaves the bytes behind those that it takes, and its position counts them. -/
def Walks {ε α : Type} (read : EStateM ε Cursor α) : Prop :=
  ∀ cursor value next, read cursor = .ok value next → ∃ taken,
    cursor.rest = taken ++ next.rest ∧ next.position = cursor.position + taken.length

namespace Walks

variable {ε α β : Type}

theorem pure (value : α) : Walks (Pure.pure value : EStateM ε Cursor α) := by
  intro cursor found next hRead
  cases hRead
  exact ⟨[], rfl, rfl⟩

theorem bind {first : EStateM ε Cursor α} {rest : α → EStateM ε Cursor β} (hFirst : Walks first)
    (hRest : ∀ value, Walks (rest value)) : Walks (first >>= rest) := by
  intro cursor value next hRead
  rw [bind_apply] at hRead
  split at hRead
  · rename_i found stop hFound
    obtain ⟨few, hFew, hPlace⟩ := hFirst _ _ _ hFound
    obtain ⟨more, hMore, hLater⟩ := hRest _ _ _ _ hRead
    refine ⟨few ++ more, by rw [hFew, hMore, List.append_assoc], ?_⟩
    rw [hLater, hPlace, List.length_append, Nat.add_assoc]
  · cases hRead

theorem byte : Walks Read.byte := by
  intro cursor value next hRead
  rw [Read.byte] at hRead
  split at hRead
  · cases hRead
  · rename_i first rest hBytes
    cases hRead
    exact ⟨[_], hBytes, rfl⟩

theorem u32 : Walks Read.u32 := by
  have hNumber : Walks (Read.unsignedGroups (Read.maxGroups 32) 0 0) := by
    intro cursor value next hRead
    obtain ⟨number, -, hBytes, hPlace, -⟩ := (hRead ▸ answers_unsigned _ cursor).of_ok
    exact ⟨number, hBytes, hPlace⟩
  refine hNumber.bind fun value => ?_
  split
  · exact .pure _
  · intro cursor found next hRead
    cases hRead

theorem times {item : Read α} (hItem : Walks item) (count : Nat) :
    Walks (Read.times item count) := by
  induction count with
  | zero => exact .pure _
  | succ count ih => exact hItem.bind fun _ => ih.bind fun _ => .pure _

end Walks

end RecordWasm.Binary
