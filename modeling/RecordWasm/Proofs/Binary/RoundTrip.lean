import RecordWasm.Proofs.Binary.Signed
import RecordWasm.Proofs.Machine.Bytes
import RecordWasm.Proofs.Success

/-!
# What is written is read back

`Takes` says that a reader takes exactly the given bytes from the front of its input, whatever
follows them, and gives a value.  Readers that are put together take what their parts take, one
after the other.
-/

namespace RecordWasm.Binary

/-- A reader takes the given bytes and gives a value. -/
def Takes {ε α : Type} (read : EStateM ε Cursor α) (bytes : List UInt8) (value : α) : Prop :=
  ∀ rest position,
    read ⟨bytes ++ rest, position⟩ = .ok value ⟨rest, position + bytes.length⟩

namespace Takes

variable {ε α β : Type} {bytes more : List UInt8} {value : α}

theorem pure (value : α) : Takes (pure value : EStateM ε Cursor α) [] value :=
  fun _ _ => rfl

theorem bind {first : EStateM ε Cursor α} {next : α → EStateM ε Cursor β} {result : β}
    (hFirst : Takes first bytes value) (hNext : Takes (next value) more result) :
    Takes (first >>= next) (bytes ++ more) result := by
  intro rest position
  change EStateM.bind first next _ = _
  rw [EStateM.bind, List.append_assoc, hFirst]
  simp only
  rw [hNext, List.length_append, Nat.add_assoc]

/-- A reader whose result is used at once. -/
theorem map {first : EStateM ε Cursor α} (hFirst : Takes first bytes value) (use : α → β) :
    Takes (first >>= fun found => Pure.pure (use found)) bytes (use value) := by
  have hUse : Takes (Pure.pure (use value) : EStateM ε Cursor β) [] (use value) := pure _
  rw [← List.append_nil bytes]
  exact hFirst.bind hUse

theorem byte (byte : UInt8) : Takes Read.byte [byte] byte := fun _ _ => rfl

/-- A reader takes all of its input. -/
theorem whole {read : EStateM ε Cursor α} (hTakes : Takes read bytes value) :
    read (.start bytes) = .ok value ⟨[], bytes.length⟩ := by
  have hRead := hTakes [] 0
  rwa [List.append_nil, Nat.zero_add] at hRead

theorem take (bytes : List UInt8) : Takes (Read.take bytes.length) bytes bytes := by
  intro rest position
  simp [Read.take]

end Takes

section Groups

variable {low : Nat} (hLow : low < 128)
include hLow

theorem toNat_lastGroup : low.toUInt8.toNat = low :=
  UInt8.toNat_ofNat_of_lt' (by rw [UInt8.size]; omega)

theorem toNat_moreGroup : (low + 128).toUInt8.toNat = low + 128 :=
  UInt8.toNat_ofNat_of_lt' (by rw [UInt8.size]; omega)

theorem lastGroup_lt : low.toUInt8 < 0x80 := by
  rw [UInt8.lt_iff_toNat_lt, toNat_lastGroup hLow]
  exact hLow

theorem not_moreGroup_lt : ¬(low + 128).toUInt8 < 0x80 := by
  rw [UInt8.lt_iff_toNat_lt, toNat_moreGroup hLow]
  exact Nat.not_lt.2 (Nat.le_add_left 128 low)

end Groups

/-- Groups of seven bits read back if the number fits in the groups that are looked at. -/
theorem unsignedGroups_write (rest : List UInt8) (budget more groups value : Nat)
    (hBudget : groups < budget) (hMore : groups ≤ more) (hHigh : value < 128 ^ (groups + 1))
    (shift done position : Nat) :
    Read.unsignedGroups budget shift done ⟨Write.unsignedGroups more value ++ rest, position⟩ =
      .ok (done + value * 2 ^ shift)
        ⟨rest, position + (Write.unsignedGroups more value).length⟩ := by
  induction groups generalizing budget more value shift done position with
  | zero =>
      obtain ⟨budget, rfl⟩ := Nat.exists_eq_add_of_lt hBudget
      have hSmall : value < 128 := by simpa using hHigh
      have hWrite : Write.unsignedGroups more value = [value.toUInt8] := by
        cases more with
        | zero => rw [Write.unsignedGroups, Nat.mod_eq_of_lt hSmall]
        | succ more => rw [Write.unsignedGroups, if_pos hSmall]
      rw [hWrite, Read.unsignedGroups]
      simp only [List.singleton_append, Read.byte, Bind.bind, EStateM.bind,
        if_pos (lastGroup_lt hSmall), toNat_lastGroup hSmall, Nat.mod_eq_of_lt hSmall,
        Nat.shiftLeft_eq]
      rfl
  | succ groups ih =>
      obtain ⟨more, rfl⟩ := Nat.exists_eq_add_of_lt hMore
      obtain ⟨budget, rfl⟩ := Nat.exists_eq_add_of_lt hBudget
      rw [Write.unsignedGroups]
      split
      · rename_i hSmall
        rw [Read.unsignedGroups]
        simp only [List.singleton_append, Read.byte, Bind.bind, EStateM.bind,
          if_pos (lastGroup_lt hSmall), toNat_lastGroup hSmall, Nat.mod_eq_of_lt hSmall,
          Nat.shiftLeft_eq]
        rfl
      · have hGroup : value % 128 < 128 := Nat.mod_lt value (by decide)
        have hDigit : (value % 128 + 128) % 128 = value % 128 := by omega
        have hRest := ih (groups + 1 + budget) (groups + more) (value / 128) (by omega) (by omega)
          (by rw [Nat.pow_succ] at hHigh; omega) (shift + 7) (done + (value % 128) <<< shift)
          (position + 1)
        have hSum : done + (value % 128) <<< shift + value / 128 * 2 ^ (shift + 7) =
            done + value * 2 ^ shift := by
          have hSplit := Nat.mod_add_div value 128
          rw [Nat.shiftLeft_eq, Nat.pow_add]
          linear_combination (2 ^ shift) * hSplit
        rw [hSum] at hRest
        rw [List.cons_append, Read.unsignedGroups]
        simp only [Read.byte, Bind.bind, EStateM.bind, if_neg (not_moreGroup_lt hGroup),
          toNat_moreGroup hGroup, hDigit, hRest, List.length_cons]
        rw [Nat.add_assoc, Nat.add_comm 1]

namespace Takes

theorem u32 (value : UInt32) : Takes Read.u32 (Write.u32 value) value := by
  intro rest position
  have hHigh := value.toNat_lt
  have hRead := unsignedGroups_write rest (Read.maxGroups 32) 9 4 value.toNat (by decide)
    (by decide) (by omega) 0 0 position
  rw [Nat.zero_add, Nat.pow_zero, Nat.mul_one] at hRead
  have hFits : value.toNat < 1 <<< 32 := by simpa [Nat.shiftLeft_eq] using hHigh
  rw [Read.u32, Write.u32, Write.u64, UInt32.toNat_toUInt64]
  simp only [Bind.bind, EStateM.bind, hRead, if_pos hFits]
  simp [Pure.pure, EStateM.pure]

theorem u64 (value : UInt64) : Takes Read.u64 (Write.u64 value) value := by
  intro rest position
  have hHigh := value.toNat_lt
  have hRead := unsignedGroups_write rest (Read.maxGroups 64) 9 9 value.toNat (by decide)
    (by decide) (by omega) 0 0 position
  rw [Nat.zero_add, Nat.pow_zero, Nat.mul_one] at hRead
  rw [Read.u64, Write.u64]
  simp only [Bind.bind, EStateM.bind, hRead]
  simp [Pure.pure, EStateM.pure]

theorem s32 (value : Int32) : Takes Read.s32 (Write.s32 value) value :=
  fun rest position => s32_write value rest position

theorem s64 (value : Int64) : Takes Read.s64 (Write.s64 value) value := by
  intro rest position
  have hLow := value.le_toInt
  have hHigh := value.toInt_lt
  have hRead := signedGroups_write rest (Read.maxGroups 64) 9 9 value.toInt (by decide)
    (by decide) (by omega) (by omega) 0 0 position
  rw [Read.s64]
  simp only [Bind.bind, EStateM.bind, Write.s64, hRead, Pure.pure, EStateM.pure]
  simp

end Takes

theorem littleEndian_write (count value : Nat) (hFits : value < 256 ^ count) :
    Read.littleEndian (Write.littleEndian count value) = value := by
  induction count generalizing value with
  | zero =>
      rw [Nat.pow_zero] at hFits
      rw [Nat.lt_one_iff.1 hFits]
      rfl
  | succ count ih =>
      have hRest := ih (value / 256) (by rw [Nat.pow_succ] at hFits; omega)
      rw [Write.littleEndian, Read.littleEndian, List.foldr_cons]
      rw [Read.littleEndian] at hRest
      rw [hRest, Nat.toUInt8_eq, UInt8.toNat_ofNat']
      omega

namespace Takes

/-- A word of so many bytes. -/
theorem littleEndian (count value : Nat) :
    Takes (Read.take count) (Write.littleEndian count value) (Write.littleEndian count value) := by
  have hTake := take (Write.littleEndian count value)
  rwa [Machine.length_littleEndian] at hTake

theorem u32le (value : UInt32) : Takes Read.u32le (Write.u32le value) value := by
  have hBytes := littleEndian_write 4 value.toNat value.toNat_lt
  have hTakes := (littleEndian 4 value.toNat).map fun digits => (Read.littleEndian digits).toUInt32
  rw [hBytes, Nat.toUInt32_eq, UInt32.ofNat_toNat] at hTakes
  exact hTakes

theorem f32 (bits : UInt32) : Takes Read.f32 (Write.f32 bits) bits := u32le bits

theorem f64 (bits : UInt64) : Takes Read.f64 (Write.f64 bits) bits := by
  have hBytes := littleEndian_write 8 bits.toNat bits.toNat_lt
  have hTakes := (littleEndian 8 bits.toNat).map fun digits => (Read.littleEndian digits).toUInt64
  rw [hBytes, Nat.toUInt64_eq, UInt64.ofNat_toNat] at hTakes
  exact hTakes

theorem vec {content : List UInt8} (hFits : content.length < 2 ^ 32) :
    Takes Read.vec (Write.vec content) content := by
  have hTake := take content
  rw [← toNat_toUInt32 hFits] at hTake
  exact (u32 content.length.toUInt32).bind hTake

end Takes

/-- The bytes of an array from a place on, latest first behind those before it. -/
theorem toList_loop (bytes : ByteArray) (place : Nat) (done : List UInt8) :
    ByteArray.toList.loop bytes place done = done.reverse ++ bytes.data.toList.drop place := by
  fun_induction ByteArray.toList.loop bytes place done with
  | case1 place done hInside ih =>
      have hPlace : place < bytes.data.toList.length := by simpa using hInside
      have hGet : bytes.get! place = bytes.data.toList[place] := by
        simp only [ByteArray.get!, Array.getElem_toList]
        exact getElem!_pos bytes.data place (by simpa using hPlace)
      rw [ih, hGet, List.reverse_cons, List.append_assoc, List.singleton_append,
        ← List.drop_eq_getElem_cons hPlace]
  | case2 place done hOutside =>
      have hPlace : bytes.data.toList.length ≤ place := by simpa using hOutside
      rw [List.drop_eq_nil_of_le hPlace, List.append_nil]

theorem fromUTF8?_toUTF8 (text : String) :
    String.fromUTF8? ⟨text.toUTF8.toList.toArray⟩ = some text := by
  have hSame : (⟨text.toUTF8.toList.toArray⟩ : ByteArray) = text.toByteArray := by
    rw [ByteArray.toList, toList_loop]
    rfl
  rw [hSame, String.fromUTF8?, dif_pos text.isValidUTF8]
  rfl

namespace Takes

theorem name {text : String} (hFits : text.toUTF8.toList.length < 2 ^ 32) :
    Takes Read.name (Write.name text) text := by
  rw [Read.name, Write.name, ← List.append_nil (Write.vec _)]
  refine (vec hFits).bind ?_
  rw [Read.text, fromUTF8?_toUTF8]
  exact Takes.pure text

theorem times {α : Type} {item : Read α} {write : α → List UInt8} {items : List α}
    (hItem : ∀ one ∈ items, Takes item (write one) one) :
    Takes (Read.times item items.length) (items.flatMap write) items := by
  induction items with
  | nil => exact Takes.pure []
  | cons first rest ih =>
      rw [List.flatMap_cons]
      exact (hItem first List.mem_cons_self).bind
        ((ih fun one hOne => hItem one (List.mem_cons_of_mem _ hOne)).map (first :: ·))

end Takes

end RecordWasm.Binary
