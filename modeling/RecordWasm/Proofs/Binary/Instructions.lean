import RecordWasm.Proofs.Binary.RoundTrip

/-!
# Instructions are read back

An instruction is well formed if its operation is known and its operand is the one that the
operation is read with.  A list of well-formed instructions is decoded from the bytes that it is
encoded to.
-/

namespace RecordWasm.Wasm

open Binary

/-- Whether an operand is of the kind that an operation is read with.  The alignment of a memory
access must not look like the announcement of a memory. -/
def Opcode.admits : Opcode → Immediate → Bool
  | .block, .block _ | .loop, .block _ | .ifThen, .block _ => true
  | .br, .branch _ | .brIf, .branch _ | .call, .call _ => true
  | .localGet, .local _ | .localSet, .local _ | .localTee, .local _ => true
  | .globalGet, .global _ | .globalSet, .global _ => true
  | .load _, .mem arg | .store _, .mem arg => arg.align &&& Immediate.memoryFlag == 0
  | .memorySize, .memory _ | .memoryGrow, .memory _ => true
  | .const .i32, .i32 _ | .const .i64, .i64 _ | .const .f32, .f32 _ | .const .f64, .f64 _ => true
  | .block, _ | .loop, _ | .ifThen, _ | .br, _ | .brIf, _ | .call, _ => false
  | .localGet, _ | .localSet, _ | .localTee, _ | .globalGet, _ | .globalSet, _ => false
  | .load _, _ | .store _, _ | .memorySize, _ | .memoryGrow, _ | .const _, _ => false
  | _, .none => true
  | _, _ => false

/-- Whether an instruction has a known operation and an operand that belongs to it. -/
def Instr.wellFormed (instr : Instr) : Bool :=
  (Opcode.ofByte? instr.opcode).any fun opcode => opcode.admits instr.immediate

@[simp] theorem Instr.wellFormed_with (opcode : Opcode) (immediate : Immediate) :
    (opcode.with immediate).wellFormed = opcode.admits immediate := by
  simp [wellFormed, Opcode.with, Opcode.ofByte?_byte]

@[simp] theorem Instr.wellFormed_instr (opcode : Opcode) :
    opcode.instr.wellFormed = opcode.admits .none :=
  wellFormed_with opcode .none

/-- The flag of an alignment can be taken off again. -/
theorem clear_memoryFlag {align : UInt32} (hClear : align &&& Immediate.memoryFlag = 0) :
    (align ||| Immediate.memoryFlag) &&& ~~~Immediate.memoryFlag = align := by
  apply UInt32.toBitVec_inj.1
  ext place hPlace
  have hBit := congrArg (fun word : UInt32 => word.toBitVec.getLsbD place) hClear
  simp at hBit ⊢
  grind

/-- The flag of an alignment is seen. -/
theorem or_memoryFlag_ne_zero (align : UInt32) :
    (align ||| Immediate.memoryFlag) &&& Immediate.memoryFlag ≠ 0 := by
  have hSame : (align ||| Immediate.memoryFlag) &&& Immediate.memoryFlag =
      Immediate.memoryFlag := by
    apply UInt32.toBitVec_inj.1
    ext place hPlace
    simp
    grind
  rw [hSame]
  decide

theorem takes_memArg {arg : MemArg} (hClear : arg.align &&& Immediate.memoryFlag = 0) :
    Takes MemArg.read (Immediate.mem arg).encode arg := by
  obtain ⟨align, offset, memory⟩ := arg
  rw [MemArg.read, Immediate.encode]
  by_cases hMemory : memory = 0
  · subst hMemory
    rw [if_pos rfl]
    refine (Takes.u32 align).bind ?_
    rw [if_pos hClear]
    exact (Takes.u64 offset).map fun offset => MemArg.mk align offset 0
  · rw [if_neg hMemory, List.append_assoc]
    refine (Takes.u32 _).bind ?_
    rw [if_neg (or_memoryFlag_ne_zero align), clear_memoryFlag hClear]
    exact (Takes.u32 memory).bind ((Takes.u64 offset).map fun offset =>
      MemArg.mk align offset memory)

/-- The operand that belongs to an operation is read back. -/
theorem takes_operand {opcode : Opcode} {immediate : Immediate}
    (hAdmits : opcode.admits immediate = true) :
    Takes opcode.operand immediate.encode immediate := by
  cases opcode with
  | block | loop | ifThen =>
      cases immediate <;> first | (cases hAdmits; done) | exact (Takes.s32 _).map Immediate.block
  | br | brIf =>
      cases immediate <;> first | (cases hAdmits; done) | exact (Takes.u32 _).map Immediate.branch
  | call =>
      cases immediate <;> first | (cases hAdmits; done) | exact (Takes.u32 _).map Immediate.call
  | localGet | localSet | localTee =>
      cases immediate <;> first | (cases hAdmits; done) | exact (Takes.u32 _).map Immediate.local
  | globalGet | globalSet =>
      cases immediate <;> first | (cases hAdmits; done) | exact (Takes.u32 _).map Immediate.global
  | memorySize | memoryGrow =>
      cases immediate <;> first | (cases hAdmits; done) | exact (Takes.u32 _).map Immediate.memory
  | load type | store type =>
      cases immediate <;> first
        | cases hAdmits
        | exact (takes_memArg (by simpa [Opcode.admits] using hAdmits)).map Immediate.mem
  | const type =>
      cases type with
      | i32 =>
          cases immediate <;> first | (cases hAdmits; done) | exact (Takes.s32 _).map Immediate.i32
      | i64 =>
          cases immediate <;> first | (cases hAdmits; done) | exact (Takes.s64 _).map Immediate.i64
      | f32 =>
          cases immediate <;> first | (cases hAdmits; done) | exact (Takes.f32 _).map Immediate.f32
      | f64 =>
          cases immediate <;> first | (cases hAdmits; done) | exact (Takes.f64 _).map Immediate.f64
  | _ => cases immediate <;> first | (cases hAdmits; done) | exact Takes.pure _

/-- Well-formed instructions are decoded one after the other. -/
theorem decodeUpTo_encodeAll {instrs : List Instr}
    (hFormed : ∀ instr ∈ instrs, instr.wellFormed = true) (count position : Nat)
    (hCount : instrs.length ≤ count) :
    Instr.decodeUpTo count ⟨Instr.encodeAll instrs, position⟩ = .ok instrs := by
  induction instrs generalizing count position with
  | nil => cases count <;> rfl
  | cons instr rest ih =>
      obtain ⟨byte, immediate⟩ := instr
      obtain ⟨count, rfl⟩ : ∃ more, count = more + 1 :=
        ⟨count - 1, by rw [List.length_cons] at hCount; omega⟩
      have hFirst := hFormed _ List.mem_cons_self
      rw [Instr.wellFormed, Option.any_eq_true] at hFirst
      obtain ⟨opcode, hOpcode, hAdmits⟩ := hFirst
      simp only at hOpcode hAdmits
      have hRest := ih (fun other hOther => hFormed other (List.mem_cons_of_mem _ hOther)) count
        (position + 1 + immediate.encode.length) (by rw [List.length_cons] at hCount; omega)
      have hBytes : Instr.encodeAll (⟨byte, immediate⟩ :: rest) =
          byte :: (immediate.encode ++ Instr.encodeAll rest) := rfl
      rw [hBytes, Instr.decodeUpTo]
      simp only [hOpcode, takes_operand hAdmits _ _, hRest]
      rfl

/-- Well-formed instructions are read back from their bytes. -/
theorem decodeAll_encodeAll {instrs : List Instr}
    (hFormed : ∀ instr ∈ instrs, instr.wellFormed = true) :
    Instr.decodeAll (Instr.encodeAll instrs) = .ok instrs := by
  refine decodeUpTo_encodeAll hFormed _ _ ?_
  induction instrs with
  | nil => rfl
  | cons instr rest ih =>
      have hRest := ih fun other hOther => hFormed other (List.mem_cons_of_mem _ hOther)
      have hBytes : Instr.encodeAll (instr :: rest) = instr.encode ++ Instr.encodeAll rest := rfl
      rw [hBytes, List.length_append, Instr.encode, List.length_cons, List.length_cons]
      omega

end RecordWasm.Wasm
