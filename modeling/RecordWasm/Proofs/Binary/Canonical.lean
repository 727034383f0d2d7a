import RecordWasm.Proofs.Binary.Modules
import RecordWasm.Proofs.Binary.Spending

/-!
# What is read can be written and read again

Whatever bytes instructions or a module are read from, the result is well formed and all its parts
have sizes of 32 bits, because nothing is written in more bytes than it was read from.  So it is
encoded to bytes that are read as the same instructions or module, even if the first bytes were not
the ones that the writer gives.
-/

namespace RecordWasm.Wasm

open Binary

theorem and_memoryFlag_cleared (align : UInt32) :
    (align &&& ~~~Immediate.memoryFlag) &&& Immediate.memoryFlag = 0 := by
  apply UInt32.toBitVec_inj.1
  ext place hPlace
  simp

/-- The flag of an alignment can be put back. -/
theorem restore_memoryFlag {align : UInt32} (hFlag : align &&& Immediate.memoryFlag ≠ 0) :
    (align &&& ~~~Immediate.memoryFlag) ||| Immediate.memoryFlag = align := by
  -- The flag is one bit, so an alignment that meets it has that bit.
  have hPower : Immediate.memoryFlag.toBitVec = BitVec.twoPow 32 6 := by decide
  have hBit : align.toBitVec.getLsbD 6 = true := by
    by_contra hClear
    refine hFlag (UInt32.toBitVec_inj.1 ?_)
    rw [UInt32.toBitVec_and, hPower, BitVec.and_twoPow, if_neg hClear]
    rfl
  apply UInt32.toBitVec_inj.1
  rw [UInt32.toBitVec_or, UInt32.toBitVec_and, UInt32.toBitVec_not, hPower]
  ext place hPlace
  by_cases hSame : place = 6
  · subst hSame
    simpa [BitVec.getElem_twoPow] using hBit
  · simp [BitVec.getElem_twoPow, hSame]

theorem spends_memArg : Spends MemArg.read fun arg spent =>
    arg.align &&& Immediate.memoryFlag = 0 ∧ (Immediate.mem arg).encode.length ≤ spent := by
  rw [MemArg.read]
  refine spends_u32.bind fun align few hAlign => ?_
  split
  · rename_i hClear
    refine spends_u64.map fun offset more hOffset => ⟨hClear, ?_⟩
    have hFront := hAlign.length_u32
    have hBack := hOffset.length_u64
    rw [Immediate.encode, if_pos rfl, List.length_append]
    exact Nat.add_le_add hFront hBack
  · rename_i hFlag
    refine spends_u32.bind fun memory some hMemory => spends_u64.map fun offset more hOffset =>
      ⟨and_memoryFlag_cleared align, ?_⟩
    have hIndex := hMemory.length_u32
    have hBack := hOffset.length_u64
    rw [Immediate.encode, List.length_append]
    split
    · have hLess : (align &&& ~~~Immediate.memoryFlag).toNat ≤ align.toNat := by
        rw [UInt32.toNat_and]
        exact Nat.and_le_left
      have hFront := (hAlign.le hLess).length_u32
      simp only
      omega
    · have hFront := hAlign.length_u32
      simp only [restore_memoryFlag hFlag, List.length_append]
      omega

/-- An operation is read with an operand that belongs to it. -/
theorem condenses_operand (opcode : Opcode) :
    Condenses opcode.operand Immediate.encode fun immediate => opcode.admits immediate = true := by
  cases opcode with
  | block | loop | ifThen => exact spends_s32.map fun _ _ hLength => ⟨rfl, hLength⟩
  | br | brIf | call | localGet | localSet | localTee | globalGet | globalSet | memorySize
  | memoryGrow =>
      exact spends_u32.map fun _ _ hGroups => ⟨rfl, hGroups.length_u32⟩
  | load type | store type =>
      exact spends_memArg.map fun _ _ hArg => ⟨beq_iff_eq.2 hArg.1, hArg.2⟩
  | const type =>
      cases type with
      | i32 => exact spends_s32.map fun _ _ hLength => ⟨rfl, hLength⟩
      | i64 => exact spends_s64.map fun _ _ hLength => ⟨rfl, hLength⟩
      | f32 => exact spends_f32.map fun _ _ hLength => ⟨rfl, Nat.le_of_eq hLength⟩
      | f64 => exact spends_f64.map fun _ _ hLength => ⟨rfl, Nat.le_of_eq hLength⟩
  | _ => exact .pure ⟨rfl, Nat.le_refl 0⟩

/-- One instruction after the other is decoded to a well-formed one. -/
theorem wellFormed_of_decodeUpTo {count : Nat} {cursor : Cursor} {instrs : List Instr}
    (hDecode : Instr.decodeUpTo count cursor = .ok instrs) :
    ∀ instr ∈ instrs, instr.wellFormed = true := by
  induction count generalizing cursor instrs with
  | zero =>
      cases hDecode
      simp
  | succ count ih =>
      rw [Instr.decodeUpTo] at hDecode
      split at hDecode
      · cases hDecode
        simp
      · split at hDecode
        · cases hDecode
        · rename_i opcode hOpcode
          split at hDecode
          · cases hDecode
          · rename_i immediate next hOperand
            obtain ⟨rest, hRest, hInstrs⟩ := bind_ok.1 hDecode
            cases pure_ok.1 hInstrs
            obtain ⟨spent, -, -, hAdmits, -⟩ := condenses_operand opcode _ _ _ hOperand
            refine List.forall_mem_cons.2 ⟨?_, ih hRest⟩
            rw [Instr.wellFormed, hOpcode]
            exact hAdmits

/-- Instructions and bytes: well-formed instructions are read back from their bytes, and whatever
bytes are read as instructions, these are well formed and read back from their own bytes. -/
theorem Instr.decodes_wellFormed :
    (∀ instrs : List Instr, (∀ instr ∈ instrs, instr.wellFormed = true) →
      Instr.decodeAll (Instr.encodeAll instrs) = .ok instrs) ∧
    ∀ (code : List UInt8) (instrs : List Instr), Instr.decodeAll code = .ok instrs →
      (∀ instr ∈ instrs, instr.wellFormed = true) ∧
      Instr.decodeAll (Instr.encodeAll instrs) = .ok instrs := by
  refine ⟨fun instrs => decodeAll_encodeAll, fun code instrs hDecode => ?_⟩
  have hFormed := wellFormed_of_decodeUpTo hDecode
  exact ⟨hFormed, decodeAll_encodeAll hFormed⟩

/-- A signalling number that is none, a block without a result and a load from a further memory are
read back, and a number in more groups than it needs is read as one that is written in fewer. -/
theorem Instr.decodes_wellFormed_flagged :
    let instrs := [f32Const 0x7FA00001, block (-64), i32Const (-7),
      (Opcode.load .i64).with (.mem ⟨3, 0xFFFFFFFFFF, 2⟩), close]
    let code : List UInt8 := [0x41, 0xF9, 0xFF, 0x7F, 0x28, 0x42, 0x00, 0x04]
    let found := [i32Const (-7), (Opcode.load .i32).with (.mem ⟨2, 4, 0⟩)]
    Instr.decodeAll (Instr.encodeAll instrs) = .ok instrs ∧ Instr.decodeAll code = .ok found ∧
      Instr.encodeAll found = [0x41, 0x79, 0x28, 0x02, 0x04] ∧
      Instr.decodeAll (Instr.encodeAll found) = .ok found := by
  intro instrs code found
  have hFound : Instr.decodeAll code = .ok found := rfl
  exact ⟨decodes_wellFormed.1 instrs (by decide), hFound, by decide,
    (decodes_wellFormed.2 code found hFound).2⟩

section Items

variable {α : Type} {relation : α → Nat → Prop}

theorem spends_lift {read : Read α} (hRead : Spends read relation)
    (cause : ReadError → SectionError) : Spends (liftRead cause read) relation := by
  intro cursor value next hValue
  rw [liftRead] at hValue
  split at hValue
  · rename_i found stop hFound
    cases hValue
    exact hRead _ _ _ hFound
  · cases hValue

theorem spends_itemsFrom {item : Nat → ReadSection α} {write : α → List UInt8} {good : α → Prop}
    (hItem : ∀ index, Condenses (item index) write good) (index count : Nat) :
    Spends (itemsFrom item index count) (Listed write good count) := by
  induction count generalizing index with
  | zero => exact .pure .nil
  | succ count ih =>
      exact (hItem index).bind fun first few hFirst =>
        (ih (index + 1)).map fun rest more hRest => hRest.cons hFirst.1 hFirst.2

/-- Items that are written in a byte at least are no more than the bytes that they are read from. -/
theorem count_le_of_listed {write : α → List UInt8} {good : α → Prop} {count spent : Nat}
    {list : List α} (hList : Listed write good count list spent)
    (hWrite : ∀ one, 1 ≤ (write one).length) :
    count ≤ spent := by
  obtain ⟨rfl, -, hSpent⟩ := hList
  refine le_trans ?_ hSpent
  rw [List.length_flatMap]
  simpa using List.length_le_sum_of_one_le (list.map fun one => (write one).length)
    (by simpa using fun one _ => hWrite one)

theorem condenses_items {item : Nat → ReadSection α} {write : α → List UInt8} {good : α → Prop}
    (hItem : ∀ index, Condenses (item index) write good) :
    Condenses (items item) (Write.sequence write) fun list => ∀ one ∈ list, good one :=
  (spends_lift spends_u32 .read).bind fun _ _ hNumber =>
    (spends_itemsFrom hItem 0 _).mono fun _ _ hList => hList.sequence hNumber

end Items

theorem condenses_valType : Condenses (do return ⟨← Read.byte⟩) ValType.encode fun _ => True :=
  Spends.byte.map fun _ _ hSpent => ⟨trivial, Nat.le_of_eq hSpent.symm⟩

theorem condenses_valTypes :
    Condenses ValType.readAll (Write.sequence ValType.encode) fun _ => True :=
  (condenses_times condenses_valType).mono fun _ _ hList => ⟨trivial, hList.2⟩

theorem condenses_funcType (index : Nat) :
    Condenses (FuncType.read index) FuncType.encode fun _ => True := by
  rw [FuncType.read]
  refine (spends_lift Spends.byte .read).bind fun form one hOne => ?_
  split
  · exact .throw_bind _
  · refine (spends_lift condenses_valTypes _).bind fun params few hParams =>
      (spends_lift condenses_valTypes _).map fun results more hResults => ⟨trivial, ?_⟩
    simp only [FuncType.encode, List.length_cons, List.length_append]
    omega

theorem condenses_limits : Condenses Limits.read Limits.encode fun _ => True := by
  rw [Limits.read]
  refine (spends_lift Spends.byte .read).bind fun flags one hOne =>
    (spends_lift spends_u64 .read).bind fun min few hMin => ?_
  have hLow := hMin.length_u64
  split
  · refine .pure ⟨trivial, ?_⟩
    simp only [Limits.encode, List.length_cons]
    omega
  · split
    · refine (spends_lift spends_u64 .read).map fun max more hMax => ⟨trivial, ?_⟩
      have hHigh := hMax.length_u64
      simp only [Limits.encode, List.length_cons, List.length_append]
      omega
    · exact .throw _

theorem condenses_globalType : Condenses GlobalType.read GlobalType.encode fun _ => True := by
  rw [GlobalType.read]
  refine (spends_lift Spends.byte .read).bind fun type one hOne =>
    (spends_lift Spends.byte .read).bind fun mutable other hOther => ?_
  split
  · exact .throw_bind _
  · refine .pure ⟨trivial, ?_⟩
    simp only [GlobalType.encode, List.length_cons, List.length_nil]
    omega

theorem spends_importNamed (module name : String) :
    Spends (Import.readNamed module name) fun item spent => item.desc.described = true ∧
      item.encode.length ≤ (Write.name module).length + (Write.name name).length + spent := by
  rw [Import.readNamed]
  refine (spends_lift Spends.byte .read).bind fun kind one hOne => ?_
  have hBytes (desc : ImportDesc) : (Import.encode ⟨module, name, desc⟩).length =
      (Write.name module).length + (Write.name name).length + 1 + desc.encode.length := by
    simp [Import.encode]
    omega
  split
  · refine (spends_lift spends_u32 .read).map fun type rest hType => ⟨rfl, ?_⟩
    have hDesc := hType.length_u32
    rw [hBytes, ImportDesc.encode]
    omega
  · split
    · refine condenses_limits.map fun limits rest hLimits => ⟨rfl, ?_⟩
      rw [hBytes, ImportDesc.encode]
      omega
    · split
      · refine condenses_globalType.map fun type rest hType => ⟨rfl, ?_⟩
        rw [hBytes, ImportDesc.encode]
        omega
      · exact .throw _

theorem condenses_import (index : Nat) :
    Condenses (Import.read index) Import.encode fun item => item.desc.described = true :=
  (spends_lift spends_name .read).bind fun module few hModule =>
    (spends_lift spends_name .read).bind fun name more hName =>
      (spends_importNamed module name).mono fun item rest hItem => ⟨hItem.1, by omega⟩

/-- An initializer is one constant and the closing byte. -/
def Initializes (init : List UInt8) : Prop :=
  ∃ constant : Instr, constant.isConstant = true ∧ init = Instr.encodeAll [constant, .close]

/-- What follows the operand of a constant. -/
theorem spends_closing {byte : UInt8} {operand : Immediate} {few : Nat}
    (hConstant : Instr.isConstant ⟨byte, operand⟩ = true) (hFew : operand.encode.length + 1 ≤ few) :
    Spends (do
      let close ← liftRead .read Read.byte
      if close ≠ Opcode.close.byte then throw SectionError.constUnterminated
      return byte :: (operand.encode ++ [close])) fun init more =>
        Initializes init ∧ init.length ≤ few + more := by
  refine (spends_lift Spends.byte .read).bind fun close last hLast => ?_
  split
  · exact .throw_bind _
  · rename_i hClose
    obtain rfl : close = Opcode.close.byte := not_not.1 hClose
    refine .pure ⟨⟨⟨byte, operand⟩, hConstant, ?_⟩, ?_⟩
    · simp [Instr.encodeAll, Instr.encode, Instr.close, Opcode.instr, Immediate.encode]
    · simp only [List.length_cons, List.length_append, List.length_nil]
      omega

/-- A constant is written back in its shortest form. -/
theorem condenses_constExpr : Condenses readConstExpr id Initializes := by
  rw [readConstExpr]
  refine (spends_lift Spends.byte .read).bind fun byte one hOne => ?_
  have hConstant {opcode : Opcode} {operand : Immediate} (hByte : Opcode.ofByte? byte = some opcode)
      (hOpcode : opcode = .globalGet ∨ ∃ type, opcode = .const type)
      (hAdmits : opcode.admits operand = true) : Instr.isConstant ⟨byte, operand⟩ = true := by
    rw [Instr.isConstant, hByte]
    obtain rfl | ⟨type, rfl⟩ := hOpcode <;> exact hAdmits
  have hOperand (opcode : Opcode) (hByte : Opcode.ofByte? byte = some opcode)
      (hOpcode : opcode = .globalGet ∨ ∃ type, opcode = .const type) :
      Spends (do
        let operand ← liftRead .read opcode.operand
        let close ← liftRead .read Read.byte
        if close ≠ Opcode.close.byte then throw SectionError.constUnterminated
        return byte :: (operand.encode ++ [close])) fun init more =>
          Initializes init ∧ init.length ≤ one + more :=
    (spends_lift (condenses_operand opcode) .read).bind fun operand few hFew =>
      (spends_closing (hConstant hByte hOpcode hFew.1) (Nat.le_refl _)).mono
        fun init more hInit => ⟨hInit.1, by omega⟩
  split
  · rename_i type hByte
    exact hOperand _ hByte (.inr ⟨type, rfl⟩)
  · rename_i hByte
    exact hOperand _ hByte (.inl rfl)
  · exact .throw_bind _

theorem condenses_global (index : Nat) :
    Condenses (Global.read index) Global.encode fun item => Initializes item.init := by
  rw [Global.read]
  refine condenses_globalType.bind fun type few hType => ?_
  refine @Spends.map _ _ _ _ (fun init more => Initializes init ∧ init.length ≤ more) _ _ ?_
    fun init more hInit => ⟨hInit.1, ?_⟩
  · intro cursor value next hValue
    simp only at hValue
    split at hValue
    · rename_i hFound
      cases hValue
      exact condenses_constExpr _ _ _ hFound
    · cases hValue
  · simp only [Global.encode, List.length_append]
    omega

theorem spends_exportNamed (name : String) : Spends (Export.readNamed name) fun item spent =>
    item.encode.length ≤ (Write.name name).length + spent := by
  refine (spends_lift Spends.byte .read).bind fun kind one hOne =>
    (spends_lift spends_u32 .read).map fun target rest hTarget => ?_
  have hIndex := hTarget.length_u32
  simp only [Export.encode, List.length_append, List.length_cons]
  omega

theorem condenses_export (index : Nat) :
    Condenses (Export.read index) Export.encode fun _ => True :=
  (spends_lift spends_name .read).bind fun name few hName =>
    (spends_exportNamed name).mono fun item rest hItem => ⟨trivial, by omega⟩

theorem condenses_localRun : Condenses LocalRun.read LocalRun.encode fun _ => True :=
  spends_u32.bind fun count few hCount => Spends.byte.map fun type one hOne => by
    have hFew := hCount.length_u32
    refine ⟨trivial, ?_⟩
    simp only [LocalRun.encode, List.length_append, List.length_singleton]
    omega

/-- A body is written in no more bytes than it was cut from. -/
theorem length_of_ofBytes {bytes : List UInt8} {body : FuncBody}
    (hBody : FuncBody.ofBytes bytes = .ok body) : body.encode.length ≤ bytes.length := by
  rw [FuncBody.ofBytes] at hBody
  split at hBody
  · rename_i runs cursor hRuns
    cases hBody
    have hLocals := (condenses_times condenses_localRun).whole hRuns
    rw [FuncBody.encode, List.length_append]
    exact hLocals.2
  · cases hBody

theorem condenses_body (index : Nat) :
    Condenses (FuncBody.read index) (fun body => Write.vec body.encode) fun _ => True := by
  rw [FuncBody.read]
  refine (spends_lift spends_vec _).bind fun bytes spent hVec => ?_
  split
  · rename_i body hBody
    exact .pure ⟨trivial, hVec.2 _ (length_of_ofBytes hBody)⟩
  · exact .throw _

/-- A custom section is written in no more bytes than it was read from. -/
theorem length_of_custom {content : List UInt8} {custom : CustomSection} {next : Cursor}
    (hRead : CustomSection.read content.length (.start content) = .ok custom next) :
    (Write.name custom.name ++ custom.content).length ≤ content.length := by
  change EStateM.bind (liftRead .read Read.name) _ _ = _ at hRead
  rw [EStateM.bind] at hRead
  split at hRead
  · rename_i name middle hName
    obtain ⟨few, -, hPlace, hFew⟩ := spends_lift spends_name _ _ _ _ hName
    -- The position behind the name is the number of bytes that it took.
    have hMiddle : middle.position = few := by rw [hPlace, Cursor.start, Nat.zero_add]
    change EStateM.bind (liftRead .read (Read.bytes ((content.length : Int) - middle.position))) _
      _ = _ at hRead
    rw [EStateM.bind] at hRead
    split at hRead
    · rename_i rest last hRest
      cases hRead
      obtain ⟨-, -, -, hSize⟩ := spends_lift (spends_bytes _) _ _ _ _ hRest
      simp only [List.length_append]
      omega
    · cases hRead
  · cases hRead

/-! ## Modules -/

section Modules

variable {module next result : Module} {content : List UInt8} {cursor stop : Cursor}

/-- A section that lists items keeps a module well formed, and its items are written in no more
bytes than they were read from. -/
theorem spends_readInto {kind : Section} (hKind : kind ≠ .custom) (hFormed : module.WellFormed)
    (hSized : module.Sized) : Spends (kind.readInto content module) fun next spent =>
      spent < 2 ^ 32 → next.WellFormed ∧ next.Sized := by
  cases kind with
  | custom => exact absurd rfl hKind
  | types =>
      exact (condenses_items condenses_funcType).map fun types spent hTypes hFew =>
        ⟨{ hFormed with }, { hSized with types := by simp only; omega }⟩
  | imports =>
      exact (condenses_items condenses_import).map fun imports spent hImports hFew =>
        ⟨{ hFormed with imports := hImports.1 }, { hSized with imports := by simp only; omega }⟩
  | functions =>
      have hIndex (index : Nat) : Condenses (liftRead .read Read.u32) Write.u32 fun _ => True :=
        (spends_lift spends_u32 .read).mono fun _ _ hGroups => ⟨trivial, hGroups.length_u32⟩
      exact (condenses_items hIndex).map fun funcs spent hFuncs hFew =>
        ⟨{ hFormed with }, { hSized with funcs := by simp only; omega }⟩
  | memories =>
      exact (condenses_items fun _ => condenses_limits).map fun memories spent hMemories hFew =>
        ⟨{ hFormed with }, { hSized with memories := by simp only; omega }⟩
  | globals =>
      exact (condenses_items condenses_global).map fun globals spent hGlobals hFew =>
        ⟨{ hFormed with globals := hGlobals.1 }, { hSized with globals := by simp only; omega }⟩
  | exports =>
      exact (condenses_items condenses_export).map fun exports spent hExports hFew =>
        ⟨{ hFormed with }, { hSized with exports := by simp only; omega }⟩
  | code =>
      exact (condenses_items condenses_body).map fun code spent hCode hFew =>
        ⟨{ hFormed with }, { hSized with code := by simp only; omega }⟩

/-- A custom section is added to the ones before it. -/
theorem readInto_custom (hRead : Section.custom.readInto content module (.start content) =
    .ok next stop) : ∃ custom, next = { module with customs := module.customs ++ [custom] } ∧
      (Write.name custom.name ++ custom.content).length ≤ content.length := by
  change EStateM.bind (CustomSection.read content.length) _ _ = _ at hRead
  rw [EStateM.bind] at hRead
  split at hRead
  · rename_i custom last hCustom
    cases hRead
    exact ⟨custom, rfl, length_of_custom hCustom⟩
  · cases hRead

/-- One section keeps a module well formed and of 32-bit sizes. -/
theorem readInto_keeps {kind : Section} (hSize : content.length < 2 ^ 32)
    (hFormed : module.WellFormed) (hSized : module.Sized)
    (hRead : kind.readInto content module (.start content) = .ok next stop) :
    next.WellFormed ∧ next.Sized := by
  by_cases hKind : kind = .custom
  · subst hKind
    obtain ⟨custom, rfl, hLength⟩ := readInto_custom hRead
    refine ⟨{ hFormed with }, { hSized with customs := fun one hOne => ?_ }⟩
    rcases List.mem_append.1 hOne with hBefore | hLast
    · exact hSized.customs one hBefore
    · rw [List.mem_singleton.1 hLast]
      omega
  · obtain ⟨spent, hLength, -, hNext⟩ := spends_readInto hKind hFormed hSized _ _ _ hRead
    have hContent : content.length = spent + stop.rest.length := hLength
    exact hNext (by omega)

/-- Sections in turn keep a module well formed and of 32-bit sizes. -/
theorem parseSections_keeps {count : Nat} {last : UInt8} (hFormed : module.WellFormed)
    (hSized : module.Sized)
    (hParse : Module.parseSections count last module cursor = .ok result) :
    result.WellFormed ∧ result.Sized := by
  induction count generalizing last module cursor with
  | zero =>
      cases hParse
      exact ⟨hFormed, hSized⟩
  | succ count ih =>
      rw [Module.parseSections] at hParse
      split at hParse
      · cases hParse
        exact ⟨hFormed, hSized⟩
      · split at hParse
        · cases hParse
        · split at hParse
          · cases hParse
          · rename_i content next hContent
            obtain ⟨spent, -, -, hSize, -⟩ := spends_vec _ _ _ hContent
            split at hParse
            · cases hParse
            · split at hParse
              · cases hParse
              · rename_i hRead
                obtain ⟨hNext, hFits⟩ := readInto_keeps hSize hFormed hSized hRead
                exact ih hNext hFits hParse

/-- Whatever bytes are read as a module, the module is well formed and of 32-bit sizes. -/
theorem Module.parse_keeps {bytes : List UInt8} (hParse : Module.parse bytes = .ok result) :
    result.WellFormed ∧ result.Sized := by
  rw [Module.parse] at hParse
  obtain ⟨afterMagic, -, hVersion⟩ := bind_ok.1 hParse
  obtain ⟨afterVersion, -, hSections⟩ := bind_ok.1 hVersion
  refine parseSections_keeps ⟨by simp, by simp⟩ ?_ hSections
  exact ⟨by decide, by decide, by decide, by decide, by decide, by decide, by decide, by simp⟩

end Modules

/-- Modules and bytes: a well-formed module is read back from its bytes, and whatever bytes are read
as a module, it is well formed and read back from its own bytes, which are written again as they
are. -/
theorem Module.parses_wellFormed :
    (∀ module : Module, module.WellFormed → module.Sized →
      Module.parse module.encode = .ok module) ∧
    ∀ (bytes : List UInt8) (module : Module), Module.parse bytes = .ok module →
      module.WellFormed ∧ module.Sized ∧ Module.parse module.encode = .ok module ∧
      (Module.parse module.encode).map Module.encode = .ok module.encode := by
  refine ⟨fun module => Module.parse_encode, fun bytes module hParse => ?_⟩
  obtain ⟨hFormed, hSized⟩ := Module.parse_keeps hParse
  have hAgain := Module.parse_encode hFormed hSized
  refine ⟨hFormed, hSized, hAgain, ?_⟩
  rw [hAgain]
  rfl

/-- A module with imports of every kind is read back.  A module whose custom section comes first,
whose numbers take more groups than they need and whose types leave a byte over is read as one that
is written in fewer bytes. -/
theorem Module.parses_wellFormed_loose :
    let module : Module := {
      types := [⟨[.i32], []⟩]
      imports := [⟨"env", "log", .function 0⟩, ⟨"env", "heap", .memory (some ⟨1, some 9⟩)⟩,
        ⟨"env", "top", .global (some ⟨.i32, false⟩)⟩]
      funcs := [0]
      globals := [⟨⟨.i32, true⟩, [0x23, 0, 0x0B]⟩]
      exports := [⟨"run", .function, 1⟩]
      code := [⟨[⟨2, .i64⟩], [0x0B]⟩] }
    let bytes :
      List UInt8 :=
        [0, 0x61, 0x73, 0x6D, 1, 0, 0, 0, 0, 4, 1, 0x68, 7, 8, 1, 8, 0x81, 0, 0x60, 1, 0x7F, 0x80,
          0, 9, 6, 7, 1, 0x7F, 1, 0x41, 0xFF, 0x7F, 0x0B]
    let found : Module := {
      types := [⟨[.i32], []⟩]
      globals := [⟨⟨.i32, true⟩, [0x41, 0x7F, 0x0B]⟩]
      customs := [⟨"h", [7, 8]⟩] }
    Module.parse module.encode = .ok module ∧ Module.parse bytes = .ok found ∧
      found.encode.length < bytes.length ∧ Module.parse found.encode = .ok found := by
  intro module bytes found
  have hFound : Module.parse bytes = .ok found := by decide
  have hGlobal : ∀ item ∈ module.globals, Initializes item.init := by
    intro item hItem
    obtain rfl := List.mem_singleton.1 hItem
    exact ⟨.globalGet 0, rfl, rfl⟩
  have hSized : module.Sized := Module.sized_of_length (by decide +kernel)
  exact ⟨parses_wellFormed.1 module ⟨by decide, hGlobal⟩ hSized, hFound, by decide +kernel,
    (parses_wellFormed.2 bytes found hFound).2.2.1⟩

end RecordWasm.Wasm
