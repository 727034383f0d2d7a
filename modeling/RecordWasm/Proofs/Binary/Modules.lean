import RecordWasm.Proofs.Binary.Instructions
import RecordWasm.Proofs.Assembly.Module

/-!
# Modules are read back

A module whose imports are described, whose globals start out as one constant and whose sections
have sizes of 32 bits is read back from the bytes that it is encoded to.
-/

namespace RecordWasm.Wasm

open Binary Assembly

/-- Items that take a byte at least are fewer than the bytes of their sequence. -/
theorem count_lt_sequence {α : Type} {write : α → List UInt8} (list : List α)
    (hWrite : ∀ one, 1 ≤ (write one).length) :
    list.length < (Write.sequence write list).length := by
  have hCount := length_u32_pos list.length.toUInt32
  have hSum := List.length_le_sum_of_one_le (list.map fun one => (write one).length)
    (by simpa using fun one _ => hWrite one)
  rw [List.length_map] at hSum
  simp only [Write.sequence, List.length_append, List.length_flatMap]
  omega

/-- An item takes fewer bytes than its sequence. -/
theorem item_lt_sequence {α : Type} (write : α → List UInt8) {list : List α} {one : α}
    (hOne : one ∈ list) : (write one).length < (Write.sequence write list).length := by
  have hCount := length_u32_pos list.length.toUInt32
  have hSum := List.le_sum_of_mem (List.mem_map.2 ⟨one, hOne, rfl⟩ :
    (write one).length ∈ list.map fun one => (write one).length)
  simp only [Write.sequence, List.length_append, List.length_flatMap]
  omega

theorem takes_lift {α : Type} {read : Read α} {bytes : List UInt8} {value : α}
    (hTakes : Takes read bytes value) (cause : ReadError → SectionError) :
    Takes (liftRead cause read) bytes value := by
  intro rest position
  rw [liftRead, hTakes]

theorem takes_valTypes {types : List ValType} (hFew : types.length < 2 ^ 32) :
    Takes ValType.readAll (Write.sequence ValType.encode types) types := by
  have hTimes := @Takes.times _ (do return ⟨← Read.byte⟩) ValType.encode types
    fun type _ => (Takes.byte type.byte).map ValType.mk
  rw [← toNat_toUInt32 hFew] at hTimes
  exact (Takes.u32 _).bind hTimes

theorem takes_funcType {type : FuncType} (hSize : type.encode.length < 2 ^ 32) (index : Nat) :
    Takes (FuncType.read index) type.encode type := by
  have hBytes (types : List ValType) : (types.flatMap ValType.encode).length = types.length := by
    simp [List.length_flatMap, ValType.encode]
  simp only [FuncType.encode, Write.sequence, List.length_cons, List.length_append, hBytes] at hSize
  have hParams : type.params.length < 2 ^ 32 := by omega
  have hResults : type.results.length < 2 ^ 32 := by omega
  rw [FuncType.read, FuncType.encode]
  refine (takes_lift (Takes.byte funcTypeByte) .read).bind ?_
  rw [if_neg (by simp)]
  exact (takes_lift (takes_valTypes hParams) _).bind
    ((takes_lift (takes_valTypes hResults) _).map fun results => FuncType.mk type.params results)

theorem takes_limits (limits : Limits) : Takes Limits.read limits.encode limits := by
  obtain ⟨min, max⟩ := limits
  rw [Limits.read]
  cases max with
  | none =>
      change Takes _ ([0] ++ Write.u64 min) _
      refine (takes_lift (Takes.byte 0) .read).bind ?_
      exact (takes_lift (Takes.u64 min) .read).map fun min => Limits.mk min none
  | some max =>
      change Takes _ ([1] ++ (Write.u64 min ++ Write.u64 max)) _
      refine (takes_lift (Takes.byte 1) .read).bind ?_
      refine (takes_lift (Takes.u64 min) .read).bind ?_
      exact (takes_lift (Takes.u64 max) .read).map fun max => Limits.mk min (some max)

theorem takes_globalType (type : GlobalType) : Takes GlobalType.read type.encode type := by
  obtain ⟨⟨byte⟩, mutable⟩ := type
  rw [GlobalType.read]
  change Takes _ ([byte] ++ ([if mutable then 1 else 0] ++ [])) _
  refine (takes_lift (Takes.byte byte) .read).bind ?_
  refine (takes_lift (Takes.byte _) .read).bind ?_
  cases mutable <;> exact Takes.pure _

/-- Whether an import is described by what its kind asks for. -/
def ImportDesc.described : ImportDesc → Bool
  | .function _ => true
  | .memory limits => limits.isSome
  | .global type => type.isSome
  | .other _ => false

theorem length_name_le (text : String) : text.toUTF8.toList.length ≤ (Write.name text).length := by
  simp [Write.name, Write.vec]

theorem takes_import {item : Import} (hDesc : item.desc.described = true)
    (hSize : item.encode.length < 2 ^ 32) (index : Nat) :
    Takes (Import.read index) item.encode item := by
  obtain ⟨module, name, desc⟩ := item
  have hBytes : Import.encode ⟨module, name, desc⟩ =
      Write.name module ++ (Write.name name ++ ([desc.kind.byte] ++ desc.encode)) := by
    simp [Import.encode]
  rw [hBytes, List.length_append, List.length_append] at hSize
  have hModule : module.toUTF8.toList.length < 2 ^ 32 := by
    have hLow := length_name_le module
    omega
  have hName : name.toUTF8.toList.length < 2 ^ 32 := by
    have hLow := length_name_le name
    omega
  rw [Import.read, hBytes]
  refine (takes_lift (Takes.name hModule) .read).bind ?_
  refine (takes_lift (Takes.name hName) .read).bind ?_
  refine (takes_lift (Takes.byte _) .read).bind ?_
  cases desc with
  | function type =>
      exact (takes_lift (Takes.u32 type) .read).map fun type =>
        Import.mk module name (.function type)
  | memory limits =>
      obtain ⟨limits, rfl⟩ := Option.isSome_iff_exists.1 hDesc
      exact (takes_limits limits).map fun limits => Import.mk module name (.memory (some limits))
  | global type =>
      obtain ⟨type, rfl⟩ := Option.isSome_iff_exists.1 hDesc
      exact (takes_globalType type).map fun type => Import.mk module name (.global (some type))
  | other kind => cases hDesc

/-- The instructions that a global may start out as. -/
def Instr.isConstant (instr : Instr) : Bool :=
  match Opcode.ofByte? instr.opcode with
  | some (.const type) => (Opcode.const type).admits instr.immediate
  | some .globalGet => Opcode.globalGet.admits instr.immediate
  | _ => false

/-- A constant is a known operation with an operand that belongs to it. -/
theorem isConstant_cases {byte : UInt8} {operand : Immediate}
    (hConstant : Instr.isConstant ⟨byte, operand⟩ = true) : ∃ opcode : Opcode,
      (opcode = .globalGet ∨ ∃ type, opcode = .const type) ∧ Opcode.ofByte? byte = some opcode ∧
      opcode.admits operand = true := by
  rw [Instr.isConstant] at hConstant
  cases hByte : Opcode.ofByte? byte with
  | none => simp [hByte] at hConstant
  | some opcode =>
      simp only [hByte] at hConstant
      cases opcode with
      | const type => exact ⟨.const type, .inr ⟨type, rfl⟩, rfl, hConstant⟩
      | globalGet => exact ⟨.globalGet, .inl rfl, rfl, hConstant⟩
      | _ => cases hConstant

theorem takes_constExpr {constant : Instr} (hConstant : constant.isConstant = true) :
    Takes readConstExpr (Instr.encodeAll [constant, .close])
      (Instr.encodeAll [constant, .close]) := by
  obtain ⟨byte, operand⟩ := constant
  have hBytes : Instr.encodeAll [⟨byte, operand⟩, .close] =
      [byte] ++ (operand.encode ++ ([Opcode.close.byte] ++ [])) := by
    simp [Instr.encodeAll, Instr.encode, Instr.close, Opcode.instr, Immediate.encode]
  obtain ⟨opcode, hOpcode, hByte, hAdmits⟩ := isConstant_cases hConstant
  rw [readConstExpr, hBytes]
  refine (takes_lift (Takes.byte byte) .read).bind ?_
  rw [hByte]
  obtain rfl | ⟨type, rfl⟩ := hOpcode
  · refine (takes_lift (takes_operand hAdmits) .read).bind ?_
    refine (takes_lift (Takes.byte _) .read).bind ?_
    exact Takes.pure _
  · refine (takes_lift (takes_operand hAdmits) .read).bind ?_
    refine (takes_lift (Takes.byte _) .read).bind ?_
    exact Takes.pure _

theorem takes_global {item : Global} {constant : Instr} (hConstant : constant.isConstant = true)
    (hInit : item.init = Instr.encodeAll [constant, .close]) (index : Nat) :
    Takes (Global.read index) item.encode item := by
  obtain ⟨type, init⟩ := item
  obtain rfl : init = _ := hInit
  rw [Global.read, Global.encode]
  refine (takes_globalType type).bind ?_
  refine @Takes.map _ _ _ _ _ _ (fun rest position => ?_) fun init => Global.mk type init
  rw [takes_constExpr hConstant]

theorem takes_export {item : Export} (hSize : item.encode.length < 2 ^ 32) (index : Nat) :
    Takes (Export.read index) item.encode item := by
  obtain ⟨name, ⟨kind⟩, target⟩ := item
  have hBytes : Export.encode ⟨name, ⟨kind⟩, target⟩ =
      Write.name name ++ ([kind] ++ Write.u32 target) := by
    simp [Export.encode]
  have hName : name.toUTF8.toList.length < 2 ^ 32 := by
    have hLow := length_name_le name
    rw [hBytes, List.length_append] at hSize
    omega
  rw [Export.read, hBytes]
  refine (takes_lift (Takes.name hName) .read).bind ?_
  refine (takes_lift (Takes.byte kind) .read).bind ?_
  exact (takes_lift (Takes.u32 target) .read).map fun target => Export.mk name ⟨kind⟩ target

theorem length_vec_pos (body : FuncBody) : 1 ≤ (Write.vec body.encode).length := by
  have hCount := length_u32_pos body.encode.length.toUInt32
  rw [Write.vec, List.length_append]
  omega

theorem takes_localRun (run : LocalRun) : Takes LocalRun.read run.encode run := by
  obtain ⟨count, ⟨byte⟩⟩ := run
  rw [LocalRun.read, LocalRun.encode]
  exact (Takes.u32 count).bind ((Takes.byte byte).map fun byte => LocalRun.mk count ⟨byte⟩)

theorem takes_body {body : FuncBody} (hSize : (Write.vec body.encode).length < 2 ^ 32)
    (index : Nat) : Takes (FuncBody.read index) (Write.vec body.encode) body := by
  simp only [Write.vec, List.length_append] at hSize
  have hFew : body.locals.length < 2 ^ 32 := by
    have hCount := @count_lt_sequence _ LocalRun.encode body.locals
      (by simp [LocalRun.encode])
    simp only [FuncBody.encode, List.length_append] at hSize
    omega
  have hTimes := @Takes.times _ LocalRun.read LocalRun.encode body.locals
    fun run _ => takes_localRun run
  rw [← toNat_toUInt32 hFew] at hTimes
  have hRuns : Takes (Read.u32 >>= fun count => Read.times LocalRun.read count.toNat)
      (Write.sequence LocalRun.encode body.locals) body.locals := (Takes.u32 _).bind hTimes
  have hParts : FuncBody.ofBytes body.encode = .ok body := by
    rw [FuncBody.ofBytes]
    simp only [Cursor.start, FuncBody.encode, hRuns body.code 0]
  rw [FuncBody.read, ← List.append_nil (Write.vec _)]
  refine (takes_lift (Takes.vec (by omega)) _).bind ?_
  rw [hParts]
  exact Takes.pure body

/-! ## Sections -/

theorem takes_itemsFrom {α : Type} {item : Nat → ReadSection α} {write : α → List UInt8}
    {list : List α} (hItem : ∀ one ∈ list, ∀ index, Takes (item index) (write one) one)
    (index : Nat) : Takes (itemsFrom item index list.length) (list.flatMap write) list := by
  induction list generalizing index with
  | nil => exact Takes.pure []
  | cons first rest ih =>
      rw [List.flatMap_cons]
      exact (hItem first List.mem_cons_self index).bind
        ((ih (fun one hOne => hItem one (List.mem_cons_of_mem _ hOne)) (index + 1)).map
          (first :: ·))

/-- Items are read back behind their number. -/
theorem takes_items {α : Type} {item : Nat → ReadSection α} {write : α → List UInt8} {list : List α}
    (hSize : (Write.sequence write list).length < 2 ^ 32) (hWrite : ∀ one, 1 ≤ (write one).length)
    (hItem : ∀ one ∈ list, (write one).length < 2 ^ 32 →
      ∀ index, Takes (item index) (write one) one) :
    Takes (items item) (Write.sequence write list) list := by
  have hFew : list.length < 2 ^ 32 := Nat.lt_trans (count_lt_sequence list hWrite) hSize
  have hItems := takes_itemsFrom (fun one hOne =>
    hItem one hOne (Nat.lt_trans (item_lt_sequence write hOne) hSize)) 0
  rw [← toNat_toUInt32 hFew] at hItems
  exact (takes_lift (Takes.u32 _) .read).bind hItems

/-- A custom section is a name, and all that follows it. -/
theorem read_custom {custom : CustomSection}
    (hSize : (Write.name custom.name ++ custom.content).length < 2 ^ 32) :
    CustomSection.read (Write.name custom.name ++ custom.content).length
        (.start (Write.name custom.name ++ custom.content)) =
      .ok custom ⟨[], (Write.name custom.name).length + custom.content.length⟩ := by
  have hName : custom.name.toUTF8.toList.length < 2 ^ 32 := by
    simp only [Write.name, Write.vec, List.length_append] at hSize
    omega
  have hFront := takes_lift (Takes.name hName) SectionError.read custom.content 0
  have hContent := takes_lift (Takes.take custom.content) SectionError.read []
    (Write.name custom.name).length
  have hLeft : ((Write.name custom.name ++ custom.content).length : Int) -
      ((Write.name custom.name).length : Int) = .ofNat custom.content.length := by
    simp
  rw [Nat.zero_add] at hFront
  rw [List.append_nil] at hContent
  change EStateM.bind (liftRead .read Read.name) _ _ = _
  simp only [EStateM.bind, Cursor.start, hFront]
  change EStateM.bind (liftRead .read (Read.bytes _)) _ _ = _
  rw [hLeft]
  simp only [EStateM.bind, Read.bytes, hContent]
  rfl

/-- The sections that are left lead from one module to another, if the sections before them have
numbers up to a bound. -/
def Parses (bound : UInt8) (module : Module) (bytes : List UInt8) (result : Module) : Prop :=
  ∀ count last position, last ≤ bound → bytes.length ≤ count →
    Module.parseSections count last module ⟨bytes, position⟩ = .ok result

namespace Parses

variable {bound : UInt8} {module next result : Module} {rest : List UInt8}

theorem nil : Parses bound module [] module := by
  intro count last position _ _
  cases count <;> rfl

/-- One section in front of others. -/
theorem frame {kind : Section} {content : List UInt8} {cursor : Cursor} {last : UInt8}
    (hOrder : kind = .custom ∨ last < kind.id) (hSize : content.length < 2 ^ 32)
    (hRead : kind.readInto content module (.start content) = .ok next cursor) {count : Nat}
    (position : Nat) (hCount : (kind.frame content ++ rest).length ≤ count)
    (hRest : ∀ fewer, rest.length ≤ fewer → Module.parseSections fewer
      (if kind.id = Section.custom.id then last else kind.id) next
      ⟨rest, position + 1 + (Write.vec content).length⟩ = .ok result) :
    Module.parseSections count last module ⟨kind.frame content ++ rest, position⟩ = .ok result := by
  have hLong : (kind.frame content ++ rest).length =
      (Write.vec content).length + rest.length + 1 := by
    simp [Section.frame]
  obtain ⟨fewer, rfl⟩ : ∃ fewer, count = fewer + 1 := ⟨count - 1, by omega⟩
  have hPlace : ¬(kind.id ≠ Section.custom.id ∧ kind.id ≤ last) := by
    rintro ⟨hCustom, hLow⟩
    rcases hOrder with rfl | hLast
    · exact hCustom rfl
    · exact absurd hLow (UInt8.not_le.2 hLast)
  have hKnown : Section.ofId? kind.id = some kind := by cases kind <;> rfl
  have hBytes : kind.frame content ++ rest = kind.id :: (Write.vec content ++ rest) := rfl
  rw [hBytes, Module.parseSections]
  simp only [if_neg hPlace, Takes.vec hSize rest (position + 1), hKnown, hRead]
  exact hRest fewer (by omega)

/-- A section that lists items, or nothing if there are none. -/
theorem list {α : Type} {kind : Section} {write : α → List UInt8} {items : List α} {cursor : Cursor}
    (hBound : bound < kind.id) (hSize : (Write.sequence write items).length < 2 ^ 32)
    (hRead : kind.readInto (Write.sequence write items) module
      (.start (Write.sequence write items)) = .ok next cursor) (hNone : items = [] → next = module)
    (hRest : Parses kind.id next rest result) :
    Parses bound module (kind.list write items ++ rest) result := by
  intro count last position hLast hCount
  have hLow : last < kind.id := UInt8.lt_of_le_of_lt hLast hBound
  cases items with
  | nil =>
      rw [← hNone rfl]
      exact hRest count last position (UInt8.le_of_lt hLow) hCount
  | cons first others =>
      refine frame (.inr hLow) hSize hRead position hCount fun fewer hFewer => ?_
      have hNot : kind.id ≠ Section.custom.id := by
        intro hSame
        rw [hSame] at hLow
        exact absurd hLow (by simp [Section.id])
      rw [if_neg hNot]
      exact hRest fewer _ _ (UInt8.le_refl _) hFewer

/-- A custom section in front of others. -/
theorem custom {custom : CustomSection}
    (hSize : (Write.name custom.name ++ custom.content).length < 2 ^ 32)
    (hRest : Parses bound { module with customs := module.customs ++ [custom] } rest result) :
    Parses bound module (custom.encode ++ rest) result := by
  intro count last position hLast hCount
  have hRead : Section.custom.readInto (Write.name custom.name ++ custom.content) module
      (.start (Write.name custom.name ++ custom.content)) =
        .ok { module with customs := module.customs ++ [custom] }
          ⟨[], (Write.name custom.name).length + custom.content.length⟩ := by
    rw [Section.readInto]
    simp only [Bind.bind, EStateM.bind, read_custom hSize, Pure.pure, EStateM.pure]
  exact frame (.inl rfl) hSize hRead position hCount fun fewer hFewer =>
    hRest fewer last _ hLast hFewer

end Parses

/-- What a module has to satisfy to be read back: its imports are described and its globals start
out as one constant. -/
structure Module.WellFormed (module : Module) : Prop where
  imports : ∀ item ∈ module.imports, item.desc.described = true
  globals : ∀ item ∈ module.globals, ∃ constant : Instr, constant.isConstant = true ∧
    item.init = Instr.encodeAll [constant, .close]

/-- All sections of a module have sizes of 32 bits. -/
structure Module.Sized (module : Module) : Prop where
  types : (Write.sequence FuncType.encode module.types).length < 2 ^ 32
  imports : (Write.sequence Import.encode module.imports).length < 2 ^ 32
  funcs : (Write.sequence Write.u32 module.funcs).length < 2 ^ 32
  memories : (Write.sequence Limits.encode module.memories).length < 2 ^ 32
  globals : (Write.sequence Global.encode module.globals).length < 2 ^ 32
  exports : (Write.sequence Export.encode module.exports).length < 2 ^ 32
  code : (Write.sequence (fun body => Write.vec body.encode) module.code).length < 2 ^ 32
  customs : ∀ custom ∈ module.customs,
    (Write.name custom.name ++ custom.content).length < 2 ^ 32

theorem parses_customs {bound : UInt8} {module : Module} {customs : List CustomSection}
    (hSize : ∀ custom ∈ customs, (Write.name custom.name ++ custom.content).length < 2 ^ 32) :
    Parses bound module (customs.flatMap CustomSection.encode)
      { module with customs := module.customs ++ customs } := by
  induction customs generalizing module with
  | nil =>
      rw [List.append_nil]
      exact .nil
  | cons first rest ih =>
      rw [List.flatMap_cons]
      refine .custom (hSize first List.mem_cons_self) ?_
      have hRest := @ih { module with customs := module.customs ++ [first] } fun custom hCustom =>
        hSize custom (List.mem_cons_of_mem _ hCustom)
      rwa [List.append_assoc] at hRest

/-- The sections of a module are read one after the other. -/
theorem parses_sections {module : Module} (hFormed : module.WellFormed) (hSized : module.Sized) :
    Parses 0 {} (Section.types.list FuncType.encode module.types ++
      (Section.imports.list Import.encode module.imports ++
      (Section.functions.list Write.u32 module.funcs ++
      (Section.memories.list Limits.encode module.memories ++
      (Section.globals.list Global.encode module.globals ++
      (Section.exports.list Export.encode module.exports ++
      (Section.code.list (fun body => Write.vec body.encode) module.code ++
      module.customs.flatMap CustomSection.encode))))))) module := by
  obtain ⟨types, imports, funcs, memories, globals, exports, code, customs⟩ := module
  have hTypes := @takes_items _ FuncType.read _ types hSized.types (by simp [FuncType.encode])
    fun type _ hSize => takes_funcType hSize
  have hImports := @takes_items _ Import.read _ imports hSized.imports
    (by simp [Import.encode]; omega)
    fun item hItem hSize => takes_import (hFormed.imports item hItem) hSize
  have hFuncs := @takes_items _ (fun _ => Read.u32) _ funcs hSized.funcs length_u32_pos
    fun type _ _ _ => takes_lift (Takes.u32 type) .read
  have hMemories := @takes_items _ (fun _ => Limits.read) _ memories hSized.memories
    (fun limits => by rw [Limits.encode]; split <;> simp) fun limits _ _ _ => takes_limits limits
  have hGlobals := @takes_items _ Global.read _ globals hSized.globals
    (by simp [Global.encode, GlobalType.encode]) fun item hItem _ => by
      obtain ⟨constant, hConstant, hInit⟩ := hFormed.globals item hItem
      exact takes_global hConstant hInit
  have hExports := @takes_items _ Export.read _ exports hSized.exports
    (by simp [Export.encode]; omega) fun item _ hSize => takes_export hSize
  have hCode := @takes_items _ FuncBody.read _ code hSized.code
    length_vec_pos fun body _ hSize => takes_body hSize
  refine .list (by decide) hSized.types
    (hTypes.map fun types => { types : Module }).whole (fun hNone => by cases hNone; rfl) ?_
  refine .list (by decide) hSized.imports
    (hImports.map fun imports => { types, imports : Module }).whole
      (fun hNone => by cases hNone; rfl) ?_
  refine .list (by decide) hSized.funcs
    (hFuncs.map fun funcs => { types, imports, funcs : Module }).whole
      (fun hNone => by cases hNone; rfl) ?_
  refine .list (by decide) hSized.memories
    (hMemories.map fun memories => { types, imports, funcs, memories : Module }).whole
    (fun hNone => by cases hNone; rfl) ?_
  refine .list (by decide) hSized.globals
    (hGlobals.map fun globals => { types, imports, funcs, memories, globals : Module }).whole
    (fun hNone => by cases hNone; rfl) ?_
  refine .list (by decide) hSized.exports
    (hExports.map fun exports =>
      { types, imports, funcs, memories, globals, exports : Module }).whole
    (fun hNone => by cases hNone; rfl) ?_
  refine .list (by decide) hSized.code (hCode.map fun code =>
    { types, imports, funcs, memories, globals, exports, code : Module }).whole
    (fun hNone => by cases hNone; rfl) ?_
  exact parses_customs hSized.customs

theorem readHeaderWord_write (word : UInt32) (mismatch : ParseError) (rest : List UInt8)
    (position : Nat) :
    readHeaderWord word mismatch ⟨Write.u32le word ++ rest, position⟩ =
      .ok ⟨rest, position + (Write.u32le word).length⟩ := by
  rw [readHeaderWord, Takes.u32le word]
  simp only [if_true]

/-- A module is read back from the bytes that it is encoded to. -/
theorem Module.parse_encode {module : Module} (hFormed : module.WellFormed)
    (hSized : module.Sized) : Module.parse module.encode = .ok module := by
  have hSections := parses_sections hFormed hSized
  rw [Module.parse, bind_ok, Cursor.start]
  simp only [Module.encode, List.append_assoc]
  refine ⟨_, readHeaderWord_write magic _ _ _, ?_⟩
  rw [bind_ok]
  refine ⟨_, readHeaderWord_write version _ _ _, hSections _ _ _ (by decide) ?_⟩
  simp only [List.length_append]
  omega

/-- A section is no longer than the module that it stands in. -/
theorem sequence_le_list {α : Type} (kind : Section) (write : α → List UInt8) (list : List α) :
    (Write.sequence write list).length ≤ (kind.list write list).length + 1 := by
  cases list with
  | nil =>
      have hZero : (Write.u32 0).length = 1 := by decide
      simp [Write.sequence, hZero]
  | cons first rest =>
      simp only [Section.list, Section.frame, Write.vec, List.length_cons, List.length_append]
      omega

/-- The length of a module bounds the sizes of its sections. -/
theorem Module.sized_of_length {module : Module} (hLength : module.encode.length < 2 ^ 32) :
    module.Sized := by
  have hMagic : (Write.u32le magic).length = 4 := by decide
  simp only [Module.encode, List.length_append, hMagic] at hLength
  refine ⟨?_, ?_, ?_, ?_, ?_, ?_, ?_, fun custom hCustom => ?_⟩
  · have hLow := sequence_le_list .types FuncType.encode module.types
    omega
  · have hLow := sequence_le_list .imports Import.encode module.imports
    omega
  · have hLow := sequence_le_list .functions Write.u32 module.funcs
    omega
  · have hLow := sequence_le_list .memories Limits.encode module.memories
    omega
  · have hLow := sequence_le_list .globals Global.encode module.globals
    omega
  · have hLow := sequence_le_list .exports Export.encode module.exports
    omega
  · have hLow := sequence_le_list .code (fun body => Write.vec body.encode) module.code
    omega
  · have hLow := List.le_sum_of_mem (List.mem_map.2 ⟨custom, hCustom, rfl⟩ :
      custom.encode.length ∈ module.customs.map fun custom => custom.encode.length)
    rw [List.length_flatMap] at hLength
    simp only [CustomSection.encode, Section.frame, Write.vec, List.length_cons,
      List.length_append] at hLow hLength ⊢
    omega

end RecordWasm.Wasm
