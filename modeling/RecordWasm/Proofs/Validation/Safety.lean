import RecordWasm.Proofs.Validation.Guarded
import RecordWasm.Proofs.Validation.Nesting
import RecordWasm.Proofs.Validation.Room

/-!
# Reading and validation end

Neither reading nor validation goes on for ever, and the only thing that stops the program is memory
that is asked for and not there.
-/

namespace RecordWasm.Validation

open Wasm Binary

namespace Attempt

variable {ε δ α β σ : Type}

/-- What goes on only after a success need only agree there. -/
theorem of_bind {first : Except ε α} {next : α → Attempt ε β} {rest : α → Except ε β}
    (hNext : ∀ value, first = .ok value → next value = of (rest value)) :
    (of first >>= next) = of (first >>= rest) := by
  cases first with
  | error cause => rfl
  | ok value => exact hNext value rfl

@[simp] theorem of_ok_bind (value : α) (next : α → Attempt ε β) :
    (of (.ok value) >>= next) = next value := rfl

@[simp] theorem mapError_of (describe : ε → δ) (result : Except ε α) :
    mapError describe (of result) = of (result.mapError describe) := rfl

@[simp] theorem ofHalt_failed (result : Except ε α) :
    ofHalt (result.mapError .failed) = of result := by
  cases result <;> rfl

@[simp] theorem mapError_ofHalt (describe : ε → δ) (result : Except (Halt ε) α) :
    mapError describe (ofHalt result) = ofHalt (result.mapError (Halt.map describe)) := by
  rcases result with (cause | cause) | value <;> rfl

/-- What goes on only after a success need only agree there. -/
theorem ofHalt_bind {first : Except (Halt ε) α} {next : α → Attempt ε β}
    {rest : α → Except (Halt ε) β}
    (hNext : ∀ value, first = .ok value → next value = ofHalt (rest value)) :
    (ofHalt first >>= next) = ofHalt (first >>= rest) := by
  rcases first with (cause | cause) | value
  · rfl
  · rfl
  · exact hNext value rfl

theorem pure_eq (value : α) : (pure value : Attempt ε α) = of (.ok value) := rfl

theorem run_ok {read : EStateM ε Cursor α} {describe : Cursor → ε → δ} {cursor next : Cursor}
    {value : α} (hRead : read cursor = .ok value next) :
    run read describe cursor = of (.ok (value, next)) := by
  rw [run, hRead]

theorem run_error {read : EStateM ε Cursor α} {describe : Cursor → ε → δ} {cursor stopped : Cursor}
    {cause : ε} (hRead : read cursor = .error cause stopped) :
    run read describe cursor = of (.error (describe stopped cause)) := by
  rw [run, hRead]

theorem get_eq {items : List α} {place : Nat} {item : α} (hItem : items[place]? = some item) :
    (get items place : Attempt ε α) = of (.ok item) := by
  rw [get, hItem]

theorem mem_rounds {round : σ → Attempt ε (α ⊕ σ)} {state : σ}
    {outcome : Except Crash (Except ε α) ⊕ σ} :
    outcome ∈ rounds round state ↔ (ExceptT.run (round state)).run.map settle = some outcome :=
  Part.mem_ofOption

open Classical in
/-- A loop is its first round and, unless that ends it, the loop from the state it comes to. -/
theorem loop_eq (round : σ → Attempt ε (α ⊕ σ)) (state : σ) :
    loop round state = round state >>= Sum.elim pure (loop round) := by
  have hSettled : loop round state =
      ((ExceptT.run (round state)).run.map settle).bind (Sum.elim some (loop round)) := by
    refine Option.ext fun (result : Except Crash (Except ε α)) => ?_
    have hLoop (state : σ) : loop round state = some result ↔ result ∈ (rounds round).fix state :=
      Part.mem_toOption
    rw [hLoop, PFun.mem_fix_iff]
    simp only [mem_rounds, ← hLoop]
    cases (ExceptT.run (round state)).run.map settle with
    | none => simp
    | some outcome => cases outcome <;> simp
  rw [hSettled]
  rcases round state with _ | cause | cause | value | next <;> rfl

end Attempt

namespace Guarded

open Attempt

/-- The loop over code ends, and finds the instructions. -/
theorem loop_decodeRound {length count : Nat} {found : List Instr} {cursor : Cursor}
    (hLength : cursor.position + cursor.rest.length = length)
    (hCount : cursor.rest.length ≤ count) :
    loop (decodeRound length) (found, cursor) =
      of ((found ++ ·) <$> Instr.decodeUpTo count cursor) := by
  induction count generalizing found cursor with
  | zero =>
      rw [loop_eq, decodeRound, if_neg (by omega), Instr.decodeUpTo]
      change of (.ok found) = of (.ok (found ++ []))
      rw [List.append_nil]
  | succ count ih =>
      rw [loop_eq, decodeRound, Instr.decodeUpTo]
      obtain ⟨bytes, position⟩ := cursor
      cases bytes with
      | nil =>
          rw [if_neg (by simpa using hLength.ge)]
          change of (.ok found) = of (.ok (found ++ []))
          rw [List.append_nil]
      | cons byte rest =>
          simp only [List.length_cons] at hLength hCount
          have hByte : Read.byte ⟨byte :: rest, position⟩ = .ok byte ⟨rest, position + 1⟩ := rfl
          rw [if_pos (show position < length by omega), run_ok hByte, of_ok_bind]
          simp only
          cases Opcode.ofByte? byte with
          | none => rfl
          | some opcode =>
              simp only
              cases hOperand : opcode.operand ⟨rest, position + 1⟩ with
              | error cause stopped =>
                  rw [run_error hOperand]
                  rfl
              | ok immediate next =>
                  obtain ⟨spent, hSpent, hPlace, -⟩ := condenses_operand opcode _ _ _ hOperand
                  rw [run_ok hOperand, of_ok_bind]
                  simp only at hSpent hPlace ⊢
                  rw [pure_bind, Sum.elim_inr, ih (by omega) (by omega)]
                  cases Instr.decodeUpTo count next with
                  | error cause => rfl
                  | ok instrs => exact congrArg (fun found => of (.ok found)) (List.append_assoc ..)

theorem decode_eq (code : List UInt8) : decode code = of (Instr.decodeAll code) := by
  rw [decode, loop_decodeRound (Nat.zero_add _) (Nat.le_refl _)]
  simp only [List.nil_append]
  rw [id_map']
  rfl

/-- A global is found where it stands in the index space. -/
theorem globalType_eq {ε : Type} (module : Module) (imports : List Import) (index : Nat) :
    (globalType module imports index : Attempt ε (Option GlobalType)) =
      of (.ok (({ module with imports }.globalSpace)[index]?).join) := by
  induction imports generalizing index with
  | nil =>
      rw [globalType, Module.globalSpace]
      split
      · rename_i hBehind
        simp [Module.importedGlobals, List.getElem?_eq_none hBehind, pure_eq]
      · rename_i hInside
        have hThere := List.getElem?_eq_getElem (Nat.lt_of_not_le hInside)
        rw [get_eq hThere]
        simp [Module.importedGlobals, hThere, pure_eq]
  | cons item rest ih =>
      rw [globalType]
      cases hDesc : item.desc with
      | global type =>
          have hSpace : ({ module with imports := item :: rest }).globalSpace =
              type :: ({ module with imports := rest }).globalSpace := by
            simp [Module.globalSpace, Module.importedGlobals, hDesc]
          rw [hSpace]
          cases index with
          | zero => rfl
          | succ index => exact ih index
      | function type | memory limits | other kind =>
          have hSpace : ({ module with imports := item :: rest }).globalSpace =
              ({ module with imports := rest }).globalSpace := by
            simp [Module.globalSpace, Module.importedGlobals, hDesc]
          rw [hSpace]
          exact ih index

/-- An operand of the right kind is taken. -/
theorem operand_eq {ε : Type} {kind? : Immediate → Option UInt32} {instr : Instr} {value : UInt32}
    (hValue : kind? instr.immediate = some value) :
    (operand kind? instr : Attempt ε UInt32) = of (.ok value) := by
  rw [operand, hValue]

variable {module : Module}

/-- A well-formed instruction is checked without a crash if all globals are described. -/
theorem step_eq {context : BodyContext} {pc depth : Nat} {instr : Instr}
    (hGlobals : context.globals = module.globalSpace) (hDescribed : none ∉ module.globalSpace)
    (hFormed : instr.wellFormed = true) :
    step module context pc depth instr = of (context.step pc depth instr) := by
  rw [Instr.wellFormed] at hFormed
  unfold step BodyContext.step
  obtain ⟨byte, immediate⟩ := instr
  cases hOpcode : Opcode.ofByte? byte with
  | none => simp [hOpcode] at hFormed
  | some opcode =>
      simp only [hOpcode, Option.any_some] at hFormed ⊢
      cases opcode with
      | br | brIf | call | localGet | localSet | localTee | globalGet =>
          cases immediate <;> cases hFormed
          exact of_bind fun _ _ => rfl
      | globalSet =>
          cases immediate <;> cases hFormed
          rename_i index
          dsimp only
          rw [operand_eq rfl, of_ok_bind]
          refine of_bind fun _ hInside => ?_
          rw [require_ok, hGlobals] at hInside
          have hThere := List.getElem?_eq_getElem hInside
          cases hGlobal : module.globalSpace[index.toNat] with
          | none => exact absurd (hGlobal ▸ List.getElem_mem hInside) hDescribed
          | some type =>
              simp only [globalType_eq, hGlobals, hThere, hGlobal, of_ok_bind, Option.join_some]
              exact of_bind fun _ _ => rfl
      | otherwise | load type | store type | memorySize | memoryGrow =>
          exact of_bind fun _ _ => rfl
      | _ => rfl

theorem check_eq {context : BodyContext} {pc depth : Nat} {instrs : List Instr}
    (hGlobals : context.globals = module.globalSpace) (hDescribed : none ∉ module.globalSpace)
    (hFormed : ∀ instr ∈ instrs, instr.wellFormed = true) :
    check module context pc depth instrs = of (context.checkFrom pc depth instrs) := by
  induction instrs generalizing pc depth with
  | nil => rfl
  | cons instr rest ih =>
      obtain ⟨hFirst, hRest⟩ := List.forall_mem_cons.1 hFormed
      rw [check, BodyContext.checkFrom, step_eq hGlobals hDescribed hFirst]
      exact of_bind fun _ _ => of_bind fun _ _ => ih hRest

theorem validateBody_eq (type : FuncType) (body : FuncBody)
    (hDescribed : none ∉ module.globalSpace) :
    Guarded.validateBody module type body = of (module.validateBody type body) := by
  rw [Guarded.validateBody, Module.validateBody, decode_eq, mapError_of]
  cases hDecode : Instr.decodeAll body.code with
  | error cause => rfl
  | ok instrs => exact check_eq rfl hDescribed (wellFormed_of_decodeUpTo hDecode)

/-- A body that sets an imported global without description crashes the check; such a module can be
built, but not read. -/
example : Guarded.validateBody { imports := [⟨"env", "g", .global none⟩] } ⟨[], []⟩
    ⟨[], [0x41, 0x00, 0x24, 0x00, 0x0b]⟩ = crash (.undescribed 0) := by
  rw [Guarded.validateBody, decode_eq]
  rfl

/-- Bodies are checked without a crash if there is a known type for each of them; `done` are the
functions of the bodies before. -/
theorem validateBodies_eq (hDescribed : none ∉ module.globalSpace)
    (hTypes : ∀ type ∈ module.funcs, type.toNat < module.types.length) {done funcs : List UInt32}
    {code : List FuncBody} (hFuncs : module.funcs = done ++ funcs)
    (hLength : code.length = funcs.length) :
    Guarded.validateBodies module done.length code =
      of (checkFrom (fun index (entry : UInt32 × FuncBody) =>
        match module.types[entry.1.toNat]? with
        | some type => (module.validateBody type entry.2).mapError (.function index)
        | none => .ok ()) (module.importedFuncs.length + done.length) (funcs.zip code)) := by
  induction code generalizing done funcs with
  | nil =>
      rw [List.zip_nil_right]
      rfl
  | cons body rest ih =>
      obtain ⟨func, funcs, rfl⟩ := List.exists_cons_of_length_eq_add_one hLength.symm
      have hFunc : module.funcs[done.length]? = some func := by simp [hFuncs]
      have hType := List.getElem?_eq_getElem (hTypes func (by simp [hFuncs]))
      rw [Guarded.validateBodies, List.zip_cons_cons, checkFrom, get_eq hFunc, of_ok_bind,
        get_eq hType, of_ok_bind, validateBody_eq _ _ hDescribed, mapError_of]
      simp only [hType]
      have hRest := @ih (done ++ [func]) funcs (by simp [hFuncs]) (Nat.succ.inj hLength)
      rw [List.length_append, List.length_singleton] at hRest
      exact of_bind fun _ _ => hRest

theorem validateGlobal_eq (item : Global) : validateGlobal item = of item.validate := by
  rw [validateGlobal, Global.validate, decode_eq, mapError_of]
  cases Instr.decodeAll item.init with
  | error cause => rfl
  | ok instrs =>
      rcases instrs with _ | ⟨constant, _ | ⟨last, _ | _⟩⟩
      · rfl
      · rfl
      · change (of (require (last.opcode = Opcode.close.byte) _) >>= _) = of (require _ _ >>= _)
        refine of_bind fun _ _ => ?_
        rw [get_eq rfl, of_ok_bind]
        cases Opcode.ofByte? constant.opcode with
        | none => rfl
        | some opcode => cases opcode <;> rfl
      · rfl

theorem validateGlobals_eq (index : Nat) (items : List Global) :
    validateGlobals index items =
      of (checkFrom (fun index item => item.validate.mapError (.globalInit index)) index
        items) := by
  induction items generalizing index with
  | nil => rfl
  | cons item rest ih =>
      rw [validateGlobals, checkFrom, validateGlobal_eq, mapError_of]
      exact of_bind fun _ _ => ih (index + 1)

/-- A module whose imports are described is validated without a crash. -/
theorem validate_eq (hDescribed : none ∉ module.globalSpace) :
    Guarded.validate module = of module.validate := by
  rw [Guarded.validate, Module.validate, validateGlobals_eq]
  refine of_bind fun _ hTypes => of_bind fun _ _ => of_bind fun _ hLength => of_bind fun _ _ =>
    of_bind fun _ _ => ?_
  have hFuncs : module.funcs = [] ++ module.funcs := rfl
  exact validateBodies_eq hDescribed (fun _ => type_lt_of_validate hTypes) hFuncs
    (require_ok.1 hLength)

/-! ## Reading -/

/-- The loop over sections ends, and reads the module. -/
theorem readSections_eq (room : Nat) {count : Nat} {last : UInt8} {module : Module}
    {cursor : Cursor} (hCount : cursor.rest.length ≤ count) :
    readSections room (last, module, cursor) =
      ofHalt (Reserving.readSections room count (last, module, cursor)) := by
  induction count generalizing last module cursor with
  | zero =>
      obtain ⟨bytes, position⟩ := cursor
      obtain rfl : bytes = [] := by simpa using hCount
      rw [readSections, loop_eq]
      rfl
  | succ count ih =>
      rw [readSections, loop_eq, Reserving.readSections]
      refine ofHalt_bind fun outcome hOutcome => ?_
      rcases outcome with result | ⟨found, next, stop⟩
      · rfl
      · have hLess := Reserving.length_of_readSection hOutcome
        exact ih (by omega)

/-- Bytes are read without a crash, but for want of memory. -/
theorem parse_eq (room : Nat) (bytes : List UInt8) :
    Guarded.parse room bytes = ofHalt (Reserving.parse room bytes) := by
  rw [Guarded.parse, Reserving.parse, ← ofHalt_failed]
  refine ofHalt_bind fun first hFirst => ?_
  rw [← ofHalt_failed]
  refine ofHalt_bind fun second hSecond => readSections_eq room ?_
  exact (Reserving.length_of_readHeaderWord (mapError_ok.1 hSecond)).trans
    (Reserving.length_of_readHeaderWord (mapError_ok.1 hFirst))

/-- A loop over groups that is left by its guard on the shift reads as many groups as a reader that
counts them. -/
theorem loop_groupsRound {α : Type} {last : UInt8 → Nat → Nat → α} {read : Nat → Nat → Nat → Read α}
    (hNone : ∀ shift value, read 0 shift value = Read.failHere .overflow)
    (hMore : ∀ groups shift value, read (groups + 1) shift value = (do
      let group ← Read.byte
      let value := value + (group.toNat % 128) <<< shift
      if group < 0x80 then return last group shift value
      read groups (shift + 7) value)) {bits groups shift value : Nat} {cursor : Cursor}
    (hInside : shift + 7 * groups < bits + 7) (hOutside : bits + 7 ≤ shift + 7 * (groups + 1)) :
    loop (groupsRound last bits) (shift, value, cursor) =
      run (read (groups + 1) shift value) Prod.mk cursor := by
  induction groups generalizing shift value cursor with
  | zero =>
      rw [loop_eq, groupsRound, hMore, run, run, bind_apply]
      cases Read.byte cursor with
      | error cause stopped => rfl
      | ok group next =>
          simp only [of_ok_bind, if_pos hOutside, hNone]
          split <;> rfl
  | succ groups ih =>
      rw [loop_eq, groupsRound, hMore, run, run, bind_apply]
      cases Read.byte cursor with
      | error cause stopped => rfl
      | ok group next =>
          simp only [of_ok_bind, if_neg (show ¬bits + 7 ≤ shift + 7 by omega)]
          split
          · rfl
          · exact ih (by omega) (by omega)

/-- A number is written in as many groups as it needs. -/
theorem loop_unsignedRound {more value : Nat} {written : List UInt8}
    (hValue : value < 128 ^ (more + 1)) :
    loop unsignedRound (written, value) =
      of (.ok (written ++ Write.unsignedGroups more value)) := by
  induction more generalizing value written with
  | zero =>
      have hDone : value / 128 = 0 := by omega
      rw [loop_eq, unsignedRound, if_pos hDone]
      rfl
  | succ more ih =>
      rw [loop_eq, unsignedRound, Write.unsignedGroups]
      by_cases hFew : value < 128
      · rw [if_pos (show value / 128 = 0 by omega), if_pos hFew, Nat.mod_eq_of_lt hFew]
        rfl
      · have hRest : value / 128 < 128 ^ (more + 1) := by
          rw [Nat.pow_succ] at hValue
          exact Nat.div_lt_of_lt_mul (by omega)
        rw [if_neg (show value / 128 ≠ 0 by omega), if_neg hFew, pure_bind, Sum.elim_inr, ih hRest,
          List.append_assoc]
        rfl

/-- A signed number is written until only its sign is left. -/
theorem loop_signedRound {more : Nat} {value : Int} {written : List UInt8}
    (hLow : -(64 * 128 ^ more) ≤ value) (hHigh : value < 64 * 128 ^ more) :
    loop signedRound (written, value) = of (.ok (written ++ Write.signedGroups more value)) := by
  induction more generalizing value written with
  | zero =>
      have hDone : value / 128 = 0 ∧ (value % 128).toNat < 64 ∨
          value / 128 = -1 ∧ 64 ≤ (value % 128).toNat := by omega
      rw [loop_eq, signedRound, if_pos hDone]
      rfl
  | succ more ih =>
      rw [loop_eq, signedRound, Write.signedGroups]
      have hDone : (value / 128 = 0 ∧ (value % 128).toNat < 64 ∨
          value / 128 = -1 ∧ 64 ≤ (value % 128).toNat) ↔ -64 ≤ value ∧ value < 64 := by omega
      simp only [hDone]
      by_cases hFew : -64 ≤ value ∧ value < 64
      · rw [if_pos hFew, if_pos hFew]
        rfl
      · rw [pow_succ] at hLow hHigh
        rw [if_neg hFew, if_neg hFew, pure_bind, Sum.elim_inr, ih (by omega) (by omega),
          List.append_assoc]
        rfl

/-- No global of a module that was read lacks its description. -/
theorem described_of_parse {bytes : List UInt8} {module : Module}
    (hParse : Module.parse bytes = .ok module) : none ∉ module.globalSpace := by
  have hImports := (Module.parse_keeps hParse).1.imports
  intro hNone
  simp only [Module.globalSpace, Module.importedGlobals, List.mem_append, List.mem_filterMap,
    List.mem_map, reduceCtorEq, and_false, exists_false, or_false] at hNone
  obtain ⟨item, hItem, hDesc⟩ := hNone
  have hDescribed := hImports item hItem
  cases hKind : item.desc with
  | global type => simp_all [ImportDesc.described]
  | function _ | memory _ | other _ => simp [hKind] at hDesc

/-- All loops end: reading and validating come to what they come to in the form that counts. -/
theorem parseValid_eq (room : Nat) (bytes : List UInt8) :
    Guarded.parseValid room bytes = ofHalt (Reserving.parseValid room bytes) := by
  rw [Guarded.parseValid, Reserving.parseValid, parse_eq, mapError_ofHalt]
  refine ofHalt_bind fun module hParse => ?_
  have hModule := Reserving.parse_ok (mapError_ok.1 hParse)
  rw [validate_eq (described_of_parse hModule), mapError_of, ← ofHalt_failed]
  exact ofHalt_bind fun _ _ => rfl

/-- However much memory there is, reading and validating end as `Module.parseValid` does, or because
memory is asked for and not there.  More than one import takes for each of the bytes is asked for
only where the bytes are no module. -/
theorem parseValid_outcome (room : Nat) (bytes : List UInt8) :
    Guarded.parseValid room bytes = .of (Module.parseValid bytes) ∨
    ∃ asked, Guarded.parseValid room bytes = crash (.memory asked) ∧ room < asked ∧
      asked ≤ Reserving.mostBytes ∧
      (bytes.length * Import.size < asked → ∃ cause, Module.parse bytes = .error cause) := by
  rw [parseValid_eq, Reserving.parseValid, Module.parseValid]
  obtain hSame | ⟨asked, hCrash, hRoom, hMost, hSpared⟩ :=
    (Reserving.settles_parse room bytes).outcome
  · refine .inl ?_
    rw [hSame]
    cases Module.parse bytes with
    | error cause => rfl
    | ok module =>
        change ofHalt ((module.validate.mapError LoadError.invalid).mapError Halt.failed >>=
          fun _ => _) = of (module.validate.mapError LoadError.invalid >>= fun _ => _)
        cases module.validate <;> rfl
  · rw [hCrash]
    exact .inr ⟨asked, rfl, hRoom, hMost, hSpared⟩

/-- More memory changes an answer only where a request is granted that was refused. -/
theorem parseValid_more {room more : Nat} (hMore : room ≤ more) (bytes : List UInt8) :
    Guarded.parseValid room bytes = Guarded.parseValid more bytes ∨
    ∃ asked, room < asked ∧ asked ≤ more ∧
      Guarded.parseValid room bytes = crash (.memory asked) := by
  rw [parseValid_eq, parseValid_eq]
  obtain hSame | ⟨asked, hRoom, hGranted, hCrash⟩ := Reserving.eases_parseValid hMore bytes
  · exact .inl (by rw [hSame])
  · exact .inr ⟨asked, hRoom, hGranted, by rw [hCrash]; rfl⟩

/-- From a certain amount of memory on all requests are granted, and with less one is refused. -/
theorem exists_need (bytes : List UInt8) : ∃ need,
    (∀ room, Guarded.parseValid room bytes = .of (Module.parseValid bytes) ↔ need ≤ room) ∧
    ∀ room < need, ∃ asked, Guarded.parseValid room bytes = crash (.memory asked) ∧
      room < asked ∧ asked ≤ need := by
  classical
  have hExists : ∃ room, Guarded.parseValid room bytes = .of (Module.parseValid bytes) := by
    obtain hSame | ⟨asked, -, hRoom, hMost, -⟩ := parseValid_outcome Reserving.mostBytes bytes
    · exact ⟨_, hSame⟩
    · exact absurd hMost (Nat.not_le_of_lt hRoom)
  have hNeed := Nat.find_spec hExists
  refine ⟨Nat.find hExists, fun room => ⟨Nat.find_min' hExists, fun hRoom => ?_⟩,
    fun room hRoom => ?_⟩
  · obtain hSame | ⟨asked, -, -, hCrash⟩ := parseValid_more hRoom bytes
    · exact hSame.symm.trans hNeed
    · cases hCrash.symm.trans hNeed
  · obtain hSame | ⟨asked, hAsked, hGranted, hCrash⟩ := parseValid_more hRoom.le bytes
    · exact absurd (hSame.trans hNeed) (Nat.find_min hExists hRoom)
    · exact ⟨asked, hCrash, hAsked, hGranted⟩

/-- For all bytes there is an amount of memory with which, and with no less, reading and validating
them ends with the module or the error that `Module.parseValid` gives.  With less the program is
stopped, and by nothing but a request for memory that is not there.  The amount is never more than
`2 ^ 32 - 1` imports take, and more than one import takes for each of the bytes only if they are no
module.  The loops that read numbers and write them end. -/
theorem parseValid_ends (bytes : List UInt8) :
    (∃ need,
      (∀ room, Guarded.parseValid room bytes = .of (Module.parseValid bytes) ↔ need ≤ room) ∧
      (∀ room < need, ∃ asked, Guarded.parseValid room bytes = crash (.memory asked) ∧
        room < asked ∧ asked ≤ need) ∧
      need ≤ Reserving.mostBytes ∧
      (bytes.length * Import.size < need → ∃ cause, Module.parse bytes = .error cause)) ∧
    (∀ bits cursor,
      readGroups unsignedLast bits cursor =
        run (Read.unsignedGroups (Read.maxGroups bits) 0 0) Prod.mk cursor ∧
      readGroups signedLast bits cursor =
        run (Read.signedGroups (Read.maxGroups bits) 0 0) Prod.mk cursor) ∧
    (∀ value, writeUnsigned value = .of (.ok (Write.u64 value))) ∧
    ∀ value, writeSigned value = .of (.ok (Write.s64 value)) := by
  obtain ⟨need, hEnough, hLess⟩ := exists_need bytes
  have hRefused {room : Nat} (hRoom : room < need) : ∃ asked, room < asked ∧
      asked ≤ Reserving.mostBytes ∧
      (bytes.length * Import.size < asked → ∃ cause, Module.parse bytes = .error cause) := by
    obtain hSame | ⟨asked, -, hAsked⟩ := parseValid_outcome room bytes
    · exact absurd ((hEnough room).1 hSame) (Nat.not_le_of_lt hRoom)
    · exact ⟨asked, hAsked⟩
  refine ⟨⟨need, hEnough, hLess, Nat.le_of_not_lt fun hMore => ?_, fun hMore => ?_⟩,
    fun bits cursor => ?_, fun value => ?_, fun value => ?_⟩
  · obtain ⟨asked, hAsked, hMost, -⟩ := hRefused hMore
    exact absurd hMost (Nat.not_le_of_lt hAsked)
  · obtain ⟨asked, hAsked, -, hSpared⟩ := hRefused hMore
    exact hSpared hAsked
  · obtain ⟨groups, hGroups⟩ : ∃ groups, Read.maxGroups bits = groups + 1 :=
      ⟨(bits + 13) / 7 - 1, by rw [Read.maxGroups]; omega⟩
    have hCount : (bits + 13) / 7 = groups + 1 := hGroups
    rw [hGroups]
    exact ⟨loop_groupsRound (fun _ _ => rfl) (fun _ _ _ => rfl) (by omega) (by omega),
      loop_groupsRound (fun _ _ => rfl) (fun _ _ _ => rfl) (by omega) (by omega)⟩
  · have hValue : value.toNat < 128 ^ (9 + 1) := value.toNat_lt.trans_le (by norm_num)
    exact loop_unsignedRound hValue
  · have hLow : -(64 * 128 ^ 9) ≤ value.toInt := le_trans (by norm_num) value.le_toInt
    have hHigh : value.toInt < 64 * 128 ^ 9 := value.toInt_lt.trans (by norm_num)
    exact loop_signedRound hLow hHigh

/-- Bytes that announce `2 ^ 32 - 1` types and end there stop the program even where there are 128
GiB of memory.  They are refused for want of the first type where there is enough. -/
theorem parseValid_exhausts :
    let bytes : List UInt8 :=
      [0x00, 0x61, 0x73, 0x6D, 0x01, 0x00, 0x00, 0x00, 0x01, 0x05, 0xFF, 0xFF, 0xFF, 0xFF, 0x0F]
    Guarded.parseValid (2 ^ 37) bytes = crash (.memory ((2 ^ 32 - 1) * FuncType.size)) ∧
      (¬∃ result, Guarded.parseValid (2 ^ 37) bytes = .of result) ∧
      Guarded.parseValid (2 ^ 38) bytes =
        .of (.error (.parse (.inSection .types (.read .endOfInput)))) := by
  intro bytes
  have hStopped : Guarded.parseValid (2 ^ 37) bytes =
      crash (.memory ((2 ^ 32 - 1) * FuncType.size)) := parseValid_eq _ _
  refine ⟨hStopped, ?_, parseValid_eq _ _⟩
  rintro ⟨result, hResult⟩
  cases hStopped.symm.trans hResult

end Guarded

end RecordWasm.Validation
