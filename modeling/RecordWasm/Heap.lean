import RecordWasm.Assembly.Builder

/-!
# The heap of a compiled module

Memory is handed out by moving a cursor upward.  Two functions are put into a module: `alloc` takes
a size and an alignment and returns an address, or zero if the memory cannot grow; `reset` moves the
cursor back to the base of the heap.  The cursor and the limit that it must not pass are globals.
-/

namespace RecordWasm.Heap

open Wasm Assembly

def defaultBase : UInt32 := 1024

def defaultPages : UInt32 := 1

/-- The largest heap, in pages. -/
def maxPages : UInt32 := 256

def pageBytes : UInt32 := 65536

def allocName : String := "alloc"

def resetName : String := "reset"

def allocType : FuncType := ⟨[.i32, .i32], [.i32]⟩

def resetType : FuncType := ⟨[], []⟩

/-- Why a heap cannot be set up. -/
inductive ConfigError where
  | unalignedBase (base : UInt32)
  | pagesOutOfRange (pages : UInt32)
  | tooLarge (pages base : UInt32)
  deriving DecidableEq, Repr

def ConfigError.failure : ConfigError → Failure
  | .unalignedBase base =>
      Report.failure
        { phase := .alloc, kind := .invalidConfig, value := some (toString base),
          detail := s!"heap base {base} is not 8-aligned" }
  | .pagesOutOfRange pages =>
      Report.failure
        { phase := .alloc, kind := .invalidConfig, value := some (toString pages),
          detail := s!"initial pages {pages} outside 1..{maxPages}" }
  | .tooLarge pages base =>
      Report.failure
        { phase := .alloc, kind := .invalidConfig, value := some (toString base),
          detail := s!"heap of {pages} pages at base {base} exceeds {maxPages} pages" }

def checkConfig (base pages : UInt32) : Except ConfigError Unit := do
  require (base % 8 = 0) (.unalignedBase base)
  require (pages ≠ 0 ∧ pages ≤ maxPages) (.pagesOutOfRange pages)
  require (base.toNat + pages.toNat * pageSize ≤ maxPages.toNat * pageSize) (.tooLarge pages base)

/-- Where the parts of a heap are in a module. -/
structure Handle where
  base : UInt32
  limit : UInt32
  cursorGlobal : UInt32
  limitGlobal : UInt32
  allocFunc : UInt32
  resetFunc : UInt32
  deriving DecidableEq, Repr

/-- The number of pages that cover the heap. -/
def Handle.memoryPages (handle : Handle) : UInt32 := (handle.limit + pageBytes - 1) / pageBytes

/-- Alignments are powers of two. -/
def checkAlign (align : UInt32) : Except Failure Unit :=
  if align = 0 ∨ align &&& (align - 1) ≠ 0 then
    .error (Report.failure
      { phase := .alloc, kind := .invalidConfig, value := some (toString align),
        detail := s!"alignment {align} is not a power of two" })
  else .ok ()

/-- A mutable global that starts out as the given word. -/
def wordGlobal (value : UInt32) : Global where
  type := ⟨.i32, true⟩
  init := Instr.i32ConstExpr value.toInt32

def add32 : Instr := (Opcode.int .w32 .add).instr
def sub32 : Instr := (Opcode.int .w32 .sub).instr

/-- The locals of `alloc` behind its parameters: the aligned address, the end of the request and the
number of pages to grow by. -/
def allocLocals : List ValType := [.i32, .i32, .i32]

/-- The parameters are the size and the alignment.  The cursor is rounded up to the alignment; if
the end of the request passes the limit, the memory grows by the pages that are missing. -/
def Handle.allocInstrs (handle : Handle) : List Instr :=
  let size : UInt32 := 0
  let align : UInt32 := 1
  let aligned : UInt32 := 2
  let stop : UInt32 := 3
  let pages : UInt32 := 4
  [.globalGet handle.cursorGlobal, .localGet align, add32, .i32Const 1, sub32,
    .i32Const 0, .localGet align, sub32, (Opcode.int .w32 .and).instr, .localTee aligned,
    .localGet size, add32, .localTee stop,
    .globalGet handle.limitGlobal, (Opcode.compareInt .w32 .gtU).instr, .ifThen voidBlock] ++
  [.localGet stop, .globalGet handle.limitGlobal, sub32,
    .i32Const (pageBytes - 1).toInt32, add32, .i32Const 16, (Opcode.int .w32 .shrU).instr,
    .localTee pages, .memoryGrow, .i32Const (-1), (Opcode.compareInt .w32 .eq).instr,
    .ifThen voidBlock, .i32Const 0, Opcode.ret.instr, .close] ++
  [.globalGet handle.limitGlobal, .localGet pages, .i32Const 16, (Opcode.int .w32 .shl).instr,
    add32, .globalSet handle.limitGlobal, .close] ++
  [.localGet stop, .globalSet handle.cursorGlobal, .localGet aligned, .close]

def Handle.resetInstrs (handle : Handle) : List Instr :=
  [.i32Const handle.base.toInt32, .globalSet handle.cursorGlobal, .close]

/-- A way to give a declared function its body. -/
abbrev SetBody := Builder → UInt32 → Body → Except Failure Builder

def setBody : SetBody := fun builder index body =>
  (builder.setBody index body).mapError BuildError.failure

/-- Puts a heap into a module, with a way of its own for the body of either function. -/
def installWith (setAlloc setReset : SetBody) (builder : Builder) (base pages : UInt32) :
    Except Failure (Handle × Builder) := do
  (checkConfig base pages).mapError ConfigError.failure
  let limit := base + pages * pageBytes
  let (cursorGlobal, builder) := builder.addGlobal (wordGlobal base)
  let (limitGlobal, builder) := builder.addGlobal (wordGlobal limit)
  let (allocFunc, builder) := builder.declareFunction allocName allocType
  let (resetFunc, builder) := builder.declareFunction resetName resetType
  let handle : Handle := { base, limit, cursorGlobal, limitGlobal, allocFunc, resetFunc }
  let refused (detail : String) : Failure → Failure :=
    Report.because { phase := .alloc, kind := .invalidConfig, detail }
  let builder ← (setAlloc builder allocFunc ⟨allocLocals, handle.allocInstrs⟩).mapError
    (refused "set alloc body")
  let builder ← (setReset builder resetFunc ⟨[], handle.resetInstrs⟩).mapError
    (refused "set reset body")
  return (handle, builder)

/-- Puts a heap into a module. -/
def install (builder : Builder) (base pages : UInt32) : Except Failure (Handle × Builder) :=
  installWith setBody setBody builder base pages

end RecordWasm.Heap
