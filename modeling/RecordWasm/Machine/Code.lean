import RecordWasm.Wasm.Module

/-!
# Structured code

The flat instructions of a body, read as a tree: frames hold their bodies, and each frame knows how
many values it takes and how many it leaves.  `Step.ofInstrs?` reads a body and refuses one whose
frames do not nest.
-/

namespace RecordWasm.Machine

open Wasm

/-- How many values a frame takes from the stack and how many it leaves. -/
structure Arity where
  takes : Nat
  leaves : Nat
  deriving DecidableEq, Repr

inductive Step where
  | plain (opcode : Opcode) (immediate : Immediate)
  | block (arity : Arity) (body : List Step)
  | loop (arity : Arity) (body : List Step)
  | choose (arity : Arity) (yes no : List Step)
  | br (label : Nat)
  | brIf (label : Nat)
  | ret
  | call (function : Nat)
  | unreachable
  deriving Repr

/-- The arity that a block type stands for: nothing, one result, or a signature of the module. -/
def Arity.ofBlockType? (types : List FuncType) (type : Int32) : Option Arity :=
  if type = voidBlock then some ⟨0, 0⟩
  else if type < 0 then
    if NumType.all.any fun number => number.blockType == type then some ⟨0, 1⟩ else none
  else (types[type.toInt.toNat]?).map fun sig => ⟨sig.params.length, sig.results.length⟩

namespace Step

/-- What opened a frame.  Behind an `else` the steps of the first arm are known. -/
inductive Opening where
  | block
  | loop
  | yes
  | no (yes : List Step)

/-- An open frame, with the steps in front of it, latest first. -/
structure Frame where
  opening : Opening
  arity : Arity
  before : List Step

/-- The step that a frame becomes when it is closed. -/
def Frame.close (frame : Frame) (body : List Step) : Step :=
  match frame.opening with
  | .block => block frame.arity body
  | .loop => loop frame.arity body
  | .yes => choose frame.arity body []
  | .no yes => choose frame.arity yes body

/-- Reads instructions inside open frames; `done` are the steps of the innermost one so far, latest
first. -/
def ofInstrsFrom? (types : List FuncType) :
    (frames : List Frame) → (done : List Step) → List Instr → Option (List Step)
  | _, _, [] => none
  | frames, done, instr :: rest =>
      let enter (opening : Opening) (type : Int32) : Option (List Step) := do
        ofInstrsFrom? types (⟨opening, ← Arity.ofBlockType? types type, done⟩ :: frames) [] rest
      match Opcode.ofByte? instr.opcode, instr.immediate with
      | some .block, .block type => enter .block type
      | some .loop, .block type => enter .loop type
      | some .ifThen, .block type => enter .yes type
      | some .otherwise, _ =>
          match frames with
          | ⟨.yes, arity, before⟩ :: outer =>
              ofInstrsFrom? types (⟨.no done.reverse, arity, before⟩ :: outer) [] rest
          | _ => none
      | some .close, _ =>
          match frames with
          | [] => if rest.isEmpty then some done.reverse else none
          | frame :: outer =>
              ofInstrsFrom? types outer (frame.close done.reverse :: frame.before) rest
      | some .br, .branch label => ofInstrsFrom? types frames (br label.toNat :: done) rest
      | some .brIf, .branch label => ofInstrsFrom? types frames (brIf label.toNat :: done) rest
      | some .ret, _ => ofInstrsFrom? types frames (ret :: done) rest
      | some .call, .call function => ofInstrsFrom? types frames (call function.toNat :: done) rest
      | some .unreachable, _ => ofInstrsFrom? types frames (unreachable :: done) rest
      | some opcode, immediate =>
          ofInstrsFrom? types frames (plain opcode immediate :: done) rest
      | none, _ => none

/-- The steps of a body, its closing instruction included in the instructions. -/
def ofInstrs? (types : List FuncType) (instrs : List Instr) : Option (List Step) :=
  ofInstrsFrom? types [] [] instrs

end Step

end RecordWasm.Machine
