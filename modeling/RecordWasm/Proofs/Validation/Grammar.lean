import RecordWasm.Wasm.Instr
import Mathlib.Data.ENat.Basic
import Mathlib.Tactic.Common

/-!
# The grammar of function bodies

A body is a sequence of instructions in which every frame that is opened is closed again, and one
last `end`.  How many `else` instructions a frame may have is left open: the grammar of the binary
format gives one to an `if` and none to a `block` or a `loop`, while a check that only counts frames
cannot tell them apart.

The grammar is read from the front with a stack that holds, for every open frame, the number of
`else` instructions that it may still have.
-/

namespace RecordWasm.Wasm

namespace Instr

theorem is_iff {instr : Instr} {opcode : Opcode} :
    instr.is opcode = true ↔ Opcode.ofByte? instr.opcode = some opcode := by
  rw [is, beq_iff_eq]
  constructor
  · intro hByte
    rw [hByte, Opcode.ofByte?_byte]
  · intro hOpcode
    rw [Opcode.ofByte?] at hOpcode
    have hByte := List.find?_some hOpcode
    exact (beq_iff_eq.1 hByte).symm

/-- Whether the instruction opens, divides or closes a frame. -/
def delimits (instr : Instr) : Bool := instr.opensFrame || instr.is .otherwise || instr.is .close

/-- The frame a branch aims at, counted from the innermost. -/
def label? (instr : Instr) : Option UInt32 :=
  match Opcode.ofByte? instr.opcode, instr.immediate with
  | some .br, .branch label | some .brIf, .branch label => some label
  | _, _ => none

/-- The operation of an instruction decides whether it is the given one. -/
theorem is_eq {instr : Instr} {opcode : Opcode}
    (hOpcode : Opcode.ofByte? instr.opcode = some opcode)
    (other : Opcode) : instr.is other = decide (opcode = other) := by
  rw [Bool.eq_iff_iff, is_iff, hOpcode, Option.some_inj, decide_eq_true_iff]

/-- The operations that open, divide and close frames differ. -/
theorem not_opens_of_otherwise {instr : Instr} (hElse : instr.is .otherwise = true) :
    instr.opensFrame = false := by
  simp [opensFrame, is_eq (is_iff.1 hElse)]

theorem not_opens_of_close {instr : Instr} (hClose : instr.is .close = true) :
    instr.opensFrame = false := by
  simp [opensFrame, is_eq (is_iff.1 hClose)]

theorem not_otherwise_of_close {instr : Instr} (hClose : instr.is .close = true) :
    instr.is .otherwise = false := by
  simp [is_eq (is_iff.1 hClose)]

end Instr

end RecordWasm.Wasm

namespace RecordWasm.Validation

open Wasm

/-- At most one `else`, and only in an `if`. -/
def ifOnly (opener : Instr) : ℕ∞ := if opener.is .ifThen then 1 else 0

/-- Any number of `else` in any frame. -/
def unlimited (_ : Instr) : ℕ∞ := ⊤

/-- Code inside so many open frames, the function's own included, that closes the frames it opens.
In the innermost of the open frames it has at most `left` times `else`; `room` says how many there
may be in a frame by the instruction that opens it. -/
inductive Framed (room : Instr → ℕ∞) : (frames : Nat) → (left : ℕ∞) → List Instr → Prop where
  | nil {frames : Nat} {left : ℕ∞} : Framed room frames left []
  | plain {frames : Nat} {left : ℕ∞} {instr : Instr} {rest : List Instr} :
      instr.delimits = false → (∀ label ∈ instr.label?, label.toNat < frames) →
      Framed room frames left rest → Framed room frames left (instr :: rest)
  | otherwise {frames : Nat} {left : ℕ∞} {instr : Instr} {rest : List Instr} :
      instr.is .otherwise = true → Framed room frames left rest →
      Framed room frames (left + 1) (instr :: rest)
  | frame {frames : Nat} {left : ℕ∞} {opener close : Instr} {inside rest : List Instr} :
      opener.opensFrame = true → Framed room (frames + 1) (room opener) inside →
      close.is .close = true → Framed room frames left rest →
      Framed room frames left (opener :: inside ++ close :: rest)

/-- A whole body: code that closes all its frames, then the `end` of the function and nothing
more. -/
def IsBody (room : Instr → ℕ∞) (instrs : List Instr) : Prop :=
  ∃ code last, instrs = code ++ [last] ∧ last.is .close = true ∧ Framed room 1 0 code

/-- The grammar read from the front, with what each open frame has left. -/
inductive Scans (room : Instr → ℕ∞) : (lefts : List ℕ∞) → List Instr → Prop where
  | nil : Scans room [] []
  | plain {left : ℕ∞} {lefts : List ℕ∞} {instr : Instr} {rest : List Instr} :
      instr.delimits = false → (∀ label ∈ instr.label?, label.toNat < lefts.length + 1) →
      Scans room (left :: lefts) rest → Scans room (left :: lefts) (instr :: rest)
  | otherwise {left : ℕ∞} {lefts : List ℕ∞} {instr : Instr} {rest : List Instr} :
      instr.is .otherwise = true → Scans room (left :: lefts) rest →
      Scans room ((left + 1) :: lefts) (instr :: rest)
  | opens {left : ℕ∞} {lefts : List ℕ∞} {instr : Instr} {rest : List Instr} :
      instr.opensFrame = true → Scans room (room instr :: left :: lefts) rest →
      Scans room (left :: lefts) (instr :: rest)
  | closes {left : ℕ∞} {lefts : List ℕ∞} {instr : Instr} {rest : List Instr} :
      instr.is .close = true → Scans room lefts rest → Scans room (left :: lefts) (instr :: rest)

/-- Instructions that end all open frames one after the other, with code in each of them. -/
inductive Levels (room : Instr → ℕ∞) : (lefts : List ℕ∞) → List Instr → Prop where
  | done : Levels room [] []
  | level {left : ℕ∞} {lefts : List ℕ∞} {code : List Instr} {last : Instr} {rest : List Instr} :
      Framed room (lefts.length + 1) left code → last.is .close = true → Levels room lefts rest →
      Levels room (left :: lefts) (code ++ last :: rest)

variable {room : Instr → ℕ∞} {lefts : List ℕ∞} {instrs : List Instr}

/-- Instructions end when the last frame is closed, and not before. -/
theorem Scans.nil_iff (hScans : Scans room lefts instrs) : lefts = [] ↔ instrs = [] := by
  cases hScans <;> simp

/-- What is read from the front falls into the code of the open frames. -/
theorem Scans.levels (hScans : Scans room lefts instrs) : Levels room lefts instrs := by
  induction hScans with
  | nil => exact .done
  | plain hPlain hLabel _ ih =>
      obtain _ | ⟨hCode, hLast, hRest⟩ := ih
      exact .level (hCode.plain hPlain hLabel) hLast hRest
  | otherwise hElse _ ih =>
      obtain _ | ⟨hCode, hLast, hRest⟩ := ih
      exact .level (hCode.otherwise hElse) hLast hRest
  | @opens left lefts instr _ hOpens _ ih =>
      -- The new frame ends first, and the code behind its end belongs to the frame around it.
      obtain _ | ⟨hInside, hClose, hOuter⟩ := ih
      obtain _ | @⟨_, _, code, last, rest, hCode, hLast, hRest⟩ := hOuter
      have hLevel := Levels.level (.frame hOpens hInside hClose hCode) hLast hRest
      simpa using hLevel
  | closes hClose _ ih => exact Levels.level (.nil : Framed room _ _ []) hClose ih

/-- Code is read through, whatever it leaves of the `else` of its frame. -/
theorem Framed.scans {frames : Nat} {left : ℕ∞} {code tail : List Instr}
    (hFramed : Framed room frames left code) (hFrames : frames = lefts.length + 1)
    (hTail : ∀ left, Scans room (left :: lefts) tail) :
    Scans room (left :: lefts) (code ++ tail) := by
  induction hFramed generalizing lefts tail with
  | nil => exact hTail _
  | plain hPlain hLabel _ ih => exact .plain hPlain (hFrames ▸ hLabel) (ih hFrames hTail)
  | otherwise hElse _ ih => exact .otherwise hElse (ih hFrames hTail)
  | @frame frames left opener close inside rest hOpens _ hClose _ ihInside ihRest =>
      have hRest := ihRest hFrames hTail
      have hInside :
          Scans room (room opener :: left :: lefts) (inside ++ close :: (rest ++ tail)) :=
        ihInside (by simp [hFrames]) fun _ => .closes hClose hRest
      simpa using Scans.opens hOpens hInside

/-- The bodies of the grammar are those that are read from the front. -/
theorem isBody_iff_scans : IsBody room instrs ↔ Scans room [0] instrs := by
  constructor
  · rintro ⟨code, last, rfl, hLast, hFramed⟩
    exact hFramed.scans rfl fun _ => .closes hLast .nil
  · intro hScans
    obtain _ | @⟨_, _, code, last, rest, hCode, hLast, hRest⟩ := hScans.levels
    obtain _ | _ := hRest
    exact ⟨code, last, rfl, hLast, hCode⟩

/-! ## The frame an `else` belongs to -/

/-- The innermost frame that is open behind code is an `if` without `else` so far: what stands
behind the `if` closes the frames it opens and has no `else` outside them. -/
def InFreshIf (before : List Instr) : Prop :=
  ∃ outer opener inside frames, before = outer ++ opener :: inside ∧ opener.is .ifThen = true ∧
    Framed unlimited frames 0 inside

/-- Every `else` is the first one of an `if`; `done` is the code in front of the instructions. -/
def ElsesOwned (done instrs : List Instr) : Prop :=
  ∀ before instr after, instrs = before ++ instr :: after → instr.is .otherwise = true →
    InFreshIf (done ++ before)

theorem ElsesOwned.tail {done rest : List Instr} {instr : Instr}
    (hOwned : ElsesOwned done (instr :: rest)) : ElsesOwned (done ++ [instr]) rest := by
  rintro before other after rfl hElse
  simpa using hOwned (instr :: before) other after rfl hElse

theorem InFreshIf.append {before : List Instr} (hFresh : InFreshIf before) (more : List Instr) :
    InFreshIf (more ++ before) := by
  obtain ⟨outer, opener, inside, frames, rfl, hIf, hInside⟩ := hFresh
  exact ⟨more ++ outer, opener, inside, frames, by simp, hIf, hInside⟩

/-- What fits in fewer `else` fits in more. -/
theorem Framed.unlimited {frames : Nat} {left more : ℕ∞} {code : List Instr}
    (hFramed : Framed room frames left code) (hMore : left ≤ more) :
    Framed unlimited frames more code := by
  induction hFramed generalizing more with
  | nil => exact .nil
  | plain hPlain hLabel _ ih => exact .plain hPlain hLabel (ih hMore)
  | otherwise hElse _ ih =>
      obtain ⟨extra, rfl⟩ := exists_add_of_le hMore
      rw [add_right_comm]
      exact .otherwise hElse (ih le_self_add)
  | frame hOpens _ hClose _ ihInside ihRest =>
      exact .frame hOpens (ihInside le_top) hClose (ihRest hMore)

/-- What is neither the first nor the last instruction of a frame stands behind the frame or in
it. -/
theorem behind_or_inside {opener close instr : Instr} {inside rest before after : List Instr}
    (hCode : opener :: inside ++ close :: rest = before ++ instr :: after)
    (hOpener : instr ≠ opener) (hClose : instr ≠ close) :
    (∃ behind, before = opener :: inside ++ close :: behind ∧ rest = behind ++ instr :: after) ∨
      ∃ front back, before = opener :: front ∧ inside = front ++ instr :: back := by
  rw [List.cons_append] at hCode
  obtain ⟨rfl, hHead⟩ | ⟨front, rfl, hTail⟩ := List.cons_eq_append_iff.1 hCode
  · exact absurd (List.cons.inj hHead).1 hOpener
  obtain ⟨middle, rfl, hMiddle⟩ | ⟨middle, rfl, hMiddle⟩ := List.append_eq_append_iff.1 hTail
  · obtain ⟨rfl, hHead⟩ | ⟨behind, rfl, rfl⟩ := List.cons_eq_append_iff.1 hMiddle
    · exact absurd (List.cons.inj hHead).1 hClose
    · exact .inl ⟨behind, by simp, rfl⟩
  · obtain ⟨rfl, hHead⟩ | ⟨back, rfl, rfl⟩ := List.cons_eq_append_iff.1 hMiddle
    · exact absurd (List.cons.inj hHead).1.symm hClose
    · exact .inr ⟨front, back, rfl, rfl⟩

/-- In code of the grammar an `else` belongs to an `if` inside the code, or to the frame around it
if that may have one. -/
theorem Framed.owned {frames : Nat} {left : ℕ∞} {code before after : List Instr} {instr : Instr}
    (hFramed : Framed ifOnly frames left code) (hLeft : left ≤ 1)
    (hCode : code = before ++ instr :: after) (hElse : instr.is .otherwise = true) :
    InFreshIf before ∨ left ≠ 0 ∧ Framed Validation.unlimited frames 0 before := by
  induction hFramed generalizing before after with
  | nil => simp at hCode
  | @plain frames left other rest hPlain hLabel _ ih =>
      obtain ⟨rfl, hHead⟩ | ⟨before, rfl, rfl⟩ := List.cons_eq_append_iff.1 hCode
      · cases hHead
        simp [Instr.delimits, hElse] at hPlain
      · exact (ih hLeft rfl).imp (·.append [other]) (And.imp_right (.plain hPlain hLabel))
  | @otherwise frames left other rest hOther _ ih =>
      obtain rfl : left = 0 := by
        have hNone : left + 1 ≤ 0 + 1 := by simpa using hLeft
        simpa using (ENat.add_le_add_iff_right ENat.one_ne_top).1 hNone
      obtain ⟨rfl, -⟩ | ⟨before, rfl, rfl⟩ := List.cons_eq_append_iff.1 hCode
      · exact .inr ⟨by simp, .nil⟩
      · obtain hFresh | ⟨hRoom, -⟩ := ih zero_le_one rfl
        · exact .inl (hFresh.append [other])
        · exact absurd rfl hRoom
  | @frame frames left opener close inside rest hOpens hInside hClose _ ihInside ihRest =>
      have hOpener : instr ≠ opener := by
        rintro rfl
        simp [Instr.not_opens_of_otherwise hElse] at hOpens
      have hCloser : instr ≠ close := by
        rintro rfl
        simp [Instr.not_otherwise_of_close hClose] at hElse
      obtain ⟨behind, rfl, rfl⟩ | ⟨front, back, rfl, rfl⟩ := behind_or_inside hCode hOpener hCloser
      · refine (ihRest hLeft rfl).imp (fun hFresh => ?_) (And.imp_right fun hBehind => ?_)
        · simpa using hFresh.append (opener :: inside ++ [close])
        · exact .frame hOpens (hInside.unlimited le_top) hClose hBehind
      · obtain hFresh | ⟨hRoom, hFront⟩ := ihInside (by unfold ifOnly; split <;> simp) rfl
        · exact .inl (hFresh.append [opener])
        · refine .inl ⟨[], opener, front, frames + 1, rfl, ?_, hFront⟩
          by_contra hNoIf
          exact hRoom (if_neg hNoIf)

/-- What the open frames have left behind an instruction. -/
def reopen (lefts : List ℕ∞) (instr : Instr) : List ℕ∞ :=
  if instr.opensFrame then ifOnly instr :: lefts
  else if instr.is .otherwise then (lefts.headD 0 - 1) :: lefts.tail
  else if instr.is .close then lefts.tail
  else lefts

section Reopen

variable {instr : Instr}

theorem reopen_plain (hPlain : instr.delimits = false) : reopen lefts instr = lefts := by
  simp only [Instr.delimits, Bool.or_eq_false_iff] at hPlain
  simp [reopen, hPlain]

theorem reopen_opens (hOpens : instr.opensFrame = true) :
    reopen lefts instr = ifOnly instr :: lefts := if_pos hOpens

theorem reopen_otherwise {left : ℕ∞} (hElse : instr.is .otherwise = true) :
    reopen (left :: lefts) instr = (left - 1) :: lefts := by
  simp [reopen, Instr.not_opens_of_otherwise hElse, hElse]

theorem reopen_close {left : ℕ∞} (hClose : instr.is .close = true) :
    reopen (left :: lefts) instr = lefts := by
  simp [reopen, Instr.not_opens_of_close hClose, Instr.not_otherwise_of_close hClose, hClose]

end Reopen

/-- Code leaves the frames around its own alone, and its own as well unless it has an `else`
there. -/
theorem Framed.reopen {frames : Nat} {budget : ℕ∞} {code : List Instr}
    (hFramed : Framed room frames budget code) (left : ℕ∞) (lefts : List ℕ∞) :
    ∃ after, code.foldl Validation.reopen (left :: lefts) = after :: lefts ∧
      (budget = 0 → after = left) := by
  induction hFramed generalizing left lefts with
  | nil => exact ⟨left, rfl, fun _ => rfl⟩
  | plain hPlain _ _ ih =>
      rw [List.foldl_cons, reopen_plain hPlain]
      exact ih left lefts
  | otherwise hElse _ ih =>
      obtain ⟨after, hAfter, -⟩ := ih (left - 1) lefts
      rw [List.foldl_cons, reopen_otherwise hElse]
      exact ⟨after, hAfter, by simp⟩
  | @frame frames budget opener close inside rest hOpens _ hClose _ ihInside ihRest =>
      obtain ⟨after, hInside, -⟩ := ihInside (ifOnly opener) (left :: lefts)
      rw [List.cons_append, List.foldl_cons, reopen_opens hOpens, List.foldl_append, hInside,
        List.foldl_cons, reopen_close hClose]
      exact ihRest left lefts

/-- In an `if` without `else` so far there is one left. -/
theorem InFreshIf.reopen {before : List Instr} (hFresh : InFreshIf before) (lefts : List ℕ∞) :
    ∃ outer, before.foldl Validation.reopen lefts = 1 :: outer := by
  obtain ⟨outer, opener, inside, frames, rfl, hIf, hInside⟩ := hFresh
  have hOpens : opener.opensFrame = true := by simp [Instr.opensFrame, hIf]
  obtain ⟨after, hAfter, hSame⟩ :=
    hInside.reopen (ifOnly opener) (outer.foldl Validation.reopen lefts)
  refine ⟨outer.foldl Validation.reopen lefts, ?_⟩
  rw [List.foldl_append, List.foldl_cons, reopen_opens hOpens, hAfter, hSame rfl, ifOnly,
    if_pos hIf]

theorem foldl_reopen_concat {done : List Instr} {instr : Instr} {stack : List ℕ∞}
    (hStack : done.foldl reopen lefts = stack) :
    (done ++ [instr]).foldl reopen lefts = reopen stack instr := by
  rw [List.foldl_append, hStack]
  rfl

/-- Instructions that follow the grammar without regard to `else` are read with regard to it if
every `else` among them belongs to an `if`. -/
theorem Scans.ifOnly {done : List Instr} {stack : List ℕ∞} (hScans : Scans unlimited lefts instrs)
    (hStack : done.foldl reopen [0] = stack) (hLength : stack.length = lefts.length)
    (hOwned : ElsesOwned done instrs) : Scans ifOnly stack instrs := by
  induction hScans generalizing done stack with
  | nil =>
      rw [List.length_eq_zero_iff.1 hLength]
      exact .nil
  | plain hPlain hLabel _ ih =>
      obtain ⟨left, outer, rfl⟩ := List.exists_cons_of_length_eq_add_one hLength
      have hDone := (foldl_reopen_concat hStack).trans (reopen_plain hPlain)
      have hOuter : outer.length = _ := Nat.succ.inj hLength
      exact .plain hPlain (hOuter ▸ hLabel) (ih hDone hLength hOwned.tail)
  | otherwise hElse _ ih =>
      obtain ⟨left, outer, rfl⟩ := List.exists_cons_of_length_eq_add_one hLength
      have hDone := (foldl_reopen_concat hStack).trans (reopen_otherwise hElse)
      -- The frame of this `else` is an `if` that has one left.
      obtain ⟨_, hFresh⟩ := (hOwned [] _ _ rfl hElse).reopen [0]
      rw [List.append_nil, hStack] at hFresh
      cases hFresh
      rw [← zero_add (1 : ℕ∞)]
      exact .otherwise hElse (ih hDone hLength hOwned.tail)
  | opens hOpens _ ih =>
      obtain ⟨left, outer, rfl⟩ := List.exists_cons_of_length_eq_add_one hLength
      have hDone := (foldl_reopen_concat hStack).trans (reopen_opens hOpens)
      exact .opens hOpens (ih hDone (congrArg Nat.succ hLength) hOwned.tail)
  | closes hClose _ ih =>
      obtain ⟨left, outer, rfl⟩ := List.exists_cons_of_length_eq_add_one hLength
      have hDone := (foldl_reopen_concat hStack).trans (reopen_close hClose)
      exact .closes hClose (ih hDone (Nat.succ.inj hLength) hOwned.tail)

theorem IsBody.unlimited (hBody : IsBody room instrs) : IsBody unlimited instrs := by
  obtain ⟨code, last, rfl, hLast, hCode⟩ := hBody
  exact ⟨code, last, rfl, hLast, hCode.unlimited le_rfl⟩

/-- A body follows the grammar of the format exactly if it does so without regard to `else`, and
every `else` is the first one of an `if`. -/
theorem isBody_ifOnly_iff :
    IsBody ifOnly instrs ↔ IsBody unlimited instrs ∧ ElsesOwned [] instrs := by
  constructor
  · intro hBody
    refine ⟨hBody.unlimited, ?_⟩
    obtain ⟨code, last, rfl, hLast, hCode⟩ := hBody
    intro before instr after hInstrs hElse
    -- The last instruction is no `else`, so the `else` stands in the code before.
    obtain ⟨rest, rfl⟩ : ∃ rest, code = before ++ instr :: rest := by
      obtain rfl | ⟨front, final, hAfter⟩ := after.eq_nil_or_concat
      · obtain ⟨-, hSame⟩ := List.append_inj' hInstrs rfl
        cases hSame
        simp [Instr.not_otherwise_of_close hLast] at hElse
      · rw [hAfter, List.concat_eq_append, ← List.cons_append, ← List.append_assoc] at hInstrs
        exact ⟨front, (List.append_inj' hInstrs rfl).1⟩
    obtain hFresh | ⟨hRoom, -⟩ := hCode.owned zero_le_one rfl hElse
    · exact hFresh
    · exact absurd rfl hRoom
  · rintro ⟨hBody, hOwned⟩
    have hScans := (isBody_iff_scans.1 hBody).ifOnly (rfl : [].foldl reopen [0] = [0]) rfl hOwned
    exact isBody_iff_scans.2 hScans

end RecordWasm.Validation
