import RecordWasm.Proofs.Evaluation.Arithmetic
import RecordWasm.Proofs.Lowering.Structure
import Mathlib.Data.List.Forall2

/-!
# Locals and names

Every name in scope has a slot of its own, and the local in that slot holds the word that the
evaluator has for the name.  Slots are never handed out twice, so code writes to the locals of the
names in scope and to new ones, and leaves all others as they are.
-/

namespace RecordWasm.Evaluation

open Syntax Machine Wasm Lowering

/-- A piece of source: the context it stands in, the names that the evaluator has for the names in
scope, and the slots that had been handed out before. -/
structure Spot where
  context : Context
  labels : List (Option String)
  before : Slots

/-- A spot later on, when more slots have been handed out. -/
def Spot.later (spot : Spot) (slots : Slots) : Spot := { spot with before := slots }

/-- A local holds a word. -/
structure Holds (locals : List Value) (slot : Slot) (word : Word) : Prop where
  kind : numType? slot.type = some word.kind
  value : locals[slot.index.toNat]? = some word.value

/-- The locals of the names in scope hold the words that the evaluator has for them. -/
structure Spot.Matches (spot : Spot) (locals : List Value) (vars : Scope) : Prop where
  labels : vars.map Prod.fst = spot.labels
  holds : List.Forall₂ (fun entry var => Holds locals entry.2 var.2) spot.context.scope vars

/-- Code has written to the locals of the names in scope and to new ones at most, and has kept all
types. -/
structure Spot.Keeps (spot : Spot) (locals after : List Value) : Prop where
  types : after.map Value.type = locals.map Value.type
  others : ∀ index < spot.before.size,
    (∀ entry ∈ spot.context.scope, entry.2.index.toNat ≠ index) → after[index]? = locals[index]?

/-- There are locals for all slots. -/
structure Roomy (slots : Slots) (locals : List Value) : Prop where
  params : slots.params ≤ locals.length
  types : slots.locals <+: (locals.map Value.type).drop slots.params
  few : locals.length ≤ 2 ^ 32

/-- The frames of the loop around are among those that are open. -/
def Spot.Reaches (spot : Spot) : Prop :=
  ∀ targets, spot.context.loop = some targets →
    targets.leave < spot.context.frames ∧ targets.next < spot.context.frames

/-- What is known of a spot.  A name that the evaluator does not have is hidden. -/
structure Spot.Sound (spot : Spot) (hidden : List String) : Prop where
  covers : List.Forall₂ (fun entry label => label = some entry.1 ∨ label = none ∧ entry.1 ∈ hidden)
    spot.context.scope spot.labels
  distinct : (spot.context.scope.map fun entry => entry.2.index.toNat).Nodup
  bounded : ∀ entry ∈ spot.context.scope, entry.2.index.toNat < spot.before.size
  typed : ∀ entry ∈ spot.context.scope, entry.2.type.isVoid = false
  targets : spot.Reaches
  free : spot.context.receiver = ""

/-- A spot inside another one, which may be some frames further out and have fewer names. -/
structure Spot.Encloses (spot inner : Spot) : Prop where
  loop : inner.context.loop = spot.context.loop
  result : inner.context.result = spot.context.result
  names : ∃ names labels, inner.context.scope = names ++ spot.context.scope ∧
    inner.labels = labels ++ spot.labels ∧ names.length = labels.length ∧
    ∀ entry ∈ names, spot.before.size ≤ entry.2.index.toNat
  slots : spot.before.size ≤ inner.before.size

/-- Code has come from a spot to another one inside it. -/
structure Spot.Inside (spot : Spot) (locals : List Value) (inner : Spot)
    (innerLocals : List Value) :
    Prop extends spot.Encloses inner where
  keeps : spot.Keeps locals innerLocals

section Locals

variable {spot inner : Spot} {locals middle after : List Value} {vars : Scope} {slot : Slot}
variable {word : Word} {hidden : List String} {slots more : Slots}

theorem Spot.Keeps.refl (spot : Spot) (locals : List Value) : spot.Keeps locals locals :=
  ⟨rfl, fun _ _ _ => rfl⟩

/-- A local that is not that of a name in scope holds its word. -/
theorem Spot.Keeps.holds (hKeeps : spot.Keeps locals after) (hHolds : Holds locals slot word)
    (hSlot : slot.index.toNat < spot.before.size)
    (hFree : ∀ entry ∈ spot.context.scope, entry.2.index.toNat ≠ slot.index.toNat) :
    Holds after slot word :=
  ⟨hHolds.kind, (hKeeps.others _ hSlot hFree).trans hHolds.value⟩

/-- What code further in keeps is kept. -/
theorem Spot.Inside.keep (hInside : spot.Inside locals inner middle)
    (hKeeps : inner.Keeps middle after) :
    spot.Keeps locals after where
  types := hKeeps.types.trans hInside.keeps.types
  others := by
    intro index hIndex hOther
    obtain ⟨names, labels, hScope, -, -, hFresh⟩ := hInside.names
    have hSlots := hInside.slots
    rw [hKeeps.others index (by omega), hInside.keeps.others index hIndex hOther]
    intro entry hEntry
    rw [hScope, List.mem_append] at hEntry
    rcases hEntry with hNew | hOld
    · have hBound := hFresh entry hNew
      omega
    · exact hOther entry hOld

theorem Spot.Encloses.later (spot : Spot) (hSlots : spot.before.size ≤ more.size) :
    spot.Encloses (spot.later more) :=
  ⟨rfl, rfl, ⟨[], [], rfl, rfl, rfl, by simp⟩, hSlots⟩

theorem Spot.Encloses.refl (spot : Spot) : spot.Encloses spot := .later spot (Nat.le_refl _)

theorem Spot.Encloses.trans {middle : Spot} (hOuter : spot.Encloses middle)
    (hInner : middle.Encloses inner) : spot.Encloses inner where
  loop := hInner.loop.trans hOuter.loop
  result := hInner.result.trans hOuter.result
  names := by
    obtain ⟨names, labels, hScope, hLabels, hLength, hFresh⟩ := hOuter.names
    obtain ⟨others, more, hMore, hOthers, hCount, hNew⟩ := hInner.names
    refine ⟨others ++ names, more ++ labels, ?_, ?_, by simp [hLength, hCount], ?_⟩
    · rw [hMore, hScope, List.append_assoc]
    · rw [hOthers, hLabels, List.append_assoc]
    · intro entry hEntry
      rcases List.mem_append.1 hEntry with hLater | hEarlier
      · exact Nat.le_trans hOuter.slots (hNew entry hLater)
      · exact hFresh entry hEarlier
  slots := Nat.le_trans hOuter.slots hInner.slots

theorem Spot.Inside.refl (spot : Spot) (locals : List Value) : spot.Inside locals spot locals :=
  ⟨.refl spot, .refl _ _⟩

theorem Spot.Inside.later (hKeeps : spot.Keeps locals after)
    (hSlots : spot.before.size ≤ more.size) :
    spot.Inside locals (spot.later more) after :=
  ⟨.later spot hSlots, hKeeps⟩

theorem Roomy.before {count : Nat} (hRoomy : Roomy more locals) (hGrows : slots.Grows more count) :
    Roomy slots locals :=
  ⟨hGrows.params ▸ hRoomy.params, hGrows.params ▸ hGrows.locals.trans hRoomy.types, hRoomy.few⟩

theorem Roomy.keep (hRoomy : Roomy slots locals)
    (hTypes : after.map Value.type = locals.map Value.type) :
    Roomy slots after := by
  have hLength := congrArg List.length hTypes
  rw [List.length_map, List.length_map] at hLength
  exact ⟨hLength ▸ hRoomy.params, hTypes ▸ hRoomy.types, hLength ▸ hRoomy.few⟩

theorem Roomy.count_le (hRoomy : Roomy slots locals) : slots.size ≤ locals.length := by
  have hParams := hRoomy.params
  have hLength := hRoomy.types.length_le
  rw [List.length_drop, List.length_map] at hLength
  rw [Slots.size]
  omega

/-- The next slot is a local of the type that it is handed out for. -/
theorem Roomy.next {type : Ty} (hRoomy : Roomy (slots.push type) locals) :
    (slots.next type).index.toNat = slots.size ∧ ∃ old, locals[slots.size]? = some old ∧
      old.type = (numType? type).getD .i32 := by
  have hCount := hRoomy.count_le
  have hFew := hRoomy.few
  have hPush : (slots.push type).size = slots.size + 1 := by
    simp [Slots.size, Slots.push, Nat.add_assoc]
  rw [hPush] at hCount
  refine ⟨toNat_toUInt32 (by rw [Slots.size] at hCount; omega), ?_⟩
  obtain ⟨rest, hRest⟩ := hRoomy.types
  have hType := congrArg (fun types => types[slots.locals.length]?) hRest
  simp only [Slots.push, List.getElem?_drop, List.getElem?_map, List.append_assoc,
    List.singleton_append, List.getElem?_append_right (Nat.le_refl _), Nat.sub_self,
    List.getElem?_cons_zero] at hType
  obtain ⟨old, hOld, hSame⟩ := Option.map_eq_some_iff.1 hType.symm
  exact ⟨old, hOld, hSame⟩

/-- Names in scope, with the words and the locals that they stand for. -/
def Paired (hidden : List String) (locals : List Value) : List (String × Slot) → Scope → Prop :=
  List.Forall₂ fun entry var =>
    (var.1 = some entry.1 ∨ var.1 = none ∧ entry.1 ∈ hidden) ∧ Holds locals entry.2 var.2

theorem Spot.Matches.pairs (hMatches : spot.Matches locals vars) (hSound : spot.Sound hidden) :
    Paired hidden locals spot.context.scope vars := by
  have hCovers := hSound.covers
  rw [← hMatches.labels, List.forall₂_map_right_iff] at hCovers
  exact List.Forall₂.mp (fun _ _ hName hWord => ⟨hName, hWord⟩) hCovers hMatches.holds

variable {scope : List (String × Slot)} {name : String}

/-- A name that is not hidden stands for a word if and only if it has a slot. -/
theorem label_eq_iff {entry : String × Slot} {var : Option String × Word} (hName : name ∉ hidden)
    (hLabel : var.1 = some entry.1 ∨ var.1 = none ∧ entry.1 ∈ hidden) :
    var.1 = some name ↔ entry.1 = name := by
  rcases hLabel with hSome | ⟨hNone, hHidden⟩
  · rw [hSome, Option.some.injEq]
  · rw [hNone]
    exact ⟨nofun, fun hSame => absurd (hSame ▸ hHidden) hName⟩

theorem Paired.get (hPaired : Paired hidden locals scope vars) (hName : name ∉ hidden)
    (hLookup : (scope.find? fun entry => entry.1 == name).map Prod.snd = some slot) :
    ∃ word, vars.get? name = some word ∧ Holds locals slot word := by
  induction hPaired with
  | nil => cases hLookup
  | @cons entry var rest others hFirst _ ih =>
      have hLabel := label_eq_iff hName hFirst.1
      by_cases hSame : entry.1 = name
      · rw [List.find?_cons_of_pos (by simpa using hSame), Option.map_some,
          Option.some.injEq] at hLookup
        refine ⟨var.2, ?_, hLookup ▸ hFirst.2⟩
        rw [Scope.get?, List.find?_cons_of_pos (by simpa [hLabel] using hSame)]
        rfl
      · rw [List.find?_cons_of_neg (by simpa using hSame)] at hLookup
        obtain ⟨word, hGet, hHolds⟩ := ih hLookup
        refine ⟨word, ?_, hHolds⟩
        rw [Scope.get?, List.find?_cons_of_neg (by simpa [hLabel] using hSame)]
        exact hGet

/-- A word has been written to the local of a slot. -/
structure Filled (locals : List Value) (slot : Slot) (word : Word) (after : List Value) : Prop where
  holds : Holds after slot word
  types : after.map Value.type = locals.map Value.type
  others : ∀ index, index ≠ slot.index.toNat → after[index]? = locals[index]?

theorem filled_set {old : Value} (hOld : locals[slot.index.toNat]? = some old)
    (hKind : numType? slot.type = some word.kind) (hType : old.type = word.kind) :
    Filled locals slot word (locals.set slot.index.toNat word.value) where
  holds := ⟨hKind, List.getElem?_set_self (List.getElem?_eq_some_iff.1 hOld).1⟩
  types := map_type_set hOld (hType.trans word.type_value.symm)
  others := fun _ hOther => List.getElem?_set_ne (Ne.symm hOther)

/-- Words in other locals stay. -/
theorem Filled.keeps_holds {other : Slot} {kept : Word} (hFilled : Filled locals slot word after)
    (hHolds : Holds locals other kept) (hOther : other.index.toNat ≠ slot.index.toNat) :
    Holds after other kept :=
  ⟨hHolds.kind, (hFilled.others _ hOther).trans hHolds.value⟩

theorem Filled.keeps_all (hFilled : Filled locals slot word after)
    (hHolds : List.Forall₂ (fun entry var => Holds locals entry.2 var.2) scope vars)
    (hOther : ∀ entry ∈ scope, entry.2.index.toNat ≠ slot.index.toNat) :
    List.Forall₂ (fun entry var => Holds after entry.2 var.2) scope vars := by
  induction hHolds with
  | nil => exact .nil
  | cons hFirst _ ih =>
      exact .cons (hFilled.keeps_holds hFirst (hOther _ List.mem_cons_self))
        (ih fun entry hEntry => hOther entry (List.mem_cons_of_mem _ hEntry))

theorem Filled.matches (hFilled : Filled locals slot word after)
    (hMatches : spot.Matches locals vars)
    (hOther : ∀ entry ∈ spot.context.scope, entry.2.index.toNat ≠ slot.index.toNat) :
    spot.Matches after vars :=
  ⟨hMatches.labels, hFilled.keeps_all hMatches.holds hOther⟩

/-- Only one local is written, which is new or that of a name in scope. -/
theorem Filled.keeps (hFilled : Filled middle slot word after) (hKeeps : spot.Keeps locals middle)
    (hFree : spot.before.size ≤ slot.index.toNat ∨
      ∃ entry ∈ spot.context.scope, entry.2.index.toNat = slot.index.toNat) :
    spot.Keeps locals after where
  types := hFilled.types.trans hKeeps.types
  others := by
    intro index hIndex hOther
    rw [← hKeeps.others index hIndex hOther]
    refine hFilled.others index fun hSame => ?_
    rcases hFree with hNew | ⟨entry, hEntry, hSlot⟩
    · omega
    · exact hOther entry hEntry (hSlot.trans hSame.symm)

theorem Roomy.set {type : Ty} (hRoomy : Roomy (slots.push type) locals)
    (hKind : numType? type = some word.kind) :
    Filled locals (slots.next type) word (locals.set (slots.next type).index.toNat word.value) ∧
      ∀ store below,
        State.perform ⟨store, locals, word.value :: below⟩ .localSet
          (.local (slots.next type).index) =
          .ok ⟨store, locals.set (slots.next type).index.toNat word.value, below⟩ := by
  obtain ⟨hIndex, old, hOld, hType⟩ := hRoomy.next
  rw [← hIndex] at hOld
  rw [hKind, Option.getD_some] at hType
  exact ⟨filled_set hOld hKind hType, fun store below =>
    perform_localSet hOld (hType.trans word.type_value.symm)⟩

/-- A new slot takes a word of its type. -/
theorem Roomy.fill {type : Ty} (hRoomy : Roomy (slots.push type) locals)
    (hKind : numType? type = some word.kind) :
    ∃ after, Filled locals (slots.next type) word after ∧ ∀ store below,
      State.perform ⟨store, locals, word.value :: below⟩ .localSet
        (.local (slots.next type).index) = .ok ⟨store, after, below⟩ := ⟨_, hRoomy.set hKind⟩

/-! ## Assignments -/

theorem map_fst_assign (vars : Scope) (name : String) (word : Word) :
    (vars.assign name word).map Prod.fst = vars.map Prod.fst := by
  induction vars with
  | nil => rfl
  | cons var rest ih =>
      rw [Scope.assign]
      split <;> simp [ih]

theorem mem_of_lookup
    (hLookup : (scope.find? fun entry => entry.1 == name).map Prod.snd = some slot) :
    ∃ entry ∈ scope, entry.2 = slot := by
  obtain ⟨entry, hEntry, hSlot⟩ := Option.map_eq_some_iff.1 hLookup
  exact ⟨entry, List.mem_of_find?_eq_some hEntry, hSlot⟩

/-- A name gets a new word. -/
theorem Paired.assign (hPaired : Paired hidden locals scope vars)
    (hDistinct : (scope.map fun entry => entry.2.index.toNat).Nodup) (hName : name ∉ hidden)
    (hLookup : (scope.find? fun entry => entry.1 == name).map Prod.snd = some slot)
    (hFilled : Filled locals slot word after) :
    List.Forall₂ (fun entry var => Holds after entry.2 var.2) scope (vars.assign name word) := by
  induction hPaired with
  | nil => cases hLookup
  | @cons entry var rest others hFirst hRest ih =>
      have hLabel := label_eq_iff hName hFirst.1
      rw [List.map_cons, List.nodup_cons, List.mem_map] at hDistinct
      rw [Scope.assign]
      by_cases hSame : entry.1 = name
      · rw [List.find?_cons_of_pos (by simpa using hSame), Option.map_some,
          Option.some.injEq] at hLookup
        subst hLookup
        rw [if_pos (hLabel.2 hSame)]
        refine .cons hFilled.holds (hFilled.keeps_all (hRest.imp fun _ _ hBoth => hBoth.2) ?_)
        exact fun other hOther hIndex => hDistinct.1 ⟨other, hOther, hIndex⟩
      · rw [List.find?_cons_of_neg (by simpa using hSame)] at hLookup
        rw [if_neg (by rwa [hLabel])]
        obtain ⟨other, hOther, rfl⟩ := mem_of_lookup hLookup
        refine .cons (hFilled.keeps_holds hFirst.2 fun hIndex => ?_) (ih hDistinct.2 hLookup)
        exact hDistinct.1 ⟨other, hOther, hIndex.symm⟩

theorem Spot.Matches.assign (hMatches : spot.Matches locals vars) (hSound : spot.Sound hidden)
    (hName : name ∉ hidden) (hLookup : spot.context.lookup? name = some slot)
    (hFilled : Filled locals slot word after) : spot.Matches after (vars.assign name word) :=
  ⟨(map_fst_assign vars name word).trans hMatches.labels,
    (hMatches.pairs hSound).assign hSound.distinct hName hLookup hFilled⟩

/-- New slots are not those of names in scope. -/
theorem Spot.Sound.ne_new (hSound : spot.Sound hidden)
    (hNew : spot.before.size ≤ slot.index.toNat) :
    ∀ entry ∈ spot.context.scope, entry.2.index.toNat ≠ slot.index.toNat := by
  intro entry hEntry
  have hLess := hSound.bounded entry hEntry
  omega

/-- A spot with one more name. -/
def Spot.bind (spot : Spot) (name : String) (slot : Slot) (label : Option String) (slots : Slots) :
    Spot :=
  ⟨spot.context.bind name slot, label :: spot.labels, slots⟩

theorem Spot.Sound.bind {label : Option String} (hSound : spot.Sound hidden) (more : List String)
    (hLabel : label = some name ∨ label = none ∧ name ∈ more ++ hidden)
    (hNew : spot.before.size ≤ slot.index.toNat) (hBound : slot.index.toNat < slots.size)
    (hSome : slot.type.isVoid = false) :
    (spot.bind name slot label slots).Sound (more ++ hidden) where
  covers := .cons hLabel (hSound.covers.imp fun _ _ hEntry =>
    hEntry.imp_right fun hBoth => ⟨hBoth.1, List.mem_append_right _ hBoth.2⟩)
  distinct := by
    refine List.nodup_cons.2 ⟨fun hMem => ?_, hSound.distinct⟩
    obtain ⟨entry, hEntry, hIndex⟩ := List.mem_map.1 hMem
    exact hSound.ne_new hNew entry hEntry hIndex
  bounded := by
    intro entry hEntry
    rcases List.mem_cons.1 hEntry with rfl | hOld
    · exact hBound
    · have hLess := hSound.bounded entry hOld
      simp only [Spot.bind]
      omega
  typed := by
    intro entry hEntry
    rcases List.mem_cons.1 hEntry with rfl | hOld
    · exact hSome
    · exact hSound.typed entry hOld
  targets := hSound.targets
  free := hSound.free

theorem Spot.Matches.bind (hMatches : spot.Matches locals vars) (hSound : spot.Sound hidden)
    (hFilled : Filled locals slot word after) (hNew : spot.before.size ≤ slot.index.toNat)
    (name : String) (label : Option String) (slots : Slots) :
    (spot.bind name slot label slots).Matches after ((label, word) :: vars) :=
  ⟨congrArg (label :: ·) hMatches.labels,
    .cons hFilled.holds (hFilled.keeps_all hMatches.holds (hSound.ne_new hNew))⟩

theorem Spot.Matches.head {label : Option String}
    (hMatches : (spot.bind name slot label slots).Matches locals vars) :
    ∃ word rest, vars = (label, word) :: rest ∧ Holds locals slot word ∧
      spot.Matches locals rest := by
  obtain ⟨hLabels, hHolds⟩ := hMatches
  cases hHolds with
  | @cons _ var _ rest hFirst hRest =>
      obtain ⟨name, word⟩ := var
      obtain ⟨rfl, hOthers⟩ := List.cons.inj hLabels
      exact ⟨word, rest, rfl, hFirst, hOthers, hRest⟩

/-- The first name gets a new word. -/
theorem Spot.Matches.refill {label : Option String} {fresh : Word} {rest : Scope}
    (hMatches : (spot.bind name slot label slots).Matches locals ((label, word) :: rest))
    (hSound : (spot.bind name slot label slots).Sound hidden)
    (hFilled : Filled locals slot fresh after) :
    (spot.bind name slot label slots).Matches after ((label, fresh) :: rest) := by
  obtain ⟨_, _, hSame, -, hRest⟩ := hMatches.head
  cases hSame
  refine ⟨hMatches.labels, .cons hFilled.holds (hFilled.keeps_all hRest.holds ?_)⟩
  intro entry hEntry hIndex
  exact (List.nodup_cons.1 hSound.distinct).1 (List.mem_map.2 ⟨entry, hEntry, hIndex⟩)

theorem Spot.Encloses.bind (spot : Spot) (name : String) {slots : Slots} (label : Option String)
    (hNew : spot.before.size ≤ slot.index.toNat) (hSlots : spot.before.size ≤ slots.size) :
    spot.Encloses (spot.bind name slot label slots) :=
  ⟨rfl, rfl, ⟨[(name, slot)], [label], rfl, rfl, rfl, by simpa using hNew⟩, hSlots⟩

/-- A spot inside one more frame. -/
def Spot.inFrame (spot : Spot) : Spot := { spot with context := spot.context.inFrame }

/-- A spot inside the two frames of a loop. -/
def Spot.inLoop (spot : Spot) : Spot := spot.inFrame.inFrame

/-- A spot in the body of a loop. -/
def Spot.looping (spot : Spot) (leave next : Nat) : Spot :=
  { spot with context := spot.context.looping leave next }

theorem Spot.Matches.reframe {other : Spot} (hMatches : spot.Matches locals vars)
    (hScope : other.context.scope = spot.context.scope)
    (hLabels : other.labels = spot.labels) : other.Matches locals vars :=
  ⟨hLabels ▸ hMatches.labels, hScope ▸ hMatches.holds⟩

theorem Spot.Keeps.reframe {other : Spot} (hKeeps : spot.Keeps locals after)
    (hScope : other.context.scope = spot.context.scope)
    (hSlots : other.before.size ≤ spot.before.size) :
    other.Keeps locals after :=
  ⟨hKeeps.types, fun index hIndex hOther =>
    hKeeps.others index (Nat.lt_of_lt_of_le hIndex hSlots) (hScope ▸ hOther)⟩

theorem Spot.Inside.inFrame (hInside : spot.Inside locals inner middle) :
    spot.Inside locals inner.inFrame middle :=
  ⟨⟨hInside.loop, hInside.result, hInside.names, hInside.slots⟩, hInside.keeps⟩

theorem Spot.Reaches.inFrame (hReaches : spot.Reaches) : spot.inFrame.Reaches := by
  intro targets hLoop
  obtain ⟨hLeave, hNext⟩ := hReaches targets hLoop
  exact ⟨Nat.lt_succ_of_lt hLeave, Nat.lt_succ_of_lt hNext⟩

theorem Spot.Sound.later (hSound : spot.Sound hidden) (hSlots : spot.before.size ≤ more.size) :
    (spot.later more).Sound hidden :=
  ⟨hSound.covers, hSound.distinct,
    fun entry hEntry => Nat.lt_of_lt_of_le (hSound.bounded entry hEntry) hSlots, hSound.typed,
    hSound.targets, hSound.free⟩

theorem Spot.Sound.inFrame (hSound : spot.Sound hidden) : spot.inFrame.Sound hidden :=
  ⟨hSound.covers, hSound.distinct, hSound.bounded, hSound.typed, hSound.targets.inFrame,
    hSound.free⟩

theorem Spot.Sound.inLoop (hSound : spot.Sound hidden) : spot.inLoop.Sound hidden :=
  hSound.inFrame.inFrame

theorem Spot.Sound.looping {leave next : Nat} (hSound : spot.Sound hidden)
    (hLeave : leave < spot.context.frames) (hNext : next < spot.context.frames) :
    (spot.looping leave next).Sound hidden where
  covers := hSound.covers
  distinct := hSound.distinct
  bounded := hSound.bounded
  typed := hSound.typed
  targets := by
    rintro targets hLoop
    cases hLoop
    exact ⟨hLeave, hNext⟩
  free := hSound.free

end Locals

end RecordWasm.Evaluation
