/-!
# Text fields

A field holds a text and a cursor in it.  Every field of a form is shown each key, and only the one
that has the focus takes it.
-/

namespace RecordWasm.Cli

/-- A key, or characters typed in one go. -/
inductive Key where
  | up | down | enter | tab | escape | interrupt | backspace | left | right
  | typed (text : String)
  deriving DecidableEq, Repr

/-- The key of a name; a text that names no key has been typed. -/
def Key.ofName : String → Key
  | "up" => up
  | "down" => down
  | "enter" => enter
  | "tab" => tab
  | "esc" => escape
  | "ctrl+c" => interrupt
  | "backspace" => backspace
  | "left" => left
  | "right" => right
  | text => typed text

/-- The characters before the cursor, nearest first, and those behind it. -/
structure Field where
  before : List Char := []
  behind : List Char := []
  focused : Bool := false
  deriving DecidableEq, Repr

namespace Field

def text (field : Field) : String := String.ofList (field.before.reverse ++ field.behind)

/-- Whether a character controls the terminal instead of being shown. -/
def isControl (character : Char) : Bool :=
  character.toNat < 32 || (127 ≤ character.toNat && character.toNat < 160)

/-- What a typed character puts into a field: line ends and tabs become blanks, other control
characters and replacement characters are left out. -/
def accepted (character : Char) : List Char :=
  if character = '\n' ∨ character = '\r' ∨ character = '\t' then [' ']
  else if isControl character ∨ character = '\uFFFD' then []
  else [character]

/-- What a key does to a field that has the focus. -/
def edit (field : Field) (key : Key) : Field :=
  match key, field.before, field.behind with
  | .typed text, before, _ =>
      { field with before := (text.toList.flatMap accepted).reverse ++ before }
  | .backspace, _ :: before, _ => { field with before }
  | .left, last :: before, behind => { field with before, behind := last :: behind }
  | .right, before, next :: behind => { field with before := next :: before, behind }
  | _, _, _ => field

/-- What a key does to a field. -/
def press (field : Field) (key : Key) : Field := if field.focused then field.edit key else field

@[simp] theorem focused_edit (field : Field) (key : Key) :
    (field.edit key).focused = field.focused := by
  unfold edit
  split <;> rfl

@[simp] theorem focused_press (field : Field) (key : Key) :
    (field.press key).focused = field.focused := by
  unfold press
  split <;> simp

end Field

end RecordWasm.Cli
