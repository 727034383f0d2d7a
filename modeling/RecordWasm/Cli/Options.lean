import RecordWasm.Decimal.Reading
import RecordWasm.Text.Basic

/-!
# Options of the command line

An option is written with one or two dashes.  A switch stands alone or gives its truth value behind
an equals sign; any other option takes its value from behind an equals sign or from the next word.
The first word that is no option ends them.
-/

namespace RecordWasm.Cli

structure Options where
  /-- The file that holds the program. -/
  input : String := ""
  /-- The file that the module is written to. -/
  output : String := ""
  /-- The function to call. -/
  call : String := ""
  /-- The arguments of the call, with commas between them. -/
  args : String := ""
  list : Bool := false
  dump : Bool := false
  names : Bool := false
  workers : Int := 0
  verbose : Bool := false
  interactive : Bool := false
  deriving DecidableEq, Repr

/-- Why words are no options. -/
inductive OptionError where
  | help
  | malformed (word : String)
  | unknown (name : String)
  | missingValue (name : String)
  | badValue (name value : String)
  deriving DecidableEq, Repr

def OptionError.message : OptionError → String
  | help => "help requested"
  | malformed word => s!"bad option syntax: {word}"
  | unknown name => s!"unknown option: -{name}"
  | missingValue name => s!"option needs a value: -{name}"
  | badValue name value => s!"bad value {value} for option -{name}"

/-- The truth value that a text spells. -/
def readSwitch? (text : String) : Option Bool :=
  if text ∈ ["1", "t", "T", "true", "TRUE", "True"] then some true
  else if text ∈ ["0", "f", "F", "false", "FALSE", "False"] then some false
  else none

/-- A whole number in decimal digits, or in another base behind `0x`, `0o`, `0b` or a zero. -/
def readCount? (text : String) : Option Int :=
  let (negative, unsigned) := Decimal.splitSign text.toList
  let (base, digits) : Nat × List Char :=
    match unsigned with
    | '0' :: 'x' :: digits | '0' :: 'X' :: digits => (16, digits)
    | '0' :: 'o' :: digits | '0' :: 'O' :: digits => (8, digits)
    | '0' :: 'b' :: digits | '0' :: 'B' :: digits => (2, digits)
    | '0' :: digit :: digits => (8, digit :: digits)
    | _ => (10, unsigned)
  let magnitude := Decimal.digitsValue base digits
  if digits.isEmpty ∨ ¬ digits.all (Decimal.isDigitIn base) then none
  else if negative then if magnitude ≤ 1 <<< 63 then some (-magnitude) else none
  else if magnitude < 1 <<< 63 then some magnitude
  else none

namespace Options

/-- The switch of a name. -/
def switch? (options : Options) (name : String) : Option (Bool → Options) :=
  match name with
  | "list" => some fun on => { options with list := on }
  | "dump" => some fun on => { options with dump := on }
  | "names" => some fun on => { options with names := on }
  | "v" => some fun on => { options with verbose := on }
  | "i" => some fun on => { options with interactive := on }
  | _ => none

/-- Sets an option that takes a value; `none` if there is no such option. -/
def setValue? (options : Options) (name value : String) : Option (Except OptionError Options) :=
  match name with
  | "in" => some (.ok { options with input := value })
  | "out" => some (.ok { options with output := value })
  | "call" => some (.ok { options with call := value })
  | "args" => some (.ok { options with args := value })
  | "workers" => some <|
      match readCount? value with
      | some count => .ok { options with workers := count }
      | none => .error (.badValue name value)
  | _ => none

/-- The name of an option and the value behind an equals sign; `none` for a word that is no
option. -/
def splitWord? (word : String) : Option (Except OptionError (String × Option String)) :=
  let body? : Option (List Char) :=
    match word.toList with
    | '-' :: '-' :: body => some body
    | ['-'] => none
    | '-' :: body => some body
    | _ => none
  body?.map fun body =>
    match body with
    | [] | '-' :: _ | '=' :: _ => .error (.malformed word)
    | _ =>
        let text := String.ofList body
        match Text.cut? '=' text with
        | some (name, value) => .ok (name, some value)
        | none => .ok (text, none)

/-- Sets an option to a value. -/
def set (options : Options) (name value : String) : Except OptionError Options :=
  match options.switch? name, options.setValue? name value with
  | some switch, _ =>
      match readSwitch? value with
      | some on => .ok (switch on)
      | none => .error (.badValue name value)
  | none, some result => result
  | none, none => .error (if name = "h" ∨ name = "help" then .help else .unknown name)

/-- Reads words into options. -/
def readInto (options : Options) : List String → Except OptionError Options
  | [] => .ok options
  | word :: rest =>
      if word = "--" then .ok options
      else
        match splitWord? word with
        | none => .ok options
        | some (.error cause) => .error cause
        | some (.ok (name, some value)) =>
            match options.set name value with
            | .ok options => readInto options rest
            | .error cause => .error cause
        | some (.ok (name, none)) =>
            match options.switch? name with
            | some switch => readInto (switch true) rest
            | none =>
                match rest with
                | [] => .error (if (options.setValue? name "").isSome then .missingValue name
                    else .unknown name)
                | value :: rest =>
                    match options.set name value with
                    | .ok options => readInto options rest
                    | .error cause => .error cause

def ofWords (words : List String) : Except OptionError Options := readInto {} words

end Options

end RecordWasm.Cli
