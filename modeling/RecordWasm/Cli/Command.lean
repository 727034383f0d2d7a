import RecordWasm.Cli.Arguments
import RecordWasm.Cli.Options
import RecordWasm.Compile
import RecordWasm.Machine.Instance
import RecordWasm.Syntax.Decode

/-!
# The command

The command compiles a program, tells what the module holds, writes it to a file and calls one of
its functions, as far as the options ask for it.  It is a function of the words on the command line
and of the files around it, and its result is everything that it prints and writes.
-/

namespace RecordWasm.Cli

open Wasm Machine

/-- The files around the command. -/
structure Surroundings where
  /-- The text of a file, if there is one of the name. -/
  read? : String → Option String
  /-- Whether a file of the name can be written. -/
  writable : String → Bool

/-- Everything that the command does. -/
structure Outcome where
  exit : UInt32 := 0
  stdout : String := ""
  stderr : String := ""
  written : List (String × List UInt8) := []

/-- Why the command fails. -/
inductive Complaint where
  | plain (message : String)
  | several (failures : Failures)
  | crash

def usage : String :=
  "Usage: dolc -in <prog.json> [-out prog.wasm] [-dump] [-names]\n" ++
  "       dolc -in <prog.json> -list\n" ++
  "       dolc -in <prog.json> -call name [-args 1,2]\n" ++
  "       dolc -in <prog.json> -i  (interactive mode)\n"

def Complaint.text : Complaint → String
  | plain message => s!"Error: {message}\n"
  | several failures =>
      match failures with
      | [] | [_] => s!"Error: {Failures.message failures}\n"
      | _ =>
          s!"{failures.length} errors:\n" ++
          String.join (failures.map fun failure => s!"  {failure.message}\n")
  | crash => "crash\n"

def Complaint.exit : Complaint → UInt32
  | crash => 2
  | _ => 1

def missingFile (name : String) : String := s!"open {name}: no such file or directory"

/-- The part of a path behind its last slash. -/
def baseName (path : String) : String :=
  String.ofList (path.toList.reverse.takeWhile (· ≠ '/')).reverse

/-- The path without the last point in its last part and what is behind it. -/
def withoutExtension (path : String) : String :=
  let name := (baseName path).toList
  match name.reverse.dropWhile (· ≠ '.') with
  | [] => path
  | _ :: stem => String.ofList (path.toList.take (path.length - name.length + stem.length))

/-- Decodes and compiles a program; one without a name takes that of its file. -/
def compile (path source : String) (config : CompileConfig) : Except Complaint Compiled :=
  match Syntax.decodeText source with
  | .error .crash => .error .crash
  | .error (.failed failure) => .error (.plain s!"decode: {failure.message}")
  | .ok program =>
      let program :=
        if program.name = "" then { program with name := baseName (withoutExtension path) }
        else program
      (Compile.program config false program).mapError .several

/-- What the module holds. -/
def summary (compiled : Compiled) (loaded : Loaded) : String :=
  s!"Records: {compiled.registry.layouts.length}\n" ++
  String.join (compiled.registry.layouts.map fun record =>
    s!"  {record.name} size={record.size} align={record.align}\n") ++
  "\nExported functions:\n" ++
  String.join (loaded.exports.map fun sig => s!"  {signatureText sig}\n")

/-- Adds to what is printed. -/
def Outcome.print (outcome : Outcome) (text : String) : Outcome :=
  { outcome with stdout := outcome.stdout ++ text }

/-- Ends with a complaint. -/
def Outcome.fail (outcome : Outcome) (complaint : Complaint) : Outcome :=
  { outcome with exit := complaint.exit, stderr := outcome.stderr ++ complaint.text }

/-- Calls a function of a fresh instance. -/
def callStage (options : Options) (engine : Engine) (loaded : Loaded) (outcome : Outcome) :
    Outcome :=
  match loaded.export? options.call with
  | none => outcome.fail (.plain s!"no exported function {Text.quoted options.call}")
  | some sig =>
      let fields := if options.args = "" then [] else Text.split ',' options.args
      match readArguments sig.type.params fields with
      | .error cause => outcome.fail (.plain cause.message)
      | .ok words =>
          match (engine.start loaded).result with
          | .error failure => outcome.fail (.plain s!"instantiate: {failure.message}")
          | .ok inst =>
              let shown := ", ".intercalate fields
              let outcome := outcome.print s!"\nCalling {options.call}({shown})...\n"
              match (inst.call options.call words).results with
              | .error failure =>
                  outcome.fail (.plain s!"call {options.call}: {failure.message}")
              | .ok results =>
                  outcome.print s!"Result: {resultsText sig.type.results results}\n"

/-- What the command does with a compiled program. -/
def report (surroundings : Surroundings) (options : Options) (compiled : Compiled) : Outcome :=
  let bodies :=
    if options.dump then String.join (compiled.functions.map fun body => body.text ++ "\n")
    else ""
  let outcome : Outcome := { stdout := bodies }
  let engine : Engine := {}
  match engine.load compiled.binary with
  | .error failure => outcome.fail (.plain s!"load module: {failure.message}")
  | .ok loaded =>
      let outcome := outcome.print (summary compiled loaded)
      if options.list then outcome
      else
        let path :=
          if options.output = "" then withoutExtension options.input ++ ".wasm"
          else options.output
        if surroundings.writable path then
          let outcome := { outcome with written := [(path, compiled.binary)] }
          let outcome := outcome.print s!"\nWrote {path} ({compiled.binary.length} bytes)\n"
          if options.call = "" then outcome else callStage options engine loaded outcome
        else outcome.fail (.plain s!"write {path}: {missingFile path}")

/-- Runs the command. -/
def run (surroundings : Surroundings) (words : List String) : Outcome :=
  match Options.ofWords words with
  | .error .help => { stderr := usage }
  | .error cause => { exit := 2, stderr := s!"{cause.message}\n" }
  | .ok options =>
      if options.input = "" then { exit := 1, stderr := usage }
      else
        match surroundings.read? options.input with
        | none => Outcome.fail {} (.plain s!"read file: {missingFile options.input}")
        | some source =>
            match compile options.input source { emitNames := options.names } with
            | .error complaint => Outcome.fail {} complaint
            | .ok compiled =>
                if options.interactive then
                  Outcome.fail {} (.plain "interactive mode needs a terminal")
                else report surroundings options compiled

end RecordWasm.Cli
