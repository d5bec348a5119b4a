import Wabun.Console.Options
import Wabun.Console.Repl

/-!
The command: it runs a script, prints its phrases or its syntax tree, or holds
an interactive session. Files, arguments and input are given, and the result
is what is written and the exit code.
-/

namespace Wabun.Console

structure Invocation where
  arguments : List String
  /-- directories for modules from the environment -/
  environment : Option String
  /-- the absolute path of the working directory -/
  workingDirectory : String
  files : Files
  input : ByteArray

structure Result where
  code : Nat
  chunks : List Chunk

namespace Result

def stdout (result : Result) : String :=
  String.join (result.chunks.map fun
    | .out text => text
    | .err _ => "")

def stderr (result : Result) : String :=
  String.join (result.chunks.map fun
    | .out _ => ""
    | .err text => text)

def failure (lines : List String) : Result :=
  ⟨1, lines.map .errLine⟩

end Result

def versionText : String := "kotoba 0.0.1-dev"

def helpText : String :=
  "Run Kotoba scripts, or start the REPL when no file is given" ++ UsageFault.usage

/-- Runs a program and shows what it shows. -/
def runScript (host : Host) (program : Node) : Result :=
  let repl := Repl.start
  match Run.program host program repl.scope repl.state with
  | .ok _ state => ⟨0, shownLines state⟩
  | .error (.fault fault) state =>
    ⟨1, shownLines state ++ (faultLines state.heap fault).map .errLine⟩
  | .error .outOfFuel state => ⟨1, shownLines state⟩

/-- What a script is asked for, once its text is known. -/
def processSource (options : Options) (files : Files) (path source : String) : Result :=
  let printed (json : Json) : Result := ⟨0, [.outLine json.pretty]⟩
  let faulty (diagnostic : Diagnostic) : Result := .failure (diagnosticLines source diagnostic)
  match options.emit.getD .run with
  | .phrases =>
    match Phrase.ofText source with
    | .ok phrase => printed phrase.toJson
    | .error diagnostic => faulty diagnostic
  | .program =>
    match Node.ofText source with
    | .ok program => printed program.toJson
    | .error diagnostic => faulty diagnostic
  | .run =>
    match Node.ofText source with
    | .ok program => runScript (host files (options.searchPath (some (parentPath path)))) program
    | .error diagnostic => faulty diagnostic

def processFile (options : Options) (files : Files) (path : String) : Result :=
  match files.find? path with
  | none => .failure [headline "error" s!"File not found: {path}"]
  | some entry =>
    match entry.text with
    | .error reason => .failure [headline "error" s!"Failed to read {path}: {reason}"]
    | .ok source => processSource options files path source

/-- The lines of an input, each with its line feed; one that is not text is
left out. -/
def inputLines (input : ByteArray) : List (Option String) :=
  (go [] input.toList).map fun line => String.fromUTF8? ⟨line.toArray⟩
where
  /-- The line at hand is given in reverse. -/
  go (reversed : List UInt8) : List UInt8 → List (List UInt8)
    | [] => if reversed.isEmpty then [] else [reversed.reverse]
    | byte :: rest =>
      if byte = 10 then (byte :: reversed).reverse :: go [] rest else go (byte :: reversed) rest

def interact (options : Options) (invocation : Invocation) : Result :=
  let host := host invocation.files (options.searchPath (some invocation.workingDirectory))
  ⟨0, Repl.banner :: Repl.start.transcript host (inputLines invocation.input)⟩

def run (invocation : Invocation) : Result :=
  match Request.ofArguments invocation.arguments invocation.environment with
  | .error fault => ⟨2, [.err fault.text]⟩
  | .ok .version => ⟨0, [.outLine versionText]⟩
  | .ok .help => ⟨0, [.outLine helpText]⟩
  | .ok (.run options) =>
    match options.file with
    | some path => processFile options invocation.files path
    | none => interact options invocation

end Wabun.Console
