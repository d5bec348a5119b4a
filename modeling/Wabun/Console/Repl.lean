import Wabun.Console.Files
import Wabun.Console.Report
import Wabun.Text.Space

/-!
The interactive session. It is a machine that takes lines and gives what is
to be written; an entry goes on over several lines until its brackets are
closed.
-/

namespace Wabun.Console

/-- A piece of text for one of the two outputs. -/
inductive Chunk where
  | out (text : String)
  | err (text : String)

def Chunk.outLine (text : String) : Chunk := .out (text ++ "\n")

def Chunk.errLine (text : String) : Chunk := .err (text ++ "\n")

/-- The lines that a run showed. -/
def shownLines (state : State) : List Chunk :=
  state.shown.map fun (_, text) => .outLine text

/-- How many brackets of a kind are open after all the tokens. -/
def balance (opening closing : Symbol) (tokens : List Token) : Int :=
  (tokens.countP (·.kind.isSymbol opening) : Int) - tokens.countP (·.kind.isSymbol closing)

/-- Whether an entry is ready to be run. A text that cannot be read is, so
that its fault is reported. -/
def isComplete (entry : String) : Bool :=
  match TokenStream.ofText entry with
  | .error _ => true
  | .ok stream =>
    balance .leftParen .rightParen stream.tokens ≤ 0 &&
      balance .leftBrace .rightBrace stream.tokens ≤ 0

structure Repl where
  state : State
  scope : ScopeRef
  /-- the lines of the entry so far -/
  buffer : String

namespace Repl

def banner : Chunk :=
  .outLine (green (bold "Kotoba REPL. Type :help for help, :quit to exit."))

/-- A session whose bindings start anew in a state. -/
def fresh (state : State) : Repl :=
  let (scope, heap) := state.heap.addScope .root
  { state := { state with heap }, scope, buffer := "" }

def start : Repl := fresh .initial

def prompt (repl : Repl) : Chunk :=
  .out (cyan (if repl.buffer.isEmpty then "言葉> " else "... > "))

def helpText : List Chunk :=
  let line (command text : String) : String := "  " ++ yellow command ++ "  " ++ text
  [bold "Commands:", line ":help" "Show this help", line ":quit" "Exit the REPL",
   line ":vars" "List visible bindings", line ":builtins" "List native functions",
   line ":reset" "Clear bindings and the module cache",
   "Type code to evaluate. Input continues until every '\x7b' and '(' is closed."].map .outLine

def bindings (repl : Repl) : List Chunk :=
  let heap := repl.state.heap
  match heap.forest.visible repl.scope with
  | [] => [.outLine (dimmed "<no vars>")]
  | visible => visible.map fun binding =>
    .outLine (yellow binding.name ++ " = " ++ brightBlue (heap.display binding.value) ++
      dimmed (if binding.exported then " [公開]" else ""))

def farewell : String := "さようなら."

/-- A session that goes on, or its end. -/
inductive Next where
  | goOn (repl : Repl)
  | quit

/-- What a command does, and what is written for it. -/
def command (host : Host) (repl : Repl) (text : String) : Next × List Chunk :=
  if [":quit", ":q", ":exit"].contains text then (.quit, [.outLine farewell])
  else if [":help", ":h"].contains text then (.goOn repl, helpText)
  else if text == ":vars" then (.goOn repl, repl.bindings)
  else if text == ":builtins" then
    (.goOn repl, host.builtins.names.map fun name => .outLine (yellow name))
  else if text == ":reset" then
    (.goOn (fresh repl.state.reset), [.outLine (yellow "State reset.")])
  else (.goOn repl, [.outLine (red "Unknown command. Type :help.")])

/-- Runs a complete entry. -/
def runEntry (host : Host) (repl : Repl) (entry : String) : Repl × List Chunk :=
  let repl := { repl with buffer := "" }
  match Node.ofText entry with
  | .error diagnostic => (repl, (diagnosticLines entry diagnostic).map .errLine)
  | .ok program =>
    match Run.entry host program repl.scope { repl.state with journal := [] } with
    | .ok result state =>
      let answer := match result with
        | none | some .unit => []
        | some value => [.outLine (brightBlue (state.heap.display value))]
      ({ repl with state }, shownLines state ++ answer)
    | .error (.fault fault) state =>
      ({ repl with state }, shownLines state ++ (faultLines state.heap fault).map .errLine)
    | .error .outOfFuel state => ({ repl with state }, shownLines state)

/-- The text without the white space at its end. -/
def trimEnd (text : String) : String :=
  String.ofList (text.toList.reverse.dropWhile Text.isSpace).reverse

/-- Takes one more line, with its line feed. -/
def take (host : Host) (repl : Repl) (line : String) : Next × List Chunk :=
  let trimmed := trimEnd line
  if repl.buffer.isEmpty && trimmed.toList.head? == some ':' then
    repl.command host trimmed
  else
    let entry := repl.buffer ++ line
    if isComplete entry then
      let (repl, chunks) := repl.runEntry host entry
      (.goOn repl, chunks)
    else
      (.goOn { repl with buffer := entry }, [])

/-- What is written at the end of the input. -/
def atEnd : Chunk := .outLine ("\n" ++ farewell)

/-- What is written for a line that is not text. -/
def atUnreadable : Chunk := .outLine "<input error>"

/-- A whole session on given lines, each text or not. -/
def transcript (host : Host) (repl : Repl) : List (Option String) → List Chunk
  | [] => [repl.prompt, atEnd]
  | none :: _ => [repl.prompt, atUnreadable]
  | some line :: rest =>
    match repl.take host line with
    | (.quit, chunks) => repl.prompt :: chunks
    | (.goOn next, chunks) => repl.prompt :: chunks ++ next.transcript host rest

end Repl

end Wabun.Console
