import Wabun.Console.Style
import Wabun.Fault
import Wabun.Text.Search

/-!
How faults are shown on a terminal: the fault, the line of the source where
it was found, and advice on what to do about it.
-/

namespace Wabun.Console

def mentions (message marker : String) : Bool :=
  Text.occursIn marker.toList message.toList

/-- Advice for the messages that mention all the markers. -/
structure Advice where
  markers : List String
  help : String
  example? : Option String

/-- All advice. The first that fits a message is given. -/
def advices : List Advice :=
  [⟨["Undefined variable"], "Did you forget to declare this name with 宣言 or 定義?",
    some "Example: 宣言 x は 42"⟩,
   ⟨["Unknown class"], "Classes must be declared with 構造 before 生成 or 継承 uses them.",
    some "Example: 構造 犬 \x7b 宣言 名前 は 「ポチ」 \x7d"⟩,
   ⟨["cannot apply '+'"], "'+' adds two numbers or joins two strings.",
    some "Use 連結 to join values of different types: (「数: 」, 1) を 連結"⟩,
   ⟨["cannot apply"], "Arithmetic and ordering work only on numbers (and strings for < >).", none⟩,
   ⟨["expected", "args"], "Function called with the wrong number of arguments.",
    some "Pass several arguments as a group: (a, b) を 関数名"⟩,
   ⟨["Uncaught exception"],
    "Wrap the code in 試み \x7b ... \x7d 捕捉 ( e ) \x7b ... \x7d to handle it.", none⟩,
   ⟨["Stack overflow"],
    "Calls nest too deeply. Check that recursion reaches its stopping case.", none⟩,
   ⟨["cyclic import"],
    "Two modules import each other. Move the shared part into a third module.", none⟩,
   ⟨["not found (searched"], "Modules are looked up as <dir>/<name>.ktb.",
    some "Add directories with -I <dir> or KOTOBA_PATH=dir1:dir2"⟩,
   ⟨["after 'を'"], "'を' must be followed by a function name, 返却, 投げる or 判別.", none⟩,
   ⟨["Unterminated string"], "String is missing its closing quote.",
    some "Make sure every 「 has a matching 」 and every \" a matching \""⟩,
   ⟨["Unexpected '='"], "Bind with は and compare with ==.", some "Example: 宣言 x は 1"⟩,
   ⟨["Expected '\x7d'"], "A block is missing its closing '\x7d'.", none⟩,
   ⟨["Expected"], "Missing required syntax element.", none⟩]

def adviceLines (message : String) : List String :=
  match advices.find? fun advice => advice.markers.all (mentions message) with
  | some advice =>
    yellow ("Help: " ++ advice.help) ::
      (advice.example?.map fun text => "    " ++ brightBlack text).toList
  | none => []

def headline (label message : String) : String :=
  bold (red label) ++ ": " ++ red message

/-- The lines of a text. A line ends with a line feed, which may follow a
carriage return; after the last line feed there is a line only if it is not
empty. -/
def sourceLines (source : String) : List String :=
  (go [] source.toList).map String.ofList
where
  ended : List Char → List Char
    | '\r' :: reversed => reversed.reverse
    | reversed => reversed.reverse
  /-- The line at hand is given in reverse. -/
  go (reversed : List Char) : List Char → List (List Char)
    | [] => if reversed.isEmpty then [] else [reversed.reverse]
    | c :: rest =>
      if c = '\n' then ended reversed :: go [] rest else go (c :: reversed) rest

def blanks (count : Nat) : String :=
  String.ofList (List.replicate count ' ')

/-- The columns that a character takes on a terminal. -/
def width (c : Char) : Nat :=
  if c.toNat < 128 then 1 else 2

/-- A line of the source with a mark below the column where a fault was found. -/
def excerpt (place : Position) (line : String) : List String :=
  let number := toString place.line
  let gutter := blanks (3 - number.length) ++ number ++ " | "
  let before := (line.toList.take (place.col - 1)).foldl (fun columns c => columns + width c) 0
  ["     |", brightBlack gutter ++ line,
   red (blanks (gutter.length + before) ++ "^") ++ red " error here", "     |"]

/-- The report on a source text that cannot be read. -/
def diagnosticLines (source : String) (diagnostic : Diagnostic) : List String :=
  let placed :=
    match diagnostic.place with
    | some place =>
      s!"  --> line {place.line}, column {place.col}" ::
        (((sourceLines source)[place.line - 1]?).map (excerpt place)).getD []
    | none => []
  headline diagnostic.stage.label diagnostic.message :: placed ++ adviceLines diagnostic.message

/-- The report on a run that was stopped by a fault. -/
def faultLines (heap : Heap) (fault : Fault) : List String :=
  let message := fault.message heap
  headline fault.label message :: adviceLines message

end Wabun.Console
