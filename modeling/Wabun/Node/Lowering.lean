import Wabun.Node
import Wabun.Path
import Wabun.Phrase.Construct
import Wabun.Phrase.Parser

/-!
From phrases to the syntax tree. A leaf is a literal or a name, a group that
forms a construct becomes the node of that construct, and any other group
stands for the run of its parts. Runs are flattened where they fill a block,
so that every body of the tree is a plain list of nodes.

Which of two faults is reported follows from the order in which the parts of
a construct are read. That order is part of each definition below.
-/

namespace Wabun

/-- The causes for which phrases have no meaning. -/
inductive MeaningFault where
  | shape (construct : Construct) (expected found : Nat)
  | notAName (role : String) (found : Phrase)
  | notNames
  | staticPath (path : String)
  | caughtNames (count : Nat)
  | strayCase
  | alternativeShape (found : Nat)
  | declarationMarker
  | notABlock
  | notCases
  | malformedCase
  | caseHead
  | caseBody
  | bracketed (count : Nat)
  | noExpression
  | manyExpressions (count : Nat)
  | unknownOperator (symbol : String)

def MeaningFault.message : MeaningFault → String
  | shape construct expected found =>
    "malformed " ++ construct.describe ++ s!": expected {expected} parts, found {found}"
  | notAName role found => "expected " ++ role ++ " but found " ++ found.inspect
  | notNames => "expected a group of names"
  | staticPath path => s!"static method '{path}' must be written as Class.method"
  | caughtNames count => s!"catch takes exactly one name, found {count}"
  | strayCase => "'場合' case outside of a '判別' block"
  | alternativeShape found => s!"malformed if statement: expected 3 or 5 parts, found {found}"
  | declarationMarker => "variable declaration must start with '宣言' or '定義'"
  | notABlock => "expected a '\x7b ... \x7d' block"
  | notCases => "expected a '\x7b ... \x7d' block of cases"
  | malformedCase => "malformed pattern case"
  | caseHead => "pattern case must be '<pattern> 場合' or '他'"
  | caseBody => "malformed pattern case body"
  | bracketed count => s!"expected one parenthesised expression, found {count}"
  | noExpression => "expected an expression, found nothing"
  | manyExpressions count => s!"expected a single expression, found {count}"
  | unknownOperator symbol => s!"unknown operator '{symbol}'"

abbrev Meaning := Except MeaningFault

/-- What a phrase becomes: one node, or a run of such results. -/
inductive Lowered where
  | node (node : Node)
  | run (items : List Lowered)

namespace Lowered

mutual

/-- The nodes of a result in order. -/
def flatten : Lowered → List Node
  | .node single => [single]
  | .run items => flattenAll items

def flattenAll : List Lowered → List Node
  | [] => []
  | item :: rest => flatten item ++ flattenAll rest

end

def ofNodes (nodes : List Node) : Lowered :=
  .run (nodes.map .node)

end Lowered

namespace Atom

/-- A literal or a name. Key words and symbols mean nothing by themselves. -/
def toNode? : Atom → Option Node
  | number x => some (.literal (.number x))
  | text s => some (.literal (.text s))
  | truth b => some (.literal (.truth b))
  | word w => if Word.isName w then some (.identifier w) else none

end Atom

namespace Phrase

mutual

/-- How deep the groups of a phrase are nested. -/
def height : Phrase → Nat
  | .leaf _ => 0
  | .group parts => heightAll parts + 1

def heightAll : List Phrase → Nat
  | [] => 0
  | part :: rest => max (height part) (heightAll rest)

end

/-- What stands between an opening and a closing symbol. -/
def enclosed? (opening closing : Symbol) : Phrase → Option (List Phrase)
  | .group (first :: rest) =>
    match rest.getLast? with
    | some last =>
      if first.isWord opening.text && last.isWord closing.text then some rest.dropLast else none
    | none => none
  | _ => none

def braced? : Phrase → Option (List Phrase) :=
  enclosed? .leftBrace .rightBrace

/-- What stands in round brackets, without the commas. -/
def bracketed? (phrase : Phrase) : Option (List Phrase) :=
  (phrase.enclosed? .leftParen .rightParen).map
    (·.filter fun part => !part.word?.any Word.isComma)

def name (role : String) (phrase : Phrase) : Meaning String :=
  match phrase.word? with
  | some w => if Word.isName w then .ok w else .error (.notAName role phrase)
  | none => .error (.notAName role phrase)

/-- The operator that a phrase stands for. -/
def operator (phrase : Phrase) : Meaning Operator :=
  let symbol := phrase.word?.getD ""
  match Operator.ofSymbol? symbol with
  | some operator => .ok operator
  | none => .error (.unknownOperator symbol)

/-- The names of a group, without its symbols. -/
def names (phrase : Phrase) : Meaning (List String) :=
  match phrase.parts? with
  | some parts =>
    (parts.filter fun part => !part.word?.any Word.isPunctuation).mapM (name "a name")
  | none => .error .notNames

/-- The cases in the braces of a distinction, each as its parts. -/
def caseParts (phrase : Phrase) : Meaning (List (List Phrase)) :=
  match phrase.braced? with
  | none => .error .notCases
  | some groups => do
    let cases ← groups.mapM fun group =>
      match group.parts? with
      | none => .error .malformedCase
      | some cases => cases.mapM fun case =>
        match case.parts? with
        | none => .error .malformedCase
        | some parts => .ok parts
    return cases.flatten

end Phrase

/-- The two readings of a phrase, as part of a body and as an expression. -/
structure Lowering where
  transform : Phrase → Meaning (Option Lowered)
  expression : Phrase → Meaning Node

namespace Lowering

variable (lowering : Lowering)

def statements (phrase : Phrase) : Meaning (List Node) := do
  match ← lowering.transform phrase with
  | some lowered => return lowered.flatten
  | none => return []

def block (phrase : Phrase) : Meaning (List Node) :=
  match phrase.braced? with
  | some parts => do
    let nodes ← parts.mapM lowering.statements
    return nodes.flatten
  | none => .error .notABlock

/-- A bracketed group gives several arguments, anything else is one. -/
def arguments (phrase : Phrase) : Meaning (List Node) :=
  match phrase.bracketed? with
  | some parts => parts.mapM lowering.expression
  | none => do
    let argument ← lowering.expression phrase
    return [argument]

def importing : List Phrase → Meaning Node
  | [_, .leaf (.text s)] => .ok (.importing s)
  | [_, moduleName] => do
    let moduleName ← moduleName.name "module name"
    return .importing moduleName
  | parts => .error (.shape .importing 2 parts.length)

def exporting : List Phrase → Meaning Node
  | [_, name, _, value] => do
    let name ← name.name "export name"
    let value ← lowering.expression value
    return .exporting name value
  | parts => .error (.shape .exporting 4 parts.length)

def function : List Phrase → Meaning Node
  | [_, name, params, body] => do
    let name ← name.name "function name"
    let params ← params.names
    let body ← lowering.block body
    return .function name params body
  | parts => .error (.shape .function 4 parts.length)

def classDeclaration (parts : List Phrase) : Meaning Node :=
  if Construct.has parts .inherits then
    match parts with
    | [_, name, _, parent, body] => do
      let parent ← parent.name "superclass name"
      let name ← name.name "class name"
      let body ← lowering.block body
      return .classDeclaration name (some parent) body
    | _ => .error (.shape .classDeclaration 5 parts.length)
  else
    match parts with
    | [_, name, body] => do
      let name ← name.name "class name"
      let body ← lowering.block body
      return .classDeclaration name none body
    | _ => .error (.shape .classDeclaration 3 parts.length)

def enumDeclaration : List Phrase → Meaning Node
  | [_, name, values] => do
    let name ← name.name "enum name"
    let values ← values.names
    return .enumDeclaration name values
  | parts => .error (.shape .enumDeclaration 3 parts.length)

def create : List Phrase → Meaning Node
  | [_, className] => do
    let className ← className.name "class name"
    return .create className
  | parts => .error (.shape .create 2 parts.length)

def staticMethod : List Phrase → Meaning Node
  | [_, path, body] => do
    let path ← path.name "static method path"
    match Path.splitLast? path with
    | some (className, method) =>
      let body ← lowering.block body
      return .staticMethod className method body
    | none => .error (.staticPath path)
  | parts => .error (.shape .staticMethod 3 parts.length)

def attempt : List Phrase → Meaning Node
  | [_, body, _, caught, handler] => do
    match ← caught.names with
    | [caught] =>
      let body ← lowering.block body
      let handler ← lowering.block handler
      return .attempt body caught handler
    | names => .error (.caughtNames names.length)
  | parts => .error (.shape .attempt 5 parts.length)

/-- The part of a case behind its pattern. -/
def patternBody (pattern : Option Node) : List Phrase → Meaning PatternCase
  | [body] => do
    let body ← lowering.block body
    return .mk pattern none body
  | [marker, guard, body] =>
    if marker.isKeyword .provided then do
      let guard ← lowering.expression guard
      let body ← lowering.block body
      return .mk pattern (some guard) body
    else
      .error .caseBody
  | _ => .error .caseBody

def patternCase : List Phrase → Meaning PatternCase
  | [] => .error .caseHead
  | first :: rest =>
    if first.isKeyword .otherwise then
      lowering.patternBody none rest
    else
      match rest with
      | [] => .error .caseHead
      | marker :: rest =>
        if marker.isKeyword .caseOf then do
          let pattern ← lowering.expression first
          lowering.patternBody (some pattern) rest
        else
          .error .caseHead

def distinguish : List Phrase → Meaning Node
  | [subject, _, _, cases] => do
    let cases ← cases.caseParts
    let cases ← cases.mapM lowering.patternCase
    let subject ← lowering.expression subject
    return .distinguish subject cases
  | parts => .error (.shape .distinguish 4 parts.length)

/-- The last part of an alternative: a block, or a statement of its own. -/
def alternate (phrase : Phrase) : Meaning (List Node) :=
  if phrase.braced?.isSome then lowering.block phrase else lowering.statements phrase

def alternative : List Phrase → Meaning Node
  | [condition, _, consequent] => do
    let condition ← lowering.expression condition
    let consequent ← lowering.block consequent
    return .alternative condition consequent none
  | [condition, _, consequent, marker, alternate] =>
    if marker.isKeyword .otherwise then do
      let alternate ← lowering.alternate alternate
      let condition ← lowering.expression condition
      let consequent ← lowering.block consequent
      return .alternative condition consequent (some alternate)
    else
      .error (.alternativeShape 5)
  | parts => .error (.alternativeShape parts.length)

def loop : List Phrase → Meaning Node
  | [condition, _, body] => do
    let condition ← lowering.expression condition
    let body ← lowering.block body
    return .loop condition body
  | parts => .error (.shape .loop 3 parts.length)

def variableDeclaration : List Phrase → Meaning Node
  | [marker, name, _, value] => do
    let kind ←
      if marker.isKeyword .declare then pure .here
      else if marker.isKeyword .define then pure .nearest
      else .error .declarationMarker
    let name ← name.name "variable name"
    let value ← lowering.expression value
    return .variableDeclaration kind name value
  | parts => .error (.shape .variableDeclaration 4 parts.length)

def call : List Phrase → Meaning Node
  | [argument, _, callee] => do
    let callee ← callee.name "callee"
    let args ← lowering.arguments argument
    return .call callee args
  | parts => .error (.shape .call 3 parts.length)

def giveBack : List Phrase → Meaning Node
  | [value, _, _] => do
    let value ← lowering.expression value
    return .giveBack value
  | parts => .error (.shape .giveBack 3 parts.length)

def throwUp : List Phrase → Meaning Node
  | [value, _, _] => do
    let value ← lowering.expression value
    return .throwUp value
  | parts => .error (.shape .throwUp 3 parts.length)

def inspectType : List Phrase → Meaning Node
  | [_, value, _, typeName] => do
    let value ← lowering.expression value
    let typeName ← typeName.name "type name"
    return .inspectType value typeName
  | parts => .error (.shape .inspectType 4 parts.length)

def binary : List Phrase → Meaning Node
  | [left, symbol, right] => do
    let operator ← symbol.operator
    let left ← lowering.expression left
    let right ← lowering.expression right
    return .binary operator left right
  | parts => .error (.shape .binary 3 parts.length)

/-- The node of a construct. -/
def construct : Construct → List Phrase → Meaning Node
  | .importing => importing
  | .exporting => lowering.exporting
  | .function => lowering.function
  | .classDeclaration => lowering.classDeclaration
  | .enumDeclaration => enumDeclaration
  | .create => create
  | .staticMethod => lowering.staticMethod
  | .attempt => lowering.attempt
  | .distinguish => lowering.distinguish
  | .strayCase => fun _ => .error .strayCase
  | .alternative => lowering.alternative
  | .loop => lowering.loop
  | .variableDeclaration => lowering.variableDeclaration
  | .call => lowering.call
  | .giveBack => lowering.giveBack
  | .throwUp => lowering.throwUp
  | .inspectType => lowering.inspectType
  | .binary => lowering.binary

def transformStep : Phrase → Meaning (Option Lowered)
  | .leaf atom => .ok (atom.toNode?.map .node)
  | .group parts =>
    match Construct.of? parts with
    | some construct => do
      let node ← lowering.construct construct parts
      return some (.node node)
    | none => do
      let items ← parts.mapM lowering.transform
      return some (.run (items.filterMap id))

/-- An expression is one node. Brackets around it are taken off. -/
def expressionStep (phrase : Phrase) : Meaning Node :=
  match phrase.bracketed? with
  | some [part] => lowering.expression part
  | some parts => .error (.bracketed parts.length)
  | none => do
    let transformed ← lowering.transformStep phrase
    match transformed.map Lowered.flatten with
    | none | some [] => .error .noExpression
    | some [node] => return node
    | some nodes => .error (.manyExpressions nodes.length)

/-- The readings of phrases that are nested less deep than a bound. -/
def ofHeight : Nat → Lowering
  | 0 =>
    { transform := fun _ => .ok none
      expression := fun _ => .error .noExpression }
  | bound + 1 =>
    { transform := fun phrase => (ofHeight bound).transformStep phrase
      expression := fun phrase => (ofHeight bound).expressionStep phrase }

end Lowering

/-- What a phrase becomes as part of a body, or nothing if it carries no
meaning of its own. -/
def Phrase.transform (phrase : Phrase) : Meaning (Option Lowered) :=
  (Lowering.ofHeight (phrase.height + 1)).transform phrase

/-- The program whose statements a phrase stands for. -/
def Node.ofPhrase (phrase : Phrase) : Except Diagnostic Node :=
  match (Lowering.ofHeight (phrase.height + 1)).statements phrase with
  | .ok statements => .ok (.program statements)
  | .error fault => .error (.ofMeaning fault.message)

/-- The program of a source text. -/
def Node.ofText (source : String) : Except Diagnostic Node := do
  Node.ofPhrase (← Phrase.ofText source)

end Wabun
