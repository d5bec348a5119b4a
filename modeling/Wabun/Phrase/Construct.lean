import Wabun.Phrase

/-!
What a group of phrases is. The key words among its direct parts decide, in
a fixed order of precedence, so that a group is never two things at once.
-/

namespace Wabun

inductive Construct where
  | importing
  | exporting
  | function
  | classDeclaration
  | enumDeclaration
  | create
  | staticMethod
  | attempt
  | distinguish
  /-- a case that stands outside of a distinction -/
  | strayCase
  | alternative
  | loop
  | variableDeclaration
  | call
  | giveBack
  | throwUp
  | inspectType
  | binary
deriving DecidableEq

namespace Construct

def describe : Construct → String
  | importing => "import"
  | exporting => "export"
  | function => "function declaration"
  | classDeclaration => "class declaration"
  | enumDeclaration => "enum declaration"
  | create => "new expression"
  | staticMethod => "static method declaration"
  | attempt => "try/catch"
  | distinguish => "pattern match"
  | strayCase => "pattern case"
  | alternative => "if statement"
  | loop => "loop"
  | variableDeclaration => "variable declaration"
  | call => "call"
  | giveBack => "return"
  | throwUp => "throw"
  | inspectType => "type check"
  | binary => "binary expression"

def has (parts : List Phrase) (k : Keyword) : Bool :=
  parts.any (·.isKeyword k)

/-- An argument, `を` and a name. -/
def isCall : List Phrase → Bool
  | [_, object, callee] => object.isKeyword .object && callee.word?.any Word.isName
  | _ => false

/-- Three parts with an operator in the middle. -/
def isBinary : List Phrase → Bool
  | [_, symbol, _] => symbol.word?.any Word.isOperator
  | _ => false

/-- The construct that the direct parts of a group form, if they form one. -/
def of? (parts : List Phrase) : Option Construct :=
  if has parts .importing then some importing
  else if has parts .exporting then some exporting
  else if has parts .function then some function
  else if has parts .classOf then some classDeclaration
  else if has parts .enumerate then some enumDeclaration
  else if has parts .create then some create
  else if has parts .static then some staticMethod
  else if has parts .attempt || has parts .rescue then some attempt
  else if has parts .distinguish then some distinguish
  else if has parts .caseOf then some strayCase
  else if has parts .ifThen then some alternative
  else if has parts .loop then some loop
  else if has parts .declare || has parts .define then some variableDeclaration
  else if isCall parts then some call
  else if has parts .object && has parts .giveBack then some giveBack
  else if has parts .object && has parts .throwUp then some throwUp
  else if has parts .inspectType then some inspectType
  else if isBinary parts then some binary
  else none

end Construct

end Wabun
