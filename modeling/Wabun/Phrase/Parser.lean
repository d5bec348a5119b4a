import Wabun.Phrase
import Wabun.Token.Lexer

/-!
The grammar, as a reader of phrases from a token stream. Every key word and
symbol stays in the phrase as a word, in the order of the source:

    block        ( "{" ( statement ... ) "}" )
    function     ( 関数 name ( "(" name "," name ")" ) block )
    declaration  ( 宣言 or 定義, name は expression )
    condition    ( expression なら block 他 block )
    call         ( argument を name )

A reading that fails leaves the stream where it gave up, so that reading can
go on from there. The recursion of the grammar is bounded by a depth. A phrase
inside another one begins behind at least one token of the outer phrase, so
the number of tokens is depth enough.
-/

namespace Wabun

namespace TokenStream

def atEnd (stream : TokenStream) : Bool :=
  stream.tokens.isEmpty

def atKeyword (stream : TokenStream) (k : Keyword) : Bool :=
  stream.next?.any (·.isWord k)

def atSymbol (stream : TokenStream) (s : Symbol) : Bool :=
  stream.next?.any (·.isSymbol s)

/-- The operator at hand, if it is one of the level. -/
def operator? (stream : TokenStream) (level : Operator.Level) : Option Operator :=
  match stream.next? with
  | some (.symbol (.operator op)) => if op.level = level then some op else none
  | _ => none

/-- The name at hand. -/
def name? (stream : TokenStream) : Option String :=
  match stream.next? with
  | some (.word w) => if Word.isName w then some w else none
  | _ => none

/-- The function name behind `を`, if both stand at hand. -/
def callee? (stream : TokenStream) : Option String :=
  if stream.atKeyword .object then stream.tail.name? else none

end TokenStream

/-- A reading of a token stream, which gives a result or a fault and in both
cases the rest. -/
abbrev Parse := EStateM (Located GrammarFault) TokenStream

namespace Parse

variable {α : Type}

def unexpected (expected : Expectation) : Parse α := fun stream =>
  .error ⟨⟨expected, stream.next?⟩, stream.place⟩ stream

def advance : Parse Unit := fun stream =>
  .ok () stream.tail

def keyword (k : Keyword) : Parse Phrase := do
  if (← get).atKeyword k then
    advance
    return .keyword k
  else
    unexpected (.keyword k)

def symbol (s : Symbol) : Parse Phrase := do
  if (← get).atSymbol s then
    advance
    return .word s.text
  else
    unexpected (.symbol s)

def name : Parse Phrase := do
  match (← get).name? with
  | some w =>
    advance
    return .word w
  | none => unexpected .name

/-- Reads items as long as the test on the stream holds, at most as many as
the bound says. -/
def manyUpTo (more : TokenStream → Bool) (item : Parse α) : Nat → Parse (List α)
  | 0 => return []
  | bound + 1 => do
    if more (← get) then
      let first ← item
      let rest ← manyUpTo more item bound
      return first :: rest
    else
      return []

/-- Reads items as long as the test on the stream holds. Every item takes a
token or fails, so there is at most one more than there are tokens. -/
def many (more : TokenStream → Bool) (item : Parse α) : Parse (List α) := do
  manyUpTo more item ((← get).tokens.length + 1)

/-- Items in round brackets, separated by commas. -/
def bracketed (item : Parse Phrase) : Parse Phrase := do
  let opening ← symbol .leftParen
  let items ←
    if (← get).atSymbol .rightParen then
      pure []
    else do
      let first ← item
      let rest ← many (·.atSymbol .comma) do
        let comma ← symbol .comma
        let next ← item
        return [comma, next]
      pure (first :: rest.flatten)
  let closing ← symbol .rightParen
  return .group (opening :: items ++ [closing])

/-- Items in braces. The end of the text is a fault there. -/
def braced (item : Parse Phrase) : Parse Phrase := do
  let opening ← symbol .leftBrace
  let items ← many (fun stream => !stream.atSymbol .rightBrace) do
    if (← get).atEnd then
      unexpected (.symbol .rightBrace)
    else
      item
  let closing ← symbol .rightBrace
  return .group [opening, .group items, closing]

/-- An operator of one level and the operand behind it. -/
def joint (level : Operator.Level) (operand : Parse Phrase) : Parse (Operator × Phrase) := do
  match (← get).operator? level with
  | some op =>
    advance
    let right ← operand
    return (op, right)
  | none => unexpected .expression

/-- Operands joined by the operators of one level, grouped to the left. -/
def joined (level : Operator.Level) (operand : Parse Phrase) : Parse Phrase := do
  let first ← operand
  let rest ← many (fun stream => (stream.operator? level).isSome) (joint level operand)
  return rest.foldl (fun left (op, right) => .group [left, .word op.symbol, right]) first

end Parse

/-- The recursive parts of the grammar. -/
structure Grammar where
  statement : Parse Phrase
  /-- a statement that begins with an expression -/
  sentence : Parse Phrase
  expression : Parse Phrase
  /-- an operand, possibly with minus signs before it -/
  operand : Parse Phrase

namespace Grammar

open Parse

def creation : Parse Phrase := do
  let marker ← keyword .create
  let className ← name
  return .group [marker, className]

/-- A literal, a name, a new instance or a bracketed group. -/
def primary (grammar : Grammar) : Parse Phrase := do
  match (← get).next? with
  | some (.number x) =>
    advance
    return .number x
  | some (.text s) =>
    advance
    return .leaf (.text s)
  | some (.truth b) =>
    advance
    return .leaf (.truth b)
  | some (.word w) =>
    if w == Keyword.create.text then
      creation
    else if Word.isName w then do
      advance
      return .word w
    else
      unexpected .expression
  | some (.symbol .leftParen) => bracketed grammar.expression
  | _ => unexpected .expression

/-- A minus sign before a number belongs to the number; before anything else
it subtracts from zero. -/
def operandStep (grammar : Grammar) : Parse Phrase := do
  if (← get).atSymbol (.operator .sub) then
    advance
    match (← get).next? with
    | some (.number x) =>
      advance
      return .number (-x)
    | _ =>
      let operand ← grammar.operand
      return .group [.number 0, .word Operator.sub.symbol, operand]
  else
    grammar.primary

/-- Comparisons, passed on through `を` to one function after another. -/
def expressionStep (grammar : Grammar) : Parse Phrase := do
  let first ←
    joined .comparison <| joined .additive <| joined .multiplicative <| grammar.operandStep
  let callees ← many (fun stream => stream.callee?.isSome) do
    let _ ← keyword .object
    name
  return callees.foldl (fun argument callee => .group [argument, .keyword .object, callee]) first

def block (grammar : Grammar) : Parse Phrase :=
  braced grammar.statement

def functionDeclaration (grammar : Grammar) : Parse Phrase := do
  let marker ← keyword .function
  let functionName ← name
  let params ← bracketed name
  let body ← grammar.block
  return .group [marker, functionName, params, body]

/-- What follows a marker in a declaration: a name, `は` and the value. -/
def binding (grammar : Grammar) (marker : Keyword) : Parse Phrase := do
  let marker ← keyword marker
  let bound ← name
  let topic ← keyword .topic
  let value ← grammar.expression
  return .group [marker, bound, topic, value]

def classDeclaration (grammar : Grammar) : Parse Phrase := do
  let marker ← keyword .classOf
  let className ← name
  let parent ←
    if (← get).atKeyword .inherits then do
      let inherits ← keyword .inherits
      let parentName ← name
      pure [inherits, parentName]
    else
      pure []
  let body ← grammar.block
  return .group (marker :: className :: parent ++ [body])

def enumDeclaration : Parse Phrase := do
  let marker ← keyword .enumerate
  let enumName ← name
  let opening ← symbol .leftBrace
  let items ← many (fun stream => !stream.atSymbol .rightBrace) do
    if (← get).atSymbol .comma then symbol .comma else name
  let closing ← symbol .rightBrace
  return .group [marker, enumName, .group (opening :: items ++ [closing])]

def staticDeclaration (grammar : Grammar) : Parse Phrase := do
  let marker ← keyword .static
  let path ← name
  let body ← grammar.block
  return .group [marker, path, body]

def attempt (grammar : Grammar) : Parse Phrase := do
  let marker ← keyword .attempt
  let attempted ← grammar.block
  let rescue ← keyword .rescue
  let caught ← bracketed name
  let rescued ← grammar.block
  return .group [marker, attempted, rescue, caught, rescued]

def importing : Parse Phrase := do
  let marker ← keyword .importing
  match (← get).next? with
  | some (.text s) =>
    advance
    return .group [marker, .leaf (.text s)]
  | _ =>
    let moduleName ← name
    return .group [marker, moduleName]

def typeInspection (grammar : Grammar) : Parse Phrase := do
  let marker ← keyword .inspectType
  let value ← grammar.expression
  let topic ← keyword .topic
  let typeName ← name
  return .group [marker, value, topic, typeName]

/-- What may follow the condition of an alternative. -/
def alternative (grammar : Grammar) (condition : Phrase) : Parse Phrase := do
  let marker ← keyword .ifThen
  let consequent ← grammar.block
  if (← get).atKeyword .otherwise then
    let otherwise ← keyword .otherwise
    let alternate ← if (← get).atSymbol .leftBrace then grammar.block else grammar.sentence
    return .group [condition, marker, consequent, otherwise, alternate]
  else
    return .group [condition, marker, consequent]

/-- One case: a pattern and `場合`, or `他`, then an optional condition and a block. -/
def patternCase (grammar : Grammar) : Parse Phrase := do
  let pattern ←
    if (← get).atKeyword .otherwise then do
      let otherwise ← keyword .otherwise
      pure [otherwise]
    else do
      let value ← grammar.expression
      let marker ← keyword .caseOf
      pure [value, marker]
  let condition ←
    if (← get).atKeyword .provided then do
      let marker ← keyword .provided
      let value ← grammar.expression
      pure [marker, value]
    else
      pure []
  let body ← grammar.block
  return .group (pattern ++ condition ++ [body])

/-- What may follow an expression at the head of a statement. -/
def sentenceStep (grammar : Grammar) : Parse Phrase := do
  let subject ← grammar.expressionStep
  let stream ← get
  if stream.atKeyword .object then
    if stream.tail.atKeyword .giveBack then
      let object ← keyword .object
      let marker ← keyword .giveBack
      return .group [subject, object, marker]
    else if stream.tail.atKeyword .throwUp then
      let object ← keyword .object
      let marker ← keyword .throwUp
      return .group [subject, object, marker]
    else if stream.tail.atKeyword .distinguish then
      let object ← keyword .object
      let marker ← keyword .distinguish
      let cases ← braced grammar.patternCase
      return .group [subject, object, marker, cases]
    else
      advance
      unexpected .callee
  else if stream.atKeyword .ifThen then
    grammar.alternative subject
  else if stream.atKeyword .loop then
    let marker ← keyword .loop
    let body ← grammar.block
    return .group [subject, marker, body]
  else
    return subject

/-- The key words that choose a statement by its first word. -/
def statementStep (grammar : Grammar) : Parse Phrase := do
  let stream ← get
  if stream.atKeyword .function then grammar.functionDeclaration
  else if stream.atKeyword .declare then grammar.binding .declare
  else if stream.atKeyword .define then grammar.binding .define
  else if stream.atKeyword .classOf then grammar.classDeclaration
  else if stream.atKeyword .enumerate then enumDeclaration
  else if stream.atKeyword .static then grammar.staticDeclaration
  else if stream.atKeyword .attempt then grammar.attempt
  else if stream.atKeyword .importing then importing
  else if stream.atKeyword .exporting then grammar.binding .exporting
  else if stream.atKeyword .inspectType then grammar.typeInspection
  else grammar.sentenceStep

/-- The grammar with phrases nested at most so deep. -/
def ofDepth : Nat → Grammar
  | 0 =>
    { statement := unexpected .expression
      sentence := unexpected .expression
      expression := unexpected .expression
      operand := unexpected .expression }
  | depth + 1 =>
    { statement := fun stream => (ofDepth depth).statementStep stream
      sentence := fun stream => (ofDepth depth).sentenceStep stream
      expression := fun stream => (ofDepth depth).expressionStep stream
      operand := fun stream => (ofDepth depth).operandStep stream }

end Grammar

namespace Parse

/-- The grammar for a stream: no phrase of it can be nested deeper than it has
tokens. -/
def withGrammar {α : Type} (reading : Grammar → Parse α) : Parse α := fun stream =>
  reading (Grammar.ofDepth (stream.tokens.length + 1)) stream

def statement : Parse Phrase :=
  withGrammar Grammar.statement

def expression : Parse Phrase :=
  withGrammar Grammar.expression

/-- All the statements up to the end of the text. -/
def program : Parse Phrase :=
  withGrammar fun grammar => do
    let statements ← many (fun stream => !stream.atEnd) grammar.statement
    return .group statements

end Parse

/-- The phrase of a whole source text. -/
def Phrase.ofText (source : String) : Except Diagnostic Phrase := do
  let stream ← (TokenStream.ofText source).mapError .ofLexical
  match Parse.program stream with
  | .ok phrase _ => return phrase
  | .error located _ => throw (.ofGrammar located)

end Wabun
