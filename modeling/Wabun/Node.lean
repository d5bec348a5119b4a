import Wabun.Json
import Wabun.Operator

/-!
The syntax tree of a program. Statements and expressions are nodes of one
type; which nodes can stand where is for the evaluator to say.
-/

namespace Wabun

inductive Literal where
  | number (value : Float)
  | text (value : String)
  | truth (value : Bool)

/-- The two ways to give a variable a value: in this scope, or where the name
is already bound. -/
inductive Declaration where
  | here
  | nearest
deriving DecidableEq

mutual

inductive Node where
  | program (statements : List Node)
  | function (name : String) (params : List String) (body : List Node)
  | variableDeclaration (kind : Declaration) (name : String) (value : Node)
  | classDeclaration (name : String) (parent : Option String) (body : List Node)
  | enumDeclaration (name : String) (values : List String)
  | create (className : String)
  | staticMethod (className : String) (name : String) (body : List Node)
  | alternative (condition : Node) (consequent : List Node) (alternate : Option (List Node))
  | distinguish (subject : Node) (cases : List PatternCase)
  | loop (condition : Node) (body : List Node)
  | attempt (body : List Node) (caught : String) (handler : List Node)
  | importing (moduleName : String)
  | exporting (name : String) (value : Node)
  | call (callee : String) (args : List Node)
  | giveBack (value : Node)
  | throwUp (value : Node)
  | inspectType (value : Node) (typeName : String)
  | binary (operator : Operator) (left right : Node)
  | identifier (name : String)
  | literal (value : Literal)

/-- One case of a distinction. Without a pattern it matches every subject. -/
inductive PatternCase where
  | mk (pattern : Option Node) (guard : Option Node) (body : List Node)

end

namespace PatternCase

def pattern : PatternCase → Option Node
  | mk pattern _ _ => pattern

def guard : PatternCase → Option Node
  | mk _ guard _ => guard

def body : PatternCase → List Node
  | mk _ _ body => body

end PatternCase

namespace Literal

/-- Equality of literals, by which a number that is not a number differs from itself. -/
def same : Literal → Literal → Bool
  | number x, number y => x == y
  | text s, text t => s == t
  | truth b, truth c => b == c
  | _, _ => false

def toJson : Literal → Json
  | number x => .number x
  | text s => .string s
  | truth b => .bool b

end Literal

def Declaration.text : Declaration → String
  | here => "let"
  | nearest => "var"

namespace Node

/-- The name of a node's kind. -/
def kind : Node → String
  | program .. => "Program"
  | function .. => "FunctionDeclaration"
  | variableDeclaration .. => "VariableDeclaration"
  | classDeclaration .. => "ClassDeclaration"
  | enumDeclaration .. => "EnumDeclaration"
  | create .. => "NewExpression"
  | staticMethod .. => "StaticMethodDeclaration"
  | alternative .. => "IfStatement"
  | distinguish .. => "PatternMatching"
  | loop .. => "LoopStatement"
  | attempt .. => "TryCatchStatement"
  | importing .. => "ImportStatement"
  | exporting .. => "ExportStatement"
  | call .. => "CallExpression"
  | giveBack .. => "ReturnStatement"
  | throwUp .. => "ThrowStatement"
  | inspectType .. => "TypeCheck"
  | binary .. => "BinaryExpression"
  | identifier .. => "Identifier"
  | literal .. => "Literal"

/-- The statements of a program, or the node itself as the only statement. -/
def statements : Node → List Node
  | program statements => statements
  | node => [node]

mutual

/-- Equality of syntax trees, by which a number that is not a number differs
from itself. -/
def same : Node → Node → Bool
  | program a, program b => sameAll a b
  | function n p a, function m q b => n == m && p == q && sameAll a b
  | variableDeclaration k n v, variableDeclaration l m w => k == l && n == m && same v w
  | classDeclaration n p a, classDeclaration m q b => n == m && p == q && sameAll a b
  | enumDeclaration n p, enumDeclaration m q => n == m && p == q
  | create n, create m => n == m
  | staticMethod c n a, staticMethod d m b => c == d && n == m && sameAll a b
  | alternative c a x, alternative d b y => same c d && sameAll a b && sameBlock x y
  | distinguish s x, distinguish t y => same s t && sameCases x y
  | loop c a, loop d b => same c d && sameAll a b
  | attempt a n x, attempt b m y => sameAll a b && n == m && sameAll x y
  | importing n, importing m => n == m
  | exporting n v, exporting m w => n == m && same v w
  | call n a, call m b => n == m && sameAll a b
  | giveBack v, giveBack w => same v w
  | throwUp v, throwUp w => same v w
  | inspectType v n, inspectType w m => same v w && n == m
  | binary o a b, binary p c d => o == p && same a c && same b d
  | identifier n, identifier m => n == m
  | literal v, literal w => v.same w
  | _, _ => false

def sameAll : List Node → List Node → Bool
  | [], [] => true
  | a :: as, b :: bs => same a b && sameAll as bs
  | _, _ => false

def sameBlock : Option (List Node) → Option (List Node) → Bool
  | none, none => true
  | some a, some b => sameAll a b
  | _, _ => false

def sameSlot : Option Node → Option Node → Bool
  | none, none => true
  | some a, some b => same a b
  | _, _ => false

def sameCase : PatternCase → PatternCase → Bool
  | .mk p g a, .mk q h b => sameSlot p q && sameSlot g h && sameAll a b

def sameCases : List PatternCase → List PatternCase → Bool
  | [], [] => true
  | a :: as, b :: bs => sameCase a b && sameCases as bs
  | _, _ => false

end

def tagged (kind : String) (members : List (String × Json)) : Json :=
  .object (("type", .string kind) :: members)

mutual

/-- The tree as JSON: the kind of each node, then its parts. -/
def toJson : Node → Json
  | program statements => tagged "Program" [("statements", .array (listJson statements))]
  | function name params body =>
    tagged "FunctionDeclaration" [("name", .string name),
      ("params", .array (params.map .string)), ("body", .array (listJson body))]
  | variableDeclaration kind name value =>
    tagged "VariableDeclaration" [("kind", .string kind.text),
      ("name", .string name), ("value", toJson value)]
  | classDeclaration name parent body =>
    tagged "ClassDeclaration" [("name", .string name),
      ("superClass", (parent.map .string).getD .null), ("body", .array (listJson body))]
  | enumDeclaration name values =>
    tagged "EnumDeclaration" [("name", .string name),
      ("values", .array (values.map .string))]
  | create className =>
    tagged "NewExpression" [("className", .string className)]
  | staticMethod className name body =>
    tagged "StaticMethodDeclaration" [("className", .string className),
      ("name", .string name), ("body", .array (listJson body))]
  | alternative condition consequent alternate =>
    tagged "IfStatement" [("condition", toJson condition),
      ("consequent", .array (listJson consequent)), ("alternate", blockJson alternate)]
  | distinguish subject cases =>
    tagged "PatternMatching" [("expression", toJson subject),
      ("cases", .array (casesJson cases))]
  | loop condition body =>
    tagged "LoopStatement" [("condition", toJson condition),
      ("body", .array (listJson body))]
  | attempt body caught handler =>
    tagged "TryCatchStatement" [("tryBlock", .array (listJson body)),
      ("catchParam", .string caught), ("catchBlock", .array (listJson handler))]
  | importing moduleName =>
    tagged "ImportStatement" [("moduleName", .string moduleName)]
  | exporting name value =>
    tagged "ExportStatement" [("name", .string name), ("value", toJson value)]
  | call callee args =>
    tagged "CallExpression" [("callee", .string callee),
      ("args", .array (listJson args))]
  | giveBack value => tagged "ReturnStatement" [("value", toJson value)]
  | throwUp value => tagged "ThrowStatement" [("value", toJson value)]
  | inspectType value typeName =>
    tagged "TypeCheck" [("value", toJson value), ("typeName", .string typeName)]
  | binary operator left right =>
    tagged "BinaryExpression" [("operator", .string operator.symbol),
      ("left", toJson left), ("right", toJson right)]
  | identifier name => tagged "Identifier" [("name", .string name)]
  | literal value => tagged "Literal" [("value", value.toJson)]

def listJson : List Node → List Json
  | [] => []
  | node :: rest => toJson node :: listJson rest

def blockJson : Option (List Node) → Json
  | none => .null
  | some nodes => .array (listJson nodes)

/-- A pattern, where the absent one is written as a node of its own. -/
def patternJson : Option Node → Json
  | none => tagged "DefaultCase" []
  | some node => toJson node

def guardJson : Option Node → Json
  | none => .null
  | some node => toJson node

def caseJson : PatternCase → Json
  | .mk pattern guard body =>
    .object [("pattern", patternJson pattern), ("guard", guardJson guard),
      ("body", .array (listJson body))]

def casesJson : List PatternCase → List Json
  | [] => []
  | case :: rest => caseJson case :: casesJson rest

end

end Node

end Wabun
