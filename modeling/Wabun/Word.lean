import Wabun.Operator

/-!
The vocabulary: the words that the language keeps for itself, and with them
which words are left as names.
-/

namespace Wabun

/-- The words that introduce or join the parts of a construct. -/
inductive Keyword where
  | function
  | declare
  | define
  | topic
  | ifThen
  | otherwise
  | loop
  | object
  | giveBack
  | throwUp
  | classOf
  | inherits
  | enumerate
  | create
  | static
  | attempt
  | rescue
  | distinguish
  | caseOf
  | provided
  | importing
  | exporting
  | inspectType
deriving DecidableEq

namespace Keyword

def text : Keyword → String
  | function => "関数"
  | declare => "宣言"
  | define => "定義"
  | topic => "は"
  | ifThen => "なら"
  | otherwise => "他"
  | loop => "繰返"
  | object => "を"
  | giveBack => "返却"
  | throwUp => "投げる"
  | classOf => "構造"
  | inherits => "継承"
  | enumerate => "列挙"
  | create => "生成"
  | static => "静的"
  | attempt => "試み"
  | rescue => "捕捉"
  | distinguish => "判別"
  | caseOf => "場合"
  | provided => "もし"
  | importing => "取込"
  | exporting => "公開"
  | inspectType => "検査"

def all : List Keyword :=
  [function, declare, define, topic, ifThen, otherwise, loop, object, giveBack, throwUp, classOf,
   inherits, enumerate, create, static, attempt, rescue, distinguish, caseOf, provided, importing,
   exporting, inspectType]

end Keyword

namespace Word

/-- The name of the receiver inside class members and methods. -/
def self : String := "自身"

/-- The words that stand for the two truth values, the preferred spelling first. -/
def truthWords : Bool → List String
  | true => ["真", "true"]
  | false => ["偽", "false"]

def ofTruth : Bool → String
  | true => "真"
  | false => "偽"

def punctuation : List String :=
  ["\x7b", "\x7d", "(", ")", ",", "、"]

/-- The words that stand between two expressions. -/
def operators : List String :=
  ["+", "-", "*", "/", "==", "!=", "<", ">", "<=", ">="]

def isKeyword (word : String) : Bool :=
  Keyword.all.any fun keyword => keyword.text == word

def isPunctuation (word : String) : Bool :=
  punctuation.contains word

def isOperator (word : String) : Bool :=
  operators.contains word

def isComma (word : String) : Bool :=
  word == "," || word == "、"

/-- Whether a word can name a binding: it is not empty and the language does
not keep it for itself. -/
def isName (word : String) : Bool :=
  word != "" && !isKeyword word && !isPunctuation word && !isOperator word

end Word

end Wabun
