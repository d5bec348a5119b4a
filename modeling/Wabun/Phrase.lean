import Wabun.Json
import Wabun.Text.Quoted
import Wabun.Word

/-!
Phrases: the words, literals and symbols of a source text, grouped by the
grammar and not yet given a meaning. A group carries no tag; what it is shows
from the key words among its parts.
-/

namespace Wabun

inductive Atom where
  | word (text : String)
  | text (value : String)
  | number (value : Float)
  | truth (value : Bool)

inductive Phrase where
  | leaf (atom : Atom)
  | group (parts : List Phrase)

namespace Atom

/-- In an inspected phrase numbers have a point, and an exponent from `10 ^
16` on and below `10 ^ (-4)`. -/
def numberLayout : Decimal.Layout where
  plain exponent := -4 ≤ exponent && exponent ≤ 15
  pointZero := true
  exponentPlus := false
  tie := .up

def inspect : Atom → String
  | word w => "Word(" ++ Text.quoted w ++ ")"
  | text s => "Str(" ++ Text.quoted s ++ ")"
  | number x => "Number(" ++ numberLayout.render x ++ ")"
  | truth b => "Bool(" ++ (if b then "true" else "false") ++ ")"

def toJson : Atom → Json
  | word w => .string w
  | text s => .string s
  | number x => .number x
  | truth b => .bool b

end Atom

namespace Phrase

def word (text : String) : Phrase := .leaf (.word text)

def number (x : Float) : Phrase := .leaf (.number x)

def keyword (k : Keyword) : Phrase := .word k.text

def word? : Phrase → Option String
  | .leaf (.word w) => some w
  | _ => none

def parts? : Phrase → Option (List Phrase)
  | .group parts => some parts
  | .leaf _ => none

def isWord (phrase : Phrase) (text : String) : Bool :=
  phrase.word? == some text

def isKeyword (phrase : Phrase) (k : Keyword) : Bool :=
  phrase.isWord k.text

mutual

/-- The structure of a phrase as text, for diagnostics. -/
def inspect : Phrase → String
  | .leaf atom => "Leaf(" ++ atom.inspect ++ ")"
  | .group parts => "Seq([" ++ ", ".intercalate (inspectAll parts) ++ "])"

def inspectAll : List Phrase → List String
  | [] => []
  | part :: rest => inspect part :: inspectAll rest

end

mutual

def toJson : Phrase → Json
  | .leaf atom => atom.toJson
  | .group parts => .array (toJsonAll parts)

def toJsonAll : List Phrase → List Json
  | [] => []
  | part :: rest => toJson part :: toJsonAll rest

end

end Phrase

end Wabun
