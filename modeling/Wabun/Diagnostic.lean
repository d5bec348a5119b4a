import Wabun.Token

/-!
What is wrong with a source text. A fault of the text carries the place where
reading gave up; a fault found later, when phrases are given their meaning,
has no place.
-/

namespace Wabun

/-- The causes that can stop the reading of tokens. -/
inductive LexicalFault where
  | unterminatedText
  /-- a character that starts an operator only together with a following `=` -/
  | loneCharacter (c : Char)
  | strayCharacter (c : Char)
  /-- digits and points that do not write a number -/
  | invalidNumber

def LexicalFault.message : LexicalFault → String
  | unterminatedText => "Unterminated string"
  | loneCharacter c => s!"Unexpected '{c}' (did you mean '{c}='?)"
  | strayCharacter c => s!"Unexpected character '{c}'"
  | invalidNumber => "Invalid number"

/-- What the grammar would have accepted at a place. -/
inductive Expectation where
  | keyword (keyword : Keyword)
  | symbol (symbol : Symbol)
  | name
  | expression
  | callee

def Expectation.text : Expectation → String
  | keyword k => "'" ++ k.text ++ "'"
  | symbol s => "'" ++ s.text ++ "'"
  | name => "a name"
  | expression => "an expression"
  | callee => "a function name after 'を'"

/-- A token, or the end of the text, that the grammar does not accept. -/
structure GrammarFault where
  expected : Expectation
  found : Option Token.Kind

def GrammarFault.message (fault : GrammarFault) : String :=
  "Expected " ++ fault.expected.text ++ " but found " ++
    match fault.found with
    | some kind => kind.describe
    | none => "end of input"

/-- A fault and the place where it was found. -/
structure Located (α : Type) where
  fault : α
  place : Position

/-- Which reading of the source found a fault. -/
inductive Stage where
  | text
  | meaning
deriving DecidableEq

def Stage.label : Stage → String
  | text => "Parse error"
  | meaning => "Lowering error"

/-- A fault as it is reported. -/
structure Diagnostic where
  stage : Stage
  message : String
  place : Option Position
deriving DecidableEq

namespace Diagnostic

def ofText (message : String) : Diagnostic := ⟨.text, message, none⟩

def ofTextAt (message : String) (place : Position) : Diagnostic := ⟨.text, message, some place⟩

def ofMeaning (message : String) : Diagnostic := ⟨.meaning, message, none⟩

def ofLexical (located : Located LexicalFault) : Diagnostic :=
  ofTextAt located.fault.message located.place

def ofGrammar (located : Located GrammarFault) : Diagnostic :=
  ofTextAt located.fault.message located.place

/-- The message, followed by its place if it has one. -/
def display (diagnostic : Diagnostic) : String :=
  match diagnostic.place with
  | some place => s!"{diagnostic.message} at {place.line}:{place.col}"
  | none => diagnostic.message

end Diagnostic

end Wabun
