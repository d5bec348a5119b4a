import Wabun.Decimal.Layout
import Wabun.Position
import Wabun.Word

/-!
Tokens. Key words are ordinary words, so the kinds of tokens are few: words,
literals and symbols. The end of the text is not a token; it is the place
where a token stream stops.
-/

namespace Wabun

inductive Symbol where
  | leftBrace
  | rightBrace
  | leftParen
  | rightParen
  | comma
  | operator (op : Operator)
deriving DecidableEq

def Symbol.text : Symbol → String
  | leftBrace => "\x7b"
  | rightBrace => "\x7d"
  | leftParen => "("
  | rightParen => ")"
  | comma => ","
  | operator op => op.symbol

namespace Token

inductive Kind where
  | word (text : String)
  | number (value : Float)
  | text (value : String)
  | truth (value : Bool)
  | symbol (symbol : Symbol)

/-- How a diagnostic names a token. -/
def Kind.describe : Kind → String
  | word w => s!"'{w}'"
  | number x => "number " ++ Decimal.Layout.plainest.render x
  | text s => s!"string 「{s}」"
  | truth b => "boolean " ++ Word.ofTruth b
  | symbol s => "'" ++ s.text ++ "'"

def Kind.isWord (kind : Kind) (keyword : Keyword) : Bool :=
  match kind with
  | word w => w == keyword.text
  | _ => false

def Kind.isSymbol (kind : Kind) (wanted : Symbol) : Bool :=
  match kind with
  | symbol s => s == wanted
  | _ => false

end Token

structure Token where
  kind : Token.Kind
  place : Position

/-- Tokens still to be read, and the place where the text ends. -/
structure TokenStream where
  tokens : List Token
  stop : Position
  /-- whether reading went on from the end -/
  overrun : Bool := false

namespace TokenStream

/-- The kind of the next token, or nothing at the end. -/
def next? (stream : TokenStream) : Option Token.Kind :=
  stream.tokens.head?.map Token.kind

/-- Where the next token stands, or the end of the text. -/
def place (stream : TokenStream) : Position :=
  (stream.tokens.head?.map Token.place).getD stream.stop

/-- The stream behind its next token. At the end there is none to go past. -/
def tail (stream : TokenStream) : TokenStream :=
  { stream with
    tokens := stream.tokens.tail
    overrun := stream.overrun || stream.tokens.isEmpty }

end TokenStream

end Wabun
