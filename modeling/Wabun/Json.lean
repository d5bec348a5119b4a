import Wabun.Decimal.Layout

/-!
JSON values and their indented text.
-/

namespace Wabun

/-- A JSON value. The members of an object have an order of their own. -/
inductive Json where
  | null
  | bool (value : Bool)
  | number (value : Float)
  | string (value : String)
  | array (items : List Json)
  | object (members : List (String × Json))

namespace Json

/-- Numbers are written plainly while the leading digit has an exponent from
-5 to 15. -/
def layout : Decimal.Layout where
  plain exponent := -5 ≤ exponent && exponent ≤ 15
  pointZero := true
  exponentPlus := true
  tie := .even

def numberText (x : Float) : String :=
  if x.isFinite then layout.render x else "null"

def escapedChar (c : Char) : List Char :=
  match c with
  | '"' => ['\\', '"']
  | '\\' => ['\\', '\\']
  | '\n' => ['\\', 'n']
  | '\t' => ['\\', 't']
  | '\r' => ['\\', 'r']
  | '\x08' => ['\\', 'b']
  | '\x0c' => ['\\', 'f']
  | c =>
    if c.toNat < 0x20 then
      ['\\', 'u', '0', '0', Nat.digitChar (c.toNat / 16), Nat.digitChar (c.toNat % 16)]
    else
      [c]

def stringText (text : String) : String :=
  String.ofList ('"' :: text.toList.flatMap escapedChar ++ ['"'])

def newline (depth : Nat) : String :=
  "\n" ++ String.ofList (List.replicate (2 * depth) ' ')

/-- Lays out the items of an array or object, one on a line. -/
def enclose (opening closing : String) (depth : Nat) (items : List String) : String :=
  if items.isEmpty then
    opening ++ closing
  else
    opening ++ newline (depth + 1) ++ ("," ++ newline (depth + 1)).intercalate items ++
      newline depth ++ closing

mutual

/-- The text of a value whose first line is already indented to the depth. -/
def prettyAt (depth : Nat) : Json → String
  | null => "null"
  | bool value => if value then "true" else "false"
  | number value => numberText value
  | string value => stringText value
  | array items => enclose "[" "]" depth (prettyItems (depth + 1) items)
  | object members => enclose "\x7b" "\x7d" depth (prettyMembers (depth + 1) members)

def prettyItems (depth : Nat) : List Json → List String
  | [] => []
  | item :: rest => prettyAt depth item :: prettyItems depth rest

def prettyMembers (depth : Nat) : List (String × Json) → List String
  | [] => []
  | (name, value) :: rest =>
    (stringText name ++ ": " ++ prettyAt depth value) :: prettyMembers depth rest

end

/-- The text of a value, indented by two blanks for each level. -/
def pretty (value : Json) : String :=
  prettyAt 0 value

end Json

end Wabun
