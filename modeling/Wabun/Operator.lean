/-!
The operators between two expressions, with their written forms and how
tightly they bind.
-/

namespace Wabun

inductive Operator where
  | add
  | sub
  | mul
  | div
  | eq
  | ne
  | lt
  | gt
  | le
  | ge
deriving DecidableEq

namespace Operator

def symbol : Operator → String
  | add => "+"
  | sub => "-"
  | mul => "*"
  | div => "/"
  | eq => "=="
  | ne => "!="
  | lt => "<"
  | gt => ">"
  | le => "<="
  | ge => ">="

/-- The operator that a symbol stands for. -/
def ofSymbol? : String → Option Operator
  | "+" => some add
  | "-" => some sub
  | "*" => some mul
  | "/" => some div
  | "==" => some eq
  | "!=" => some ne
  | "<" => some lt
  | ">" => some gt
  | "<=" => some le
  | ">=" => some ge
  | _ => none

/-- The levels of binding, the loosest first. Operators of one level group to
the left. -/
inductive Level where
  | comparison
  | additive
  | multiplicative
deriving DecidableEq

def level : Operator → Level
  | add | sub => .additive
  | mul | div => .multiplicative
  | eq | ne | lt | gt | le | ge => .comparison

end Operator

end Wabun
