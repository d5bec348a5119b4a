/-!
Sets of characters as ascending tables of code point ranges, the form in which
this library writes down a property of characters.
-/

namespace Wabun.Text

/-- The code points from `first` to `last`, both included. -/
structure CodeRange where
  first : Nat
  last : Nat

/-- Whether a code point lies in one of the ranges of an ascending table. The
search ends at the first range that begins beyond the code point. -/
def inRanges : List CodeRange → Nat → Bool
  | [], _ => false
  | range :: rest, code =>
    if code < range.first then false else code ≤ range.last || inRanges rest code

end Wabun.Text
