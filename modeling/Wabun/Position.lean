/-!
Places in a source text, counted in lines and characters from one.
-/

namespace Wabun

structure Position where
  line : Nat
  col : Nat
deriving DecidableEq

namespace Position

def start : Position := ⟨1, 1⟩

/-- The place after one more character. -/
def next (place : Position) (c : Char) : Position :=
  if c = '\n' then ⟨place.line + 1, 1⟩ else ⟨place.line, place.col + 1⟩

/-- The place after all the characters of a text. -/
def after (place : Position) (text : List Char) : Position :=
  text.foldl next place

end Position

end Wabun
