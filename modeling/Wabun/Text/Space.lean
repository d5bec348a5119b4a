import Wabun.Text.CodeRange

/-!
White space: the characters with the Unicode property White_Space, version 17.0.
-/

namespace Wabun.Text

def spaceRanges : List CodeRange :=
  [⟨0x9, 0xd⟩, ⟨0x20, 0x20⟩, ⟨0x85, 0x85⟩, ⟨0xa0, 0xa0⟩, ⟨0x1680, 0x1680⟩, ⟨0x2000, 0x200a⟩,
   ⟨0x2028, 0x2029⟩, ⟨0x202f, 0x202f⟩, ⟨0x205f, 0x205f⟩, ⟨0x3000, 0x3000⟩]

/-- Whether a character has the property White_Space. -/
def isSpace (c : Char) : Bool :=
  inRanges spaceRanges c.toNat

end Wabun.Text
