/-!
Finding a text in another one, and cutting a text at every occurrence of a
character.
-/

namespace Wabun.Text

/-- Whether the first text occurs in the second one. The empty text does in
every one. -/
def occursIn (needle : List Char) : List Char → Bool
  | [] => needle.isEmpty
  | c :: rest => needle.isPrefixOf (c :: rest) || occursIn needle rest

/-- The part before the first occurrence of a character, and the parts behind
each occurrence. -/
def cutAt (separator : Char) : List Char → List Char × List (List Char)
  | [] => ([], [])
  | c :: rest =>
    let (first, others) := cutAt separator rest
    if c = separator then ([], first :: others) else (c :: first, others)

/-- All the parts of a text between the occurrences of a character. -/
def parts (separator : Char) (text : String) : List String :=
  let (first, others) := cutAt separator text.toList
  (first :: others).map String.ofList

end Wabun.Text
