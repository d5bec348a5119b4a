import Wabun.Text.Search

/-!
Dotted paths, such as a name followed by the names of members.
-/

namespace Wabun.Path

/-- The head of a path and the members that follow it, one after each dot. -/
def segments (path : String) : String × List String :=
  let (head, members) := Text.cutAt '.' path.toList
  (String.ofList head, members.map String.ofList)

/-- What stands before and after the last dot of a path, if it has one. -/
def splitLast? (path : String) : Option (String × String) :=
  let reversed := path.toList.reverse
  match reversed.dropWhile (· != '.') with
  | [] => none
  | _ :: owner =>
    some (String.ofList owner.reverse, String.ofList (reversed.takeWhile (· != '.')).reverse)

end Wabun.Path
