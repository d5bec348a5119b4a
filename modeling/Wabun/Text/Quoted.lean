import Wabun.Text.Extender
import Wabun.Text.Invisible

/-!
A text in double quotes in which every character can be told apart: quotes,
backslashes and line ends are escaped, and a character that has no shape of
its own is written as its code point.
-/

namespace Wabun.Text

def quotedChar (c : Char) : List Char :=
  match c with
  | '\x00' => ['\\', '0']
  | '\t' => ['\\', 't']
  | '\r' => ['\\', 'r']
  | '\n' => ['\\', 'n']
  | '\\' => ['\\', '\\']
  | '"' => ['\\', '"']
  | c =>
    if isExtender c || (isInvisible c && c != ' ') then
      '\\' :: 'u' :: '{' :: Nat.toDigits 16 c.toNat ++ ['}']
    else
      [c]

def quoted (text : String) : String :=
  String.ofList ('"' :: text.toList.flatMap quotedChar ++ ['"'])

end Wabun.Text
