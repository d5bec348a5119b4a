/-!
Colours and weights of terminal text. A style is switched on before a text
and off after it, also for the empty text.
-/

namespace Wabun.Console

inductive Style where
  | red
  | green
  | yellow
  | cyan
  | brightBlack
  | brightBlue
  | bold
  | dimmed
deriving DecidableEq

namespace Style

def onCode : Style → String
  | red => "31"
  | green => "32"
  | yellow => "33"
  | cyan => "36"
  | brightBlack => "90"
  | brightBlue => "94"
  | bold => "1"
  | dimmed => "2"

def offCode : Style → String
  | bold | dimmed => "0"
  | _ => "39"

def apply (style : Style) (text : String) : String :=
  "\x1b[" ++ style.onCode ++ "m" ++ text ++ "\x1b[" ++ style.offCode ++ "m"

end Style

def red : String → String := Style.red.apply

def green : String → String := Style.green.apply

def yellow : String → String := Style.yellow.apply

def cyan : String → String := Style.cyan.apply

def brightBlack : String → String := Style.brightBlack.apply

def brightBlue : String → String := Style.brightBlue.apply

def bold : String → String := Style.bold.apply

def dimmed : String → String := Style.dimmed.apply

end Wabun.Console
