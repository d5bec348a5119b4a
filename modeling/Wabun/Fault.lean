import Wabun.Diagnostic
import Wabun.Heap.Display

/-!
What can go wrong while a program runs. Only a thrown value can be caught by
a program; every other fault ends the run.
-/

namespace Wabun

/-- Values of the wrong type, in the wrong number or in the wrong place. -/
inductive TypeFault where
  | unexpectedType (wanted found text : String)
  | operands (operator : Operator) (left right : String)
  | notAFunction (name found : String)
  | argumentCount (function : String) (expected found : Nat)
  | noMember (typeName member : String)
  | noField (field typeName : String)
  | foreignStatic (className method declaringClass : String)
  | returnInClass (className : String)
  | builtinCount (builtin : String) (expected found : Nat)
  | lengthOf (found : String)
  | nothingToJoin
  | containmentOf (left right : String)
deriving DecidableEq

def TypeFault.message : TypeFault → String
  | unexpectedType wanted found text => s!"expected {wanted} but found {found} ({text})"
  | operands operator left right =>
    "cannot apply '" ++ operator.symbol ++ s!"' to {left} and {right}"
  | notAFunction name found => s!"'{name}' is a {found}, not a function"
  | argumentCount function expected found =>
    s!"function '{function}' expected {expected} args, got {found}"
  | noMember typeName member => s!"a {typeName} has no member '{member}'"
  | noField field typeName => s!"cannot set field '{field}' on a {typeName}"
  | foreignStatic className method declaringClass =>
    s!"static method '{className}.{method}' declared inside class '{declaringClass}'"
  | returnInClass className => s!"返却 is not allowed in the body of class '{className}'"
  | builtinCount builtin expected found =>
    s!"{builtin} expects {expected} argument(s), got {found}"
  | lengthOf found => s!"長さ expects a string, got {found}"
  | nothingToJoin => "連結 expects at least 1 argument"
  | containmentOf left right => s!"含む expects two strings, got {left} and {right}"

/-- Why a module cannot be imported. -/
inductive ModuleFault where
  /-- the importing modules are listed, the outermost first -/
  | cyclic (name : String) (loading : List String)
  | noLoader (name : String)
  | unknown (name : String)
  | notFound (name : String) (searched : List String)
  | unreadable (path reason : String)
  | faulty (path : String) (diagnostic : Diagnostic)
deriving DecidableEq

def ModuleFault.message : ModuleFault → String
  | cyclic name loading =>
    s!"cyclic import of '{name}' (" ++ " -> ".intercalate loading ++ s!" -> {name})"
  | noLoader name => s!"cannot import '{name}': no module loader configured"
  | unknown name => s!"module '{name}' not found"
  | notFound name searched =>
    s!"module '{name}' not found (searched: " ++
      (if searched.isEmpty then "<nothing>" else ", ".intercalate searched) ++ ")"
  | unreadable path reason => s!"Failed to read {path}: {reason}"
  | faulty path diagnostic => diagnostic.stage.label ++ s!" in {path}: " ++ diagnostic.display

inductive Fault where
  /-- a node that cannot stand where it was met -/
  | misplacedNode (kind : String)
  | undefined (name : String)
  | unknownClass (name : String)
  | type (cause : TypeFault)
  | thrown (value : Value)
  | module (cause : ModuleFault)
  | callsTooDeep (limit : Nat)
deriving DecidableEq

namespace Fault

def label : Fault → String
  | misplacedNode _ => "Internal error"
  | undefined _ => "Name error"
  | unknownClass _ => "Name error"
  | type _ => "Type error"
  | thrown _ => "Uncaught exception"
  | module _ => "Module error"
  | callsTooDeep _ => "Stack overflow"

/-- The text of a fault. A thrown value is shown as it is in the heap at hand. -/
def message (heap : Heap) : Fault → String
  | misplacedNode kind => s!"Unknown node kind '{kind}'"
  | undefined name => s!"Undefined variable '{name}'"
  | unknownClass name => s!"Unknown class '{name}'"
  | type cause => "Type error: " ++ cause.message
  | thrown value => "Uncaught exception: " ++ heap.display value
  | module cause => "Module error: " ++ cause.message
  | callsTooDeep limit => s!"Stack overflow: call depth exceeded {limit}"

end Fault

end Wabun
