import Wabun.Run.State
import Wabun.Text.Search

/-!
The functions that every program has without declaring them.
-/

namespace Wabun

inductive Builtin where
  | print
  | inspect
  | length
  | join
  | contains
deriving DecidableEq

namespace Builtin

def name : Builtin → String
  | print => "表示"
  | inspect => "調査"
  | length => "長さ"
  | join => "連結"
  | contains => "含む"

def all : List Builtin :=
  [print, inspect, length, join, contains]

def named? (name : String) : Option Builtin :=
  all.find? fun builtin => builtin.name == name

/-- The functions under their own names. -/
def standard : Table Builtin :=
  .ofList (all.map fun builtin => (builtin.name, builtin))

def bindingLine (heap : Heap) (binding : Forest.Visible) : String :=
  binding.name ++ " = " ++ heap.display binding.value ++
    (if binding.exported then " [公開]" else "")

/-- The bindings that can be seen from a scope, one on a line. -/
def listing (heap : Heap) (scope : ScopeRef) : String :=
  "\n".intercalate ((heap.forest.visible scope).map (bindingLine heap))

def wrongCount (builtin : Builtin) (expected : Nat) (args : List Value) : Run Value :=
  .raise (.type (.builtinCount builtin.name expected args.length))

/-- Calls a function from a scope. -/
def call (builtin : Builtin) (scope : ScopeRef) (args : List Value) : Run Value :=
  match builtin, args with
  | print, [value] => do
    Run.emit value
    return .unit
  | print, args => print.wrongCount 1 args
  | inspect, [] => do
    let text ← Run.ask fun heap => listing heap scope
    Run.emit (.text text)
    return .unit
  | inspect, args => inspect.wrongCount 0 args
  | length, [.text s] => return .number (.ofNat s.length)
  | length, [value] => .raise (.type (.lengthOf value.typeName))
  | length, args => length.wrongCount 1 args
  | join, [] => .raise (.type .nothingToJoin)
  | join, args => do
    let texts ← args.mapM Run.display
    return .text (String.join texts)
  | contains, [.text s, .text t] => return .truth (Text.occursIn t.toList s.toList)
  | contains, [a, b] => .raise (.type (.containmentOf a.typeName b.typeName))
  | contains, args => contains.wrongCount 2 args

end Builtin

end Wabun
