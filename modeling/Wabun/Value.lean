import Wabun.Node

/-!
The values of a running program. Procedures, classes, instances, enumerations
and scopes are objects with an identity, so a value refers to them; the heap
holds what they are.
-/

namespace Wabun

structure ScopeRef where
  index : Nat
deriving DecidableEq

structure ProcedureRef where
  index : Nat
deriving DecidableEq

structure ClassRef where
  index : Nat
deriving DecidableEq

structure InstanceRef where
  index : Nat
deriving DecidableEq

structure EnumRef where
  index : Nat
deriving DecidableEq

inductive Value where
  | number (value : Float)
  | text (value : String)
  | truth (value : Bool)
  | procedure (ref : ProcedureRef)
  | classObject (ref : ClassRef)
  | instanceObject (ref : InstanceRef)
  | enumeration (ref : EnumRef)
  /-- the value of a call that gives nothing back -/
  | unit
deriving DecidableEq

namespace Value

def ofLiteral : Literal → Value
  | .number x => number x
  | .text s => text s
  | .truth b => truth b

def typeName : Value → String
  | number _ => "number"
  | text _ => "string"
  | truth _ => "boolean"
  | procedure _ => "function"
  | classObject _ => "class"
  | instanceObject _ => "instance"
  | enumeration _ => "enum"
  | unit => "unit"

/-- Whether a value counts as true. Zero and what is not a number do not. -/
def isTruthy : Value → Bool
  | truth b => b
  | number x => x != 0 && !x.isNaN
  | text s => s != ""
  | unit => false
  | _ => true

end Value

/-- The type name that a name in the language of scripts stands for. Any
other name stands for itself. -/
def canonicalType (name : String) : String :=
  match name with
  | "数値" => "number"
  | "文字列" => "string"
  | "真偽" => "boolean"
  | "手続" => "function"
  | "構造体" => "class"
  | "実体" => "instance"
  | "列挙体" => "enum"
  | "無" => "unit"
  | other => other

end Wabun
