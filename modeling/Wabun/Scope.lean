import Wabun.Table
import Wabun.Text.Quoted
import Wabun.Value

/-!
Scopes. Every scope but a root has a parent, and the scopes of a run form a
forest. Names are looked up along the chain of a scope, which is the scope
itself and its parents up to a root. A sealed scope is the last one whose
bindings can be replaced from below it.
-/

namespace Wabun

structure Scope where
  vars : Table Value
  exported : Table Unit
  parent : Option ScopeRef
  isSealed : Bool

namespace Scope

def root : Scope := ⟨∅, ∅, none, false⟩

def childOf (parent : ScopeRef) : Scope := { root with parent := some parent }

def sealedChildOf (parent : ScopeRef) : Scope := { childOf parent with isSealed := true }

/-- The bound names and whether there is a parent, as text. -/
def inspect (scope : Scope) : String :=
  "Env \x7b vars: [" ++ ", ".intercalate (scope.vars.names.map Text.quoted) ++
    "], has_parent: " ++ (if scope.parent.isSome then "true" else "false") ++ " \x7d"

end Scope

/-- All the scopes that were ever made, the oldest first. -/
structure Forest where
  scopes : Array Scope

namespace Forest

def empty : Forest := ⟨#[]⟩

def scope (forest : Forest) (ref : ScopeRef) : Scope :=
  forest.scopes.getD ref.index .root

def add (forest : Forest) (scope : Scope) : ScopeRef × Forest :=
  (⟨forest.scopes.size⟩, ⟨forest.scopes.push scope⟩)

def modify (forest : Forest) (ref : ScopeRef) (change : Scope → Scope) : Forest :=
  ⟨forest.scopes.modify ref.index change⟩

/-- A scope and its parents, the innermost first. A parent is older than its
children, which bounds the walk. -/
def chain (forest : Forest) (ref : ScopeRef) : List ScopeRef :=
  ref ::
    match (forest.scope ref).parent with
    | some parent => if parent.index < ref.index then forest.chain parent else []
    | none => []
termination_by ref.index

def get? (forest : Forest) (ref : ScopeRef) (name : String) : Option Value :=
  (forest.chain ref).findSome? fun ref => (forest.scope ref).vars.get? name

/-- Binds a name in this scope. -/
def define (forest : Forest) (ref : ScopeRef) (name : String) (value : Value) : Forest :=
  forest.modify ref fun scope => { scope with vars := scope.vars.insert name value }

/-- The scopes up to and including the first sealed one. -/
def upToSealed (forest : Forest) : List ScopeRef → List ScopeRef
  | [] => []
  | ref :: rest => if (forest.scope ref).isSealed then [ref] else ref :: forest.upToSealed rest

/-- The nearest scope that binds a name and can be written from here. -/
def owner? (forest : Forest) (ref : ScopeRef) (name : String) : Option ScopeRef :=
  (forest.upToSealed (forest.chain ref)).find? fun ref => (forest.scope ref).vars.contains name

/-- Binds a name where it is bound already, or else in this scope. -/
def assign (forest : Forest) (ref : ScopeRef) (name : String) (value : Value) : Forest :=
  forest.define ((forest.owner? ref name).getD ref) name value

def markExported (forest : Forest) (ref : ScopeRef) (name : String) : Forest :=
  forest.modify ref fun scope => { scope with exported := scope.exported.insert name () }

def isExported (forest : Forest) (ref : ScopeRef) (name : String) : Bool :=
  (forest.scope ref).exported.contains name

/-- A binding as it is seen from a scope. -/
structure Visible where
  name : String
  value : Value
  exported : Bool

/-- The bindings of a chain of scopes that are not shadowed by a name seen
before. -/
def visibleFrom (forest : Forest) (shadowed : List String) : List ScopeRef → List Visible
  | [] => []
  | ref :: rest =>
    let scope := forest.scope ref
    let fresh := scope.vars.entries.filter fun binding => !shadowed.contains binding.1
    fresh.map (fun (name, value) => ⟨name, value, scope.exported.contains name⟩) ++
      forest.visibleFrom (scope.vars.names ++ shadowed) rest

/-- Every binding that can be seen from a scope, the innermost scope first
and the names of one scope in order. -/
def visible (forest : Forest) (ref : ScopeRef) : List Visible :=
  forest.visibleFrom [] (forest.chain ref)

end Forest

end Wabun
