import Wabun.Run.Statement

/-!
Running whole programs, one after another, on one state.
-/

namespace Wabun

namespace Host

/-- The builtin functions, no modules, and a thousand open calls at most. -/
def standard : Host where
  builtins := Builtin.standard
  modules name := .error (.noLoader name)
  maxDepth := 1000
  listing := .byName

/-- Takes modules from a table. -/
def withModules (host : Host) (modules : Table (List Node)) : Host :=
  { host with
    modules := fun name =>
      match modules.get? name with
      | some statements => .ok statements
      | none => .error (.unknown name) }

end Host

namespace Run

/-- More fuel than a run can use up in any time that it is given. -/
def plenty : Nat := Nat.pow 10 15

def root : Run ScopeRef :=
  makeScope .root

/-- Runs statements in a scope. The result is what they return, if they do. -/
def statements (host : Host) (body : List Node) (scope : ScopeRef) : Run (Option Value) := do
  match ← (Engine.ofFuel host plenty).execute body scope with
  | .returned value => return some value
  | .normal => return none

def program (host : Host) (node : Node) (scope : ScopeRef) : Run (Option Value) :=
  statements host node.statements scope

def expression (host : Host) (node : Node) (scope : ScopeRef) : Run Value :=
  (Engine.ofFuel host plenty).evaluate node scope

def importedModule (host : Host) (name : String) : Run (Table Value) :=
  (Engine.ofFuel host plenty).loadModule host name

def isExpression : Node → Bool
  | .literal _ | .identifier _ | .binary _ _ _ | .call _ _ | .create _ => true
  | _ => false

/-- Runs the statements of an interactive entry one by one. Expressions among
them are evaluated; the last statement gives the result. -/
def entry (host : Host) (node : Node) (scope : ScopeRef) : Run (Option Value) :=
  node.statements.foldlM (fun _ statement =>
    if isExpression statement then do
      let value ← expression host statement scope
      return some value
    else
      statements host [statement] scope) none

end Run

end Wabun
