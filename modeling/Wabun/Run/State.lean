import Wabun.Fault
import Wabun.Heap.Equality

/-!
The state of a run, and the effects that a running program can have on it.
Every effect is written into a journal; what the program shows is read off
from there.
-/

namespace Wabun

/-- A part of a run with a beginning and an end of its own. -/
inductive Span where
  | call (procedure : ProcedureRef)
  /-- the members of a class, for a new instance -/
  | members (classRef : ClassRef)
  | module (name : String)
  /-- a body whose thrown value is caught under a name -/
  | attempt (caught : String)
deriving DecidableEq

/-- What happened in a run. -/
inductive Event where
  /-- a value was shown, with its text at that moment -/
  | shown (value : Value) (text : String)
  | bound (scope : ScopeRef) (name : String) (value : Value)
  /-- `定義` gave a value to a name without a dot, from this scope -/
  | assigned (scope : ScopeRef) (name : String)
  | exported (scope : ScopeRef) (name : String)
  | fieldSet (object : InstanceRef) (name : String) (value : Value)
  | staticSet (classRef : ClassRef) (name : String) (method : ProcedureRef)
  | moduleLoaded (name : String)
  /-- a call or the members of a class were begun, as the so many-th of
  those that are not yet at an end -/
  | entered (depth : Nat)
  | raised (fault : Fault)
  | returned (value : Value)
  | scopeMade (scope : ScopeRef)
  | opened (span : Span)
  | closed (span : Span)
  /-- a call came to its end and gave a value -/
  | gave (value : Value)
deriving DecidableEq

structure State where
  heap : Heap
  /-- the bindings of every module that was loaded -/
  modules : Table (Table Value)
  /-- the modules that are being loaded, the innermost first -/
  loading : List String
  /-- how many calls are not yet at an end -/
  depth : Nat
  /-- what happened so far, the latest first -/
  journal : List Event

namespace State

def initial : State := ⟨.empty, ∅, [], 0, []⟩

/-- Forgets the modules. -/
def reset (state : State) : State :=
  { state with modules := ∅, loading := [], depth := 0 }

/-- Writes an event into the journal. -/
def tell (state : State) (event : Event) : State :=
  { state with journal := event :: state.journal }

/-- The values that were shown, each with its text at that moment. -/
def shown (state : State) : List (Value × String) :=
  state.journal.reverse.filterMap fun
    | .shown value text => some (value, text)
    | _ => none

end State

/-- Why a run stops before it gives a result. -/
inductive Halt where
  | fault (fault : Fault)
  /-- the bound on the length of the run was met -/
  | outOfFuel

/-- A part of a run: it ends with a result or is halted, and in both cases
leaves a state. -/
abbrev Run := EStateM Halt State

namespace Run

variable {α : Type}

def record (event : Event) : Run Unit := fun state =>
  .ok () (state.tell event)

def raise (fault : Fault) : Run α := fun state =>
  .error (.fault fault) (state.tell (.raised fault))

def outOfFuel : Run α := fun state =>
  .error .outOfFuel state

@[inline]
def ask (question : Heap → α) : Run α := fun state =>
  .ok (question state.heap) state

@[inline]
def change (update : Heap → Heap) : Run Unit := fun state =>
  .ok () { state with heap := update state.heap }

@[inline]
def make (build : Heap → α × Heap) : Run α := fun state =>
  let (made, heap) := build state.heap
  .ok made { state with heap }

/-- Runs a part between two changes of the state. The second one is made
however the part ends. -/
@[inline]
def between (enter leave : State → State) (part : Run α) : Run α := fun state =>
  match part (enter state) with
  | .ok result state => .ok result (leave state)
  | .error halt state => .error halt (leave state)

/-- Runs a part as a span that the journal tells of. -/
def during (span : Span) (part : Run α) : Run α :=
  between (·.tell (.opened span)) (·.tell (.closed span)) part

def makeScope (scope : Scope) : Run ScopeRef := do
  let ref ← make (·.addScope scope)
  record (.scopeMade ref)
  return ref

def makeProcedure (procedure : Procedure) : Run ProcedureRef :=
  make (·.addProcedure procedure)

def define (scope : ScopeRef) (name : String) (value : Value) : Run Unit := do
  change fun heap => { heap with forest := heap.forest.define scope name value }
  record (.bound scope name value)

def defineAll (scope : ScopeRef) (bindings : List (String × Value)) : Run Unit :=
  bindings.forM fun (name, value) => define scope name value

/-- Binds a name where it can be written already, or else in the scope. -/
def assign (scope : ScopeRef) (name : String) (value : Value) : Run Unit := do
  record (.assigned scope name)
  let owner ← ask fun heap => (heap.forest.owner? scope name).getD scope
  define owner name value

def markExported (scope : ScopeRef) (name : String) : Run Unit := do
  change fun heap => { heap with forest := heap.forest.markExported scope name }
  record (.exported scope name)

def setField (object : InstanceRef) (name : String) (value : Value) : Run Unit := do
  change (·.setField object name value)
  record (.fieldSet object name value)

def setStatic (classRef : ClassRef) (name : String) (method : ProcedureRef) : Run Unit := do
  change (·.setStatic classRef name method)
  record (.staticSet classRef name method)

def display (value : Value) : Run String :=
  ask (·.display value)

def emit (value : Value) : Run Unit := do
  let text ← display value
  record (.shown value text)

end Run

end Wabun
