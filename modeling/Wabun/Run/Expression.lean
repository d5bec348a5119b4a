import Wabun.Path
import Wabun.Run.Builtin
import Wabun.Word

/-!
The meaning of expressions: names and paths, operators, calls and new
instances. What a call or a class runs is left to an engine, which stands for
the meaning of everything nested inside the expression at hand.
-/

namespace Wabun

/-- What a program finds around it. -/
structure Host where
  builtins : Table Builtin
  /-- the statements of a module -/
  modules : String → Except ModuleFault (List Node)
  /-- how many calls may be open at once -/
  maxDepth : Nat
  /-- the order in which bindings are gone through where none is prescribed -/
  listing : Listing

/-- How a list of statements ends. -/
inductive Flow where
  | normal
  | returned (value : Value)

/-- What a call gives when its body ends so. -/
def Flow.value : Flow → Value
  | normal => .unit
  | returned value => value

/-- The meaning of nested expressions and statements. -/
structure Engine where
  evaluate : Node → ScopeRef → Run Value
  execute : List Node → ScopeRef → Run Flow

namespace Run

/-- A method of its own for a receiver: its scope binds the receiver. -/
def bindReceiver (method : ProcedureRef) (receiver : Value) : Run Value := do
  let procedure ← ask (·.procedure method)
  let scope ← makeScope (.childOf procedure.closure)
  define scope Word.self receiver
  let bound ← makeProcedure { procedure with closure := scope }
  return .procedure bound

/-- A member of a value on the way along a path. -/
def member (path : String) (owner : Value) (name : String) : Run Value :=
  match owner with
  | .instanceObject ref => do
    match ← ask fun heap => (heap.instanceInfo ref).fields.get? name with
    | some value => return value
    | none =>
      match ← ask fun heap => heap.findMethod? (heap.instanceInfo ref).classRef name with
      | some method => bindReceiver method owner
      | none => raise (.undefined path)
  | .enumeration ref => do
    match ← ask fun heap => (heap.enumInfo ref).ordinals.get? name with
    | some ordinal => return .number (.ofNat ordinal)
    | none => raise (.undefined path)
  | .classObject ref => do
    match ← ask fun heap => heap.findStatic? ref name with
    | some method => return .procedure method
    | none => raise (.undefined path)
  | value => raise (.type (.noMember value.typeName name))

/-- The value of a name, or of a path of members behind a name. -/
def resolve (path : String) (scope : ScopeRef) : Run Value := do
  let (head, members) := Path.segments path
  match ← ask fun heap => heap.forest.get? scope head with
  | some value => members.foldlM (member path) value
  | none => raise (.undefined head)

def findClass (name : String) (scope : ScopeRef) : Run ClassRef := do
  match ← ask fun heap => heap.forest.get? scope name with
  | some (.classObject ref) => return ref
  | _ => raise (.unknownClass name)

/-- Runs a span as one more open call. -/
def nested {α : Type} (host : Host) (span : Span) (part : Run α) : Run α := do
  let depth := (← get).depth
  if host.maxDepth ≤ depth then
    raise (.callsTooDeep host.maxDepth)
  else
    between
      (fun state => { state with
        depth := depth + 1, journal := .entered (depth + 1) :: state.journal })
      (fun state => { state with depth := state.depth - 1 }) (during span part)

/-- The end of a call. -/
def give (value : Value) : Run Value := do
  record (.gave value)
  return value

end Run

/-- Whether an order comparison holds between two numbers. None holds where
one of them is not a number. -/
def Operator.compareNumbers (operator : Operator) (x y : Float) : Bool :=
  match operator with
  | .lt => x < y
  | .gt => y < x
  | .le => x ≤ y
  | _ => y ≤ x

def Operator.compareTexts (operator : Operator) (s t : String) : Bool :=
  match operator with
  | .lt => s < t
  | .gt => t < s
  | .le => !decide (t < s)
  | _ => !decide (s < t)

namespace Run

def mismatch (operator : Operator) (left right : Value) : Run Value :=
  raise (.type (.operands operator left.typeName right.typeName))

/-- The value of an operator between two values. -/
def operate (host : Host) (operator : Operator) (left right : Value) : Run Value :=
  match operator with
  | .eq => do
    let same ← ask (·.equal host.listing left right)
    return .truth same
  | .ne => do
    let same ← ask (·.equal host.listing left right)
    return .truth (!same)
  | .add =>
    match left, right with
    | .number x, .number y => return .number (x + y)
    | .text s, .text t => return .text (s ++ t)
    | _, _ => mismatch operator left right
  | .sub =>
    match left, right with
    | .number x, .number y => return .number (x - y)
    | _, _ => mismatch operator left right
  | .mul =>
    match left, right with
    | .number x, .number y => return .number (x * y)
    | _, _ => mismatch operator left right
  | .div =>
    match left, right with
    | .number x, .number y => return .number (x / y)
    | _, _ => mismatch operator left right
  | .lt | .gt | .le | .ge =>
    match left, right with
    | .number x, .number y => return .truth (operator.compareNumbers x y)
    | .text s, .text t => return .truth (operator.compareTexts s t)
    | _, _ => mismatch operator left right

end Run

namespace Engine

open Run

variable (engine : Engine)

/-- Calls a procedure in a new scope that binds its parameters. -/
def apply (host : Host) (ref : ProcedureRef) (args : List Value) : Run Value := do
  let procedure ← ask (·.procedure ref)
  if procedure.params.length ≠ args.length then
    raise (.type (.argumentCount procedure.name procedure.params.length args.length))
  else
    let scope ← makeScope (.childOf procedure.closure)
    defineAll scope (procedure.params.zip args)
    let flow ← nested host (.call ref) (engine.execute procedure.body scope)
    give flow.value

/-- Calls by name. The builtin functions come before what a program binds. -/
def call (host : Host) (callee : String) (args : List Node) (scope : ScopeRef) : Run Value := do
  let values ← args.mapM fun arg => engine.evaluate arg scope
  match host.builtins.get? callee with
  | some builtin => builtin.call scope values
  | none =>
    match ← resolve callee scope with
    | .procedure ref => engine.apply host ref values
    | value => raise (.type (.notAFunction callee value.typeName))

/-- Runs the members of one class for a new instance. What they bind in a
sealed scope of their own become fields. -/
def runMembers (host : Host) (object : InstanceRef) (classRef : ClassRef) : Run Unit := do
  let info ← ask (·.classInfo classRef)
  let scope ← makeScope (.sealedChildOf info.scope)
  define scope Word.self (.instanceObject object)
  match ← nested host (.members classRef) (engine.execute info.members scope) with
  | .returned _ => raise (.type (.returnInClass info.name))
  | .normal =>
    let bindings ← ask fun heap => (heap.forest.scope scope).vars.entries
    bindings.forM fun (name, value) =>
      if name == Word.self then return else setField object name value

/-- A new instance. The members of its class run after those of the parents. -/
def create (host : Host) (className : String) (scope : ScopeRef) : Run Value := do
  let classRef ← findClass className scope
  let object ← make (·.addInstance ⟨classRef, ∅⟩)
  let lineage ← ask (·.lineage classRef)
  lineage.forM (engine.runMembers host object)
  return .instanceObject object

def evaluateStep (host : Host) (node : Node) (scope : ScopeRef) : Run Value :=
  match node with
  | .literal value => return .ofLiteral value
  | .identifier name => resolve name scope
  | .binary operator left right => do
    let left ← engine.evaluate left scope
    let right ← engine.evaluate right scope
    operate host operator left right
  | .call callee args => engine.call host callee args scope
  | .create className => engine.create host className scope
  | .inspectType value typeName => do
    let value ← engine.evaluate value scope
    if ← ask (·.matchesType value typeName) then
      return .unit
    else
      let text ← display value
      raise (.type (.unexpectedType typeName value.typeName text))
  | other => raise (.misplacedNode other.kind)

end Engine

end Wabun
