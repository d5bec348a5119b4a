import Wabun.Run.Expression

/-!
The meaning of statements, and with it of programs. The engine is tied to
itself by fuel: an engine with some fuel gives nested parts to the engine with
one unit less, and a loop may take as many turns as there is fuel.
-/

namespace Wabun

namespace Engine

open Run

variable (engine : Engine)

def attachStatic (classRef : ClassRef) (name : String) (body : List Node) (scope : ScopeRef) :
    Run Unit := do
  let className ← ask fun heap => (heap.classInfo classRef).name
  let method ← makeProcedure ⟨className ++ "." ++ name, [], body, scope⟩
  setStatic classRef name method

/-- The parts of a class body. -/
structure ClassBody where
  members : List Node
  methods : List (String × List String × List Node)
  statics : List (String × List Node)

/-- Sorts the statements of a class body. -/
def ClassBody.of (className : String) : List Node → Except TypeFault ClassBody
  | [] => .ok ⟨[], [], []⟩
  | node :: rest =>
    match node with
    | .function name params body => do
      let sorted ← ClassBody.of className rest
      return { sorted with methods := (name, params, body) :: sorted.methods }
    | .staticMethod owner name body =>
      if owner ≠ className then
        .error (.foreignStatic owner name className)
      else do
        let sorted ← ClassBody.of className rest
        return { sorted with statics := (name, body) :: sorted.statics }
    | .giveBack _ => .error (.returnInClass className)
    | other => do
      let sorted ← ClassBody.of className rest
      return { sorted with members := other :: sorted.members }

def declareClass (name : String) (parent : Option String) (body : List Node) (scope : ScopeRef) :
    Run Unit := do
  let parent ← parent.mapM fun parent => findClass parent scope
  match ClassBody.of name body with
  | .error cause => raise (.type cause)
  | .ok sorted =>
    let methods ← sorted.methods.mapM fun (name, params, body) => do
      let method ← makeProcedure ⟨name, params, body, scope⟩
      return (name, method)
    let classRef ← make (·.addClass ⟨name, parent, sorted.members, .ofList methods, ∅, scope⟩)
    sorted.statics.forM fun (name, body) => attachStatic classRef name body scope
    define scope name (.classObject classRef)

/-- Whether a subject is equal to a pattern. It is to the absent one. -/
def matchesPattern (host : Host) (subject : Value) (scope : ScopeRef) : Option Node → Run Bool
  | none => return true
  | some pattern => do
    let value ← engine.evaluate pattern scope
    ask (·.equal host.listing value subject)

def meetsGuard (scope : ScopeRef) : Option Node → Run Bool
  | none => return true
  | some guard => do
    let value ← engine.evaluate guard scope
    return value.isTruthy

/-- Whether a case is for a subject. Its condition is evaluated only if its
pattern fits. -/
def accepts (host : Host) (subject : Value) (scope : ScopeRef) (candidate : PatternCase) :
    Run Bool := do
  if ← engine.matchesPattern host subject scope candidate.pattern then
    engine.meetsGuard scope candidate.guard
  else
    return false

/-- The first case that a subject matches. Patterns and conditions are
evaluated as far as it takes to find it. -/
def matchingCase (host : Host) (subject : Value) (scope : ScopeRef) :
    List PatternCase → Run (Option PatternCase)
  | [] => return none
  | candidate :: rest => do
    if ← engine.accepts host subject scope candidate then
      return some candidate
    else
      matchingCase host subject scope rest

/-- Runs a body in a new scope inside another one. -/
def block (body : List Node) (scope : ScopeRef) : Run Flow := do
  let inner ← makeScope (.childOf scope)
  engine.execute body inner

/-- Runs a body as long as a condition holds, at most as often as the fuel
says. -/
def loop (condition : Run Value) (body : Run Flow) : Nat → Run Flow
  | 0 => outOfFuel
  | fuel + 1 => do
    let value ← condition
    if value.isTruthy then
      match ← body with
      | .returned value => return .returned value
      | .normal => loop condition body fuel
    else
      return .normal

/-- Runs a body, and a handler for the value that it throws. -/
def attempt (body : List Node) (caught : String) (handler : List Node) (scope : ScopeRef) :
    Run Flow := fun state =>
  match during (.attempt caught) (engine.block body scope) state with
  | .error (.fault (.thrown value)) state =>
    (do
      let inner ← makeScope (.childOf scope)
      define inner caught value
      engine.execute handler inner : Run Flow) state
  | other => other

/-- The bindings of a module's own scope after its statements have run. -/
def runModule (host : Host) (name : String) : Run (Table Value) := do
  match host.modules name with
  | .error cause => raise (.module cause)
  | .ok statements =>
    let scope ← makeScope .root
    let _ ← during (.module name) (engine.execute statements scope)
    ask fun heap => (heap.forest.scope scope).vars

/-- The bindings of a module. It is run once; a module that is being loaded
cannot be imported. -/
def loadModule (host : Host) (name : String) : Run (Table Value) := do
  let state ← get
  match state.modules.get? name with
  | some bindings => return bindings
  | none =>
    if state.loading.contains name then
      raise (.module (.cyclic name state.loading.reverse))
    else
      let bindings ← between (fun state => { state with loading := name :: state.loading })
        (fun state => { state with loading := state.loading.tail }) (engine.runModule host name)
      modify fun state => { state with modules := state.modules.insert name bindings }
      record (.moduleLoaded name)
      return bindings

/-- Gives a variable its value. Behind a dot it is a field of an instance. -/
def declare (kind : Declaration) (name : String) (value : Value) (scope : ScopeRef) : Run Unit :=
  match Path.splitLast? name with
  | some (owner, field) => do
    match ← resolve owner scope with
    | .instanceObject ref => setField ref field value
    | other => raise (.type (.noField field other.typeName))
  | none =>
    match kind with
    | .here => define scope name value
    | .nearest => assign scope name value

def statement (host : Host) (fuel : Nat) (node : Node) (scope : ScopeRef) : Run Flow :=
  match node with
  | .function name params body => do
    let procedure ← makeProcedure ⟨name, params, body, scope⟩
    define scope name (.procedure procedure)
    return .normal
  | .variableDeclaration kind name value => do
    let value ← engine.evaluate value scope
    declare kind name value scope
    return .normal
  | .classDeclaration name parent body => do
    declareClass name parent body scope
    return .normal
  | .enumDeclaration name variants => do
    let ref ← make (·.addEnum (.ofVariants name variants))
    define scope name (.enumeration ref)
    return .normal
  | .staticMethod className name body => do
    let classRef ← findClass className scope
    attachStatic classRef name body scope
    return .normal
  | .create _ | .call _ _ | .inspectType _ _ => do
    let _ ← engine.evaluate node scope
    return .normal
  | .alternative condition consequent alternate => do
    let value ← engine.evaluate condition scope
    if value.isTruthy then
      engine.block consequent scope
    else
      match alternate with
      | some body => engine.block body scope
      | none => return .normal
  | .distinguish subject cases => do
    let subject ← engine.evaluate subject scope
    match ← engine.matchingCase host subject scope cases with
    | some chosen => engine.block chosen.body scope
    | none => return .normal
  | .loop condition body =>
    loop (engine.evaluate condition scope) (engine.block body scope) fuel
  | .attempt body caught handler => engine.attempt body caught handler scope
  | .importing moduleName => do
    let bindings ← engine.loadModule host moduleName
    defineAll scope (host.listing.list bindings)
    return .normal
  | .exporting name value => do
    let value ← engine.evaluate value scope
    define scope name value
    markExported scope name
    return .normal
  | .giveBack value => do
    let value ← engine.evaluate value scope
    record (.returned value)
    return .returned value
  | .throwUp value => do
    let value ← engine.evaluate value scope
    raise (.thrown value)
  | .program _ | .binary _ _ _ | .identifier _ | .literal _ => raise (.misplacedNode node.kind)

/-- Runs statements in order, up to the first that returns. -/
def executeStep (host : Host) (fuel : Nat) (body : List Node) (scope : ScopeRef) : Run Flow :=
  match body with
  | [] => return .normal
  | node :: rest => do
    match ← engine.statement host fuel node scope with
    | .returned value => return .returned value
    | .normal => executeStep host fuel rest scope

/-- The engine whose nested parts are at most as deep as the fuel says. -/
def ofFuel (host : Host) : Nat → Engine
  | 0 =>
    { evaluate := fun _ _ => outOfFuel
      execute := fun _ _ => outOfFuel }
  | fuel + 1 =>
    { evaluate := fun node scope => (ofFuel host fuel).evaluateStep host node scope
      execute := fun body scope => (ofFuel host fuel).executeStep host fuel body scope }

end Engine

end Wabun
