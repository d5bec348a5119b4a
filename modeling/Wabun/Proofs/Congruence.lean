import Wabun.Proofs.Calculus

/-!
Relations between two whole runs of one program. A calculus holds of one step of
the engine if it holds of what is nested in the step: of smaller expressions and
statements, of bodies inside of calls and of modules. A congruence is a calculus
that also holds where the fuel runs out, and then between whole runs, by one
induction over the engine. What is to be shown of every run is shown of the parts
alone.
-/

namespace Wabun

open Run

namespace Engine

section Attempt

variable {engine : Engine} {body handler : List Node} {caught : String} {scope : ScopeRef}
  {state : State}

theorem attempt_of_thrown {value : Value} {middle : State}
    (h : during (.attempt caught) (engine.block body scope) state =
      .error (.fault (.thrown value)) middle) :
    engine.attempt body caught handler scope state =
      (makeScope (.childOf scope) >>= fun inner =>
        define inner caught value >>= fun _ => engine.execute handler inner) middle := by
  rw [attempt, h]

/-- Only a thrown value keeps an attempt from ending as its body does. -/
theorem attempt_of_not_thrown
    (h : ∀ value middle, during (.attempt caught) (engine.block body scope) state ≠
      .error (.fault (.thrown value)) middle) :
    engine.attempt body caught handler scope state =
      during (.attempt caught) (engine.block body scope) state := by
  unfold attempt
  split
  · next value middle hthrown => exact absurd hthrown (h value middle)
  · rfl

/-- An attempt ends as its body does, or goes on with the value that is thrown. -/
theorem attempt_cases (engine : Engine) (body : List Node) (caught : String)
    (handler : List Node) (scope : ScopeRef) (state : State) :
    engine.attempt body caught handler scope state =
      during (.attempt caught) (engine.block body scope) state ∨
    ∃ value middle, during (.attempt caught) (engine.block body scope) state =
        .error (.fault (.thrown value)) middle ∧
      engine.attempt body caught handler scope state =
        (makeScope (.childOf scope) >>= fun inner =>
          define inner caught value >>= fun _ => engine.execute handler inner) middle := by
  by_cases hthrown : ∃ value middle, during (.attempt caught) (engine.block body scope) state =
      .error (.fault (.thrown value)) middle
  · obtain ⟨value, middle, hthrown⟩ := hthrown
    exact .inr ⟨value, middle, hthrown, attempt_of_thrown hthrown⟩
  · exact .inl (attempt_of_not_thrown fun value middle hrun => hthrown ⟨value, middle, hrun⟩)

end Attempt

section Loading

variable (engine : Engine) {host : Host} {name : String} {state : State}

/-- What is left of the state when the module has run. -/
def leaveModule (state : State) : State :=
  { state with loading := state.loading.tail }

theorem loadModule_eq (host : Host) (name : String) (state : State) :
    engine.loadModule host name state =
      (match state.modules.get? name with
      | some bindings => return bindings
      | none =>
        if state.loading.contains name then
          raise (.module (.cyclic name state.loading.reverse))
        else do
          let bindings ← between (fun state => { state with loading := name :: state.loading })
            leaveModule (engine.runModule host name)
          modify fun state => { state with modules := state.modules.insert name bindings }
          record (.moduleLoaded name)
          return bindings : Run (Table Value)) state := rfl

theorem loadModule_of_loaded {bindings : Table Value}
    (h : state.modules.get? name = some bindings) :
    engine.loadModule host name state = .ok bindings state := by
  rw [loadModule_eq, h]
  rfl

theorem loadModule_of_loading (hnew : state.modules.get? name = none)
    (h : state.loading.contains name = true) :
    engine.loadModule host name state =
      raise (.module (.cyclic name state.loading.reverse)) state := by
  rw [loadModule_eq, hnew]
  dsimp only
  rw [if_pos h]

/-- A module that is new to the state is run, and what it binds is kept if it
comes to an end. -/
theorem loadModule_of_new (hnew : state.modules.get? name = none)
    (h : state.loading.contains name = false) :
    engine.loadModule host name state =
      match engine.runModule host name { state with loading := name :: state.loading } with
      | .ok bindings middle => .ok bindings { leaveModule middle with
          modules := middle.modules.insert name bindings
          journal := .moduleLoaded name :: middle.journal }
      | .error halt middle => .error halt (leaveModule middle) := by
  rw [loadModule_eq, hnew]
  dsimp only
  rw [if_neg (by rw [h]; exact Bool.false_ne_true)]
  change EStateM.bind (between _ leaveModule (engine.runModule host name)) _ state = _
  unfold EStateM.bind between
  cases engine.runModule host name { state with loading := name :: state.loading } with
  | ok bindings middle => rfl
  | error halt middle => rfl

/-- What an import finds is what the module is loaded with. -/
theorem loaded_of_loadModule {engine : Engine} {loaded : State} {bindings : Table Value}
    (h : engine.loadModule host name state = .ok bindings loaded) :
    loaded.modules.get? name = some bindings := by
  cases hloaded : state.modules.get? name with
  | some found =>
      rw [engine.loadModule_of_loaded hloaded] at h
      cases h
      exact hloaded
  | none =>
      cases hloading : state.loading.contains name with
      | true =>
          rw [engine.loadModule_of_loading hloaded hloading] at h
          cases h
      | false =>
          rw [engine.loadModule_of_new hloaded hloading] at h
          split at h
          · cases h
            exact Table.get?_insert_self _ name bindings
          · cases h

end Loading

section Steps

/-- Runs statements in order, up to the first that returns. -/
def executeEach (statement : Node → Run Flow) : List Node → Run Flow
  | [] => return .normal
  | node :: rest => do
    match ← statement node with
    | .returned value => return .returned value
    | .normal => executeEach statement rest

theorem executeStep_eq_executeEach (engine : Engine) (host : Host) (fuel : Nat)
    (body : List Node) (scope : ScopeRef) : engine.executeStep host fuel body scope =
      executeEach (fun node => engine.statement host fuel node scope) body := by
  induction body with
  | nil => rfl
  | cons node rest ih =>
      rw [executeStep, ih]
      rfl

/-- The engine that takes these steps, each with what it needs for its nested parts. -/
def ofSteps (evaluating : Engine → Node → ScopeRef → Run Value)
    (executing : Engine → Nat → Node → ScopeRef → Run Flow) : Nat → Engine
  | 0 =>
    { evaluate := fun _ _ => outOfFuel
      execute := fun _ _ => outOfFuel }
  | fuel + 1 =>
    { evaluate := evaluating (ofSteps evaluating executing fuel)
      execute := fun body scope => executeEach
        (fun node => executing (ofSteps evaluating executing fuel) fuel node scope) body }

theorem ofFuel_eq_ofSteps (host : Host) (fuel : Nat) :
    ofFuel host fuel = ofSteps (fun engine => engine.evaluateStep host)
      (fun engine => engine.statement host) fuel := by
  induction fuel with
  | zero => rfl
  | succ fuel ih =>
      rw [ofFuel, ofSteps, ← ih]
      congr 1
      funext body scope
      exact executeStep_eq_executeEach _ host fuel body scope

/-- A single statement ends as it does among others. -/
theorem execute_singleton (host : Host) (fuel : Nat) (node : Node) (scope : ScopeRef)
    (state : State) : (ofFuel host (fuel + 1)).execute [node] scope state =
      (ofFuel host fuel).statement host fuel node scope state := by
  change EStateM.bind ((ofFuel host fuel).statement host fuel node scope) _ state = _
  rw [EStateM.bind]
  cases (ofFuel host fuel).statement host fuel node scope state with
  | error halt final => rfl
  | ok flow final => cases flow <;> rfl

end Steps

end Engine

namespace Calculus

variable {host other : Host}

/-- What two engines run inside of a step of some size is related. -/
structure Nested (law : Calculus host other) (engine engine' : Engine) (size : Nat) : Prop where
  evaluate : ∀ node scope, law.Evaluates node → sizeOf node < size →
    law.Parts (engine.evaluate node scope) (engine'.evaluate node scope)
  execute : ∀ body scope, law.Admits body → sizeOf body < size →
    law.Flows (engine.execute body scope) (engine'.execute body scope)
  inside : ∀ body scope, law.Admits body →
    law.Inside (engine.execute body scope) (engine'.execute body scope)
  loading : ∀ name, law.Loading name (engine.runModule host name) (engine'.runModule other name)

section Modules

variable (law : Calculus host other) {engine engine' : Engine}

theorem executeEach {body : List Node} {step step' : Node → Run Flow}
    (h : ∀ node ∈ body, law.Flows (step node) (step' node)) :
    law.Flows (Engine.executeEach step body) (Engine.executeEach step' body) := by
  induction body with
  | nil => exact law.pure rfl
  | cons node rest ih =>
      refine law.andThen (h node List.mem_cons_self) (fun _ => rfl) (fun _ => rfl) ?_
      exact ih fun other hmem => h other (List.mem_cons_of_mem node hmem)

theorem runModule {name : String}
    (hmodule : ∀ {part part' : Run Flow}, law.Flows part part' →
      law.Parts (during (.module name) part) (during (.module name) part'))
    (h : ∀ statements scope, host.modules name = .ok statements →
      law.Flows (engine.execute statements scope) (engine'.execute statements scope)) :
    law.Parts (engine.runModule host name) (engine'.runModule other name) := by
  unfold Engine.runModule
  rw [law.alike.modules]
  cases hfound : host.modules name with
  | error cause => exact law.raise _ rfl
  | ok statements =>
      refine law.bind (law.makeScope _) fun scope => ?_
      exact law.bind (hmodule (h statements scope hfound)) fun _ => law.ask _

end Modules

namespace Nested

variable {law : Calculus host other} {engine engine' : Engine} {size : Nat}
  (h : law.Nested engine engine' size)
include h

theorem apply (ref : ProcedureRef) (args : List Value) :
    law.Parts (engine.apply host ref args) (engine'.apply other ref args) := by
  refine law.askThen _ fun heap hheap => ?_
  by_cases hcount : (heap.procedure ref).params.length ≠ args.length
  · rw [if_pos hcount, if_pos hcount]
    exact law.raise _ rfl
  · rw [if_neg hcount, if_neg hcount]
    refine law.bind (law.makeScope _) fun scope => ?_
    refine law.bind (law.defineAll scope _) fun _ => ?_
    exact law.call ref (h.inside _ scope (hheap.procedure ref))

theorem call (callee : String) {args : List Node} (hargs : ∀ arg ∈ args, law.Evaluates arg)
    (hsize : sizeOf args ≤ size) (scope : ScopeRef) :
    law.Parts (engine.call host callee args scope) (engine'.call other callee args scope) := by
  refine law.bind (law.mapM args fun arg hmem => ?_) fun values => ?_
  · exact h.evaluate arg scope (hargs arg hmem)
      (Nat.lt_of_lt_of_le (List.sizeOf_lt_of_mem hmem) hsize)
  · rw [law.alike.builtins]
    cases host.builtins.get? callee with
    | some builtin => exact law.builtin builtin scope values
    | none =>
        refine law.bind (law.resolve callee scope) fun value => ?_
        cases value with
        | procedure ref => exact h.apply ref values
        | _ => exact law.raise _ rfl

theorem runMembers (object : InstanceRef) (classRef : ClassRef) :
    law.Parts (engine.runMembers host object classRef)
      (engine'.runMembers other object classRef) := by
  refine law.askThen _ fun heap hheap => law.bind (law.makeScope _) fun scope => ?_
  refine law.bind (law.define scope Word.self _) fun _ => ?_
  have hmembers := h.inside _ scope (hheap.members classRef)
  refine law.bind (law.members classRef hmembers) fun flow => ?_
  cases flow with
  | returned value => exact law.raise _ rfl
  | normal =>
      refine law.bind (law.ask _) fun bindings => law.forM bindings fun binding _ => ?_
      dsimp only
      by_cases hself : (binding.1 == Word.self) = true
      · rw [if_pos hself]
        exact law.pure rfl
      · rw [if_neg hself]
        exact law.setField object _ _

theorem create (className : String) (scope : ScopeRef) :
    law.Parts (engine.create host className scope) (engine'.create other className scope) := by
  refine law.bind (law.findClass className scope) fun classRef => ?_
  refine law.bind (law.make _ (fun _ => rfl) fun _ hheap => hheap.of_same rfl rfl) fun object => ?_
  refine law.bind (law.ask _) fun lineage => ?_
  exact law.bind (law.forM lineage fun ref _ => h.runMembers object ref) fun _ => law.pure rfl

theorem evaluateStep {node : Node} (hnode : law.Evaluates node) (hsize : sizeOf node ≤ size)
    (hmisplaced : node.hasValue = false →
      law.Parts (Run.raise (.misplacedNode node.kind) : Run Value)
        (Run.raise (.misplacedNode node.kind)))
    (scope : ScopeRef) :
    law.Parts (engine.evaluateStep host node scope) (engine'.evaluateStep other node scope) := by
  have hslots (slot : Node) (hslot : slot ∈ node.slots) : law.Evaluates slot :=
    law.supplied.operand hnode hslot
  cases node with
  | literal value => exact law.pure rfl
  | identifier name => exact law.resolve name scope
  | binary operator left right =>
      simp only [Node.binary.sizeOf_spec] at hsize
      have hleft := hslots left List.mem_cons_self
      have hright := hslots right (List.mem_cons_of_mem _ List.mem_cons_self)
      refine law.bind (h.evaluate left scope hleft (by omega)) fun leftValue => ?_
      refine law.bind (h.evaluate right scope hright (by omega)) fun rightValue => ?_
      exact law.operate operator leftValue rightValue
  | call callee args =>
      simp only [Node.call.sizeOf_spec] at hsize
      have hargs : ∀ arg ∈ args, law.Evaluates arg := hslots
      exact h.call callee hargs (by omega) scope
  | create className => exact h.create className scope
  | inspectType value typeName =>
      simp only [Node.inspectType.sizeOf_spec] at hsize
      have hvalue := hslots value List.mem_cons_self
      refine law.bind (h.evaluate value scope hvalue (by omega)) fun value => ?_
      refine law.bind (law.ask _) fun fits => ?_
      cases fits with
      | true => exact law.pure rfl
      | false => exact law.bind (law.ask _) fun _ => law.raise _ rfl
  | _ => exact hmisplaced rfl

theorem block {body : List Node} (hbody : law.Admits body) (hsize : sizeOf body < size)
    (scope : ScopeRef) : law.Flows (engine.block body scope) (engine'.block body scope) :=
  law.bind (law.makeScope _) fun inner => h.execute body inner hbody hsize

theorem accepts (subject : Value) (scope : ScopeRef) {candidate : PatternCase}
    (hslots : ∀ slot ∈ candidate.slots, law.Evaluates slot) (hsize : sizeOf candidate ≤ size) :
    law.Parts (engine.accepts host subject scope candidate)
      (engine'.accepts other subject scope candidate) := by
  cases candidate with
  | mk pattern guard body =>
      simp only [PatternCase.mk.sizeOf_spec] at hsize
      obtain ⟨hpatterns, hguards⟩ := List.forall_mem_append.mp hslots
      have hpattern : law.Parts (engine.matchesPattern host subject scope pattern)
          (engine'.matchesPattern other subject scope pattern) := by
        cases pattern with
        | none => exact law.pure rfl
        | some pattern =>
            simp only [Option.some.sizeOf_spec] at hsize
            have hevaluates := hpatterns pattern List.mem_cons_self
            exact law.bind (h.evaluate pattern scope hevaluates (by omega)) fun _ =>
              law.compare _ _
      refine law.bind hpattern fun fits => ?_
      cases fits with
      | false => exact law.pure rfl
      | true =>
          cases guard with
          | none => exact law.pure rfl
          | some guard =>
              simp only [Option.some.sizeOf_spec] at hsize
              have hevaluates := hguards guard List.mem_cons_self
              exact law.bind (h.evaluate guard scope hevaluates (by omega)) fun _ => law.pure rfl

/-- The first case that a subject matches, and what comes after it. -/
theorem matchingCase (subject : Value) (scope : ScopeRef) {cases : List PatternCase}
    (hslots : ∀ slot ∈ cases.flatMap PatternCase.slots, law.Evaluates slot)
    (hsize : sizeOf cases ≤ size) {next next' : Option PatternCase → Run Flow}
    (hnone : law.Flows (next none) (next' none))
    (hsome : ∀ chosen ∈ cases, law.Flows (next (some chosen)) (next' (some chosen))) :
    law.Flows (engine.matchingCase host subject scope cases >>= next)
      (engine'.matchingCase other subject scope cases >>= next') := by
  induction cases with
  | nil => exact hnone
  | cons candidate rest ih =>
      simp only [List.cons.sizeOf_spec] at hsize
      rw [List.flatMap_cons] at hslots
      obtain ⟨hcandidate, hrest⟩ := List.forall_mem_append.mp hslots
      rw [Engine.matchingCase, Engine.matchingCase, bind_assoc, bind_assoc]
      refine law.bind (h.accepts subject scope hcandidate (by omega)) fun accepted => ?_
      cases accepted with
      | true => exact hsome candidate List.mem_cons_self
      | false =>
          exact ih hrest (by omega) fun chosen hmem => hsome chosen (List.mem_cons_of_mem _ hmem)

section Statements

variable {fuel fuel' : Nat}

theorem statement {node : Node} (hallows : law.Allows node) (hnode : sizeOf node < size)
    (hmisplaced : node.hasEffect = false →
      law.Flows (Run.raise (.misplacedNode node.kind)) (Run.raise (.misplacedNode node.kind)))
    (scope : ScopeRef)
    (hloop : ∀ condition body, node = .loop condition body →
      law.Flows (Engine.loop (engine.evaluate condition scope) (engine.block body scope) fuel)
        (Engine.loop (engine'.evaluate condition scope) (engine'.block body scope) fuel')) :
    law.Flows (engine.statement host fuel node scope)
      (engine'.statement other fuel' node scope) := by
  obtain ⟨hbodies, hslots, haction⟩ := hallows
  cases node with
  | function name params body =>
      have hbody := hbodies body List.mem_cons_self
      refine law.bind (law.makeProcedure hbody) fun _ => ?_
      exact law.bind (law.define scope name _) fun _ => law.pure rfl
  | variableDeclaration kind name value =>
      simp only [Node.variableDeclaration.sizeOf_spec] at hnode
      have hvalue := hslots value List.mem_cons_self
      refine law.bind (h.evaluate value scope hvalue (by omega)) fun value => ?_
      exact law.bind (law.declare kind name value scope) fun _ => law.pure rfl
  | classDeclaration name parent body =>
      have hbody := hbodies body List.mem_cons_self
      exact law.bind (law.declareClass name parent hbody scope) fun _ => law.pure rfl
  | enumDeclaration name variants =>
      refine law.bind (law.make _ (fun _ => rfl) fun _ hheap => hheap.of_same rfl rfl) fun ref => ?_
      exact law.bind (law.define scope name _) fun _ => law.pure rfl
  | staticMethod className name body =>
      have hbody := hbodies body List.mem_cons_self
      refine law.bind (law.findClass className scope) fun classRef => ?_
      exact law.bind (law.attachStatic classRef name hbody scope) fun _ => law.pure rfl
  | create _ | call _ _ | inspectType _ _ =>
      exact law.bind (h.evaluate _ scope (haction rfl) hnode) fun _ => law.pure rfl
  | alternative condition consequent alternate =>
      simp only [Node.alternative.sizeOf_spec] at hnode
      have hcondition := hslots condition List.mem_cons_self
      refine law.bind (h.evaluate condition scope hcondition (by omega)) fun value => ?_
      cases value.isTruthy with
      | true => exact h.block (hbodies consequent List.mem_cons_self) (by omega) scope
      | false =>
          cases alternate with
          | none => exact law.pure rfl
          | some body =>
              simp only [Option.some.sizeOf_spec] at hnode
              have hbody := hbodies body (List.mem_cons_of_mem _ List.mem_cons_self)
              exact h.block hbody (by omega) scope
  | distinguish subject cases =>
      simp only [Node.distinguish.sizeOf_spec] at hnode
      obtain ⟨hsubject, hcases⟩ := List.forall_mem_cons.mp hslots
      refine law.bind (h.evaluate subject scope hsubject (by omega)) fun subject => ?_
      refine h.matchingCase subject scope hcases (by omega) (law.pure rfl) fun chosen hmem => ?_
      have hbody := hbodies chosen.body (List.mem_map_of_mem hmem)
      have hchosen := List.sizeOf_lt_of_mem hmem
      cases chosen with
      | mk pattern guard body =>
          simp only [PatternCase.mk.sizeOf_spec] at hchosen
          exact h.block hbody (by rw [PatternCase.body]; omega) scope
  | loop condition body => exact hloop condition body rfl
  | attempt body caught handler =>
      simp only [Node.attempt.sizeOf_spec] at hnode
      have hbody := hbodies body List.mem_cons_self
      have hhandler := hbodies handler (List.mem_cons_of_mem _ List.mem_cons_self)
      refine law.attempt body caught handler scope (h.block hbody (by omega) scope) fun inner => ?_
      exact h.execute handler inner hhandler (by omega)
  | importing moduleName =>
      refine law.bind (law.loadModule moduleName (h.loading moduleName)) fun bindings => ?_
      exact law.bind (law.bindAll scope bindings) fun _ => law.pure rfl
  | exporting name value =>
      simp only [Node.exporting.sizeOf_spec] at hnode
      have hvalue := hslots value List.mem_cons_self
      refine law.bind (h.evaluate value scope hvalue (by omega)) fun value => ?_
      refine law.bind (law.define scope name value) fun _ => ?_
      exact law.bind (law.markExported scope name) fun _ => law.pure rfl
  | giveBack value =>
      simp only [Node.giveBack.sizeOf_spec] at hnode
      have hvalue := hslots value List.mem_cons_self
      exact law.bind (h.evaluate value scope hvalue (by omega)) fun value => law.giveBack value
  | throwUp value =>
      simp only [Node.throwUp.sizeOf_spec] at hnode
      have hvalue := hslots value List.mem_cons_self
      exact law.bind (h.evaluate value scope hvalue (by omega)) fun _ => law.raise _ rfl
  | program _ | binary _ _ _ | identifier _ | literal _ => exact hmisplaced rfl

theorem executeStep {body : List Node} (hallows : ∀ node ∈ body, law.Allows node)
    (hsize : sizeOf body ≤ size)
    (hmisplaced : ∀ kind, law.Flows (Run.raise (.misplacedNode kind))
      (Run.raise (.misplacedNode kind)))
    (scope : ScopeRef)
    (hloop : ∀ condition inner, .loop condition inner ∈ body →
      law.Flows (Engine.loop (engine.evaluate condition scope) (engine.block inner scope) fuel)
        (Engine.loop (engine'.evaluate condition scope) (engine'.block inner scope) fuel')) :
    law.Flows (engine.executeStep host fuel body scope)
      (engine'.executeStep other fuel' body scope) := by
  rw [Engine.executeStep_eq_executeEach, Engine.executeStep_eq_executeEach]
  apply law.executeEach
  intro node hmem
  have hlt := Nat.lt_of_lt_of_le (List.sizeOf_lt_of_mem hmem) hsize
  refine h.statement (hallows node hmem) hlt (fun _ => hmisplaced _) scope ?_
  rintro condition inner rfl
  exact hloop condition inner hmem

/-- A loop is related turn by turn, and where its turns are used up. -/
theorem loop (houtOfFuel : law.Flows outOfFuel outOfFuel) {condition : Node} {body : List Node}
    (hcondition : law.Evaluates condition) (hless : sizeOf condition < size)
    (hbody : law.Admits body) (hsize : sizeOf body < size) (scope : ScopeRef) :
    law.Flows (Engine.loop (engine.evaluate condition scope) (engine.block body scope) fuel)
      (Engine.loop (engine'.evaluate condition scope) (engine'.block body scope) fuel) := by
  induction fuel with
  | zero => exact houtOfFuel
  | succ fuel ih =>
      refine law.bind (h.evaluate condition scope hcondition hless) fun value => ?_
      cases value.isTruthy with
      | true => exact law.andThen (h.block hbody hsize scope) (fun _ => rfl) (fun _ => rfl) ih
      | false => exact law.pure rfl

end Statements

end Nested

end Calculus

/-- A calculus that is for every body and every node and keeps to one relation, also
where the fuel runs out. -/
structure Congruence (host other : Host) extends Calculus host other where
  admits : ∀ body, Admits body
  evaluates : ∀ node, Evaluates node
  misplaced : ∀ {α : Type} {reading : α → Flow} (kind : String),
    Rel reading (Run.raise (.misplacedNode kind)) (Run.raise (.misplacedNode kind))
  outOfFuel : ∀ {α : Type} {reading : α → Flow}, Rel reading outOfFuel outOfFuel
  module : ∀ (name : String) {part part' : Run Flow}, Rel id part part' →
    Rel (fun _ => .normal) (during (.module name) part) (during (.module name) part')
  inside : ∀ {part part' : Run Flow}, Rel id part part' → Inside part part'
  loading : ∀ {name : String} {part part' : Run (Table Value)},
    Rel (fun _ => .normal) part part' → Loading name part part'

namespace Congruence

variable {host other : Host} (law : Congruence host other)

/-- Two engines are related if all that they run is. -/
structure Engines (engine engine' : Engine) : Prop where
  evaluate : ∀ node scope, law.Parts (engine.evaluate node scope) (engine'.evaluate node scope)
  execute : ∀ body scope, law.Flows (engine.execute body scope) (engine'.execute body scope)

namespace Engines

variable {law} {engine engine' : Engine} (h : law.Engines engine engine')
include h

theorem nested (size : Nat) : law.Nested engine engine' size where
  evaluate node scope _ _ := h.evaluate node scope
  execute body scope _ _ := h.execute body scope
  inside body scope _ := law.inside (h.execute body scope)
  loading name := law.loading
    (law.runModule (law.module name) fun statements scope _ => h.execute statements scope)

theorem loadModule (name : String) :
    law.Parts (engine.loadModule host name) (engine'.loadModule other name) :=
  law.loadModule name ((h.nested 0).loading name)

theorem evaluateStep (node : Node) (scope : ScopeRef) :
    law.Parts (engine.evaluateStep host node scope) (engine'.evaluateStep other node scope) :=
  (h.nested _).evaluateStep (law.evaluates node) (Nat.le_refl _) (fun _ => law.misplaced _) scope

theorem loop (condition : Node) (body : List Node) (scope : ScopeRef) (fuel : Nat) :
    law.Flows (Engine.loop (engine.evaluate condition scope) (engine.block body scope) fuel)
      (Engine.loop (engine'.evaluate condition scope) (engine'.block body scope) fuel) :=
  (h.nested (sizeOf condition + sizeOf body + 1)).loop law.outOfFuel (law.evaluates condition)
    (by omega) (law.admits body) (by omega) scope

theorem statement {fuel fuel' : Nat} (node : Node) (scope : ScopeRef)
    (hloop : ∀ condition inner,
      law.Flows (Engine.loop (engine.evaluate condition scope) (engine.block inner scope) fuel)
        (Engine.loop (engine'.evaluate condition scope) (engine'.block inner scope) fuel')) :
    law.Flows (engine.statement host fuel node scope)
      (engine'.statement other fuel' node scope) := by
  have hallows := law.allows_of_admits (law.admits [node]) List.mem_cons_self
  refine (h.nested _).statement hallows (Nat.lt_succ_self _) (fun _ => law.misplaced _) scope ?_
  exact fun condition inner _ => hloop condition inner

theorem executeStep {fuel fuel' : Nat} (body : List Node) (scope : ScopeRef)
    (hloop : ∀ condition inner,
      law.Flows (Engine.loop (engine.evaluate condition scope) (engine.block inner scope) fuel)
        (Engine.loop (engine'.evaluate condition scope) (engine'.block inner scope) fuel')) :
    law.Flows (engine.executeStep host fuel body scope)
      (engine'.executeStep other fuel' body scope) := by
  rw [Engine.executeStep_eq_executeEach, Engine.executeStep_eq_executeEach]
  exact law.executeEach fun node _ => h.statement node scope hloop

end Engines

/-- What is related part by part is related in whole runs. -/
theorem ofFuel (fuel : Nat) : law.Engines (Engine.ofFuel host fuel) (Engine.ofFuel other fuel) := by
  induction fuel with
  | zero => exact ⟨fun _ _ => law.outOfFuel, fun _ _ => law.outOfFuel⟩
  | succ fuel ih =>
      constructor
      · intro node scope
        exact ih.evaluateStep node scope
      · intro body scope
        exact ih.executeStep body scope fun condition inner => ih.loop condition inner scope fuel

end Congruence

end Wabun
