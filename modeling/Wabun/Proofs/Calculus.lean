import Wabun.Proofs.Bindings
import Wabun.Session

/-!
Relations between the parts of two runs of one program. The runs may differ in
what they find around them. A calculus is a relation between parts that holds of
the single effects and is kept by putting parts together. Then it holds of all
that does not need the engine: of the value of a name, of the operators and the
builtin functions, and of what declarations do. And it holds of one step of the
engine if it holds of what is nested in the step. A property of a single run is a
relation that looks at one side only.
-/

namespace Wabun

open Run

/-- The event is no mark of the order in which a run goes: neither the beginning
nor the end of a span, nor the reason for one, nor that a module is loaded. -/
def Event.IsPlain : Event → Prop
  | .shown _ _ | .bound _ _ _ | .assigned _ _ | .exported _ _ => True
  | .fieldSet _ _ _ | .staticSet _ _ _ => True
  | .moduleLoaded _ | .scopeMade _ | .entered _ | .raised _ | .returned _ => False
  | .opened _ | .closed _ | .gave _ => False

/-- The bodies in a statement, of those that it runs and of those that it keeps for
later. -/
def Node.bodies : Node → List (List Node)
  | .function _ _ body | .classDeclaration _ _ body | .staticMethod _ _ body => [body]
  | .alternative _ consequent alternate => consequent :: alternate.toList
  | .distinguish _ cases => cases.map PatternCase.body
  | .loop _ body => [body]
  | .attempt body _ handler => [body, handler]
  | _ => []

def PatternCase.slots (candidate : PatternCase) : List Node :=
  candidate.pattern.toList ++ candidate.guard.toList

/-- What stands in the places of a node that are for expressions. -/
def Node.slots : Node → List Node
  | .variableDeclaration _ _ value | .exporting _ value => [value]
  | .giveBack value | .throwUp value | .inspectType value _ => [value]
  | .alternative condition _ _ | .loop condition _ => [condition]
  | .distinguish subject cases => subject :: cases.flatMap PatternCase.slots
  | .call _ args => args
  | .binary _ left right => [left, right]
  | _ => []

/-- The statements that are evaluated as a whole. -/
def Node.isAction : Node → Bool
  | .create _ | .call _ _ | .inspectType _ _ => true
  | _ => false

/-- Whether there is a rule for the value of a node. -/
def Node.hasValue : Node → Bool
  | .literal _ | .identifier _ | .binary _ _ _ => true
  | .create _ | .call _ _ | .inspectType _ _ => true
  | _ => false

/-- Whether there is a rule for running a node. -/
def Node.hasEffect : Node → Bool
  | .program _ | .binary _ _ _ | .identifier _ | .literal _ => false
  | _ => true

/-- The fault says that a node stands in a wrong place. -/
def Fault.isMisplaced : Fault → Bool
  | .misplacedNode _ => true
  | _ => false

namespace Engine.ClassBody

/-- The parts stand in the class body, and the members in its order. -/
structure SortedFrom (name : String) (body : List Node) (sorted : ClassBody) : Prop where
  members : sorted.members.Sublist body
  methods : ∀ method ∈ sorted.methods, .function method.1 method.2.1 method.2.2 ∈ body
  statics : ∀ method ∈ sorted.statics, .staticMethod name method.1 method.2 ∈ body

theorem SortedFrom.cons {name : String} {body : List Node} {sorted : ClassBody}
    (h : SortedFrom name body sorted) (node : Node) : SortedFrom name (node :: body) sorted where
  members := h.members.cons node
  methods method hmem := List.mem_cons_of_mem node (h.methods method hmem)
  statics method hmem := List.mem_cons_of_mem node (h.statics method hmem)

/-- The class body without its first statement is sorted before that is added. -/
theorem exists_of_sorted {name : String} {rest : List Node} {sorted : ClassBody}
    {add : ClassBody → ClassBody}
    (h : (ClassBody.of name rest >>= fun others => Pure.pure (add others)) = .ok sorted) :
    ∃ others, ClassBody.of name rest = .ok others ∧ sorted = add others := by
  cases hrest : ClassBody.of name rest with
  | error cause =>
      rw [hrest] at h
      cases h
  | ok others =>
      rw [hrest] at h
      cases h
      exact ⟨others, rfl, rfl⟩

theorem sortedFrom_of_eq_ok {name : String} {body : List Node} {sorted : ClassBody}
    (h : ClassBody.of name body = .ok sorted) : SortedFrom name body sorted := by
  fun_induction ClassBody.of name body generalizing sorted with
  | case1 =>
      cases h
      exact ⟨.slnil, by simp, by simp⟩
  | case2 rest method params body ih =>
      obtain ⟨others, hothers, rfl⟩ := exists_of_sorted h
      have hrest := (ih hothers).cons (.function method params body)
      refine ⟨hrest.members, fun other hmem => ?_, hrest.statics⟩
      rcases List.mem_cons.mp hmem with rfl | hlater
      · exact List.mem_cons_self
      · exact hrest.methods other hlater
  | case3 => cases h
  | case4 rest owner method body howner ih =>
      obtain ⟨others, hothers, rfl⟩ := exists_of_sorted h
      have hrest := (ih hothers).cons (.staticMethod owner method body)
      refine ⟨hrest.members, hrest.methods, fun other hmem => ?_⟩
      rcases List.mem_cons.mp hmem with rfl | hlater
      · obtain rfl := Decidable.not_not.mp howner
        exact List.mem_cons_self
      · exact hrest.statics other hlater
  | case5 => cases h
  | case6 rest other _ _ _ ih =>
      obtain ⟨others, hothers, rfl⟩ := exists_of_sorted h
      have hrest := ih hothers
      exact ⟨hrest.members.cons_cons other, (hrest.cons other).methods, (hrest.cons other).statics⟩

end Engine.ClassBody

/-- With a body also the bodies inside of it are among these, and what is left of it
when statements are taken out. -/
structure Node.Hereditary (admits : List Node → Prop) : Prop where
  bodies : ∀ {body inner : List Node} {node : Node}, admits body → node ∈ body →
    inner ∈ node.bodies → admits inner
  sublist : ∀ {body inner : List Node}, admits body → inner.Sublist body → admits inner

/-- No body is left out. -/
def Node.AnyBody (_ : List Node) : Prop := True

theorem Node.anyBody (body : List Node) : AnyBody body := trivial

theorem Node.hereditary_anyBody : Hereditary AnyBody where
  bodies _ _ _ := trivial
  sublist _ _ := trivial

/-- What is evaluated in bodies, and for the value of what is evaluated in them, is
among these nodes. -/
structure Node.Supplied (admits : List Node → Prop) (evaluates : Node → Prop) : Prop where
  statement : ∀ {body : List Node} {node slot : Node}, admits body → node ∈ body →
    slot ∈ node.slots → evaluates slot
  action : ∀ {body : List Node} {node : Node}, admits body → node ∈ body →
    node.isAction = true → evaluates node
  operand : ∀ {node slot : Node}, evaluates node → slot ∈ node.slots → evaluates slot

/-- No node is left out. -/
def Node.AnyNode (_ : Node) : Prop := True

theorem Node.anyNode (node : Node) : AnyNode node := trivial

theorem Node.supplied_anyNode (admits : List Node → Prop) : Supplied admits AnyNode where
  statement _ _ _ := trivial
  action _ _ _ := trivial
  operand _ _ := trivial

/-- Every body that a run can find in the heap is admitted: those of the
procedures and the members of the classes. -/
structure Heap.Holds (admits : List Node → Prop) (heap : Heap) : Prop where
  procedure : ∀ ref, admits (heap.procedure ref).body
  members : ∀ ref, admits (heap.classInfo ref).members

namespace Heap.Holds

variable {admits : List Node → Prop} {heap : Heap}

/-- Other objects do not matter. -/
theorem of_same {other : Heap} (h : heap.Holds admits)
    (hprocedures : other.procedures = heap.procedures)
    (hclasses : other.classes = heap.classes) : other.Holds admits where
  procedure ref := by
    rw [Heap.procedure, hprocedures]
    exact h.procedure ref
  members ref := by
    rw [Heap.classInfo, hclasses]
    exact h.members ref

theorem addProcedure (h : heap.Holds admits) {procedure : Procedure}
    (hbody : admits procedure.body) : (heap.addProcedure procedure).2.Holds admits where
  procedure ref := by
    rw [Heap.addProcedure, Heap.procedure, Array.getD_eq_getD_getElem?, Array.getElem?_push]
    split
    · exact hbody
    · rw [← Array.getD_eq_getD_getElem?]
      exact h.procedure ref
  members := h.members

theorem addClass (h : heap.Holds admits) {info : ClassInfo} (hmembers : admits info.members) :
    (heap.addClass info).2.Holds admits where
  procedure := h.procedure
  members ref := by
    rw [Heap.addClass, Heap.classInfo, Array.getD_eq_getD_getElem?, Array.getElem?_push]
    split
    · exact hmembers
    · rw [← Array.getD_eq_getD_getElem?]
      exact h.members ref

theorem setStatic (h : heap.Holds admits) (classRef : ClassRef) (name : String)
    (method : ProcedureRef) : (heap.setStatic classRef name method).Holds admits where
  procedure := h.procedure
  members ref := by
    have hsame : ((heap.setStatic classRef name method).classInfo ref).members =
        (heap.classInfo ref).members := by
      unfold Heap.classInfo Heap.setStatic
      simp only [Array.getD_eq_getD_getElem?, Array.getElem?_modify]
      split
      · cases heap.classes[ref.index]? <;> rfl
      · rfl
    rw [hsame]
    exact h.members ref

end Heap.Holds

theorem Heap.holds_anyBody (heap : Heap) : heap.Holds Node.AnyBody where
  procedure _ := trivial
  members _ := trivial

/-- Two runs find the same functions and modules around them. -/
structure Host.Alike (host other : Host) : Prop where
  builtins : other.builtins = host.builtins
  modules : other.modules = host.modules

theorem Host.Alike.refl (host : Host) : host.Alike host := ⟨rfl, rfl⟩

/-- A relation between the parts of two runs that is kept by putting parts together.
A reading tells of each result of a part how the statements at hand go on after it. -/
structure Calculus (host other : Host) where
  Rel : {α : Type} → (α → Flow) → Run α → Run α → Prop
  /-- the relation between two bodies that are run inside a call -/
  Inside : Run Flow → Run Flow → Prop
  /-- the relation between two modules of this name while they are being loaded -/
  Loading : String → Run (Table Value) → Run (Table Value) → Prop
  /-- the bodies that are run and that may come into the heap -/
  Admits : List Node → Prop
  hereditary : Node.Hereditary Admits
  /-- the nodes that are evaluated -/
  Evaluates : Node → Prop
  supplied : Node.Supplied Admits Evaluates
  alike : host.Alike other
  pure : ∀ {α : Type} {reading : α → Flow} {value : α}, reading value = .normal →
    Rel reading (Pure.pure value) (Pure.pure value)
  bind : ∀ {α β : Type} {reading : β → Flow} {part part' : Run α} {next next' : α → Run β},
    Rel (fun _ => .normal) part part' → (∀ value, Rel reading (next value) (next' value)) →
    Rel reading (part >>= next) (part' >>= next')
  raise : ∀ {α : Type} {reading : α → Flow} (fault : Fault), fault.isMisplaced = false →
    Rel reading (raise fault) (raise fault)
  /-- What is asked for is found in a heap with admitted bodies. -/
  askThen : ∀ {α β : Type} {reading : β → Flow} (question : Heap → α) {next next' : α → Run β},
    (∀ heap, heap.Holds Admits → Rel reading (next (question heap)) (next' (question heap))) →
    Rel reading (ask question >>= next) (ask question >>= next')
  make : ∀ {α : Type} (build : Heap → α × Heap),
    (∀ heap, (build heap).2.forest = heap.forest) →
    (∀ heap, heap.Holds Admits → (build heap).2.Holds Admits) →
    Rel (fun _ => .normal) (make build) (make build)
  change : ∀ (update : Heap → Heap),
    (∀ heap, (update heap).forest.size = heap.forest.size) →
    (∀ heap, heap.Holds Admits → (update heap).Holds Admits) →
    Rel (fun _ => .normal) (change update) (change update)
  record : ∀ {event : Event}, event.IsPlain →
    Rel (fun _ => .normal) (record event) (record event)
  makeScope : ∀ (scope : Scope), Rel (fun _ => .normal) (makeScope scope) (makeScope scope)
  compare : ∀ (first second : Value),
    Rel (fun _ => .normal) (ask (·.equal host.listing first second))
      (ask (·.equal other.listing first second))
  bindAll : ∀ (scope : ScopeRef) (bindings : Table Value),
    Rel (fun _ => .normal) (defineAll scope (host.listing.list bindings))
      (defineAll scope (other.listing.list bindings))
  /-- Statements that return leave out what comes after them. -/
  andThen : ∀ {first first' : Run Flow} {next next' : Flow → Run Flow}, Rel id first first' →
    (∀ value, next (.returned value) = Pure.pure (.returned value)) →
    (∀ value, next' (.returned value) = Pure.pure (.returned value)) →
    Rel id (next .normal) (next' .normal) → Rel id (first >>= next) (first' >>= next')
  giveBack : ∀ (value : Value),
    Rel id (Run.record (.returned value) >>= fun _ => Pure.pure (.returned value))
      (Run.record (.returned value) >>= fun _ => Pure.pure (.returned value))
  call : ∀ (ref : ProcedureRef) {part part' : Run Flow}, Inside part part' →
    Rel (fun _ => .normal) (nested host (.call ref) part >>= fun flow => give flow.value)
      (nested other (.call ref) part' >>= fun flow => give flow.value)
  members : ∀ (ref : ClassRef) {part part' : Run Flow}, Inside part part' →
    Rel (fun _ => .normal) (nested host (.members ref) part) (nested other (.members ref) part')
  loadModule : ∀ {engine engine' : Engine} (name : String),
    Loading name (engine.runModule host name) (engine'.runModule other name) →
    Rel (fun _ => .normal) (engine.loadModule host name) (engine'.loadModule other name)
  attempt : ∀ {engine engine' : Engine} (body : List Node) (caught : String)
    (handler : List Node) (scope : ScopeRef),
    Rel id (engine.block body scope) (engine'.block body scope) →
    (∀ inner, Rel id (engine.execute handler inner) (engine'.execute handler inner)) →
    Rel id (engine.attempt body caught handler scope) (engine'.attempt body caught handler scope)

namespace Calculus

variable {host other : Host} (law : Calculus host other)

/-- Two parts are related that end in a value. -/
abbrev Parts {α : Type} (part part' : Run α) : Prop := law.Rel (fun _ => .normal) part part'

/-- Two lists of statements are related. -/
abbrev Flows (part part' : Run Flow) : Prop := law.Rel id part part'

/-- The nodes of which all that they run and evaluate is among what the calculus is for. -/
structure Allows (node : Node) : Prop where
  bodies : ∀ inner ∈ node.bodies, law.Admits inner
  slots : ∀ slot ∈ node.slots, law.Evaluates slot
  action : node.isAction = true → law.Evaluates node

theorem allows_of_admits {body : List Node} (h : law.Admits body) {node : Node}
    (hmem : node ∈ body) : law.Allows node where
  bodies _ hinner := law.hereditary.bodies h hmem hinner
  slots _ hslot := law.supplied.statement h hmem hslot
  action haction := law.supplied.action h hmem haction

section Lists

variable {α β : Type}

theorem forM (items : List α) {action action' : α → Run PUnit}
    (h : ∀ item ∈ items, law.Parts (action item) (action' item)) :
    law.Parts (items.forM action) (items.forM action') := by
  induction items with
  | nil => exact law.pure rfl
  | cons item rest ih =>
      refine law.bind (h item List.mem_cons_self) fun _ => ?_
      exact ih fun other hmem => h other (List.mem_cons_of_mem item hmem)

theorem mapM (items : List α) {action action' : α → Run β}
    (h : ∀ item ∈ items, law.Parts (action item) (action' item)) :
    law.Parts (items.mapM action) (items.mapM action') := by
  induction items with
  | nil => exact law.pure rfl
  | cons item rest ih =>
      rw [List.mapM_cons, List.mapM_cons]
      refine law.bind (h item List.mem_cons_self) fun _ => law.bind ?_ fun _ => law.pure rfl
      exact ih fun other hmem => h other (List.mem_cons_of_mem item hmem)

theorem foldlM (items : List α) {action : β → α → Run β} (start : β)
    (h : ∀ value, ∀ item ∈ items, law.Parts (action value item) (action value item)) :
    law.Parts (items.foldlM action start) (items.foldlM action start) := by
  induction items generalizing start with
  | nil => exact law.pure rfl
  | cons item rest ih =>
      refine law.bind (h start item List.mem_cons_self) fun value => ?_
      exact ih value fun value other hmem => h value other (List.mem_cons_of_mem item hmem)

end Lists

section Effects

theorem ask {α : Type} (question : Heap → α) : law.Parts (Run.ask question) (Run.ask question) := by
  have hasked : law.Parts (Run.ask question >>= Pure.pure) (Run.ask question >>= Pure.pure) :=
    law.askThen question fun _ _ => law.pure rfl
  exact hasked

theorem makeProcedure {procedure : Procedure} (h : law.Admits procedure.body) :
    law.Parts (Run.makeProcedure procedure) (Run.makeProcedure procedure) :=
  law.make _ (fun _ => rfl) fun _ hheap => hheap.addProcedure h

/-- A change of the scopes that makes none. -/
theorem changeForest (update : Forest → Forest) (h : ∀ forest, (update forest).size = forest.size) :
    law.Parts (Run.change fun heap => { heap with forest := update heap.forest })
      (Run.change fun heap => { heap with forest := update heap.forest }) :=
  law.change _ (fun heap => h heap.forest) fun _ hheap => hheap.of_same rfl rfl

theorem define (scope : ScopeRef) (name : String) (value : Value) :
    law.Parts (Run.define scope name value) (Run.define scope name value) := by
  have hchange := law.changeForest (·.define scope name value) fun forest =>
    Forest.size_modify forest scope _
  exact law.bind hchange fun _ => law.record trivial

theorem defineAll (scope : ScopeRef) (bindings : List (String × Value)) :
    law.Parts (Run.defineAll scope bindings) (Run.defineAll scope bindings) :=
  law.forM bindings fun binding _ => law.define scope binding.1 binding.2

theorem assign (scope : ScopeRef) (name : String) (value : Value) :
    law.Parts (Run.assign scope name value) (Run.assign scope name value) := by
  refine law.bind (law.record trivial) fun _ => ?_
  exact law.bind (law.ask _) fun owner => law.define owner name value

theorem markExported (scope : ScopeRef) (name : String) :
    law.Parts (Run.markExported scope name) (Run.markExported scope name) := by
  have hchange := law.changeForest (·.markExported scope name) fun forest =>
    Forest.size_modify forest scope _
  exact law.bind hchange fun _ => law.record trivial

theorem setField (object : InstanceRef) (name : String) (value : Value) :
    law.Parts (Run.setField object name value) (Run.setField object name value) := by
  refine law.bind (law.change _ (fun _ => rfl) fun _ hheap => ?_) fun _ => law.record trivial
  exact hheap.of_same rfl rfl

theorem setStatic (classRef : ClassRef) (name : String) (method : ProcedureRef) :
    law.Parts (Run.setStatic classRef name method) (Run.setStatic classRef name method) := by
  refine law.bind (law.change _ (fun _ => rfl) fun _ hheap => ?_) fun _ => law.record trivial
  exact hheap.setStatic classRef name method

theorem emit (value : Value) : law.Parts (Run.emit value) (Run.emit value) :=
  law.bind (law.ask _) fun _ => law.record trivial

end Effects

section Expressions

/-- The body of the new procedure is one that was there already. -/
theorem bindReceiver (method : ProcedureRef) (receiver : Value) :
    law.Parts (Run.bindReceiver method receiver) (Run.bindReceiver method receiver) := by
  refine law.askThen _ fun heap hheap => law.bind (law.makeScope _) fun scope => ?_
  refine law.bind (law.define scope Word.self receiver) fun _ => ?_
  exact law.bind (law.makeProcedure (hheap.procedure method)) fun _ => law.pure rfl

theorem member (path : String) (owner : Value) (name : String) :
    law.Parts (Run.member path owner name) (Run.member path owner name) := by
  cases owner with
  | instanceObject ref =>
      refine law.bind (law.ask _) fun field => ?_
      cases field with
      | some value => exact law.pure rfl
      | none =>
          refine law.bind (law.ask _) fun method => ?_
          cases method with
          | some method => exact law.bindReceiver method _
          | none => exact law.raise _ rfl
  | enumeration ref =>
      refine law.bind (law.ask _) fun ordinal => ?_
      cases ordinal with
      | some ordinal => exact law.pure rfl
      | none => exact law.raise _ rfl
  | classObject ref =>
      refine law.bind (law.ask _) fun method => ?_
      cases method with
      | some method => exact law.pure rfl
      | none => exact law.raise _ rfl
  | _ => exact law.raise _ rfl

theorem resolve (path : String) (scope : ScopeRef) :
    law.Parts (Run.resolve path scope) (Run.resolve path scope) := by
  refine law.bind (law.ask _) fun found => ?_
  cases found with
  | some value => exact law.foldlM _ value fun value name _ => law.member path value name
  | none => exact law.raise _ rfl

theorem findClass (name : String) (scope : ScopeRef) :
    law.Parts (Run.findClass name scope) (Run.findClass name scope) := by
  refine law.bind (law.ask _) fun found => ?_
  cases found with
  | none => exact law.raise _ rfl
  | some value =>
      cases value with
      | classObject ref => exact law.pure rfl
      | _ => exact law.raise _ rfl

/-- Only the two equalities depend on what is around a run. -/
theorem operate (operator : Operator) (left right : Value) :
    law.Parts (Run.operate host operator left right) (Run.operate other operator left right) := by
  cases operator with
  | eq | ne => exact law.bind (law.compare left right) fun _ => law.pure rfl
  | sub | mul | div =>
      unfold Run.operate
      dsimp only
      split
      · exact law.pure rfl
      · exact law.raise _ rfl
  | add | lt | gt | le | ge =>
      unfold Run.operate
      dsimp only
      split
      · exact law.pure rfl
      · exact law.pure rfl
      · exact law.raise _ rfl

theorem builtin (builtin : Builtin) (scope : ScopeRef) (args : List Value) :
    law.Parts (builtin.call scope args) (builtin.call scope args) := by
  -- Both sides are one part, so that its cases are split once.
  generalize hpart : builtin.call scope args = part
  unfold Builtin.call at hpart
  split at hpart <;> subst hpart
  · exact law.bind (law.emit _) fun _ => law.pure rfl
  · exact law.raise _ rfl
  · exact law.bind (law.ask _) fun _ => law.bind (law.emit _) fun _ => law.pure rfl
  · exact law.raise _ rfl
  · exact law.pure rfl
  · exact law.raise _ rfl
  · exact law.raise _ rfl
  · exact law.raise _ rfl
  · exact law.bind (law.mapM _ fun value _ => law.ask _) fun _ => law.pure rfl
  · exact law.pure rfl
  · exact law.raise _ rfl
  · exact law.raise _ rfl

end Expressions

section Declarations

theorem attachStatic (classRef : ClassRef) (name : String) {body : List Node}
    (hbody : law.Admits body) (scope : ScopeRef) :
    law.Parts (Engine.attachStatic classRef name body scope)
      (Engine.attachStatic classRef name body scope) := by
  refine law.bind (law.ask _) fun className => ?_
  exact law.bind (law.makeProcedure hbody) fun method => law.setStatic classRef name method

theorem declareClass (name : String) (parent : Option String) {body : List Node}
    (hbody : law.Admits body) (scope : ScopeRef) :
    law.Parts (Engine.declareClass name parent body scope)
      (Engine.declareClass name parent body scope) := by
  have hparent : law.Parts (parent.mapM fun parent => Run.findClass parent scope)
      (parent.mapM fun parent => Run.findClass parent scope) := by
    cases parent with
    | none => exact law.pure rfl
    | some parent => exact law.bind (law.findClass parent scope) fun _ => law.pure rfl
  refine law.bind hparent fun parent => ?_
  cases hof : Engine.ClassBody.of name body with
  | error cause => exact law.raise _ rfl
  | ok sorted =>
      have hsorted := Engine.ClassBody.sortedFrom_of_eq_ok hof
      refine law.bind (law.mapM _ fun method hmem => ?_) fun methods => ?_
      · have hstands := hsorted.methods method hmem
        have hmethod := law.hereditary.bodies hbody hstands List.mem_cons_self
        exact law.bind (law.makeProcedure hmethod) fun _ => law.pure rfl
      · refine law.bind (law.make _ (fun _ => rfl) fun _ hheap => ?_) fun classRef => ?_
        · exact hheap.addClass (law.hereditary.sublist hbody hsorted.members)
        · refine law.bind (law.forM _ fun method hmem => ?_) fun _ => law.define scope name _
          have hstands := hsorted.statics method hmem
          have hmethod := law.hereditary.bodies hbody hstands List.mem_cons_self
          exact law.attachStatic classRef method.1 hmethod scope

theorem declare (kind : Declaration) (name : String) (value : Value) (scope : ScopeRef) :
    law.Parts (Engine.declare kind name value scope) (Engine.declare kind name value scope) := by
  unfold Engine.declare
  cases Path.splitLast? name with
  | some path =>
      refine law.bind (law.resolve path.1 scope) fun owner => ?_
      cases owner with
      | instanceObject ref => exact law.setField ref path.2 value
      | _ => exact law.raise _ rfl
  | none =>
      cases kind with
      | here => exact law.define scope name value
      | nearest => exact law.assign scope name value

end Declarations

end Calculus

end Wabun
