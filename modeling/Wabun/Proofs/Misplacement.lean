import Wabun.Proofs.Placement
import Wabun.Proofs.Spelling
import Wabun.Proofs.Tandem

/-!
What runs report of nodes that stand in a wrong place. An engine can be asked to report
them by other faults, one for a node that is evaluated and one for a node that is run.
If all the code is placed, then a run is the same whatever is reported of evaluated
nodes, so none that has no value is ever evaluated. And a run ends by a report only if
it is the one of a bare expression that stands in the code as a statement. As reports
are free, they tell where a fault comes from.
-/

namespace Wabun

open Run

namespace Engine

/-- The faults by which nodes in a wrong place are reported. -/
structure Reports where
  /-- of a node that has no value -/
  evaluated : Node → Fault
  /-- of a node that cannot be run -/
  executed : Node → Fault

/-- Both faults tell the kind of the node. -/
def Reports.standard : Reports where
  evaluated node := .misplacedNode node.kind
  executed node := .misplacedNode node.kind

/-- The engine that reports in this way. -/
def ofReports (host : Host) (reports : Reports) : Nat → Engine :=
  ofSteps
    (fun engine node scope =>
      if node.hasValue then engine.evaluateStep host node scope
      else raise (reports.evaluated node))
    (fun engine fuel node scope =>
      if node.hasEffect then engine.statement host fuel node scope
      else raise (reports.executed node))

theorem ofReports_standard (host : Host) (fuel : Nat) :
    ofReports host .standard fuel = ofFuel host fuel := by
  rw [ofFuel_eq_ofSteps, ofReports]
  congr 1
  · funext engine node scope
    cases node <;> rfl
  · funext engine fuel node scope
    cases node <;> rfl

end Engine

namespace Node

/-- The expressions that do nothing as statements. -/
def isBare : Node → Bool
  | literal _ | identifier _ | binary _ _ _ => true
  | _ => false

theorem isBare_of_hasEffect {node : Node} (h : node.hasEffect = false)
    (hprogram : ∀ statements, node ≠ .program statements) : node.isBare = true := by
  cases node with
  | program statements => exact absurd rfl (hprogram statements)
  | literal _ | identifier _ | binary _ _ _ => rfl
  | _ => cases h

theorem kind_of_isBare {node : Node} (h : node.isBare = true) :
    node.kind ∈ ["Literal", "Identifier", "BinaryExpression"] := by
  cases node with
  | literal _ | identifier _ | binary _ _ _ => simp [kind]
  | _ => cases h

/-- The nodes that stand in some code as statements, be it inside of other statements. -/
inductive StandsIn (code : List Node → Prop) : Node → Prop
  | outermost {body : List Node} {node : Node} : code body → node ∈ body → StandsIn code node
  | inside {outer node : Node} {body : List Node} : StandsIn code outer → body ∈ outer.bodies →
    node ∈ body → StandsIn code node

/-- The bodies of which every statement stands in the code. -/
def StandIn (code : List Node → Prop) (body : List Node) : Prop :=
  ∀ node ∈ body, node.StandsIn code

/-- Expressions in which all is placed, and the inspection of their types. -/
structure IsEvaluable (node : Node) : Prop where
  hasValue : node.hasValue = true
  isPlaced : node.IsPlaced

variable {code : List Node → Prop}

theorem hereditary_standIn : Hereditary (StandIn code) where
  bodies h hmem hinner := fun _ hnode => .inside (h _ hmem) hinner hnode
  sublist h hinner := fun node hnode => h node (hinner.subset hnode)

theorem StandsIn.isPlaced (hcode : ∀ body, code body → AllPlaced body) {node : Node}
    (h : node.StandsIn code) : node.IsPlaced := by
  induction h with
  | outermost hbody hmem => exact hcode _ hbody _ hmem
  | inside _ hbody hmem ih => exact ih.body hbody _ hmem

theorem allPlaced_of_holds_standIn (hcode : ∀ body, code body → AllPlaced body) {heap : Heap}
    (h : heap.Holds (StandIn code)) : heap.Holds AllPlaced where
  procedure ref node hmem := (h.procedure ref node hmem).isPlaced hcode
  members ref node hmem := (h.members ref node hmem).isPlaced hcode

theorem IsOperand.isEvaluable {node : Node} (h : node.IsOperand) : node.IsEvaluable := by
  refine ⟨?_, h.isPlaced⟩
  have hexpression := h.isExpression
  cases node with
  | literal _ | identifier _ | binary _ _ _ | call _ _ | create _ => rfl
  | _ => cases hexpression

theorem supplied_isEvaluable (hcode : ∀ body, code body → AllPlaced body) :
    Supplied (StandIn code) IsEvaluable where
  statement h hmem hslot := (((h _ hmem).isPlaced hcode).operand hslot).isEvaluable
  action {body node} h hmem haction := by
    refine ⟨?_, (h node hmem).isPlaced hcode⟩
    cases node with
    | create _ | call _ _ | inspectType _ _ => rfl
    | _ => cases haction
  operand h hslot := (h.isPlaced.operand hslot).isEvaluable

end Node

/-- The states are one, and the bodies in its heap are admitted. -/
structure State.Settled (admits : List Node → Prop) (state other : State) : Prop where
  same : state = other
  holds : state.heap.Holds admits

/-- That a node is misplaced is told of these kinds only. -/
def Halt.Tells (kinds : String → Prop) (halt : Halt) : Prop :=
  ∀ kind, halt = .fault (.misplacedNode kind) → kinds kind

theorem Halt.tells_outOfFuel (kinds : String → Prop) : Halt.outOfFuel.Tells kinds := by
  intro kind hkind
  cases hkind

theorem Halt.tells_of_isMisplaced (kinds : String → Prop) {fault : Fault}
    (h : fault.isMisplaced = false) : (Halt.fault fault).Tells kinds := by
  intro kind hkind
  cases hkind
  cases h

namespace State.Settled

variable {admits : List Node → Prop} {state other : State} (h : state.Settled admits other)
include h

theorem of_same {state' other' : State} (hsame : state' = other')
    (hheap : state'.heap = state.heap) : state'.Settled admits other' :=
  ⟨hsame, hheap ▸ h.holds⟩

theorem withHeap {heap : Heap} (hheap : heap.Holds admits) :
    { state with heap }.Settled admits { other with heap } :=
  ⟨congrArg (fun state => { state with heap }) h.same, hheap⟩

end State.Settled

/-- Two runs that are the same, and that tell of these kinds only. -/
def Tandem.settling (admits : List Node → Prop) (kinds : String → Prop) : Tandem admits where
  Same := State.Settled admits
  Halts := Halt.Tells kinds
  outOfFuel := Halt.tells_outOfFuel kinds
  plain _ := Halt.tells_of_isMisplaced kinds
  holds h := h.holds
  heap h := congrArg State.heap h.same
  modules h := congrArg State.modules h.same
  loading h := congrArg State.loading h.same
  depth h := congrArg State.depth h.same
  tell event h := h.of_same (congrArg (State.tell · event) h.same) rfl
  withHeap h hheap := h.withHeap hheap
  withModules modules h := h.of_same (congrArg (fun state => { state with modules }) h.same) rfl
  withLoading loading h := h.of_same (congrArg (fun state => { state with loading }) h.same) rfl
  withDepth depth h := h.of_same (congrArg (fun state => { state with depth }) h.same) rfl

namespace Run

variable {α : Type} {admits : List Node → Prop} {kinds : String → Prop}

/-- From states with admitted bodies the two parts are the same and end so, and by the fault
that a node is misplaced only if its kind is among these. -/
abbrev Settles (admits : List Node → Prop) (kinds : String → Prop) (part part' : Run α) : Prop :=
  (Tandem.settling admits kinds).Rel part part'

section Settles

variable {part part' : Run α} (h : Settles admits kinds part part') {state : State}
  (hheap : state.heap.Holds admits)
include h hheap

theorem Settles.eq : part state = part' state := by
  have hends := h state state ⟨rfl, hheap⟩
  generalize part state = result, part' state = result' at hends
  cases hends with
  | ok hmiddle => rw [hmiddle.same]
  | error _ hmiddle => rw [hmiddle.same]

theorem Settles.kind {kind : String} {final : State}
    (hrun : part state = .error (.fault (.misplacedNode kind)) final) : kinds kind := by
  have hends := h state state ⟨rfl, hheap⟩
  rw [hrun] at hends
  generalize part' state = result' at hends
  cases hends with
  | error hkinds _ => exact hkinds kind rfl

theorem Settles.after : (part.after state).heap.Holds admits := by
  have hends := h state state ⟨rfl, hheap⟩
  unfold Run.after
  generalize part state = result, part' state = result' at hends
  cases hends with
  | ok hmiddle => exact hmiddle.holds
  | error _ hmiddle => exact hmiddle.holds

end Settles

end Run

/-- That parts settle, if all the code is placed. -/
def Calculus.settling (host : Host) {code : List Node → Prop}
    (hcode : ∀ body, code body → Node.AllPlaced body) (kinds : String → Prop) :
    Calculus host host :=
  let tandem := Tandem.settling (Node.StandIn code) kinds
  tandem.calculus (.refl host) rfl Node.hereditary_standIn (Node.supplied_isEvaluable hcode)
    (fun _ _ _ => rfl) fun scope _ => tandem.defineAll scope _

namespace Engine

/-- The kinds that are reported of bare expressions that stand in the code. -/
def Reports.Bare (reports : Reports) (code : List Node → Prop) (kind : String) : Prop :=
  ∃ node : Node, node.StandsIn code ∧ node.isBare = true ∧
    reports.executed node = .misplacedNode kind

theorem Reports.Bare.kind {code : List Node → Prop} {kind : String}
    (h : Reports.standard.Bare code kind) :
    kind ∈ ["Literal", "Identifier", "BinaryExpression"] := by
  obtain ⟨node, _, hbare, hkind⟩ := h
  cases hkind
  exact Node.kind_of_isBare hbare

section Code

variable {host : Host} {code : List Node → Prop} {reports reports' : Reports}

/-- With two ways of reporting, engines do the same in the code and report bare expressions
only. -/
structure Settle (host : Host) (code : List Node → Prop) (reports : Reports)
    (engine engine' : Engine) : Prop where
  evaluate : ∀ node scope, node.IsEvaluable →
    Settles (Node.StandIn code) (reports.Bare code) (engine.evaluate node scope)
      (engine'.evaluate node scope)
  execute : ∀ body scope, Node.StandIn code body →
    Settles (Node.StandIn code) (reports.Bare code) (engine.execute body scope)
      (engine'.execute body scope)

variable (hcode : ∀ body, code body → Node.AllPlaced body)
  (hmodules : ∀ name statements, host.modules name = .ok statements → code statements)
include hcode hmodules

theorem Settle.nested {engine engine' : Engine} (h : Settle host code reports engine engine')
    (size : Nat) :
    (Calculus.settling host hcode (reports.Bare code)).Nested engine engine' size where
  evaluate node scope hnode _ := h.evaluate node scope hnode
  execute body scope hbody _ := h.execute body scope hbody
  inside body scope hbody := h.execute body scope hbody
  loading name := by
    let law := Calculus.settling host hcode (reports.Bare code)
    refine law.runModule (fun hflows => Tandem.during _ _ hflows) fun statements scope hfound => ?_
    have hmodule := hmodules name statements hfound
    exact h.execute statements scope fun node hmem => .outermost hmodule hmem

/-- A statement of the code is run, or it is a bare expression and reported. -/
theorem Settle.statement {engine engine' : Engine} (h : Settle host code reports engine engine')
    (hreports : ∀ node, node.isBare = true → reports'.executed node = reports.executed node)
    {body : List Node} (hbody : Node.StandIn code body) {node : Node} (hmem : node ∈ body)
    (fuel : Nat) (scope : ScopeRef) :
    Settles (Node.StandIn code) (reports.Bare code)
      (if node.hasEffect then engine.statement host fuel node scope
        else raise (reports.executed node))
      (if node.hasEffect then engine'.statement host fuel node scope
        else raise (reports'.executed node)) := by
  let law := Calculus.settling host hcode (reports.Bare code)
  cases heffect : node.hasEffect with
  | true =>
      have hnested := h.nested hcode hmodules
      have hallows : law.Allows node := law.allows_of_admits hbody hmem
      have hmisplaced : node.hasEffect = false →
          law.Flows (Run.raise (.misplacedNode node.kind)) (Run.raise (.misplacedNode node.kind)) :=
        fun hnone => absurd (heffect.symm.trans hnone) Bool.noConfusion
      refine (hnested (sizeOf node + 1)).statement hallows (Nat.lt_succ_self _) hmisplaced scope ?_
      rintro condition inner rfl
      have hcondition := hallows.slots condition List.mem_cons_self
      have hinner := hallows.bodies inner List.mem_cons_self
      exact (hnested (sizeOf condition + sizeOf inner + 1)).loop (Tandem.halted _) hcondition
        (by omega) hinner (by omega) scope
  | false =>
      have hstands := hbody node hmem
      have hbare := Node.isBare_of_hasEffect heffect
        ((hstands.isPlaced hcode).noProgram node (.refl node))
      rw [if_neg Bool.false_ne_true, if_neg Bool.false_ne_true, hreports node hbare]
      refine Tandem.raise _ fun kind hkind => ⟨node, hstands, hbare, ?_⟩
      exact Halt.fault.inj hkind

theorem settle_ofReports (reports reports' : Reports)
    (hreports : ∀ node, node.isBare = true → reports'.executed node = reports.executed node)
    (fuel : Nat) :
    Settle host code reports (ofReports host reports fuel) (ofReports host reports' fuel) := by
  induction fuel with
  | zero => exact ⟨fun _ _ _ => Tandem.halted _, fun _ _ _ => Tandem.halted _⟩
  | succ fuel ih =>
      constructor
      · intro node scope hnode
        have hvalue := hnode.hasValue
        have hstep := (ih.nested hcode hmodules _).evaluateStep hnode (Nat.le_refl _)
          (fun hnone => absurd (hvalue.symm.trans hnone) Bool.noConfusion) scope
        unfold ofReports ofSteps
        dsimp only
        rw [if_pos hvalue, if_pos hvalue]
        exact hstep
      · intro body scope hbody
        apply (Calculus.settling host hcode (reports.Bare code)).executeEach
        intro node hmem
        exact ih.statement hcode hmodules hreports hbody hmem fuel scope

theorem settle_ofFuel (fuel : Nat) :
    Settle host code .standard (ofFuel host fuel) (ofFuel host fuel) := by
  rw [← ofReports_standard]
  exact settle_ofReports hcode hmodules .standard .standard (fun _ _ => rfl) fuel

/-- An interactive entry evaluates its bare expressions, so that only those inside of its
statements and of other code are reported. -/
theorem settles_entry {node : Node} (hnode : Node.StandIn code node.statements)
    (scope : ScopeRef) :
    Settles (Node.StandIn code) (Reports.standard.Bare code) (Run.entry host node scope)
      (Run.entry host node scope) := by
  have hsettle := settle_ofFuel hcode hmodules plenty
  apply (Calculus.settling host hcode (Reports.standard.Bare code)).foldlM
  intro _ statement hmem
  have hstands := hnode statement hmem
  split
  · next hexpression =>
      have hoperand : statement.IsOperand := ⟨hexpression, hstands.isPlaced hcode⟩
      have hvalue := hsettle.evaluate statement scope hoperand.isEvaluable
      exact Tandem.bind hvalue fun _ => Tandem.pure _ _
  · have hsingle : Node.StandIn code [statement] := by simpa [Node.StandIn] using hstands
    refine Tandem.bind (hsettle.execute [statement] scope hsingle) fun flow => ?_
    cases flow with
    | normal => exact Tandem.pure _ _
    | returned value => exact Tandem.pure _ _

end Code

/-- The code of a run: what is run, the modules, and the bodies in the heap. -/
inductive Code (host : Host) (heap : Heap) (body : List Node) : List Node → Prop
  | program : Code host heap body body
  | module {name : String} {statements : List Node} : host.modules name = .ok statements →
    Code host heap body statements
  | procedure (ref : ProcedureRef) : Code host heap body (heap.procedure ref).body
  | members (ref : ClassRef) : Code host heap body (heap.classInfo ref).members

/-- The statements of the program of a text. -/
def Compiled (body : List Node) : Prop :=
  ∃ source node, Node.ofText source = .ok node ∧ body = node.statements

theorem Compiled.allPlaced {body : List Node} (h : Compiled body) : Node.AllPlaced body := by
  obtain ⟨source, node, hsource, rfl⟩ := h
  obtain ⟨statements, rfl, hplaced⟩ := Node.exists_allPlaced_of_ofText hsource
  exact hplaced

section Compiled

variable {host : Host} {heap : Heap} {body : List Node}

theorem Code.allPlaced
    (hmodules : ∀ name statements, host.modules name = .ok statements → Compiled statements)
    (hbody : Compiled body) (hheap : heap.Holds Node.AllPlaced) (other : List Node)
    (h : Code host heap body other) : Node.AllPlaced other := by
  cases h with
  | program => exact hbody.allPlaced
  | module hfound => exact (hmodules _ _ hfound).allPlaced
  | procedure ref => exact hheap.procedure ref
  | members ref => exact hheap.members ref

theorem Code.holds (host : Host) (heap : Heap) (body : List Node) :
    heap.Holds (Node.StandIn (Code host heap body)) where
  procedure ref := fun _ hmem => .outermost (.procedure ref) hmem
  members ref := fun _ hmem => .outermost (.members ref) hmem

end Compiled

/-- In the program of a text every place for an expression holds one, and no program is
inside. So with modules that are programs of texts, a run is the same whatever is reported
of nodes without a value that are evaluated; and it ends by the fault that a node is
misplaced only at a bare expression that stands in the code as a statement. -/
theorem compiled_runs_report_bare_expressions (host : Host)
    (hmodules : ∀ name statements, host.modules name = .ok statements → Compiled statements)
    {source : String} {node : Node} (hsource : Node.ofText source = .ok node) {state : State}
    (hheap : state.heap.Holds Node.AllPlaced) (fuel : Nat) (scope : ScopeRef) :
    (∃ statements, node = .program statements ∧ Node.AllPlaced statements) ∧
    (∀ reports : Reports,
      (∀ bare, bare.isBare = true → reports.executed bare = .misplacedNode bare.kind) →
      (ofReports host reports fuel).execute node.statements scope state =
        (ofFuel host fuel).execute node.statements scope state) ∧
    (∀ (reports : Reports) (kind : String) (final : State),
      (ofReports host reports fuel).execute node.statements scope state =
        .error (.fault (.misplacedNode kind)) final →
      reports.Bare (Code host state.heap node.statements) kind) ∧
    (∀ kind final, (ofFuel host fuel).execute node.statements scope state =
        .error (.fault (.misplacedNode kind)) final ∨
      Run.entry host node scope state = .error (.fault (.misplacedNode kind)) final →
      kind ∈ ["Literal", "Identifier", "BinaryExpression"]) ∧
    (((ofFuel host fuel).execute node.statements scope).after state).heap.Holds Node.AllPlaced ∧
    ((Run.entry host node scope).after state).heap.Holds Node.AllPlaced := by
  have hcode := Code.allPlaced hmodules ⟨source, node, hsource, rfl⟩ hheap
  have hfound (name : String) (statements : List Node) (h : host.modules name = .ok statements) :
      Code host state.heap node.statements statements := .module h
  have hholds := Code.holds host state.heap node.statements
  have hstands : Node.StandIn (Code host state.heap node.statements) node.statements :=
    fun _ hmem => .outermost .program hmem
  have hstandard := (settle_ofFuel hcode hfound fuel).execute node.statements scope hstands
  have hentry := settles_entry hcode hfound hstands scope
  refine ⟨Node.exists_allPlaced_of_ofText hsource, ?_, ?_, ?_, ?_⟩
  · intro reports hreports
    have hsettle := settle_ofReports hcode hfound .standard reports hreports fuel
    rw [← ofReports_standard]
    exact ((hsettle.execute node.statements scope hstands).eq hholds).symm
  · intro reports kind final hrun
    have hsettle := settle_ofReports hcode hfound reports reports (fun _ _ => rfl) fuel
    exact (hsettle.execute node.statements scope hstands).kind hholds hrun
  · rintro kind final (hrun | hrun)
    · exact (hstandard.kind hholds hrun).kind
    · exact (hentry.kind hholds hrun).kind
  · exact ⟨Node.allPlaced_of_holds_standIn hcode (hstandard.after hholds),
      Node.allPlaced_of_holds_standIn hcode (hentry.after hholds)⟩

/-- A module that is the program of `x`. -/
def bareName : Host :=
  Host.standard.withModules (.ofList [("m", [.identifier "x"])])

theorem ofText_bareName : Node.ofText "x" = .ok (.program [.identifier "x"]) := by
  have hend : Cursor.readFrom [] ⟨1, 2⟩ = _ := Cursor.readFrom_of_gap rfl
  have hread : Cursor.readFrom ['x'] .start = _ := Cursor.readFrom_of_token rfl rfl hend
  have hstream : TokenStream.ofText "x" = _ := congrArg Prod.fst hread
  rw [Node.ofText, Phrase.ofText, hstream]
  rfl

theorem ofText_importing : Node.ofText "取込 m" = .ok (.program [.importing "m"]) := by
  have hpath : Token.IsPath [['取', '込']] := .of_all (by decide) (by decide +kernel)
  have hscan : Token.scan '取' ['込', ' ', 'm'] =
      .token (.keyword .importing) ['取', '込'] [' ', 'm'] := by
    obtain ⟨c, tail, hspelling, _, hscan⟩ := Token.readsAs_path hpath (Token.head_not_digit rfl)
    cases hspelling
    exact hscan [' ', 'm'] fun c hc => by
      cases hc
      decide
  have hend : Cursor.readFrom [] ⟨1, 5⟩ = _ := Cursor.readFrom_of_gap rfl
  have hlast : Cursor.readFrom [' ', 'm'] ⟨1, 3⟩ = _ := Cursor.readFrom_of_token rfl rfl hend
  have hread : Cursor.readFrom ['取', '込', ' ', 'm'] .start = _ :=
    Cursor.readFrom_of_token rfl hscan hlast
  have hstream : TokenStream.ofText "取込 m" = _ := congrArg Prod.fst hread
  rw [Node.ofText, Phrase.ofText, hstream]
  rfl

theorem compiled_bareName (name : String) (statements : List Node)
    (h : bareName.modules name = .ok statements) : Compiled statements := by
  by_cases hname : name = "m"
  · subst hname
    cases h
    exact ⟨"x", _, ofText_bareName, rfl⟩
  · have hnone : (Table.ofList [("m", [Node.identifier "x"])]).get? name = none :=
      Table.get?_insert_of_ne _ hname _
    rw [bareName, Host.withModules] at h
    dsimp only at h
    rw [hnone] at h
    cases h

theorem compiled_runs_report_bare_expressions_bareName :
    (∀ name statements, bareName.modules name = .ok statements → Compiled statements) ∧
    Node.ofText "取込 m" = .ok (.program [.importing "m"]) ∧
    State.initial.heap.Holds Node.AllPlaced ∧
    (∃ final, (ofFuel bareName 3).execute [.importing "m"] ⟨0⟩ .initial =
      .error (.fault (.misplacedNode "Identifier")) final) ∧
    Reports.standard.Bare (Code bareName .empty [.importing "m"]) "Identifier" := by
  have hheap : State.initial.heap.Holds Node.AllPlaced := by
    constructor
    · exact fun _ _ hmem => absurd hmem List.not_mem_nil
    · exact fun _ _ hmem => absurd hmem List.not_mem_nil
  have hruns := compiled_runs_report_bare_expressions bareName compiled_bareName ofText_importing
    hheap 3 ⟨0⟩
  refine ⟨compiled_bareName, ofText_importing, hheap, ⟨_, rfl⟩, ?_⟩
  exact hruns.2.2.1 .standard "Identifier" _ rfl

end Engine

end Wabun
