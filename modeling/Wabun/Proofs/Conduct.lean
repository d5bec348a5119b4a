import Wabun.Proofs.Discipline

/-!
Whole runs under a discipline. A step of the engine obeys it if what is nested in the step
does: expressions in scopes that can be read, and statements in scopes that can be filled.
So by one induction over the engine every run obeys it.
-/

namespace Wabun

open Run

/-- The statement binds the name in the scope it runs in. What an import binds
is known once the module is loaded. -/
def Node.Introduces (state : State) (name : String) : Node → Prop
  | .function declared _ _ => name = declared
  | .classDeclaration declared _ _ => name = declared
  | .enumDeclaration declared _ => name = declared
  | .exporting declared _ => name = declared
  | .variableDeclaration _ declared _ => name = declared ∧ Path.splitLast? declared = none
  | .importing moduleName =>
    ∃ bindings, state.modules.get? moduleName = some bindings ∧ bindings.contains name = true
  | _ => False

/-- Any name can be that of a module's binding. -/
theorem Node.exists_introduces_importing (moduleName name : String) :
    ∃ state, (Node.importing moduleName).Introduces state name := by
  let bindings : Table Value := Table.empty.insert name .unit
  let state : State := { State.initial with modules := Table.empty.insert moduleName bindings }
  refine ⟨state, bindings, Table.get?_insert_self _ _ _, ?_⟩
  rw [Table.contains, Table.get?_insert_self]
  rfl

namespace Discipline

/-- What the engine runs obeys the discipline: expressions where their scope can be read,
statements where it can be filled. -/
structure Governs (law : Discipline) (engine : Engine) : Prop where
  evaluate : ∀ frame node scope state, law.Reads frame state.heap scope →
    law.Obeys frame law.Knows (engine.evaluate node scope) state
  execute : ∀ frame body scope state, law.Opens frame state.heap scope →
    law.Obeys frame law.Returns (engine.execute body scope) state

namespace Governs

variable {law : Discipline} {engine : Engine} (h : law.Governs engine) {host : Host}
  {frame : law.Frame} {state : State} {scope : ScopeRef}
include h

theorem apply {ref : ProcedureRef} {args : List Value}
    (href : law.Knows state.heap (.procedure ref))
    (hargs : ∀ value ∈ args, law.Knows state.heap value) :
    law.Obeys frame law.Knows (engine.apply host ref args) state := by
  have hclosure : law.Obeys frame
      (fun heap procedure => law.Reads (law.inner frame) heap procedure.closure)
      (ask (·.procedure ref)) state :=
    .ask fun hstate => law.closure hstate href
  refine .bind hclosure fun procedure s₁ h₁ hclosure => ?_
  split
  · exact .raise_plain rfl
  · refine .bind (.makeInner rfl fun _ hmem => Option.some.inj hmem ▸ hclosure)
      fun scope s₂ h₂ hscope => ?_
    have hbindings : ∀ binding ∈ procedure.params.zip args, law.Knows s₂.heap binding.2 :=
      fun binding hmem =>
        law.knows_later (hargs _ (List.of_mem_zip hmem).2) (law.later_trans h₁ h₂)
    refine .bind (.defineAll hscope.2 hbindings) fun _ s₃ h₃ _ => ?_
    have hbody := h.execute (law.inner frame) procedure.body scope (s₃.enter (.call ref))
      (hscope.later h₃)
    refine .bind (.nested id hbody) fun flow s₄ h₄ hflow => ?_
    exact .bind (.record trivial) fun _ s₅ h₅ _ => .pure (law.knows_later hflow h₅)

theorem call {callee : String} {args : List Node} (hscope : law.Reads frame state.heap scope) :
    law.Obeys frame law.Knows (engine.call host callee args scope) state := by
  have hargs : law.Obeys frame (fun heap values => ∀ value ∈ values, law.Knows heap value)
      (args.mapM fun arg => engine.evaluate arg scope) state :=
    .mapM (fun _ _ _ hlater hvalue => law.knows_later hvalue hlater)
      fun arg _ later hlater => h.evaluate frame arg scope later (law.reads_later hscope hlater)
  refine .bind hargs fun values s₁ h₁ hvalues => ?_
  split
  · exact .builtin
  · refine .bind (.resolve (law.reads_later hscope h₁)) fun value s₂ h₂ hvalue => ?_
    cases value with
    | procedure ref =>
        exact h.apply hvalue fun value hmem => law.knows_later (hvalues value hmem) h₂
    | _ => exact .raise_plain rfl

theorem runMembers {object : InstanceRef} {classRef : ClassRef}
    (hobject : law.Knows state.heap (.instanceObject object))
    (hclass : law.KnowsClass state.heap classRef) :
    law.Obeys frame (fun _ _ => True) (engine.runMembers host object classRef) state := by
  have hinfo : law.Obeys frame (fun heap info => law.Reads (law.inner frame) heap info.scope)
      (ask (·.classInfo classRef)) state :=
    .ask fun hstate => law.environment hstate hclass
  refine .bind hinfo fun info s₁ h₁ hinfo => ?_
  refine .bind (.makeInner rfl fun _ hmem => Option.some.inj hmem ▸ hinfo)
    fun scope s₂ h₂ hscope => ?_
  have hself := law.knows_later hobject (law.later_trans h₁ h₂)
  refine .bind (.define (hscope.2 _) hself) fun _ s₃ h₃ _ => ?_
  have hbody := h.execute (law.inner frame) info.members scope (s₃.enter (.members classRef))
    (hscope.later h₃)
  refine .bind (.nested id hbody) fun flow s₄ h₄ _ => ?_
  cases flow with
  | returned value => exact .raise_plain rfl
  | normal =>
      -- The scope of the members can be read, so the fields can hold what it binds.
      have hfilled := (hscope.later (law.later_trans h₃ h₄)).1
      have hbindings : law.Obeys frame
          (fun heap bindings => ∀ binding ∈ bindings, law.Knows heap binding.2)
          (ask fun heap => (heap.forest.scope scope).vars.entries) s₄ :=
        .ask fun hstate _ hmem => law.binding (law.sound_inner hstate) hfilled hmem
      refine .bind hbindings fun bindings s₅ h₅ hbindings => ?_
      refine .forM fun binding hmem later hlater => ?_
      have hstill := law.knows_later hself (law.later_trans (law.later_trans h₃ h₄)
        (law.later_trans h₅ hlater))
      dsimp only
      split
      · exact .pure trivial
      · exact .setField hstill (law.knows_later (hbindings binding hmem) hlater)

theorem create {className : String} (hscope : law.Reads frame state.heap scope) :
    law.Obeys frame law.Knows (engine.create host className scope) state := by
  refine .bind (.findClass hscope) fun classRef s₁ h₁ hclass => ?_
  have hmade : law.Obeys frame (fun heap ref => law.Knows heap (.instanceObject ref))
      (make (·.addInstance ⟨classRef, ∅⟩)) s₁ :=
    .of_ok rfl fun hstate => law.makeInstance hstate (law.class_of_knows hclass)
  refine .bind hmade fun object s₂ h₂ hobject => ?_
  have hstill := law.class_of_knows (law.knows_later hclass h₂)
  have hlineage : law.Obeys frame
      (fun heap lineage => ∀ member ∈ lineage, law.KnowsClass heap member)
      (ask (·.lineage classRef)) s₂ :=
    .ask fun hstate _ hmem => law.lineage hstate hstill hmem
  refine .bind hlineage fun lineage s₃ h₃ hlineage => ?_
  have hmembers : law.Obeys frame (fun _ _ => True)
      (lineage.forM (engine.runMembers host object)) s₃ :=
    .forM fun member hmem later hlater =>
      h.runMembers (law.knows_later hobject (law.later_trans h₃ hlater))
        (law.knowsClass_later (hlineage member hmem) hlater)
  refine .bind hmembers fun _ s₄ h₄ _ => ?_
  exact .pure (law.knows_later hobject (law.later_trans h₃ h₄))

theorem evaluateStep (node : Node) (hscope : law.Reads frame state.heap scope) :
    law.Obeys frame law.Knows (engine.evaluateStep host node scope) state := by
  cases node with
  | literal value => cases value <;> exact .pure (law.knows_plain rfl)
  | identifier name => exact .resolve hscope
  | binary operator left right =>
      refine .bind (h.evaluate frame left scope state hscope) fun _ s₁ h₁ _ => ?_
      refine .bind (h.evaluate frame right scope s₁ (law.reads_later hscope h₁)) fun _ _ _ _ => ?_
      exact .operate
  | call callee args => exact h.call hscope
  | create className => exact h.create hscope
  | inspectType value typeName =>
      refine .bind (h.evaluate frame value scope state hscope) fun value _ _ _ => ?_
      refine .bind .consult fun fits _ _ _ => ?_
      split
      · exact .pure (law.knows_plain rfl)
      · exact .bind .consult fun _ _ _ _ => .raise_plain rfl
  | _ => exact .raise_plain rfl

theorem block (body : List Node) (hscope : law.Reads frame state.heap scope) :
    law.Obeys frame law.Returns (engine.block body scope) state :=
  .bind (.makeChild hscope) fun inner later _ hinner => h.execute frame body inner later hinner

theorem loop (condition : Node) (body : List Node) (fuel : Nat)
    (hscope : law.Reads frame state.heap scope) :
    law.Obeys frame law.Returns
      (Engine.loop (engine.evaluate condition scope) (engine.block body scope) fuel) state := by
  induction fuel generalizing state with
  | zero => exact .outOfFuel
  | succ fuel ih =>
      refine .bind (h.evaluate frame condition scope state hscope) fun value s₁ h₁ _ => ?_
      split
      · refine .bind (h.block body (law.reads_later hscope h₁)) fun flow s₂ h₂ hflow => ?_
        cases flow with
        | returned value => exact .pure hflow
        | normal => exact ih (law.reads_later hscope (law.later_trans h₁ h₂))
      · exact .pure (law.knows_plain rfl)

/-- A thrown value that is caught was known where it was thrown. -/
theorem attempt (body : List Node) (caught : String) (handler : List Node)
    (hscope : law.Reads frame state.heap scope) :
    law.Obeys frame law.Returns (engine.attempt body caught handler scope) state := by
  have hbody : law.Obeys frame law.Returns
      (during (.attempt caught) (engine.block body scope)) state :=
    .attempt (h.block body hscope)
  rcases engine.attempt_cases body caught handler scope state with
    hrun | ⟨value, middle, hthrown, hrun⟩
  · exact .of_eq hrun fun hstate => ⟨law.refl hstate, hbody⟩
  · refine .of_eq hrun fun hstate => ?_
    obtain ⟨hmiddle, hvalue⟩ := (hbody hstate).2 _ _ hthrown
    refine ⟨hmiddle, ?_⟩
    have hscope' := law.reads_later hscope (law.later hmiddle)
    refine .bind (.makeChild hscope') fun inner s₁ h₁ hinner => ?_
    refine .bind (.define (law.binds_inner (hinner.2 _)) (law.knows_later (hvalue value rfl) h₁))
      fun _ s₂ h₂ _ => ?_
    exact h.execute frame handler inner s₂ (hinner.later h₂)

theorem accepts {subject : Value} (candidate : PatternCase)
    (hscope : law.Reads frame state.heap scope) :
    law.Obeys frame (fun _ _ => True) (engine.accepts host subject scope candidate) state := by
  have hpattern : law.Obeys frame (fun _ _ => True)
      (engine.matchesPattern host subject scope candidate.pattern) state := by
    cases candidate.pattern with
    | none => exact .pure trivial
    | some pattern =>
        exact .bind (h.evaluate frame pattern scope state hscope) fun _ _ _ _ => .consult
  refine .bind hpattern fun fits later hlater _ => ?_
  split
  · cases candidate.guard with
    | none => exact .pure trivial
    | some guard =>
        exact .bind (h.evaluate frame guard scope later (law.reads_later hscope hlater))
          fun _ _ _ _ => .pure trivial
  · exact .pure trivial

theorem matchingCase {subject : Value} (cases : List PatternCase)
    (hscope : law.Reads frame state.heap scope) :
    law.Obeys frame (fun _ _ => True) (engine.matchingCase host subject scope cases) state := by
  induction cases generalizing state with
  | nil => exact .pure trivial
  | cons candidate rest ih =>
      refine .bind (h.accepts candidate hscope) fun accepted later hlater _ => ?_
      split
      · exact .pure trivial
      · exact ih (law.reads_later hscope hlater)

/-- A module runs in a root of its own, so it starts with nothing. -/
theorem runModule (name : String) :
    law.Obeys frame law.KnowsAll (engine.runModule host name) state := by
  unfold Engine.runModule
  split
  · exact .raise_plain rfl
  · next statements _ =>
      refine .bind (.makeInner rfl fun _ hmem => by cases hmem) fun scope s₁ h₁ hscope => ?_
      have hbody := h.execute (law.inner frame) statements scope
        (s₁.tell (.opened (.module name))) hscope
      refine .bind (.module hbody) fun _ s₂ h₂ _ => ?_
      exact .ask fun hstate _ hmem =>
        law.binding (law.sound_inner hstate) (hscope.later h₂).1 hmem

theorem loadModule (name : String) :
    law.Obeys frame law.KnowsAll (engine.loadModule host name) state := by
  cases hloaded : state.modules.get? name with
  | some bindings =>
      refine .of_ok (engine.loadModule_of_loaded hloaded) fun hstate => ?_
      exact ⟨law.refl hstate, law.loaded hstate hloaded⟩
  | none =>
      cases hloading : state.loading.contains name with
      | true =>
          refine .of_eq (engine.loadModule_of_loading hloaded hloading) fun hstate => ?_
          exact ⟨law.refl hstate, .raise_plain rfl⟩
      | false =>
          have hnew : engine.loadModule host name state = _ :=
            engine.loadModule_of_new hloaded hloading
          let entered : State := { state with loading := name :: state.loading }
          have hmodule : law.Obeys frame law.KnowsAll (engine.runModule host name) entered :=
            h.runModule name
          cases hrun : engine.runModule host name entered with
          | ok bindings middle =>
              rw [hrun] at hnew
              refine .of_ok hnew fun hstate => ?_
              obtain ⟨hpasses, hbindings⟩ :=
                (hmodule (law.sound_of_same hstate rfl rfl)).1 bindings middle hrun
              exact ⟨law.moduleLoaded hloaded hloading hpasses hbindings, hbindings⟩
          | error halt middle =>
              rw [hrun] at hnew
              refine .of_error hnew fun hstate => ?_
              obtain ⟨hpasses, hthrown⟩ :=
                (hmodule (law.sound_of_same hstate rfl rfl)).2 halt middle hrun
              exact ⟨law.moduleFailed hloaded hloading hpasses, hthrown⟩

theorem statement (fuel : Nat) (node : Node) (hscope : law.Reads frame state.heap scope)
    (hnames : ∀ name moment, node.Introduces moment name → law.Binds frame state.heap scope name) :
    law.Obeys frame law.Returns (engine.statement host fuel node scope) state := by
  have hnormal : ∀ later : State, law.Obeys frame law.Returns (pure .normal) later :=
    fun later => .pure (law.knows_plain rfl)
  cases node with
  | function name params body =>
      refine .bind (.makeProcedure (law.reads_inner hscope)) fun ref s₁ h₁ href => ?_
      have hname := law.binds_inner (law.binds_later (hnames name state rfl) h₁)
      exact .bind (.define hname href) fun _ last _ _ => hnormal last
  | variableDeclaration kind name value =>
      refine .bind (h.evaluate frame value scope state hscope) fun value s₁ h₁ hvalue => ?_
      refine .bind (.declare (law.reads_later hscope h₁) (fun hpath => ?_) hvalue)
        fun _ last _ _ => hnormal last
      exact law.binds_later (hnames name state ⟨rfl, hpath⟩) h₁
  | classDeclaration name parent body =>
      exact .bind (.declareClass hscope (hnames name state rfl)) fun _ last _ _ => hnormal last
  | enumDeclaration name variants =>
      have hmade : law.Obeys frame (fun _ _ => True)
          (make (·.addEnum (.ofVariants name variants))) state :=
        .of_ok rfl fun hstate => ⟨law.makeEnum hstate hscope, trivial⟩
      refine .bind hmade fun ref s₁ h₁ _ => ?_
      have hname := law.binds_inner (law.binds_later (hnames name state rfl) h₁)
      exact .bind (.define hname (law.knows_plain rfl)) fun _ last _ _ => hnormal last
  | staticMethod className name body =>
      refine .bind (.findClass hscope) fun classRef s₁ h₁ hclass => ?_
      exact .bind (.attachStatic (law.class_of_knows hclass) (law.reads_later hscope h₁))
        fun _ last _ _ => hnormal last
  | create className | call callee args | inspectType value typeName =>
      exact .bind (h.evaluate frame _ scope state hscope) fun _ last _ _ => hnormal last
  | alternative condition consequent alternate =>
      refine .bind (h.evaluate frame condition scope state hscope) fun value s₁ h₁ _ => ?_
      split
      · exact h.block consequent (law.reads_later hscope h₁)
      · cases alternate with
        | some body => exact h.block body (law.reads_later hscope h₁)
        | none => exact hnormal s₁
  | distinguish subject cases =>
      refine .bind (h.evaluate frame subject scope state hscope) fun subject s₁ h₁ _ => ?_
      have hscope₁ := law.reads_later hscope h₁
      refine .bind (h.matchingCase cases hscope₁) fun found s₂ h₂ _ => ?_
      cases found with
      | some chosen => exact h.block chosen.body (law.reads_later hscope₁ h₂)
      | none => exact hnormal s₂
  | loop condition body => exact h.loop condition body fuel hscope
  | attempt body caught handler => exact h.attempt body caught handler hscope
  | importing moduleName =>
      refine .bind (h.loadModule moduleName) fun bindings s₁ h₁ hbindings => ?_
      have hlisted : ∀ binding ∈ host.listing.list bindings, law.Knows s₁.heap binding.2 :=
        fun binding hmem => hbindings binding ((host.listing.perm bindings).mem_iff.mp hmem)
      have hfree (name : String) : law.Binds (law.inner frame) s₁.heap scope name := by
        obtain ⟨moment, hname⟩ := Node.exists_introduces_importing moduleName name
        exact law.binds_inner (law.binds_later (hnames name moment hname) h₁)
      exact .bind (.defineAll hfree hlisted) fun _ last _ _ => hnormal last
  | exporting name value =>
      refine .bind (h.evaluate frame value scope state hscope) fun value s₁ h₁ hvalue => ?_
      have hname := law.binds_later (hnames name state rfl) h₁
      refine .bind (.define (law.binds_inner hname) hvalue) fun _ s₂ h₂ _ => ?_
      have hmarked : law.Obeys frame (fun _ _ => True) (Run.markExported scope name) s₂ :=
        .of_ok rfl fun hstate => ⟨law.markExported hstate (law.binds_later hname h₂), trivial⟩
      exact .bind hmarked fun _ last _ _ => hnormal last
  | giveBack value =>
      refine .bind (h.evaluate frame value scope state hscope) fun value s₁ h₁ hvalue => ?_
      exact .bind (.record trivial) fun _ s₂ h₂ _ => .pure (law.knows_later hvalue h₂)
  | throwUp value =>
      refine .bind (h.evaluate frame value scope state hscope) fun value s₁ h₁ hvalue => ?_
      exact .raise fun _ hthrown => Option.some.inj hthrown ▸ hvalue
  | program | binary | identifier | literal => exact .raise_plain rfl

omit h in
/-- Statements one after the other, where each obeys the discipline in a scope that can be
filled. -/
theorem executeEach {step : Node → Run Flow} (body : List Node)
    (hstep : ∀ node later, law.Opens frame later.heap scope →
      law.Obeys frame law.Returns (step node) later)
    (hscope : law.Opens frame state.heap scope) :
    law.Obeys frame law.Returns (Engine.executeEach step body) state := by
  induction body generalizing state with
  | nil => exact .pure (law.knows_plain rfl)
  | cons node rest ih =>
      refine .bind (hstep node state hscope) fun flow later hlater hflow => ?_
      cases flow with
      | returned value => exact .pure hflow
      | normal => exact ih (hscope.later hlater)

theorem executeStep (fuel : Nat) (body : List Node) (hscope : law.Opens frame state.heap scope) :
    law.Obeys frame law.Returns (engine.executeStep host fuel body scope) state := by
  rw [Engine.executeStep_eq_executeEach]
  refine executeEach body (fun node later hlater => ?_) hscope
  exact h.statement fuel node hlater.1 fun name _ _ => hlater.2 name

omit h in
/-- Every run obeys, by induction on the fuel. -/
theorem ofFuel (law : Discipline) (host : Host) (fuel : Nat) :
    law.Governs (Engine.ofFuel host fuel) := by
  induction fuel with
  | zero => exact ⟨fun _ _ _ _ _ => .outOfFuel, fun _ _ _ _ _ => .outOfFuel⟩
  | succ fuel ih =>
      exact ⟨fun _ node _ _ hscope => ih.evaluateStep node hscope,
        fun _ body _ _ hscope => ih.executeStep fuel body hscope⟩

end Governs

end Discipline

end Wabun
