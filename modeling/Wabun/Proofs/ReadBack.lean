import Mathlib.Data.List.Forall2
import Wabun.Node.Lowering
import Wabun.Proofs.FieldWrite
import Wabun.Proofs.Ownership

/-!
Reading back what was declared. Functions, enumerations, classes and exported values are
bound under the whole text of their name, and so are variables without a dot; a variable
behind a dot is a field. A name is read as a path, which is cut at every dot. The two agree
for names without a dot and for fields. What else is bound under a name with a dot is found
by no path, as no path begins with such a name.
-/

namespace Wabun

open Run

/-- The name that a statement declares. -/
def Node.declaredName? : Node → Option String
  | .function name _ _ => some name
  | .variableDeclaration _ name _ => some name
  | .classDeclaration name _ _ => some name
  | .enumDeclaration name _ => some name
  | .exporting name _ => some name
  | _ => none

namespace Forest

variable {before forest : Forest} {scope : ScopeRef} {name : String} {value : Value}

theorem get?_of_binding? (h : forest.binding? scope name = some value) :
    forest.get? scope name = some value := by
  obtain ⟨rest, hchain⟩ := forest.chain_eq_cons scope
  rw [get?_eq_findSome?, hchain, List.findSome?_cons, h]

theorem get?_assign_self (hscope : scope.index < forest.size) (name : String) (value : Value) :
    (forest.assign scope name value).get? scope name = some value := by
  have htarget := forest.isTarget_owner? scope name
  have hdiffers := differsAt_define (htarget.index_lt hscope) name value
  exact hdiffers.get?_of_resolves (hdiffers.resolves_of_isTarget htarget)

/-- The scope binds a name, and other names are looked up as before. -/
structure Gains (scope : ScopeRef) (name : String) (value : Value) (before after : Forest) :
    Prop where
  bound : after.binding? scope name = some value
  kept : ∀ inner key, key ≠ name → after.get? inner key = before.get? inner key

theorem gains_define (hscope : scope.index < forest.size) (name : String) (value : Value) :
    Gains scope name value forest (forest.define scope name value) where
  bound := binding?_define_self hscope name value
  kept _ _ hkey := (differsAt_define hscope name value).get?_of_not_resolves fun h => hkey h.1

theorem get?_markExported (forest : Forest) (scope inner : ScopeRef) (name key : String) :
    (forest.markExported scope name).get? inner key = forest.get? inner key := by
  have hparent : ∀ ref, ((forest.markExported scope name).scope ref).parent =
      (forest.scope ref).parent := by
    intro ref
    rcases scope_modify_cases forest scope ref
        (fun scope => { scope with exported := scope.exported.insert name () })
      with hsame | ⟨_, hsame⟩
    · rw [markExported, hsame]
    · rw [markExported, hsame]
  rw [get?_eq_findSome?, get?_eq_findSome?, chain_eq_of_parents hparent]
  simp only [binding?_markExported]

theorem Gains.markExported (h : Gains scope name value before forest) (key : String) :
    Gains scope name value before (forest.markExported scope key) where
  bound := (binding?_markExported ..).trans h.bound
  kept inner other hother := (get?_markExported ..).trans (h.kept inner other hother)

end Forest

namespace Heap

/-- Every procedure of the first heap is in the second one. -/
def KeepsProcedures (before after : Heap) : Prop :=
  ∀ (index : Nat) (procedure : Procedure), before.procedures[index]? = some procedure →
    after.procedures[index]? = some procedure

variable {before after heap : Heap}

theorem KeepsProcedures.trans (h : before.KeepsProcedures heap) (h' : heap.KeepsProcedures after) :
    before.KeepsProcedures after :=
  fun index procedure hheld => h' index procedure (h index procedure hheld)

theorem keepsProcedures_of_push {procedure : Procedure}
    (h : after.procedures = before.procedures.push procedure) : before.KeepsProcedures after := by
  intro index held hheld
  have hindex := (Array.getElem?_eq_some_iff.mp hheld).1
  rw [h, Array.getElem?_push, if_neg (Nat.ne_of_lt hindex)]
  exact hheld

/-- The procedures stand in the heap under the names of what they were made of. -/
def HoldsAll {α : Type} (heap : Heap) (procedure : String × α → Procedure)
    (declared : List (String × α)) (made : List (String × ProcedureRef)) : Prop :=
  List.Forall₂ (fun entry method => method.1 = entry.1 ∧
    heap.procedures[method.2.index]? = some (procedure entry)) declared made

theorem HoldsAll.mono {α : Type} {procedure : String × α → Procedure}
    {declared : List (String × α)} {made : List (String × ProcedureRef)}
    (h : before.HoldsAll procedure declared made) (hkeeps : before.KeepsProcedures after) :
    after.HoldsAll procedure declared made :=
  List.Forall₂.imp (fun _ _ hheld => ⟨hheld.1, hkeeps _ _ hheld.2⟩) h

/-- The class is the one that a body was sorted into. -/
def HoldsClass (heap : Heap) (ref : ClassRef) (name : String) (parent : Option ClassRef)
    (sorted : Engine.ClassBody) (scope : ScopeRef) : Prop :=
  ∃ methods statics,
    heap.classes[ref.index]? =
      some ⟨name, parent, sorted.members, .ofList methods, .ofList statics, scope⟩ ∧
    heap.HoldsAll (fun entry => ⟨entry.1, entry.2.1, entry.2.2, scope⟩) sorted.methods methods ∧
    heap.HoldsAll (fun entry => ⟨name ++ "." ++ entry.1, [], entry.2, scope⟩) sorted.statics statics

end Heap

namespace Engine

/-- What a statement declares, when it runs in the scope from one state to another: a value
that it makes, or the one that its expression gives. The last state is the one in which the
name is bound. -/
inductive Declares (engine : Engine) (scope : ScopeRef) (before after : State) :
    Node → Value → State → Prop
  | function {name : String} {params : List String} {body : List Node} :
    after.heap.procedures[before.heap.procedures.size]? = some ⟨name, params, body, scope⟩ →
    Declares engine scope before after (.function name params body)
      (.procedure ⟨before.heap.procedures.size⟩) before
  | enumeration {name : String} {variants : List String} :
    after.heap.enums[before.heap.enums.size]? = some (.ofVariants name variants) →
    Declares engine scope before after (.enumDeclaration name variants)
      (.enumeration ⟨before.heap.enums.size⟩) before
  | classObject {name : String} {parent : Option String} {body : List Node}
      {found : Option ClassRef} {sorted : ClassBody} :
    found.map .classObject = parent.bind (before.heap.forest.get? scope) →
    ClassBody.of name body = .ok sorted →
    after.heap.HoldsClass ⟨before.heap.classes.size⟩ name found sorted scope →
    Declares engine scope before after (.classDeclaration name parent body)
      (.classObject ⟨before.heap.classes.size⟩) before
  | exported {name : String} {node : Node} {value : Value} {middle : State} :
    engine.evaluate node scope before = .ok value middle →
    Declares engine scope before after (.exporting name node) value middle
  | assigned {kind : Declaration} {name : String} {node : Node} {value : Value}
      {middle : State} :
    engine.evaluate node scope before = .ok value middle →
    Declares engine scope before after (.variableDeclaration kind name node) value middle

variable {engine : Engine} {host : Host} {fuel : Nat} {node : Node} {kind : Declaration} {name : String}
  {scope : ScopeRef} {state middle final : State} {value : Value} {flow : Flow}

/-! ### Classes -/

theorem parent_of_ok {parent : Option String} {found : Option ClassRef}
    (h : (parent.mapM fun parent => findClass parent scope) state = .ok found final) :
    found.map .classObject = parent.bind (state.heap.forest.get? scope) ∧ final = state := by
  cases parent with
  | none =>
      cases h
      exact ⟨rfl, rfl⟩
  | some parent =>
      obtain ⟨ref, middle, hfind, hrest⟩ := exists_of_bind_ok h
      cases hrest
      obtain ⟨hbound, hsame⟩ := findClass_of_ok hfind
      exact ⟨hbound.symm, hsame⟩

/-- The methods of a class body are made one after the other. -/
theorem methods_of_ok {methods : List (String × List String × List Node)}
    {made : List (String × ProcedureRef)}
    (h : (methods.mapM fun entry : String × List String × List Node => do
      let ref ← makeProcedure ⟨entry.1, entry.2.1, entry.2.2, scope⟩
      return (entry.1, ref)) state = .ok made final) :
    final.heap.HoldsAll (fun entry => ⟨entry.1, entry.2.1, entry.2.2, scope⟩) methods made ∧
    state.heap.KeepsProcedures final.heap ∧
    final.heap.forest = state.heap.forest ∧ final.heap.classes = state.heap.classes := by
  induction methods generalizing state made with
  | nil =>
      cases h
      exact ⟨.nil, fun _ _ hheld => hheld, rfl, rfl⟩
  | cons entry rest ih =>
      rw [List.mapM_cons] at h
      obtain ⟨first, middle, hfirst, h⟩ := exists_of_bind_ok h
      cases hfirst
      obtain ⟨others, last, hothers, h⟩ := exists_of_bind_ok h
      cases h
      obtain ⟨hholds, hkeeps, hforest, hclasses⟩ := ih hothers
      refine ⟨.cons ⟨rfl, hkeeps _ _ ?_⟩ hholds, .trans (Heap.keepsProcedures_of_push rfl) hkeeps,
        hforest, hclasses⟩
      exact Array.getElem?_push_size

/-- The class methods of a class body are made, and added to the class, one after the
other. -/
theorem statics_of_ok {ref : ClassRef} {info : ClassInfo} {statics : List (String × List Node)}
    (hclass : state.heap.classes[ref.index]? = some info)
    (h : (statics.forM fun entry => attachStatic ref entry.1 entry.2 scope) state = .ok () final) :
    ∃ made : List (String × ProcedureRef),
      final.heap.classes[ref.index]? = some { info with
        statics := made.foldl (fun table entry => table.insert entry.1 entry.2) info.statics } ∧
      final.heap.HoldsAll (fun entry => ⟨info.name ++ "." ++ entry.1, [], entry.2, scope⟩)
        statics made ∧
      state.heap.KeepsProcedures final.heap ∧ final.heap.forest = state.heap.forest := by
  induction statics generalizing state info with
  | nil =>
      cases h
      exact ⟨[], hclass, .nil, fun _ _ hheld => hheld, rfl⟩
  | cons entry rest ih =>
      obtain ⟨_, middle, hfirst, h⟩ := exists_of_bind_ok h
      cases hfirst
      have hname : (state.heap.classInfo ref).name = info.name := by
        rw [Heap.classInfo, Array.getD_eq_getD_getElem?, hclass]
        rfl
      let added : Heap := (state.heap.addProcedure
        ⟨(state.heap.classInfo ref).name ++ "." ++ entry.1, [], entry.2, scope⟩).2
      have hadded : (added.setStatic ref entry.1 ⟨state.heap.procedures.size⟩).classes[ref.index]? =
          some { info with
            statics := info.statics.insert entry.1 ⟨state.heap.procedures.size⟩ } := by
        rw [Heap.setStatic, Array.getElem?_modify, if_pos rfl]
        exact congrArg (Option.map _) hclass
      obtain ⟨made, hfinal, hholds, hkeeps, hforest⟩ := ih hadded h
      refine ⟨(entry.1, ⟨state.heap.procedures.size⟩) :: made, hfinal,
        .cons ⟨rfl, hkeeps _ _ ?_⟩ hholds, .trans (Heap.keepsProcedures_of_push rfl) hkeeps, hforest⟩
      rw [← hname]
      exact Array.getElem?_push_size

theorem declareClass_of_ok {parent : Option String} {body : List Node}
    (h : declareClass name parent body scope state = .ok () final) :
    ∃ found sorted, found.map .classObject = parent.bind (state.heap.forest.get? scope) ∧
      ClassBody.of name body = .ok sorted ∧
      final.heap.HoldsClass ⟨state.heap.classes.size⟩ name found sorted scope ∧
      final.heap.forest =
        state.heap.forest.define scope name (.classObject ⟨state.heap.classes.size⟩) := by
  obtain ⟨found, s₁, hparent, h⟩ := exists_of_bind_ok h
  obtain ⟨hfound, hsame⟩ := parent_of_ok hparent
  subst s₁
  cases hsorted : ClassBody.of name body with
  | error cause =>
      rw [hsorted] at h
      cases h
  | ok sorted =>
      rw [hsorted] at h
      obtain ⟨methods, s₂, hmethods, h⟩ := exists_of_bind_ok h
      obtain ⟨classRef, s₃, hmake, h⟩ := exists_of_bind_ok h
      cases hmake
      obtain ⟨_, s₄, hstatics, h⟩ := exists_of_bind_ok h
      cases h
      obtain ⟨hholds, _, hforest, hclasses⟩ := methods_of_ok hmethods
      have hnew : (s₂.heap.classes.push
          ⟨name, found, sorted.members, .ofList methods, ∅, scope⟩)[s₂.heap.classes.size]? =
          some ⟨name, found, sorted.members, .ofList methods, ∅, scope⟩ := Array.getElem?_push_size
      obtain ⟨statics, hinfo, hstatics, hkeeps, hforest'⟩ := statics_of_ok hnew hstatics
      rw [hclasses] at hinfo
      refine ⟨found, sorted, hfound, rfl, ⟨methods, statics, hinfo, hholds.mono hkeeps, hstatics⟩, ?_⟩
      have hdefined : s₄.heap.forest = state.heap.forest := hforest'.trans hforest
      rw [← hclasses, ← hdefined]
      rfl

/-! ### Statements -/

theorem statement_of_execute (h : (ofFuel host (fuel + 1)).execute [node] scope state =
      .ok flow final) :
    (ofFuel host fuel).statement host fuel node scope state = .ok flow final := by
  rwa [execute_singleton] at h

/-- A declaration other than that of a variable binds its name in the scope. -/
theorem declares_of_ok (hengine : Discipline.progression.Governs engine) (hstate : state.Sound)
    (hscope : scope.index < state.heap.forest.size) (hname : node.declaredName? = some name)
    (hnode : ∀ kind value, node ≠ .variableDeclaration kind name value)
    (h : engine.statement host fuel node scope state = .ok flow final) :
    ∃ value middle, engine.Declares scope state final node value middle ∧
      Forest.Gains scope name value middle.heap.forest final.heap.forest := by
  cases node with
  | function name params body =>
      cases hname
      cases h
      exact ⟨_, _, .function Array.getElem?_push_size, Forest.gains_define hscope _ _⟩
  | enumDeclaration name variants =>
      cases hname
      cases h
      exact ⟨_, _, .enumeration Array.getElem?_push_size, Forest.gains_define hscope _ _⟩
  | classDeclaration name parent body =>
      cases hname
      obtain ⟨_, middle, hdeclared, h⟩ := exists_of_bind_ok h
      cases h
      obtain ⟨found, sorted, hfound, hsorted, hclass, hforest⟩ := declareClass_of_ok hdeclared
      refine ⟨_, _, .classObject hfound hsorted hclass, ?_⟩
      rw [hforest]
      exact Forest.gains_define hscope _ _
  | exporting name value =>
      cases hname
      obtain ⟨given, middle, hgiven, h⟩ := exists_of_bind_ok h
      cases h
      have hadvances := hengine.advances_of_evaluate hstate hgiven
      have hmiddle := Nat.lt_of_lt_of_le hscope hadvances.extension.forest_size_le
      exact ⟨_, _, .exported hgiven, (Forest.gains_define hmiddle _ _).markExported _⟩
  | variableDeclaration kind name value =>
      cases hname
      exact absurd rfl (hnode kind value)
  | _ => cases hname

/-! ### Reading a name -/

theorem identifier_of_bound (hname : '.' ∉ name.toList)
    (h : state.heap.forest.get? scope name = some value) :
    (ofFuel host (fuel + 1)).evaluate (.identifier name) scope state = .ok value state := by
  have hsegments := Path.segments_of_notMem hname
  have hresolve : resolve name scope state = (Path.segments name).2.foldlM (member name) value state :=
    resolve_of_bound (by rw [hsegments]; exact h)
  rw [hsegments] at hresolve
  exact hresolve

/-- A variable without a dot is bound, here or where it is bound already. -/
theorem get?_of_declare (hname : '.' ∉ name.toList) (hscope : scope.index < middle.heap.forest.size)
    (h : declare kind name value scope middle = .ok () final) :
    final.heap.forest.get? scope name = some value := by
  unfold declare at h
  rw [Path.splitLast?_eq_none_iff.mpr hname] at h
  cases kind with
  | here =>
      cases h
      exact Forest.get?_of_binding? (Forest.binding?_define_self hscope name value)
  | nearest =>
      cases h
      exact Forest.get?_assign_self hscope name value

/-- A variable behind a dot is read where it was set. -/
theorem resolve_of_declare {owner field : String} (hmiddle : middle.Sound)
    (hfield : '.' ∉ field.toList)
    (havoid : ∀ ref, (resolve owner scope).given? middle = some (.instanceObject ref) →
      (.instanceObject ref, field) ∉ accesses owner scope middle)
    (h : declare kind (owner ++ "." ++ field) value scope middle = .ok () final) :
    resolve (owner ++ "." ++ field) scope final = .ok value final := by
  cases hresolve : resolve owner scope middle with
  | error halt last =>
      rw [declare_of_error hfield hresolve] at h
      cases h
  | ok other last =>
      cases other with
      | instanceObject ref =>
          have href := instance_of_resolve hmiddle hresolve
          have hgiven : (resolve owner scope).given? middle = some (.instanceObject ref) := by
            rw [given?, hresolve]
          obtain rfl := resolve_of_instance hresolve
          rw [declare_of_instance hfield hresolve] at h
          cases h
          exact resolve_of_setsField hfield href rfl hresolve (havoid ref hgiven)
      | _ =>
          rw [declare_of_other hfield hresolve (by simp)] at h
          cases h

/-- What a statement declares under a name without a dot is read back in the scope under
this name, and so is the field that a declaration behind a dot sets, unless the way to the
instance is over the field itself. What a function, an enumeration, a class or an exported
value declares under a name with a dot is bound under the whole name. No path is looked up
by it, so the name is read as before and, unless its first part is bound, not at all. -/
theorem declaration_reads_back (host : Host) (fuel : Nat) (node : Node) (scope : ScopeRef)
    {name : String} {state final : State} {flow : Flow} (hstate : state.Sound)
    (hscope : scope.index < state.heap.forest.size) (hname : node.declaredName? = some name)
    (h : (ofFuel host (fuel + 1)).execute [node] scope state = .ok flow final) :
    ∃ value middle, (ofFuel host fuel).Declares scope state final node value middle ∧
      ∀ later,
        let reading := (ofFuel host (later + 1)).evaluate (.identifier name) scope final
        ('.' ∉ name.toList → reading = .ok value final) ∧
        (∀ kind expression, node = .variableDeclaration kind name expression →
          ∀ owner field, name = owner ++ "." ++ field → '.' ∉ field.toList →
          (∀ ref, (resolve owner scope).given? middle = some (.instanceObject ref) →
            (.instanceObject ref, field) ∉ accesses owner scope middle) →
          reading = .ok value final) ∧
        ((∀ kind expression, node ≠ .variableDeclaration kind name expression) →
          '.' ∈ name.toList →
          final.heap.forest.binding? scope name = some value ∧
          (∀ path inner, final.heap.forest.get? inner (Path.segments path).1 =
            middle.heap.forest.get? inner (Path.segments path).1) ∧
          (middle.heap.forest.get? scope (Path.segments name).1 = none →
            reading = raise (.undefined (Path.segments name).1) final)) := by
  have hengine := Discipline.Governs.ofFuel .progression host fuel
  have hstatement := statement_of_execute h
  by_cases hvariable : ∃ kind expression, node = .variableDeclaration kind name expression
  · obtain ⟨kind, expression, rfl⟩ := hvariable
    obtain ⟨value, middle, hvalue, hrest⟩ := exists_of_bind_ok hstatement
    obtain ⟨_, last, hdeclare, hrest⟩ := exists_of_bind_ok hrest
    cases hrest
    have hadvances := hengine.advances_of_evaluate hstate hvalue
    have hmiddle := Nat.lt_of_lt_of_le hscope hadvances.extension.forest_size_le
    refine ⟨value, middle, .assigned hvalue, fun later => ⟨fun hplain => ?_, ?_, fun hother => ?_⟩⟩
    · exact identifier_of_bound hplain (get?_of_declare hplain hmiddle hdeclare)
    · rintro _ _ _ owner field rfl hfield havoid
      exact resolve_of_declare hadvances.sound hfield havoid hdeclare
    · exact absurd rfl (hother kind expression)
  · have hnode : ∀ kind expression, node ≠ .variableDeclaration kind name expression :=
      fun kind expression heq => hvariable ⟨kind, expression, heq⟩
    obtain ⟨value, middle, hdeclares, hgains⟩ :=
      declares_of_ok hengine hstate hscope hname hnode hstatement
    refine ⟨value, middle, hdeclares, fun later => ⟨fun hplain => ?_, ?_, fun _ hdot => ?_⟩⟩
    · exact identifier_of_bound hplain (Forest.get?_of_binding? hgains.bound)
    · exact fun kind expression heq => absurd heq (hnode kind expression)
    · -- The name has a dot, and what a path begins with has none.
      have hkept : ∀ path inner, final.heap.forest.get? inner (Path.segments path).1 =
          middle.heap.forest.get? inner (Path.segments path).1 := by
        intro path inner
        apply hgains.kept
        intro heq
        exact Path.notMem_segments path (heq ▸ hdot)
      refine ⟨hgains.bound, hkept, fun hunbound => ?_⟩
      exact resolve_of_unbound ((hkept name scope).trans hunbound)

theorem declaration_reads_back_selfHolding :
    let state := ((ofFuel Host.standard 9).execute selfHolding ⟨0⟩).after (Run.root.after .initial)
    let declaring (node : Node) := (ofFuel Host.standard 9).execute [node] ⟨0⟩
    let reading (name : String) := (ofFuel Host.standard 1).evaluate (.identifier name) ⟨0⟩
    let function : Node := .function "挨拶" [] []
    let field : Node := .variableDeclaration .here "甲.己.値" (.literal (.text "新"))
    state.Sound ∧
    reading "挨拶" ((declaring function).after state) =
      .ok (.procedure ⟨0⟩) ((declaring function).after state) ∧
    reading "甲.己.値" ((declaring field).after state) =
      .ok (.text "新") ((declaring field).after state) := by
  intro state declaring reading function field
  have hstate : state.Sound := State.Reached.sound (.execute _ _ _ _ (.root .initial))
  have hscope : 0 < state.heap.forest.size := by decide +kernel
  refine ⟨hstate, ?_, ?_⟩
  · obtain ⟨flow, hgiven⟩ : ∃ flow, (declaring function).given? state = some flow :=
      Option.isSome_iff_exists.mp (by decide +kernel)
    obtain ⟨value, middle, hdeclares, hread⟩ := declaration_reads_back Host.standard 8
      (.function "挨拶" [] []) ⟨0⟩ hstate hscope rfl (eq_ok_of_given? hgiven)
    have hfirst : state.heap.procedures.size = 0 := by decide +kernel
    cases hdeclares
    rw [hfirst] at hread
    exact (hread 0).1 (by decide)
  · obtain ⟨flow, hgiven⟩ : ∃ flow, (declaring field).given? state = some flow :=
      Option.isSome_iff_exists.mp (by decide +kernel)
    obtain ⟨value, middle, hdeclares, hread⟩ := declaration_reads_back Host.standard 8
      (.variableDeclaration .here "甲.己.値" (.literal (.text "新"))) ⟨0⟩ hstate hscope rfl (eq_ok_of_given? hgiven)
    have havoid : ∀ access ∈ accesses "甲.己" ⟨0⟩ state, access.2 ≠ "値" := by decide +kernel
    cases hdeclares with
    | assigned hvalue =>
        cases hvalue
        exact (hread 0).2.1 _ _ rfl "甲.己" "値" (by decide) (by decide) fun _ _ hmem =>
          havoid _ hmem rfl

/-- A program that declares a function under a name with a dot. -/
def dottedFunction : List Node :=
  (Node.ofText "関数 甲.乙 () \x7b \x7d").toOption.elim [] Node.statements

/-- The function is bound under its name, but its name does not lead to it. -/
theorem dotted_function_not_read_back :
    let state := Run.root.after .initial
    let declaring := (ofFuel Host.standard 9).execute dottedFunction ⟨0⟩
    dottedFunction.map Node.declaredName? = [some "甲.乙"] ∧
    (declaring.given? state).isSome = true ∧
    (declaring.after state).heap.forest.binding? ⟨0⟩ "甲.乙" = some (.procedure ⟨0⟩) ∧
    ((ofFuel Host.standard 9).evaluate (.identifier "甲.乙") ⟨0⟩).given? (declaring.after state) =
      none := by
  decide +kernel

end Engine

end Wabun
