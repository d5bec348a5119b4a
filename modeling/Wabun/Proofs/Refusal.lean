import Wabun.Proofs.AnyOrder
import Wabun.Proofs.Loading
import Wabun.Proofs.Separation

/-!
Declarations that fail leave nothing behind. A class declaration looks for the parent and
sorts the whole body before it makes anything, so whatever is wrong with the class, and
wherever it stands, nothing was made when the fault is raised. Once nothing is wrong no step
can fail. An import binds names only after its module is loaded, so if the loading fails no
scope has more names than before, also where the module has imported others and called what
they export.
-/

namespace Wabun

open Run

/-- Whether a statement cannot be a member of the class: the static method of another class,
or something that is given back. -/
def Node.isMisfit (className : String) : Node → Bool
  | .staticMethod owner _ _ => owner != className
  | .giveBack _ => true
  | _ => false

/-- A name is that of a class, as seen from a scope. -/
def Forest.NamesClass (forest : Forest) (scope : ScopeRef) (name : String) : Prop :=
  ∃ ref, forest.get? scope name = some (.classObject ref)

/-- Something is wrong with a class that is declared in a scope: its parent is no class, or one
of the members is a misfit. -/
def Forest.RefusesClass (forest : Forest) (scope : ScopeRef) (name : String)
    (parent : Option String) (body : List Node) : Prop :=
  (∃ superclass ∈ parent, ¬ forest.NamesClass scope superclass) ∨
    ∃ member ∈ body, member.isMisfit name = true

namespace Run

variable {α β : Type}

/-- The part gives a result from every state. -/
def Succeeds (part : Run α) : Prop :=
  ∀ state, ∃ value final, part state = .ok value final

namespace Succeeds

theorem pure (value : α) : Succeeds (Pure.pure value : Run α) :=
  fun state => ⟨value, state, rfl⟩

theorem bind {part : Run α} {next : α → Run β} (hpart : Succeeds part)
    (hnext : ∀ value, Succeeds (next value)) : Succeeds (part >>= next) := by
  intro state
  obtain ⟨value, middle, hrun⟩ := hpart state
  rw [bind_of_ok hrun]
  exact hnext value middle

theorem make (build : Heap → α × Heap) : Succeeds (Run.make build) :=
  fun _ => ⟨_, _, rfl⟩

theorem define (scope : ScopeRef) (name : String) (value : Value) :
    Succeeds (Run.define scope name value) :=
  fun _ => ⟨_, _, rfl⟩

theorem attachStatic (classRef : ClassRef) (name : String) (body : List Node)
    (scope : ScopeRef) : Succeeds (Engine.attachStatic classRef name body scope) :=
  fun _ => ⟨_, _, rfl⟩

theorem mapM {items : List α} {action : α → Run β} (h : ∀ item, Succeeds (action item)) :
    Succeeds (items.mapM action) := by
  induction items with
  | nil => exact pure []
  | cons item rest ih =>
      rw [List.mapM_cons]
      exact bind (h item) fun _ => bind ih fun _ => pure _

theorem forM {items : List α} {action : α → Run PUnit} (h : ∀ item, Succeeds (action item)) :
    Succeeds (items.forM action) := by
  induction items with
  | nil => exact pure PUnit.unit
  | cons item rest ih => exact bind (h item) fun _ => ih

end Succeeds

/-- A part that raises a fault at once where something is refused, and else gives a result,
fails just where it is refused, and then everything is as it was. -/
theorem fails_iff_of_refuses {part : Run α} {state : State} {refused : Prop}
    (hrefused : refused → ∃ fault, part state = raise fault state)
    (hgiven : ¬ refused → ∃ value final, part state = .ok value final) :
    ((∃ halt final, part state = .error halt final) ↔ refused) ∧
    ∀ halt final, part state = .error halt final → final.Matches state := by
  by_cases h : refused
  · obtain ⟨fault, hrun⟩ := hrefused h
    refine ⟨⟨fun _ => h, fun _ => ⟨_, _, hrun⟩⟩, fun halt final herror => ?_⟩
    cases hrun.symm.trans herror
    exact ⟨rfl, rfl, rfl, rfl, (State.shown_tell _ _).trans (List.append_nil _)⟩
  · obtain ⟨value, given, hrun⟩ := hgiven h
    have hnever : ∀ halt final, part state ≠ .error halt final := by
      intro halt final herror
      cases hrun.symm.trans herror
    refine ⟨⟨fun ⟨halt, final, herror⟩ => absurd herror (hnever halt final),
      fun hrefused => absurd hrefused h⟩, fun halt final herror => ?_⟩
    exact absurd herror (hnever halt final)

section Classes

variable {name : String} {parent : Option String} {scope : ScopeRef} {state : State}

theorem findClass_of_namesClass (h : state.heap.forest.NamesClass scope name) :
    ∃ ref, findClass name scope state = .ok ref state := by
  obtain ⟨ref, hbound⟩ := h
  have hask : ask (fun heap => heap.forest.get? scope name) state =
    .ok (state.heap.forest.get? scope name) state := rfl
  rw [findClass, bind_of_ok hask, hbound]
  exact ⟨ref, rfl⟩

theorem findClass_of_not_namesClass (h : ¬ state.heap.forest.NamesClass scope name) :
    findClass name scope state = raise (.unknownClass name) state := by
  have hask : ask (fun heap => heap.forest.get? scope name) state =
    .ok (state.heap.forest.get? scope name) state := rfl
  rw [findClass, bind_of_ok hask]
  cases hfound : state.heap.forest.get? scope name with
  | none => rfl
  | some value =>
      cases value with
      | classObject ref => exact absurd ⟨ref, hfound⟩ h
      | _ => rfl

/-- To look for the parent of a class changes nothing if it is found. -/
theorem findParent_of_namesClass
    (h : ∀ superclass ∈ parent, state.heap.forest.NamesClass scope superclass) :
    ∃ found, (parent.mapM fun parent => findClass parent scope) state = .ok found state := by
  cases parent with
  | none => exact ⟨none, rfl⟩
  | some superclass =>
      obtain ⟨ref, hfind⟩ := findClass_of_namesClass (h superclass rfl)
      exact ⟨some ref, bind_of_ok hfind⟩

end Classes

end Run

namespace Engine

section Sorting

variable {className : String} {body : List Node}

/-- A class body without misfits can be sorted. -/
theorem ClassBody.exists_of_no_misfit
    (h : ∀ member ∈ body, member.isMisfit className = false) :
    ∃ sorted, ClassBody.of className body = .ok sorted := by
  fun_induction ClassBody.of className body with
  | case1 => exact ⟨_, rfl⟩
  | case2 rest name params methodBody ih =>
      obtain ⟨sorted, hsorted⟩ := ih fun member hmem => h member (List.mem_cons_of_mem _ hmem)
      exact ⟨_, by rw [hsorted]; rfl⟩
  | case3 rest owner name methodBody howner =>
      have hfits := h _ List.mem_cons_self
      exact absurd (bne_eq_false_iff_eq.mp hfits) howner
  | case4 rest owner name methodBody howner ih =>
      obtain ⟨sorted, hsorted⟩ := ih fun member hmem => h member (List.mem_cons_of_mem _ hmem)
      exact ⟨_, by rw [hsorted]; rfl⟩
  | case5 => exact absurd (h _ List.mem_cons_self).symm Bool.false_ne_true
  | case6 rest other _ _ _ ih =>
      obtain ⟨sorted, hsorted⟩ := ih fun member hmem => h member (List.mem_cons_of_mem _ hmem)
      exact ⟨_, by rw [hsorted]; rfl⟩

/-- A misfit is found wherever it stands in the class body. -/
theorem ClassBody.error_of_misfit {member : Node} (hmem : member ∈ body)
    (h : member.isMisfit className = true) :
    ∃ cause, ClassBody.of className body = .error cause := by
  fun_induction ClassBody.of className body with
  | case1 => cases hmem
  | case2 rest name params methodBody ih =>
      rcases List.mem_cons.mp hmem with rfl | hlater
      · cases h
      · obtain ⟨cause, hcause⟩ := ih hlater
        exact ⟨cause, by rw [hcause]; rfl⟩
  | case3 => exact ⟨_, rfl⟩
  | case4 rest owner name methodBody howner ih =>
      rcases List.mem_cons.mp hmem with rfl | hlater
      · exact absurd (bne_iff_ne.mp h) howner
      · obtain ⟨cause, hcause⟩ := ih hlater
        exact ⟨cause, by rw [hcause]; rfl⟩
  | case5 => exact ⟨_, rfl⟩
  | case6 rest other _ hstatic hgiveBack ih =>
      rcases List.mem_cons.mp hmem with rfl | hlater
      · cases member with
        | staticMethod owner name methodBody => exact absurd rfl (hstatic owner name methodBody)
        | giveBack value => exact absurd rfl (hgiveBack value)
        | _ => cases h
      · obtain ⟨cause, hcause⟩ := ih hlater
        exact ⟨cause, by rw [hcause]; rfl⟩

end Sorting

section Declarations

variable {name : String} {parent : Option String} {body : List Node} {scope : ScopeRef}
  {state : State}

theorem declareClass_of_refused (h : state.heap.forest.RefusesClass scope name parent body) :
    ∃ fault, declareClass name parent body scope state = raise fault state := by
  -- The parent is looked for first, so a misfit is found only if that has succeeded.
  by_cases hparent : ∀ superclass ∈ parent, state.heap.forest.NamesClass scope superclass
  · obtain ⟨found, hfound⟩ := findParent_of_namesClass hparent
    have hmisfit := h.resolve_left fun ⟨superclass, hmem, hunknown⟩ =>
      hunknown (hparent superclass hmem)
    obtain ⟨member, hmem, hmisfit⟩ := hmisfit
    obtain ⟨cause, hcause⟩ := ClassBody.error_of_misfit hmem hmisfit
    rw [declareClass, bind_of_ok hfound, hcause]
    exact ⟨_, rfl⟩
  · cases parent with
    | none => exact absurd (fun _ hmem => absurd hmem (Option.not_mem_none _)) hparent
    | some superclass =>
        have hunknown : ¬ state.heap.forest.NamesClass scope superclass := by
          intro hnames
          refine hparent fun other hmem => ?_
          obtain rfl := Option.mem_some_iff.mp hmem
          exact hnames
        refine ⟨.unknownClass superclass, ?_⟩
        exact bind_of_error (bind_of_error (findClass_of_not_namesClass hunknown))

/-- Once the parent is found and the body is sorted, no step can fail. -/
theorem declareClass_of_not_refused
    (h : ¬ state.heap.forest.RefusesClass scope name parent body) :
    ∃ value final, declareClass name parent body scope state = .ok value final := by
  have hparent : ∀ superclass ∈ parent, state.heap.forest.NamesClass scope superclass :=
    fun superclass hmem => Classical.byContradiction fun hunknown =>
      h (.inl ⟨superclass, hmem, hunknown⟩)
  have hfits : ∀ member ∈ body, member.isMisfit name = false :=
    fun member hmem => Bool.eq_false_iff.mpr fun hmisfit => h (.inr ⟨member, hmem, hmisfit⟩)
  obtain ⟨found, hfound⟩ := findParent_of_namesClass hparent
  obtain ⟨sorted, hsorted⟩ := ClassBody.exists_of_no_misfit hfits
  rw [declareClass, bind_of_ok hfound, hsorted]
  refine Succeeds.bind (.mapM fun _ => .bind (.make _) fun _ => .pure _) (fun methods => ?_) state
  refine .bind (.make _) fun classRef => ?_
  exact .bind (.forM fun _ => .attachStatic classRef _ _ scope) fun _ => .define scope name _

/-- Once a module is loaded, its bindings can be made. So an import fails only if the loading
does. -/
theorem loadModule_of_import_error {engine : Engine} {host : Host} {fuel : Nat} {halt : Halt}
    {final : State}
    (h : engine.statement host fuel (.importing name) scope state = .error halt final) :
    engine.loadModule host name state = .error halt final := by
  cases hload : engine.loadModule host name state with
  | error cause middle =>
      rw [statement, bind_of_error hload] at h
      cases h
      rfl
  | ok bindings middle =>
      rw [statement, bind_of_ok hload] at h
      have hgiven : Succeeds (defineAll scope (host.listing.list bindings) >>= fun _ =>
          pure Flow.normal) :=
        .bind (.forM fun _ => .define scope _ _) fun _ => .pure _
      obtain ⟨flow, given, hrun⟩ := hgiven middle
      cases hrun.symm.trans h

end Declarations

/-- A class declaration fails just if its parent is no class or a member is the static method
of another class or gives something back, and a static method on its own just if its class is
none. Then all scopes with their exported names, the classes with their static methods, the
instances, the modules and the output are what they were. If an import fails, the module is
not loaded, and every scope that existed before has the same names, exported or not, with the
same values, other than where a procedure that was called from within assigned to one. A scope
that the loaded modules do not lead to is the same altogether. -/
theorem failed_declarations_leave_nothing (host : Host) (fuel : Nat) (scope : ScopeRef)
    (state : State) :
    let run := fun node => (ofFuel host (fuel + 1)).execute [node] scope state
    let forest := state.heap.forest
    (∀ name parent body,
      ((∃ halt final, run (.classDeclaration name parent body) = .error halt final) ↔
        forest.RefusesClass scope name parent body) ∧
      ∀ halt final, run (.classDeclaration name parent body) = .error halt final →
        final.Matches state) ∧
    (∀ className name body,
      ((∃ halt final, run (.staticMethod className name body) = .error halt final) ↔
        ¬ forest.NamesClass scope className) ∧
      ∀ halt final, run (.staticMethod className name body) = .error halt final →
        final.Matches state) ∧
    ∀ moduleName halt final, run (.importing moduleName) = .error halt final →
      final.modules.get? moduleName = none ∧
      ∀ ref : ScopeRef, ref.index < forest.size →
        (∀ name, (final.heap.forest.binding? ref name).isSome = (forest.binding? ref name).isSome ∧
          final.heap.forest.isExported ref name = forest.isExported ref name ∧
          (final.heap.forest.binding? ref name = forest.binding? ref name ∨
            state.AssignsTo final ref name)) ∧
        (¬ state.Reaches (.scope ref) → final.heap.forest.scope ref = forest.scope ref) := by
  intro run forest
  have hrun (node : Node) : run node = (ofFuel host fuel).statement host fuel node scope state :=
    execute_singleton host fuel node scope state
  refine ⟨fun name parent body => ?_, fun className name body => ?_,
    fun moduleName halt final herror => ?_⟩
  · simp only [hrun]
    refine fails_iff_of_refuses (fun hrefused => ?_) fun hgiven => ?_
    · obtain ⟨fault, hraised⟩ := declareClass_of_refused hrefused
      exact ⟨fault, bind_of_error hraised⟩
    · obtain ⟨_, final, hdeclared⟩ := declareClass_of_not_refused hgiven
      exact ⟨.normal, final, bind_of_ok hdeclared⟩
  · simp only [hrun]
    refine fails_iff_of_refuses (fun hunknown => ?_) fun hnames => ?_
    · exact ⟨.unknownClass className, bind_of_error (findClass_of_not_namesClass hunknown)⟩
    · obtain ⟨ref, hfound⟩ := findClass_of_namesClass (Classical.not_not.mp hnames)
      exact ⟨.normal, _, bind_of_ok hfound⟩
  · -- What the loading did is all that was done: no name of the module was bound yet.
    have hload := loadModule_of_import_error ((hrun _).symm.trans herror)
    have hframe : State.Frame .nothing state
        (((ofFuel host fuel).loadModule host moduleName).after state) :=
      frame_loadModule (.ofFuel _ host fuel) moduleName state
    have hconfines : state.confinement.Obeys () state.MayHoldAll
        ((ofFuel host fuel).loadModule host moduleName) state :=
      (Discipline.Governs.ofFuel state.confinement host fuel).loadModule moduleName
    obtain ⟨hconfined, _⟩ := hconfines.after (.refl state)
    rw [after_of_error hload] at hframe hconfined
    refine ⟨not_loaded_of_error (loadsInOrder_ofFuel host fuel) hload, fun ref hexists => ?_⟩
    refine ⟨fun name => ⟨?_, ?_, ?_⟩, hconfined.agrees (.scope ref) hexists⟩
    · exact hframe.scopes.isSome_eq hexists id
    · exact hframe.scopes.isExported_eq hexists id
    · exact hframe.scopes.binding?_eq_or_assignsTo hexists id

end Engine

end Wabun
