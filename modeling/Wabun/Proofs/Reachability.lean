import Wabun.Proofs.Bisimulation
import Wabun.Run.State

/-!
Which objects lead to which. A scope leads to its parent and to what it binds, a
procedure to the scope it was declared in, a class to its scope, its parent, its
methods and its static methods, an instance to what its fields hold and to the
methods that its class has for it. A set of objects that is closed under these
links is all that can be come by from inside of it. Every change of the heap
concerns one object, so the links of all others stay, but for the methods that an
instance finds in a class that is new.
-/

namespace Wabun

/-- What can be changed or leads on to something else. An enumeration is
neither. -/
inductive Object where
  | scope (ref : ScopeRef)
  | procedure (ref : ProcedureRef)
  | classObject (ref : ClassRef)
  | instanceObject (ref : InstanceRef)

def Value.object? : Value → Option Object
  | .procedure ref => some (.procedure ref)
  | .classObject ref => some (.classObject ref)
  | .instanceObject ref => some (.instanceObject ref)
  | _ => none

namespace Table

variable {α : Type}

theorem mem_entries_ofList {bindings : List (String × α)} {entry : String × α}
    (h : entry ∈ (ofList bindings).entries) : entry ∈ bindings := by
  have hfold : ∀ (rest : List (String × α)) (table : Table α),
      entry ∈ (rest.foldl (fun table binding => table.insert binding.1 binding.2) table).entries →
        entry ∈ table.entries ∨ entry ∈ rest := by
    intro rest
    induction rest with
    | nil => exact fun _ hmem => .inl hmem
    | cons first rest ih =>
        intro table hmem
        rcases ih _ hmem with hmem | hmem
        · rcases mem_insertEntry hmem with heq | hmem
          · exact .inr (heq ▸ List.mem_cons_self)
          · exact .inl hmem
        · exact .inr (List.mem_cons_of_mem first hmem)
  rcases hfold bindings empty h with hmem | hmem
  · cases hmem
  · exact hmem

end Table

namespace Heap

variable {heap before after : Heap} {object other target : Object}

/-- The object was made. -/
def Has (heap : Heap) : Object → Prop
  | .scope ref => ref.index < heap.forest.size
  | .procedure ref => ref.index < heap.procedures.size
  | .classObject ref => ref.index < heap.classes.size
  | .instanceObject ref => ref.index < heap.instances.size

/-- From an object one can come by another. An instance leads to the methods that
are found for it, but not to its class. -/
inductive Links (heap : Heap) : Object → Object → Prop
  | parent {scope parent : ScopeRef} (h : (heap.forest.scope scope).parent = some parent) :
    Links heap (.scope scope) (.scope parent)
  | binding {scope : ScopeRef} {entry : String × Value} {object : Object}
    (hentry : entry ∈ (heap.forest.scope scope).vars.entries)
    (hobject : object ∈ entry.2.object?) : Links heap (.scope scope) object
  | closure (ref : ProcedureRef) :
    Links heap (.procedure ref) (.scope (heap.procedure ref).closure)
  | environment (ref : ClassRef) :
    Links heap (.classObject ref) (.scope (heap.classInfo ref).scope)
  | superclass {ref parent : ClassRef} (h : (heap.classInfo ref).parent = some parent) :
    Links heap (.classObject ref) (.classObject parent)
  | method {ref : ClassRef} {entry : String × ProcedureRef}
    (h : entry ∈ (heap.classInfo ref).methods.entries) :
    Links heap (.classObject ref) (.procedure entry.2)
  | static {ref : ClassRef} {entry : String × ProcedureRef}
    (h : entry ∈ (heap.classInfo ref).statics.entries) :
    Links heap (.classObject ref) (.procedure entry.2)
  | field {ref : InstanceRef} {entry : String × Value} {object : Object}
    (hentry : entry ∈ (heap.instanceInfo ref).fields.entries)
    (hobject : object ∈ entry.2.object?) : Links heap (.instanceObject ref) object
  | ownMethod {ref : InstanceRef} {name : String} {method : ProcedureRef}
    (h : heap.findMethod? (heap.instanceInfo ref).classRef name = some method) :
    Links heap (.instanceObject ref) (.procedure method)

/-- No link leads out of a set of objects. -/
def Closed (heap : Heap) (within : Object → Prop) : Prop :=
  ∀ ⦃object other⦄, within object → heap.Links object other → within other

/-! ### Walking along parents -/

theorem mem_chain {forest : Forest} {within : ScopeRef → Prop}
    (hparent : ∀ ref parent, within ref → (forest.scope ref).parent = some parent →
      within parent)
    (ref : ScopeRef) (h : within ref) : ∀ member ∈ forest.chain ref, within member := by
  fun_induction Forest.chain forest ref with
  | case1 ref ih =>
      intro member hmem
      rcases List.mem_cons.mp hmem with rfl | hmem
      · exact h
      · split at hmem
        · next parent hfound =>
            split at hmem
            · next hlt => exact ih parent hlt (hparent ref parent h hfound) member hmem
            · cases hmem
        · cases hmem

theorem mem_ancestry {within : ClassRef → Prop}
    (hparent : ∀ ref parent, within ref → (heap.classInfo ref).parent = some parent →
      within parent)
    (ref : ClassRef) (h : within ref) : ∀ member ∈ heap.ancestry ref, within member := by
  fun_induction ancestry heap ref with
  | case1 ref ih =>
      intro member hmem
      rcases List.mem_cons.mp hmem with rfl | hmem
      · exact h
      · split at hmem
        · next parent hfound =>
            split at hmem
            · next hlt => exact ih parent hlt (hparent ref parent h hfound) member hmem
            · cases hmem
        · cases hmem

theorem Links.of_findMethod? {ref : ClassRef} {name : String} {method : ProcedureRef}
    (h : heap.findMethod? ref name = some method) :
    ∃ member ∈ heap.ancestry ref, heap.Links (.classObject member) (.procedure method) := by
  obtain ⟨member, hmem, hmethod⟩ := List.exists_of_findSome?_eq_some h
  exact ⟨member, hmem, .method (Table.mem_entries_of_get? hmethod)⟩

namespace Closed

variable {within : Object → Prop}

theorem chain (h : heap.Closed within) {ref : ScopeRef} (hscope : within (.scope ref)) :
    ∀ member ∈ heap.forest.chain ref, within (.scope member) :=
  mem_chain (fun _ _ hscope hparent => h hscope (.parent hparent)) ref hscope

theorem get? (h : heap.Closed within) {ref : ScopeRef} (hscope : within (.scope ref))
    {name : String} {value : Value} (hfound : heap.forest.get? ref name = some value) :
    ∀ object ∈ value.object?, within object := by
  obtain ⟨member, hmem, hbinding⟩ := List.exists_of_findSome?_eq_some hfound
  intro object hobject
  exact h (h.chain hscope member hmem) (.binding (Table.mem_entries_of_get? hbinding) hobject)

/-- The scope that an assignment writes to is on the chain. -/
theorem owner (h : heap.Closed within) {ref : ScopeRef} (hscope : within (.scope ref))
    (name : String) : within (.scope ((heap.forest.owner? ref name).getD ref)) := by
  have hsublist : ∀ refs, ∀ member ∈ heap.forest.upToSealed refs, member ∈ refs := by
    intro refs
    fun_induction Forest.upToSealed heap.forest refs with
    | case1 => exact fun _ hmem => hmem
    | case2 ref rest hsealed =>
        intro member hmem
        exact List.mem_cons.mpr (.inl (List.mem_singleton.mp hmem))
    | case3 ref rest hsealed ih =>
        intro member hmem
        rcases List.mem_cons.mp hmem with rfl | hmem
        · exact List.mem_cons_self
        · exact List.mem_cons_of_mem _ (ih member hmem)
  cases howner : heap.forest.owner? ref name with
  | none => exact hscope
  | some owner =>
      have hmem := List.mem_of_find?_eq_some howner
      exact h.chain hscope owner (hsublist _ owner hmem)

theorem ancestry (h : heap.Closed within) {ref : ClassRef} (hclass : within (.classObject ref)) :
    ∀ member ∈ heap.ancestry ref, within (.classObject member) :=
  mem_ancestry (fun _ _ hclass hparent => h hclass (.superclass hparent)) ref hclass

theorem findMethod? (h : heap.Closed within) {ref : ClassRef}
    (hclass : within (.classObject ref)) {name : String} {method : ProcedureRef}
    (hfound : heap.findMethod? ref name = some method) : within (.procedure method) := by
  obtain ⟨member, hmem, hmethod⟩ := Links.of_findMethod? hfound
  exact h (h.ancestry hclass member hmem) hmethod

theorem findStatic? (h : heap.Closed within) {ref : ClassRef}
    (hclass : within (.classObject ref)) {name : String} {method : ProcedureRef}
    (hfound : heap.findStatic? ref name = some method) : within (.procedure method) := by
  obtain ⟨member, hmem, hstatic⟩ := List.exists_of_findSome?_eq_some hfound
  exact h (h.ancestry hclass member hmem) (.static (Table.mem_entries_of_get? hstatic))

end Closed

/-! ### Changes of one object -/

/-- Whatever was made is still there. -/
def Grows (before after : Heap) : Prop :=
  ∀ object, before.Has object → after.Has object

/-- The object is in both heaps the same, with all that it holds. -/
def Agrees (before after : Heap) : Object → Prop
  | .scope ref => after.forest.scope ref = before.forest.scope ref
  | .procedure ref => after.procedure ref = before.procedure ref
  | .classObject ref => after.classInfo ref = before.classInfo ref
  | .instanceObject ref => after.instanceInfo ref = before.instanceInfo ref

/-- At most one object was changed or made. -/
structure ChangesAt (target : Object) (before after : Heap) : Prop where
  grows : before.Grows after
  has_cases : ∀ object, after.Has object → before.Has object ∨ object = target
  agrees : ∀ object, object ≠ target → before.Agrees after object

theorem Grows.refl (heap : Heap) : heap.Grows heap := fun _ hhas => hhas

theorem Grows.trans {middle : Heap} (h : before.Grows middle) (h' : middle.Grows after) :
    before.Grows after :=
  fun object hhas => h' object (h object hhas)

theorem Agrees.trans {middle : Heap} (h : before.Agrees middle object)
    (h' : middle.Agrees after object) : before.Agrees after object := by
  cases object with
  | scope | procedure | classObject | instanceObject => exact Eq.trans h' h

/-- An object that stays as it is keeps its links, but for the methods of an
instance: those are looked up in classes. -/
theorem Links.of_agrees (hagrees : before.Agrees after object) (h : after.Links object other) :
    before.Links object other ∨
    ∃ ref name method, object = .instanceObject ref ∧ other = .procedure method ∧
      after.findMethod? (before.instanceInfo ref).classRef name = some method := by
  cases h with
  | parent h => exact .inl (.parent (hagrees ▸ h))
  | binding hentry hobject => exact .inl (.binding (hagrees ▸ hentry) hobject)
  | closure ref =>
      rw [show after.procedure ref = before.procedure ref from hagrees]
      exact .inl (.closure ref)
  | environment ref =>
      rw [show after.classInfo ref = before.classInfo ref from hagrees]
      exact .inl (.environment ref)
  | superclass h => exact .inl (.superclass (hagrees ▸ h))
  | method h => exact .inl (.method (hagrees ▸ h))
  | static h => exact .inl (.static (hagrees ▸ h))
  | field hentry hobject => exact .inl (.field (hagrees ▸ hentry) hobject)
  | @ownMethod ref name method h => exact .inr ⟨ref, name, method, rfl, rfl, hagrees ▸ h⟩

namespace ChangesAt

/-- A method is found where it was found before, unless the class that changed is
on the way to it. -/
theorem findMethod?_cases (hchange : ChangesAt target before after) {ref : ClassRef}
    {name : String} {method : ProcedureRef} (h : after.findMethod? ref name = some method) :
    before.findMethod? ref name = some method ∨
    ∃ changed, target = .classObject changed ∧ after.findMethod? changed name = some method := by
  fun_induction ancestry after ref with
  | case1 ref ih =>
      by_cases htarget : target = .classObject ref
      · exact .inr ⟨ref, htarget, h⟩
      · have hinfo : after.classInfo ref = before.classInfo ref :=
          hchange.agrees (.classObject ref) (Ne.symm htarget)
        unfold findMethod? at h ⊢
        rw [ancestry, List.findSome?_cons] at h ⊢
        rw [← hinfo]
        cases hmethod : (after.classInfo ref).methods.get? name with
        | some found =>
            rw [hmethod] at h
            exact .inl h
        | none =>
            rw [hmethod] at h
            cases hparent : (after.classInfo ref).parent with
            | none =>
                rw [hparent] at h
                cases h
            | some parent =>
                rw [hparent] at h
                by_cases hlt : parent.index < ref.index
                · simp only [if_pos hlt] at h ⊢
                  exact ih parent hlt h
                · simp only [if_neg hlt] at h
                  cases h

/-- A set of objects stays closed when the one that changed is brought into it
together with all that it leads to. -/
theorem closed {within reach : Object → Prop} (hchange : ChangesAt target before after)
    (hclosed : before.Closed within) (hkept : ∀ object, within object → reach object)
    (hold : ∀ object, reach object → object ≠ target → within object) (htarget : reach target)
    (hlinks : ∀ object, after.Links target object → reach object) : after.Closed reach := by
  -- Classes come first: what an instance finds in a changed class lies behind links of classes.
  have hclasses : ∀ ref other, reach (.classObject ref) → after.Links (.classObject ref) other →
      reach other := by
    intro ref other hclass hlink
    by_cases heq : .classObject ref = target
    · exact hlinks other (heq ▸ hlink)
    · rcases Links.of_agrees (hchange.agrees _ heq) hlink with hlink | ⟨_, _, _, hinstance, _⟩
      · exact hkept other (hclosed (hold _ hclass heq) hlink)
      · cases hinstance
  intro object other hobject hlink
  by_cases heq : object = target
  · exact hlinks other (heq ▸ hlink)
  · have hwithin := hold object hobject heq
    rcases Links.of_agrees (hchange.agrees object heq) hlink with
      hlink | ⟨ref, name, method, rfl, rfl, hfound⟩
    · exact hkept other (hclosed hwithin hlink)
    · rcases hchange.findMethod?_cases hfound with hfound | ⟨changed, rfl, hfound⟩
      · exact hkept _ (hclosed hwithin (.ownMethod hfound))
      · obtain ⟨member, hmem, hmethod⟩ := Links.of_findMethod? hfound
        have hmember := mem_ancestry
          (fun ref parent hclass hparent => hclasses ref _ hclass (.superclass hparent))
          changed htarget member hmem
        exact hclasses member _ hmember hmethod

end ChangesAt

/-! ### The changes that a run makes -/

/-- At most one item of a table of objects was changed or added. -/
structure Alters {α : Type} (index : Nat) (items items' : Array α) : Prop where
  size_le : items.size ≤ items'.size
  lt_cases : ∀ other, other < items'.size → other < items.size ∨ other = index
  getD_eq : ∀ other default, other ≠ index → items'.getD other default = items.getD other default

namespace Alters

variable {α : Type} (items : Array α)

theorem push (item : α) : Alters items.size items (items.push item) where
  size_le := by simp
  lt_cases other h := by
    rw [Array.size_push] at h
    omega
  getD_eq other default h := by
    simp only [Array.getD_eq_getD_getElem?, Array.getElem?_push, if_neg h]

theorem modify (index : Nat) (change : α → α) : Alters index items (items.modify index change) where
  size_le := by simp
  lt_cases other h := .inl (by simpa using h)
  getD_eq other default h := by
    simp only [Array.getD_eq_getD_getElem?, Array.getElem?_modify, if_neg (Ne.symm h)]

end Alters

theorem getD_push_size {α : Type} {items : Array α} (item default : α) :
    (items.push item).getD items.size default = item := by
  rw [Array.getD_eq_getD_getElem?, Array.getElem?_push_size, Option.getD_some]

/-- A change of an item that is not there changes nothing. -/
theorem getD_modify_cases {α : Type} {items : Array α} (index : Nat) (change : α → α)
    (default : α) :
    (items.modify index change).getD index default = items.getD index default ∨
    (items.modify index change).getD index default = change (items.getD index default) := by
  rw [Array.getD_eq_getD_getElem?, Array.getD_eq_getD_getElem?, Array.getElem?_modify, if_pos rfl]
  cases items[index]? with
  | none => exact .inl rfl
  | some item => exact .inr rfl

namespace ChangesAt

variable (heap : Heap)

theorem scopes {ref : ScopeRef} {items : Array Scope}
    (h : Alters ref.index heap.forest.scopes items) :
    ChangesAt (.scope ref) heap { heap with forest := ⟨items⟩ } := by
  refine ⟨fun object hhas => ?_, fun object hhas => ?_, fun object hne => ?_⟩
  · cases object with
    | scope other => exact Nat.lt_of_lt_of_le hhas h.size_le
    | procedure | classObject | instanceObject => exact hhas
  · cases object with
    | scope other =>
        rcases h.lt_cases other.index hhas with hlt | hindex
        · exact .inl hlt
        · exact .inr (congrArg (Object.scope ⟨·⟩) hindex)
    | procedure | classObject | instanceObject => exact .inl hhas
  · cases object with
    | scope other =>
        exact h.getD_eq _ _ fun hindex => hne (congrArg (Object.scope ⟨·⟩) hindex)
    | procedure | classObject | instanceObject => rfl

theorem procedures {ref : ProcedureRef} {items : Array Procedure}
    (h : Alters ref.index heap.procedures items) :
    ChangesAt (.procedure ref) heap { heap with procedures := items } := by
  refine ⟨fun object hhas => ?_, fun object hhas => ?_, fun object hne => ?_⟩
  · cases object with
    | procedure other => exact Nat.lt_of_lt_of_le hhas h.size_le
    | scope | classObject | instanceObject => exact hhas
  · cases object with
    | procedure other =>
        rcases h.lt_cases other.index hhas with hlt | hindex
        · exact .inl hlt
        · exact .inr (congrArg (Object.procedure ⟨·⟩) hindex)
    | scope | classObject | instanceObject => exact .inl hhas
  · cases object with
    | procedure other =>
        exact h.getD_eq _ _ fun hindex => hne (congrArg (Object.procedure ⟨·⟩) hindex)
    | scope | classObject | instanceObject => rfl

theorem classes {ref : ClassRef} {items : Array ClassInfo}
    (h : Alters ref.index heap.classes items) :
    ChangesAt (.classObject ref) heap { heap with classes := items } := by
  refine ⟨fun object hhas => ?_, fun object hhas => ?_, fun object hne => ?_⟩
  · cases object with
    | classObject other => exact Nat.lt_of_lt_of_le hhas h.size_le
    | scope | procedure | instanceObject => exact hhas
  · cases object with
    | classObject other =>
        rcases h.lt_cases other.index hhas with hlt | hindex
        · exact .inl hlt
        · exact .inr (congrArg (Object.classObject ⟨·⟩) hindex)
    | scope | procedure | instanceObject => exact .inl hhas
  · cases object with
    | classObject other =>
        exact h.getD_eq _ _ fun hindex => hne (congrArg (Object.classObject ⟨·⟩) hindex)
    | scope | procedure | instanceObject => rfl

theorem instances {ref : InstanceRef} {items : Array Instance}
    (h : Alters ref.index heap.instances items) :
    ChangesAt (.instanceObject ref) heap { heap with instances := items } := by
  refine ⟨fun object hhas => ?_, fun object hhas => ?_, fun object hne => ?_⟩
  · cases object with
    | instanceObject other => exact Nat.lt_of_lt_of_le hhas h.size_le
    | scope | procedure | classObject => exact hhas
  · cases object with
    | instanceObject other =>
        rcases h.lt_cases other.index hhas with hlt | hindex
        · exact .inl hlt
        · exact .inr (congrArg (Object.instanceObject ⟨·⟩) hindex)
    | scope | procedure | classObject => exact .inl hhas
  · cases object with
    | instanceObject other =>
        exact h.getD_eq _ _ fun hindex => hne (congrArg (Object.instanceObject ⟨·⟩) hindex)
    | scope | procedure | classObject => rfl

theorem addScope (scope : Scope) :
    ChangesAt (.scope ⟨heap.forest.size⟩) heap (heap.addScope scope).2 :=
  scopes heap (.push heap.forest.scopes scope)

theorem addProcedure (procedure : Procedure) :
    ChangesAt (.procedure ⟨heap.procedures.size⟩) heap (heap.addProcedure procedure).2 :=
  procedures heap (.push heap.procedures procedure)

theorem addClass (info : ClassInfo) :
    ChangesAt (.classObject ⟨heap.classes.size⟩) heap (heap.addClass info).2 :=
  classes heap (.push heap.classes info)

theorem addInstance (info : Instance) :
    ChangesAt (.instanceObject ⟨heap.instances.size⟩) heap (heap.addInstance info).2 :=
  instances heap (.push heap.instances info)

/-- A new enumeration is no change of an object, so any one can be named. -/
theorem addEnum (info : EnumInfo) (target : Object) :
    ChangesAt target heap (heap.addEnum info).2 := by
  refine ⟨fun object hhas => ?_, fun object hhas => .inl ?_, fun object _ => ?_⟩
  · cases object with
    | scope | procedure | classObject | instanceObject => exact hhas
  · cases object with
    | scope | procedure | classObject | instanceObject => exact hhas
  · cases object with
    | scope | procedure | classObject | instanceObject => rfl

theorem modifyScope (ref : ScopeRef) (change : Scope → Scope) :
    ChangesAt (.scope ref) heap { heap with forest := heap.forest.modify ref change } :=
  scopes heap (.modify heap.forest.scopes ref.index change)

theorem setField (ref : InstanceRef) (name : String) (value : Value) :
    ChangesAt (.instanceObject ref) heap (heap.setField ref name value) :=
  instances heap (.modify heap.instances ref.index _)

theorem setStatic (ref : ClassRef) (name : String) (method : ProcedureRef) :
    ChangesAt (.classObject ref) heap (heap.setStatic ref name method) :=
  classes heap (.modify heap.classes ref.index _)

end ChangesAt

/-! ### What the changed object leads to -/

namespace Links

theorem of_addScope {scope : Scope}
    (h : (heap.addScope scope).2.Links (.scope ⟨heap.forest.size⟩) object) :
    (∃ parent ∈ scope.parent, object = .scope parent) ∨
    ∃ entry ∈ scope.vars.entries, object ∈ entry.2.object? := by
  have hscope : (heap.addScope scope).2.forest.scope ⟨heap.forest.size⟩ = scope :=
    getD_push_size scope .root
  cases h with
  | parent h => exact .inl ⟨_, hscope ▸ h, rfl⟩
  | binding hentry hobject => exact .inr ⟨_, hscope ▸ hentry, hobject⟩

theorem of_addProcedure {procedure : Procedure}
    (h : (heap.addProcedure procedure).2.Links (.procedure ⟨heap.procedures.size⟩) object) :
    object = .scope procedure.closure := by
  have hprocedure : (heap.addProcedure procedure).2.procedure ⟨heap.procedures.size⟩ = procedure :=
    getD_push_size procedure _
  cases h with
  | closure => rw [hprocedure]

theorem of_addClass {info : ClassInfo}
    (h : (heap.addClass info).2.Links (.classObject ⟨heap.classes.size⟩) object) :
    object = .scope info.scope ∨ (∃ parent ∈ info.parent, object = .classObject parent) ∨
    (∃ entry ∈ info.methods.entries, object = .procedure entry.2) ∨
    ∃ entry ∈ info.statics.entries, object = .procedure entry.2 := by
  have hinfo : (heap.addClass info).2.classInfo ⟨heap.classes.size⟩ = info :=
    getD_push_size info _
  cases h with
  | environment => exact .inl (by rw [hinfo])
  | superclass h => exact .inr (.inl ⟨_, hinfo ▸ h, rfl⟩)
  | method h => exact .inr (.inr (.inl ⟨_, hinfo ▸ h, rfl⟩))
  | static h => exact .inr (.inr (.inr ⟨_, hinfo ▸ h, rfl⟩))

theorem of_addInstance {info : Instance}
    (h : (heap.addInstance info).2.Links (.instanceObject ⟨heap.instances.size⟩) object) :
    (∃ entry ∈ info.fields.entries, object ∈ entry.2.object?) ∨
    ∃ name method, object = .procedure method ∧
      heap.findMethod? info.classRef name = some method := by
  have hinfo : (heap.addInstance info).2.instanceInfo ⟨heap.instances.size⟩ = info :=
    getD_push_size info _
  cases h with
  | field hentry hobject => exact .inl ⟨_, hinfo ▸ hentry, hobject⟩
  | ownMethod h =>
      rw [hinfo] at h
      rcases (ChangesAt.addInstance heap info).findMethod?_cases h with h | ⟨_, hclass, _⟩
      · exact .inr ⟨_, _, rfl, h⟩
      · cases hclass

theorem of_addEnum {info : EnumInfo} {ref : ScopeRef}
    (h : (heap.addEnum info).2.Links (.scope ref) object) : heap.Links (.scope ref) object := by
  cases h with
  | parent h => exact .parent h
  | binding hentry hobject => exact .binding hentry hobject

theorem of_define {ref : ScopeRef} {name : String} {value : Value}
    (h : { heap with forest := heap.forest.define ref name value }.Links (.scope ref) object) :
    heap.Links (.scope ref) object ∨ object ∈ value.object? := by
  let scope := heap.forest.scope ref
  have hscope : (heap.forest.define ref name value).scope ref = scope ∨
      (heap.forest.define ref name value).scope ref =
        { scope with vars := scope.vars.insert name value } :=
    getD_modify_cases ref.index _ _
  cases h with
  | parent h =>
      rcases hscope with hscope | hscope <;> rw [hscope] at h <;> exact .inl (.parent h)
  | binding hentry hobject =>
      rcases hscope with hscope | hscope <;> rw [hscope] at hentry
      · exact .inl (.binding hentry hobject)
      · rcases Table.mem_insertEntry hentry with rfl | hentry
        · exact .inr hobject
        · exact .inl (.binding hentry hobject)

theorem of_markExported {ref : ScopeRef} {name : String}
    (h : { heap with forest := heap.forest.markExported ref name }.Links (.scope ref) object) :
    heap.Links (.scope ref) object := by
  let scope := heap.forest.scope ref
  have hscope : (heap.forest.markExported ref name).scope ref = scope ∨
      (heap.forest.markExported ref name).scope ref =
        { scope with exported := scope.exported.insert name () } :=
    getD_modify_cases ref.index _ _
  cases h with
  | parent h => rcases hscope with hscope | hscope <;> rw [hscope] at h <;> exact .parent h
  | binding hentry hobject =>
      rcases hscope with hscope | hscope <;> rw [hscope] at hentry <;>
        exact .binding hentry hobject

theorem of_setField {ref : InstanceRef} {name : String} {value : Value}
    (h : (heap.setField ref name value).Links (.instanceObject ref) object) :
    heap.Links (.instanceObject ref) object ∨ object ∈ value.object? := by
  let info := heap.instanceInfo ref
  have hinfo : (heap.setField ref name value).instanceInfo ref = info ∨
      (heap.setField ref name value).instanceInfo ref =
        { info with fields := info.fields.insert name value } :=
    getD_modify_cases ref.index _ _
  cases h with
  | field hentry hobject =>
      rcases hinfo with hinfo | hinfo <;> rw [hinfo] at hentry
      · exact .inl (.field hentry hobject)
      · rcases Table.mem_insertEntry hentry with rfl | hentry
        · exact .inr hobject
        · exact .inl (.field hentry hobject)
  | ownMethod h =>
      rcases (ChangesAt.setField heap ref name value).findMethod?_cases h with h | ⟨_, hclass, _⟩
      · rcases hinfo with hinfo | hinfo <;> rw [hinfo] at h <;> exact .inl (.ownMethod h)
      · cases hclass

theorem of_setStatic {ref : ClassRef} {name : String} {method : ProcedureRef}
    (h : (heap.setStatic ref name method).Links (.classObject ref) object) :
    heap.Links (.classObject ref) object ∨ object = .procedure method := by
  let info := heap.classInfo ref
  have hinfo : (heap.setStatic ref name method).classInfo ref = info ∨
      (heap.setStatic ref name method).classInfo ref =
        { info with statics := info.statics.insert name method } :=
    getD_modify_cases ref.index _ _
  cases h with
  | environment =>
      rcases hinfo with hinfo | hinfo <;> rw [hinfo] <;> exact .inl (.environment ref)
  | superclass h =>
      rcases hinfo with hinfo | hinfo <;> rw [hinfo] at h <;> exact .inl (.superclass h)
  | method h =>
      rcases hinfo with hinfo | hinfo <;> rw [hinfo] at h <;> exact .inl (.method h)
  | static h =>
      rcases hinfo with hinfo | hinfo <;> rw [hinfo] at h
      · exact .inl (.static h)
      · rcases Table.mem_insertEntry h with rfl | h
        · exact .inr rfl
        · exact .inl (.static h)

end Links

end Heap

/-- The objects that the loaded modules of a state lead to. -/
inductive State.Reaches (state : State) : Object → Prop
  | cached {loaded : String × Table Value} {entry : String × Value} {object : Object}
    (hloaded : loaded ∈ state.modules.entries) (hentry : entry ∈ loaded.2.entries)
    (hobject : object ∈ entry.2.object?) : Reaches state object
  | link {object other : Object} (h : Reaches state object)
    (hlink : state.heap.Links object other) : Reaches state other

theorem State.not_reaches_of_no_modules {state : State} {object : Object}
    (h : state.modules = ∅) : ¬ state.Reaches object := by
  intro hreaches
  induction hreaches with
  | cached hloaded _ _ =>
      rw [h] at hloaded
      cases hloaded
  | link _ _ ih => exact ih

end Wabun
