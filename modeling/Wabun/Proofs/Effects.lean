import Wabun.Proofs.Course
import Wabun.Proofs.Journal
import Wabun.Proofs.Ownership
import Wabun.Proofs.Reachability

/-!
What a run can do to the heap, effect by effect. Each effect makes one object or
changes one, and the journal tells of it. Whatever a run does is a sequence of such
effects, interspersed with remarks that change nothing; a part of the sequence may be
inside of a span. So what every effect keeps is kept by every run: the place of a scope
in the forest, what a class is but for its static methods, the class of an instance, and
that no value is a class or an instance that was not made.
-/

namespace Wabun

open Event (spansTold openSpans)

namespace Event

/-- The events, while some spans are open: where all of them are attempts, an
assignment binds its name in a scope that is at least as young as the wall says. -/
def Sheltered (wall : Nat) : List Span → List Event → Prop
  | _, [] => True
  | spans, event :: rest =>
    (∀ scope name, event = .assigned scope name → (∀ span ∈ spans, span.IsAttempt) →
      ∃ owner value later, rest = .bound owner name value :: later ∧ wall ≤ owner.index) ∧
    Sheltered wall (event.spansAfter spans) rest

namespace Sheltered

variable {wall : Nat} {spans : List Span} {events later : List Event}

theorem append (h : Sheltered wall spans events)
    (h' : Sheltered wall (spansTold spans events) later) :
    Sheltered wall spans (events ++ later) := by
  induction events generalizing spans with
  | nil => exact h'
  | cons event rest ih =>
      refine ⟨fun scope name hevent hspans => ?_, ih h.2 h'⟩
      obtain ⟨owner, value, more, rfl, howner⟩ := h.1 scope name hevent hspans
      exact ⟨owner, value, more ++ later, rfl, howner⟩

theorem span {span : Span} (h : Sheltered wall (span :: spans) events)
    (htold : spansTold (span :: spans) events = span :: spans) :
    Sheltered wall spans (.opened span :: (events ++ [.closed span])) ∧
    spansTold spans (.opened span :: (events ++ [.closed span])) = spans := by
  refine ⟨⟨fun _ _ hassigned => Event.noConfusion hassigned, h.append ?_⟩, ?_⟩
  · exact ⟨fun _ _ hassigned => Event.noConfusion hassigned, trivial⟩
  · change spansTold (span :: spans) (events ++ [.closed span]) = spans
    rw [spansTold_append, htold]
    rfl

/-- An assignment that no frame lies around is sheltered. -/
theorem bound_of_assigned {earlier : List Event} {scope : ScopeRef} {name : String}
    (h : Sheltered wall spans events) (hevents : events = earlier ++ .assigned scope name :: later)
    (hspans : ∀ span ∈ spansTold spans earlier, span.IsAttempt) :
    ∃ owner value rest, later = .bound owner name value :: rest ∧ wall ≤ owner.index := by
  subst hevents
  induction earlier generalizing spans with
  | nil => exact h.1 scope name rfl hspans
  | cons event earlier ih => exact ih hspans h.2

end Sheltered

end Event

namespace Heap

/-- A value that is a class or an instance is one that was made. -/
def Made (heap : Heap) : Value → Prop
  | .classObject ref => ref.index < heap.classes.size
  | .instanceObject ref => ref.index < heap.instances.size
  | _ => True

/-- Values that can be come by were made, and a class was made after its parent. -/
structure Sound (heap : Heap) : Prop where
  bound : ∀ {ref name value}, heap.forest.binding? ref name = some value → heap.Made value
  held : ∀ {ref name value}, (heap.instanceInfo ref).fields.get? name = some value →
    heap.Made value
  older : ∀ {ref parent}, (heap.classInfo ref).parent = some parent → parent.index < ref.index

theorem sound_empty : empty.Sound where
  bound h := by
    rw [Forest.binding?_eq_none (Nat.zero_le _)] at h
    cases h
  held h := by cases h
  older h := by cases h

/-! ### What an object is after a change -/

section Changes

variable (heap : Heap)

theorem scope_addScope_self (scope : Scope) :
    (heap.addScope scope).2.forest.scope ⟨heap.forest.size⟩ = scope :=
  getD_push_size scope .root

theorem size_addScope (scope : Scope) :
    (heap.addScope scope).2.forest.size = heap.forest.size + 1 :=
  heap.forest.size_add scope

theorem classInfo_addClass_cases (info : ClassInfo) (ref : ClassRef) :
    (heap.addClass info).2.classInfo ref = heap.classInfo ref ∨
    ref = ⟨heap.classes.size⟩ ∧ (heap.addClass info).2.classInfo ref = info := by
  by_cases heq : ref = ⟨heap.classes.size⟩
  · exact .inr ⟨heq, heq ▸ getD_push_size info _⟩
  · exact .inl ((ChangesAt.addClass heap info).agrees (.classObject ref)
      fun hobject => heq (Object.classObject.inj hobject))

theorem instanceInfo_addInstance_cases (info : Instance) (ref : InstanceRef) :
    (heap.addInstance info).2.instanceInfo ref = heap.instanceInfo ref ∨
    ref = ⟨heap.instances.size⟩ ∧ (heap.addInstance info).2.instanceInfo ref = info := by
  by_cases heq : ref = ⟨heap.instances.size⟩
  · exact .inr ⟨heq, heq ▸ getD_push_size info _⟩
  · exact .inl ((ChangesAt.addInstance heap info).agrees (.instanceObject ref)
      fun hobject => heq (Object.instanceObject.inj hobject))

theorem classInfo_setStatic_cases (ref other : ClassRef) (name : String) (method : ProcedureRef) :
    (heap.setStatic ref name method).classInfo other = heap.classInfo other ∨
    other = ref ∧ (heap.setStatic ref name method).classInfo other =
      { heap.classInfo other with
        statics := (heap.classInfo other).statics.insert name method } := by
  by_cases heq : other = ref
  · subst heq
    exact (getD_modify_cases other.index _ _).imp id fun hchanged => ⟨rfl, hchanged⟩
  · exact .inl ((ChangesAt.setStatic heap ref name method).agrees (.classObject other)
      fun hobject => heq (Object.classObject.inj hobject))

theorem instanceInfo_setField_cases (ref other : InstanceRef) (name : String) (value : Value) :
    (heap.setField ref name value).instanceInfo other = heap.instanceInfo other ∨
    other = ref ∧ (heap.setField ref name value).instanceInfo other =
      { heap.instanceInfo other with
        fields := (heap.instanceInfo other).fields.insert name value } := by
  by_cases heq : other = ref
  · subst heq
    exact (getD_modify_cases other.index _ _).imp id fun hchanged => ⟨rfl, hchanged⟩
  · exact .inl ((ChangesAt.setField heap ref name value).agrees (.instanceObject other)
      fun hobject => heq (Object.instanceObject.inj hobject))

theorem instanceInfo_setField_self {ref : InstanceRef} (h : ref.index < heap.instances.size)
    (name : String) (value : Value) :
    (heap.setField ref name value).instanceInfo ref =
      ⟨(heap.instanceInfo ref).classRef, (heap.instanceInfo ref).fields.insert name value⟩ := by
  simp [instanceInfo, setField, Array.getElem_modify, h]

/-- The ways from class to class are made by the parents alone. -/
theorem ancestry_eq_of_parents {heap other : Heap}
    (hsame : ∀ ref, (other.classInfo ref).parent = (heap.classInfo ref).parent)
    (ref : ClassRef) : other.ancestry ref = heap.ancestry ref := by
  fun_induction ancestry heap ref with
  | case1 ref ih =>
      rw [ancestry, hsame]
      congr 1
      split
      · next parent _ =>
          split
          · next hlt => exact ih parent hlt
          · rfl
      · rfl

end Changes

/-- What of an object no effect changes: the place of a scope, a procedure, a class but
for its static methods, and the class of an instance. -/
def Persists (before after : Heap) : Object → Prop
  | .scope ref =>
    (after.forest.scope ref).parent = (before.forest.scope ref).parent ∧
      (after.forest.scope ref).isSealed = (before.forest.scope ref).isSealed
  | .procedure ref => after.procedure ref = before.procedure ref
  | .classObject ref => ∃ statics, after.classInfo ref = { before.classInfo ref with statics }
  | .instanceObject ref => (after.instanceInfo ref).classRef = (before.instanceInfo ref).classRef

theorem Agrees.persists {before after : Heap} {object : Object} (h : before.Agrees after object) :
    before.Persists after object := by
  cases object with
  | scope ref =>
      have hscope : after.forest.scope ref = before.forest.scope ref := h
      exact ⟨by rw [hscope], by rw [hscope]⟩
  | procedure ref => exact h
  | classObject ref => exact ⟨_, h⟩
  | instanceObject ref => exact congrArg Instance.classRef h

/-- What was made stays, and persists. -/
structure Extends (before after : Heap) : Prop where
  grows : before.Grows after
  persists : ∀ object, before.Has object → before.Persists after object

namespace Extends

variable {before middle after : Heap}

theorem refl (heap : Heap) : heap.Extends heap where
  grows := .refl heap
  persists object _ := by
    cases object with
    | scope | procedure | classObject | instanceObject => exact Agrees.persists rfl

theorem trans (h : before.Extends middle) (h' : middle.Extends after) : before.Extends after where
  grows := h.grows.trans h'.grows
  persists object hhas := by
    have hfirst := h.persists object hhas
    have hsecond := h'.persists object (h.grows object hhas)
    cases object with
    | scope ref => exact ⟨hsecond.1.trans hfirst.1, hsecond.2.trans hfirst.2⟩
    | procedure ref => exact Eq.trans hsecond hfirst
    | classObject ref =>
        obtain ⟨_, hfirst⟩ := hfirst
        obtain ⟨statics, hsecond⟩ := hsecond
        exact ⟨statics, by rw [hsecond, hfirst]⟩
    | instanceObject ref => exact Eq.trans hsecond hfirst

/-- Where one object was changed or made, only that one has to persist. -/
theorem of_changesAt {target : Object} (hchange : ChangesAt target before after)
    (htarget : before.Has target → before.Persists after target) : before.Extends after where
  grows := hchange.grows
  persists object hhas := by
    by_cases heq : object = target
    · subst heq
      exact htarget hhas
    · exact (hchange.agrees object heq).persists

theorem of_fresh {target : Object} (hchange : ChangesAt target before after)
    (hfresh : ¬ before.Has target) : before.Extends after :=
  of_changesAt hchange fun hhas => absurd hhas hfresh

theorem forest_size_le (h : before.Extends after) : before.forest.size ≤ after.forest.size := by
  refine Nat.le_of_not_lt fun hlt => ?_
  exact Nat.lt_irrefl _ (h.grows (.scope ⟨after.forest.size⟩) hlt)

end Extends

theorem Made.mono {before after : Heap} {value : Value} (h : before.Made value)
    (hextends : before.Extends after) : after.Made value := by
  cases value with
  | classObject ref => exact hextends.grows (.classObject ref) h
  | instanceObject ref => exact hextends.grows (.instanceObject ref) h
  | _ => trivial

/-- One effect on the heap, with the events that the journal tells of it. -/
inductive Effect (heap : Heap) : List Event → Heap → Prop
  | addScope {scope : Scope} (h : scope.vars = ∅) :
    Effect heap [.scopeMade ⟨heap.forest.size⟩] (heap.addScope scope).2
  | addProcedure (procedure : Procedure) : Effect heap [] (heap.addProcedure procedure).2
  | addClass {info : ClassInfo} (h : ∀ parent ∈ info.parent, heap.Made (.classObject parent)) :
    Effect heap [] (heap.addClass info).2
  | addInstance (classRef : ClassRef) : Effect heap [] (heap.addInstance ⟨classRef, ∅⟩).2
  | addEnum (info : EnumInfo) : Effect heap [] (heap.addEnum info).2
  | define (ref : ScopeRef) (name : String) {value : Value} (h : heap.Made value) :
    Effect heap [.bound ref name value]
      { heap with forest := heap.forest.define ref name value }
  | markExported (ref : ScopeRef) (name : String) :
    Effect heap [.exported ref name] { heap with forest := heap.forest.markExported ref name }
  | setField (ref : InstanceRef) (name : String) {value : Value} (h : heap.Made value) :
    Effect heap [.fieldSet ref name value] (heap.setField ref name value)
  | setStatic (ref : ClassRef) (name : String) (method : ProcedureRef) :
    Effect heap [.staticSet ref name method] (heap.setStatic ref name method)

namespace Effect

variable {heap after : Heap} {events : List Event}

theorem modifyScope_extends (heap : Heap) (ref : ScopeRef) {change : Scope → Scope}
    (hparent : ∀ scope, (change scope).parent = scope.parent)
    (hsealed : ∀ scope, (change scope).isSealed = scope.isSealed) :
    heap.Extends { heap with forest := heap.forest.modify ref change } := by
  refine .of_changesAt (.modifyScope heap ref change) fun hhas => ?_
  have hscope : (heap.forest.modify ref change).scope ref = change (heap.forest.scope ref) :=
    Forest.scope_modify_self hhas change
  constructor
  · rw [hscope, hparent]
  · rw [hscope, hsealed]

theorem extension (h : heap.Effect events after) : heap.Extends after := by
  cases h with
  | addScope => exact .of_fresh (.addScope heap _) (Nat.lt_irrefl _)
  | addProcedure procedure => exact .of_fresh (.addProcedure heap procedure) (Nat.lt_irrefl _)
  | addClass => exact .of_fresh (.addClass heap _) (Nat.lt_irrefl _)
  | addInstance classRef => exact .of_fresh (.addInstance heap _) (Nat.lt_irrefl _)
  | addEnum info => exact .of_fresh (.addEnum heap info (.scope ⟨heap.forest.size⟩)) (Nat.lt_irrefl _)
  | define ref name => exact modifyScope_extends heap ref (fun _ => rfl) fun _ => rfl
  | markExported ref name => exact modifyScope_extends heap ref (fun _ => rfl) fun _ => rfl
  | @setField ref name value =>
      refine .of_changesAt (.setField heap ref name value) fun _ => ?_
      rcases heap.instanceInfo_setField_cases ref ref name value with hsame | ⟨_, hchanged⟩
      · exact congrArg Instance.classRef hsame
      · exact (congrArg Instance.classRef hchanged).trans rfl
  | setStatic ref name method =>
      refine .of_changesAt (.setStatic heap ref name method) fun _ => ?_
      rcases heap.classInfo_setStatic_cases ref ref name method with hsame | ⟨_, hchanged⟩
      · exact ⟨_, hsame⟩
      · exact ⟨_, hchanged⟩

/-- What is bound after an effect was bound before or is made known by it. -/
theorem made_of_bound (h : heap.Effect events after) {ref : ScopeRef} {name : String}
    {value : Value} (hbound : after.forest.binding? ref name = some value) :
    heap.forest.binding? ref name = some value ∨ heap.Made value := by
  cases h with
  | @addScope scope hvars =>
      by_cases heq : ref = ⟨heap.forest.size⟩
      · subst heq
        rw [Forest.binding?, scope_addScope_self, hvars] at hbound
        cases hbound
      · have hscope : (heap.addScope scope).2.forest.scope ref = heap.forest.scope ref :=
          (ChangesAt.addScope heap scope).agrees (.scope ref)
            fun hobject => heq (Object.scope.inj hobject)
        exact .inl (by rwa [Forest.binding?, hscope] at hbound)
  | @define scope key value' hvalue =>
      by_cases hsame : ref = scope ∧ name = key
      · obtain ⟨rfl, rfl⟩ := hsame
        have hexists : ref.index < heap.forest.size := by
          have hlt := Forest.index_lt_of_binding? hbound
          rwa [Forest.define, Forest.size_modify] at hlt
        rw [Forest.binding?_define_self hexists] at hbound
        exact .inr (Option.some.inj hbound ▸ hvalue)
      · exact .inl (by rwa [Forest.binding?_define_of_ne _ hsame] at hbound)
  | markExported scope key =>
      exact .inl (by rwa [Forest.binding?_markExported] at hbound)
  | addProcedure | addClass | addInstance | addEnum | setField | setStatic => exact .inl hbound

theorem made_of_held (h : heap.Effect events after) {ref : InstanceRef} {name : String}
    {value : Value} (hheld : (after.instanceInfo ref).fields.get? name = some value) :
    (heap.instanceInfo ref).fields.get? name = some value ∨ heap.Made value := by
  cases h with
  | addInstance classRef =>
      rcases heap.instanceInfo_addInstance_cases ⟨classRef, ∅⟩ ref with hinfo | ⟨_, hinfo⟩
      · exact .inl (hinfo ▸ hheld)
      · rw [hinfo] at hheld
        cases hheld
  | @setField object key value' hvalue =>
      rcases heap.instanceInfo_setField_cases object ref key value' with hinfo | ⟨_, hinfo⟩
      · exact .inl (hinfo ▸ hheld)
      · rw [hinfo] at hheld
        by_cases hname : name = key
        · subst hname
          rw [Table.get?_insert_self] at hheld
          exact .inr (Option.some.inj hheld ▸ hvalue)
        · exact .inl (by rwa [Table.get?_insert_of_ne _ hname] at hheld)
  | addScope | addProcedure | addClass | addEnum | define | markExported | setStatic =>
      exact .inl hheld

/-- A class has the parent that it had before the effect, or is new and extends one that
is not. -/
theorem parent_cases (h : heap.Effect events after) {ref parent : ClassRef}
    (hparent : (after.classInfo ref).parent = some parent) :
    (heap.classInfo ref).parent = some parent ∨
    ref.index = heap.classes.size ∧ parent.index < heap.classes.size := by
  cases h with
  | @addClass info hmade =>
      rcases heap.classInfo_addClass_cases info ref with hinfo | ⟨rfl, hinfo⟩
      · exact .inl (hinfo ▸ hparent)
      · exact .inr ⟨rfl, hmade parent (hinfo ▸ hparent)⟩
  | setStatic object name method =>
      rcases heap.classInfo_setStatic_cases object ref name method with hinfo | ⟨_, hinfo⟩
      · exact .inl (hinfo ▸ hparent)
      · rw [hinfo] at hparent
        exact .inl hparent
  | addScope | addProcedure | addInstance | addEnum | define | markExported | setField =>
      exact .inl hparent

theorem sound (h : heap.Effect events after) (hheap : heap.Sound) : after.Sound where
  bound hbound := by
    rcases h.made_of_bound hbound with hbound | hmade
    · exact (hheap.bound hbound).mono h.extension
    · exact hmade.mono h.extension
  held hheld := by
    rcases h.made_of_held hheld with hheld | hmade
    · exact (hheap.held hheld).mono h.extension
    · exact hmade.mono h.extension
  older hparent := by
    rcases h.parent_cases hparent with hparent | ⟨hnew, hlt⟩
    · exact hheap.older hparent
    · exact Nat.lt_of_lt_of_eq hlt hnew.symm

end Effect

/-! ### Scopes behind a wall -/

/-- Above the scope, up to the first sealed one, all scopes are at least as young as the
wall says. -/
inductive Shelters (heap : Heap) : Nat → ScopeRef → Prop
  | free (ref : ScopeRef) : Shelters heap 0 ref
  | ofSealed {wall : Nat} {ref : ScopeRef} (hwall : wall ≤ ref.index)
    (hexists : ref.index < heap.forest.size) (hsealed : (heap.forest.scope ref).isSealed = true) :
    Shelters heap wall ref
  | child {wall : Nat} {ref parent : ScopeRef} (hwall : wall ≤ ref.index)
    (hexists : ref.index < heap.forest.size)
    (hparent : (heap.forest.scope ref).parent = some parent) (h : Shelters heap wall parent) :
    Shelters heap wall ref

namespace Shelters

variable {heap after : Heap} {wall : Nat} {ref : ScopeRef}

theorem mono (h : heap.Shelters wall ref) (hextends : heap.Extends after) :
    after.Shelters wall ref := by
  induction h with
  | free ref => exact .free ref
  | @ofSealed _ ref hwall hexists hsealed =>
      refine .ofSealed hwall (hextends.grows (.scope ref) hexists) ?_
      rw [(hextends.persists (.scope ref) hexists).2, hsealed]
  | @child _ ref parent hwall hexists hparent _ ih =>
      refine .child hwall (hextends.grows (.scope ref) hexists) ?_ ih
      rw [(hextends.persists (.scope ref) hexists).1, hparent]

theorem le_of_mem (h : heap.Shelters wall ref) :
    ∀ other ∈ heap.forest.upToSealed (heap.forest.chain ref), wall ≤ other.index := by
  induction h with
  | free => exact fun other _ => Nat.zero_le other.index
  | ofSealed hwall _ hsealed =>
      intro other hmem
      rw [Forest.chain, Forest.upToSealed, if_pos hsealed] at hmem
      exact List.mem_singleton.mp hmem ▸ hwall
  | @child _ ref parent hwall _ hparent _ ih =>
      intro other hmem
      rw [Forest.chain, hparent, Forest.upToSealed] at hmem
      split at hmem
      · exact List.mem_singleton.mp hmem ▸ hwall
      · rcases List.mem_cons.mp hmem with rfl | hmem
        · exact hwall
        · simp only at hmem
          split at hmem
          · exact ih other hmem
          · cases hmem

/-- An assignment writes no scope that is older than the wall. -/
theorem le_owner (h : heap.Shelters wall ref) (name : String) :
    wall ≤ ((heap.forest.owner? ref name).getD ref).index := by
  cases howner : heap.forest.owner? ref name with
  | some owner => exact h.le_of_mem owner (List.mem_of_find?_eq_some howner)
  | none =>
      refine h.le_of_mem ref ?_
      rw [Forest.chain, Forest.upToSealed]
      split
      · exact List.mem_singleton_self ref
      · exact List.mem_cons_self

theorem le_size (h : heap.Shelters wall ref) : wall ≤ heap.forest.size := by
  cases h with
  | free => exact Nat.zero_le _
  | ofSealed hwall hexists | child hwall hexists =>
      exact Nat.le_of_lt (Nat.lt_of_le_of_lt hwall hexists)

theorem addChild (h : heap.Shelters wall ref) :
    (heap.addScope (.childOf ref)).2.Shelters wall ⟨heap.forest.size⟩ := by
  have hextends : heap.Extends (heap.addScope (.childOf ref)).2 := Effect.extension (.addScope rfl)
  refine .child h.le_size ?_ ?_ (h.mono hextends)
  · rw [size_addScope]
    exact Nat.lt_succ_self _
  · rw [scope_addScope_self]
    rfl

end Shelters

/-! ### Sequences of effects -/

/-- What can happen to the heap, with the events that tell of it. An assignment writes
no scope that is older than the wall, except in a call, the members of a class or a
module. -/
inductive Proceeds : Nat → Heap → List Event → Heap → Prop
  | refl (wall : Nat) (heap : Heap) : Proceeds wall heap [] heap
  | remark {wall : Nat} {heap : Heap} {event : Event} (h : event.IsRemark) :
    Proceeds wall heap [event] heap
  | effect {wall : Nat} {heap after : Heap} {events : List Event}
    (h : heap.Effect events after) : Proceeds wall heap events after
  | assign {wall : Nat} {heap : Heap} {scope owner : ScopeRef} {value : Value} (name : String)
    (howner : owner = (heap.forest.owner? scope name).getD scope) (hwall : wall ≤ owner.index)
    (h : heap.Made value) :
    Proceeds wall heap [.assigned scope name, .bound owner name value]
      { heap with forest := heap.forest.define owner name value }
  | trans {wall : Nat} {heap middle after : Heap} {events later : List Event}
    (h : Proceeds wall heap events middle) (h' : Proceeds wall middle later after) :
    Proceeds wall heap (events ++ later) after
  | frame {wall : Nat} {heap after : Heap} {events : List Event} {span : Span}
    (hspan : ¬ span.IsAttempt) (h : Proceeds 0 heap events after) :
    Proceeds wall heap (.opened span :: (events ++ [.closed span])) after
  | attempt {wall : Nat} {heap after : Heap} {events : List Event} {span : Span}
    (hspan : span.IsAttempt) (h : Proceeds wall heap events after) :
    Proceeds wall heap (.opened span :: (events ++ [.closed span])) after

namespace Proceeds

variable {wall : Nat} {heap after : Heap} {events : List Event}

theorem extension (h : heap.Proceeds wall events after) : heap.Extends after := by
  induction h with
  | refl _ heap => exact .refl heap
  | remark => exact .refl _
  | effect h => exact h.extension
  | assign name _ _ h => exact (Effect.define _ name h).extension
  | trans _ _ ih ih' => exact ih.trans ih'
  | frame _ _ ih => exact ih
  | attempt _ _ ih => exact ih

theorem sound (h : heap.Proceeds wall events after) (hheap : heap.Sound) : after.Sound := by
  induction h with
  | refl => exact hheap
  | remark => exact hheap
  | effect h => exact h.sound hheap
  | assign name _ _ h => exact (Effect.define _ name h).sound hheap
  | trans _ _ ih ih' => exact ih' (ih hheap)
  | frame _ _ ih => exact ih hheap
  | attempt _ _ ih => exact ih hheap

/-- An instance whose fields are not set stays as it is. -/
theorem instanceInfo_eq (h : heap.Proceeds wall events after) {ref : InstanceRef}
    (href : ref.index < heap.instances.size)
    (hevents : ∀ name value, .fieldSet ref name value ∉ events) :
    after.instanceInfo ref = heap.instanceInfo ref := by
  induction h with
  | refl => rfl
  | remark => rfl
  | @effect _ heap _ _ h =>
      cases h with
      | addInstance classRef =>
          rcases heap.instanceInfo_addInstance_cases ⟨classRef, ∅⟩ ref with hinfo | ⟨rfl, _⟩
          · exact hinfo
          · exact absurd href (Nat.lt_irrefl _)
      | @setField object name value =>
          rcases heap.instanceInfo_setField_cases object ref name value with hinfo | ⟨rfl, _⟩
          · exact hinfo
          · exact absurd (List.mem_singleton_self _) (hevents name value)
      | addScope | addProcedure | addClass | addEnum | define | markExported | setStatic => rfl
  | assign => rfl
  | @trans _ _ middle _ _ _ h _ ih ih' =>
      have hmiddle := h.extension.grows (.instanceObject ref) href
      rw [ih' hmiddle fun name value hmem => hevents name value (List.mem_append_right _ hmem),
        ih href fun name value hmem => hevents name value (List.mem_append_left _ hmem)]
  | frame _ _ ih | attempt _ _ ih =>
      exact ih href fun name value hmem =>
        hevents name value (List.mem_cons_of_mem _ (List.mem_append_left _ hmem))

/-- Spans are closed as they were opened, and an assignment that is not in a frame is
sheltered. -/
theorem sheltered (h : heap.Proceeds wall events after) (spans : List Span) {bound : Nat}
    (hbound : bound ≤ wall ∨ ∃ span ∈ spans, ¬ span.IsAttempt) :
    Event.Sheltered bound spans events ∧ spansTold spans events = spans := by
  induction h generalizing spans bound with
  | refl => exact ⟨trivial, rfl⟩
  | @remark _ _ event h =>
      cases event with
      | shown | moduleLoaded | entered | raised | returned | gave =>
          exact ⟨⟨fun _ _ hassigned => Event.noConfusion hassigned, trivial⟩, rfl⟩
      | _ => cases h
  | effect h =>
      cases h with
      | addScope | define | markExported | setField | setStatic =>
          exact ⟨⟨fun _ _ hassigned => Event.noConfusion hassigned, trivial⟩, rfl⟩
      | addProcedure | addClass | addInstance | addEnum => exact ⟨trivial, rfl⟩
  | @assign wall _ scope owner value name _ hwall _ =>
      refine ⟨⟨fun scope' name' hassigned hspans => ?_, ?_⟩, rfl⟩
      · obtain ⟨rfl, rfl⟩ := Event.assigned.inj hassigned
        refine ⟨owner, value, [], rfl, ?_⟩
        rcases hbound with hbound | ⟨span, hmem, hspan⟩
        · exact Nat.le_trans hbound hwall
        · exact absurd (hspans span hmem) hspan
      · exact ⟨fun _ _ hassigned => Event.noConfusion hassigned, trivial⟩
  | trans _ _ ih ih' =>
      obtain ⟨hfirst, htold⟩ := ih spans hbound
      obtain ⟨hsecond, htold'⟩ := ih' spans hbound
      refine ⟨hfirst.append (htold.symm ▸ hsecond), ?_⟩
      rw [Event.spansTold_append, htold, htold']
  | @frame _ _ _ _ span hspan _ ih =>
      obtain ⟨hinside, htold⟩ := ih (span :: spans) (.inr ⟨span, List.mem_cons_self, hspan⟩)
      exact Event.Sheltered.span hinside htold
  | @attempt _ _ _ _ span hspan _ ih =>
      have hinner : bound ≤ _ ∨ ∃ other ∈ span :: spans, ¬ other.IsAttempt :=
        hbound.imp id fun ⟨other, hmem, hother⟩ => ⟨other, List.mem_cons_of_mem span hmem, hother⟩
      obtain ⟨hinside, htold⟩ := ih (span :: spans) hinner
      exact Event.Sheltered.span hinside htold

end Proceeds

end Heap

end Wabun
