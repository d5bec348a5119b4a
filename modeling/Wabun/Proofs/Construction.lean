import Wabun.Proofs.Lineage

/-!
New instances. The members of the classes in the lineage run one class after the other,
each class in a sealed scope of its own, and after each class what its scope binds is
written into the instance. So a name has as a field the value that it was bound to in the
youngest class that binds it. An assignment among the members stops at the sealed scope,
however deep it is in blocks, so it does not write what was there before.
-/

namespace Wabun

open Run
open Event (openSpans)

/-- The state in which the members of a class have a scope, the next one to be made. -/
def State.withMemberScope (state : State) (object : InstanceRef) (classRef : ClassRef) : State :=
  let scope : ScopeRef := ⟨state.heap.forest.size⟩
  let grown := (state.heap.addScope (.sealedChildOf (state.heap.classInfo classRef).scope)).2
  { state with
    heap := { grown with
      forest := grown.forest.define scope Word.self (.instanceObject object) }
    journal := .bound scope Word.self (.instanceObject object) :: .scopeMade scope ::
      state.journal }

/-- Writes what a scope binds into an instance. -/
def Run.takeFields (object : InstanceRef) (entries : List (String × Value)) : Run Unit :=
  entries.forM fun entry =>
    if entry.1 == Word.self then return else setField object entry.1 entry.2

/-- The members of one class, as they are run for a new instance. -/
structure Layer where
  classRef : ClassRef
  scope : ScopeRef
  /-- the state in which the members begin to run -/
  start : State
  /-- the state in which they have run -/
  finish : State
  /-- what happens in between -/
  told : List Event

namespace Layer

/-- What the scope of the members binds when they have run. -/
def binding? (layer : Layer) (name : String) : Option Value :=
  layer.finish.heap.forest.binding? layer.scope name

/-- What a name becomes as a field, if it becomes one. -/
def fieldEvents (object : InstanceRef) (entries : List (String × Value)) : List Event :=
  (entries.filter fun entry => entry.1 != Word.self).map fun entry =>
    .fieldSet object entry.1 entry.2

/-- All that happens for one class. -/
def events (object : InstanceRef) (layer : Layer) : List Event :=
  [.scopeMade layer.scope, .bound layer.scope Word.self (.instanceObject object),
    .entered layer.start.depth, .opened (.members layer.classRef)] ++
  (layer.told ++ .closed (.members layer.classRef) ::
    fieldEvents object (layer.finish.heap.forest.scope layer.scope).vars.entries)

/-- The layer is a run of the members of its class, in a scope that is new to a heap, that
is sealed and that binds only the instance at first. -/
structure IsRun (engine : Engine) (heap : Heap) (object : InstanceRef) (layer : Layer) : Prop where
  fresh : heap.forest.size ≤ layer.scope.index
  scope : layer.start.heap.forest.scope layer.scope =
    { Scope.sealedChildOf (heap.classInfo layer.classRef).scope with
      vars := Table.empty.insert Word.self (.instanceObject object) }
  body : engine.execute (heap.classInfo layer.classRef).members layer.scope layer.start =
    .ok .normal layer.finish
  tells : layer.start.Tells layer.told layer.finish

/-- The layer leads from one state to another: its members begin to run in the first, once
they have their scope, and what the scope binds when they have run is written into the
instance. The layer tells what happened, and what the fields of the instance became if nothing
else set them. -/
structure Covers (object : InstanceRef) (before : State) (layer : Layer) (after : State) :
    Prop where
  start : layer.start =
    (before.withMemberScope object layer.classRef).enter (.members layer.classRef)
  finish : takeFields object (layer.finish.heap.forest.scope layer.scope).vars.entries
    (layer.finish.leave (.members layer.classRef)) = .ok () after
  scope : layer.scope = ⟨before.heap.forest.size⟩
  grows : before.heap.forest.size < after.heap.forest.size
  tells : before.Tells (layer.events object) after
  fields : (∀ name value, .fieldSet object name value ∉ layer.told) →
    ∀ name, (after.heap.instanceInfo object).fields.get? name =
      if name = Word.self then (before.heap.instanceInfo object).fields.get? name
      else (layer.binding? name).or ((before.heap.instanceInfo object).fields.get? name)

/-- Layer after layer leads from one state to another. -/
inductive Stack (object : InstanceRef) : State → List Layer → State → Prop
  | nil (state : State) : Stack object state [] state
  | cons {layer : Layer} {rest : List Layer} {before middle after : State}
    (h : layer.Covers object before middle) (h' : Stack object middle rest after) :
    Stack object before (layer :: rest) after

namespace Stack

variable {object : InstanceRef} {layers : List Layer} {before after : State}

theorem tells (h : Stack object before layers after) :
    before.Tells (layers.flatMap (events object)) after := by
  induction h with
  | nil state => exact .of_journal_eq rfl
  | cons h _ ih => exact h.tells.append ih

theorem size_le_scope (h : Stack object before layers after) :
    ∀ layer ∈ layers, before.heap.forest.size ≤ layer.scope.index := by
  induction h with
  | nil => simp
  | cons h _ ih =>
      intro layer hmem
      rcases List.mem_cons.mp hmem with rfl | hmem
      · exact Nat.le_of_eq (by rw [h.scope])
      · have hgrows := h.grows
        have hlater := ih layer hmem
        omega

theorem nodup_scopes (h : Stack object before layers after) :
    (layers.map Layer.scope).Nodup := by
  induction h with
  | nil => simp
  | @cons layer rest _ _ _ h h' ih =>
      rw [List.map_cons]
      refine List.nodup_cons.mpr ⟨fun hmem => ?_, ih⟩
      obtain ⟨other, hother, hscope⟩ := List.mem_map.mp hmem
      have hlater := h'.size_le_scope other hother
      rw [hscope, h.scope] at hlater
      exact Nat.not_lt.mpr hlater h.grows

/-- The last layer that binds a name gives the field its value. -/
theorem fields (h : Stack object before layers after)
    (hnone : ∀ layer ∈ layers, ∀ name value, .fieldSet object name value ∉ layer.told)
    (name : String) :
    (after.heap.instanceInfo object).fields.get? name =
      if name = Word.self then (before.heap.instanceInfo object).fields.get? name
      else (layers.reverse.findSome? (Layer.binding? · name)).or
        ((before.heap.instanceInfo object).fields.get? name) := by
  induction h with
  | nil => simp
  | @cons layer rest _ _ _ h _ ih =>
      have hfirst := h.fields (hnone layer List.mem_cons_self) name
      rw [ih fun other hmem => hnone other (List.mem_cons_of_mem layer hmem), hfirst]
      by_cases hself : name = Word.self
      · simp only [if_pos hself]
      · simp [hself, List.findSome?_append, Option.or_assoc]

end Stack

end Layer

namespace Run

section TakeFields

variable {object : InstanceRef} {name : String} {value : Value} {rest : List (String × Value)}
  {state : State}

theorem takeFields_cons_of_eq (h : name = Word.self) :
    takeFields object ((name, value) :: rest) state = takeFields object rest state := by
  subst h
  rfl

theorem takeFields_cons_of_ne (h : name ≠ Word.self) :
    takeFields object ((name, value) :: rest) state = takeFields object rest
      (State.tell { state with heap := state.heap.setField object name value }
        (.fieldSet object name value)) := by
  have hstep : takeFields object ((name, value) :: rest) =
      (if name == Word.self then pure () else setField object name value) >>=
        fun _ => takeFields object rest := rfl
  rw [hstep, if_neg (by simpa using h)]
  rfl

/-- Each name but that of the instance itself becomes a field. -/
theorem takeFields_spec {entries : List (String × Value)}
    (hsorted : entries.Pairwise fun a b => a.1 < b.1)
    (hobject : object.index < state.heap.instances.size) :
    ∃ final, takeFields object entries state = .ok () final ∧
      state.Tells (Layer.fieldEvents object entries) final ∧
      final.heap.forest = state.heap.forest ∧
      ∀ key, (final.heap.instanceInfo object).fields.get? key =
        if key = Word.self then (state.heap.instanceInfo object).fields.get? key
        else (entries.lookup key).or ((state.heap.instanceInfo object).fields.get? key) := by
  induction entries generalizing state with
  | nil => exact ⟨state, rfl, .of_journal_eq rfl, rfl, fun key => by simp⟩
  | cons entry rest ih =>
      obtain ⟨name, value⟩ := entry
      obtain ⟨hfirst, hrest⟩ := List.pairwise_cons.mp hsorted
      by_cases hself : name = Word.self
      · obtain ⟨final, hrun, htells, hforest, hfields⟩ := ih hrest hobject
        refine ⟨final, (takeFields_cons_of_eq hself).trans hrun, ?_, hforest, fun key => ?_⟩
        · rw [Layer.fieldEvents, List.filter_cons_of_neg (by simp [hself])]
          exact htells
        · rw [hfields key]
          by_cases hkey : key = Word.self
          · rw [if_pos hkey, if_pos hkey]
          · rw [if_neg hkey, if_neg hkey, Table.lookup_cons_of_ne (hself ▸ hkey)]
      · let middle := State.tell { state with heap := state.heap.setField object name value }
          (.fieldSet object name value)
        have hmiddle : object.index < middle.heap.instances.size :=
          Nat.lt_of_lt_of_eq hobject Array.size_modify.symm
        obtain ⟨final, hrun, htells, hforest, hfields⟩ := ih hrest hmiddle
        refine ⟨final, (takeFields_cons_of_ne hself).trans hrun, ?_, hforest, fun key => ?_⟩
        · rw [Layer.fieldEvents, List.filter_cons_of_pos (by simpa using hself), List.map_cons]
          exact (State.tells_tell _ _ : state.Tells [.fieldSet object name value] middle).append
            htells
        · have hset : (middle.heap.instanceInfo object).fields =
              (state.heap.instanceInfo object).fields.insert name value := by
            rw [show middle.heap = state.heap.setField object name value from rfl,
              state.heap.instanceInfo_setField_self hobject]
          rw [hfields key, hset]
          by_cases hkey : key = name
          · -- The entries are sorted, so this name does not come again.
            subst hkey
            have habsent : rest.lookup key = none := by
              refine List.lookup_eq_none_iff.mpr fun entry hmem => ?_
              simpa using fun heq : key = entry.1 =>
                String.lt_irrefl _ (heq ▸ hfirst entry hmem)
            simp [hself, habsent, Table.get?_insert_self]
          · rw [Table.get?_insert_of_ne _ hkey, Table.lookup_cons_of_ne hkey]

end TakeFields

end Run

/-! ### The members of one class -/

namespace Engine

variable {engine : Engine} {host : Host} {object : InstanceRef} {classRef : ClassRef}
  {state final : State}

theorem runMembers_of_ok (h : engine.runMembers host object classRef state = .ok () final) :
    ∃ finish, engine.execute (state.heap.classInfo classRef).members ⟨state.heap.forest.size⟩
        ((state.withMemberScope object classRef).enter (.members classRef)) = .ok .normal finish ∧
      takeFields object (finish.heap.forest.scope ⟨state.heap.forest.size⟩).vars.entries
        (finish.leave (.members classRef)) = .ok () final := by
  let ready := state.withMemberScope object classRef
  let body := engine.execute (state.heap.classInfo classRef).members ⟨state.heap.forest.size⟩
  -- All but the nested part is done at once.
  have hstep : engine.runMembers host object classRef state =
      (nested host (.members classRef) body >>= _) ready := rfl
  rw [hstep] at h
  by_cases hfull : host.maxDepth ≤ ready.depth
  · rw [bind_of_error (nested_of_full hfull _ _)] at h
    cases h
  · have hnested := nested_of_room hfull (.members classRef) body
    cases hrun : body (ready.enter (.members classRef)) with
    | error halt finish =>
        rw [bind_of_error (hnested.trans (between_of_error hrun))] at h
        cases h
    | ok flow finish =>
        rw [bind_of_ok (hnested.trans (between_of_ok hrun))] at h
        cases flow with
        | returned value => cases h
        | normal => exact ⟨finish, hrun, h⟩

theorem withMemberScope_advances (hstate : state.Sound)
    (hobject : state.heap.Made (.instanceObject object)) (classRef : ClassRef) :
    (state.withMemberScope object classRef).Sound ∧
    state.heap.Extends (state.withMemberScope object classRef).heap := by
  let info := state.heap.classInfo classRef
  have hscope : state.heap.Effect _ (state.heap.addScope (.sealedChildOf info.scope)).2 :=
    .addScope rfl
  have hself : (state.heap.addScope (.sealedChildOf info.scope)).2.Effect _
      (state.withMemberScope object classRef).heap :=
    .define ⟨state.heap.forest.size⟩ Word.self (hobject.mono hscope.extension)
  have hextends := hscope.extension.trans hself.extension
  exact ⟨hstate.of_extends hextends (hself.sound (hscope.sound hstate.heap)) rfl, hextends⟩

theorem size_withMemberScope (state : State) (object : InstanceRef) (classRef : ClassRef) :
    (state.withMemberScope object classRef).heap.forest.size = state.heap.forest.size + 1 :=
  (Forest.size_modify _ _ _).trans (state.heap.size_addScope _)

theorem scope_withMemberScope (state : State) (object : InstanceRef) (classRef : ClassRef) :
    (state.withMemberScope object classRef).heap.forest.scope ⟨state.heap.forest.size⟩ =
      { Scope.sealedChildOf (state.heap.classInfo classRef).scope with
        vars := Table.empty.insert Word.self (.instanceObject object) } := by
  let scope : ScopeRef := ⟨state.heap.forest.size⟩
  let grown := (state.heap.addScope (.sealedChildOf (state.heap.classInfo classRef).scope)).2
  have hexists : scope.index < grown.forest.size := by
    rw [Heap.size_addScope]
    exact Nat.lt_succ_self _
  have hgrown : grown.forest.scope scope = _ := state.heap.scope_addScope_self _
  refine (Forest.scope_modify_self hexists _).trans ?_
  rw [hgrown]
  rfl

/-- The scope of the members keeps assignments away from the scopes that were there. -/
theorem shelters_withMemberScope {wall : Nat} (h : wall ≤ state.heap.forest.size)
    (object : InstanceRef) (classRef : ClassRef) :
    (state.withMemberScope object classRef).heap.Shelters wall ⟨state.heap.forest.size⟩ := by
  refine .ofSealed h ?_ ?_
  · rw [size_withMemberScope]
    exact Nat.lt_succ_self _
  · rw [scope_withMemberScope]
    rfl

/-- The members of one class make up a layer. -/
theorem exists_layer (hengine : Discipline.progression.Governs engine) {origin : Heap}
    (horigin : origin.Extends state.heap) (hstate : state.Sound)
    (hobject : state.heap.Made (.instanceObject object))
    (hclass : origin.Made (.classObject classRef))
    (h : engine.runMembers host object classRef state = .ok () final) :
    ∃ layer : Layer, layer.classRef = classRef ∧ layer.IsRun engine origin object ∧
      Event.Sheltered origin.forest.size [] layer.told ∧ layer.Covers object state final := by
  obtain ⟨finish, hbody, htake⟩ := runMembers_of_ok h
  let ready := state.withMemberScope object classRef
  let scope : ScopeRef := ⟨state.heap.forest.size⟩
  obtain ⟨hready, hextends⟩ := withMemberScope_advances hstate hobject classRef
  -- The class is what it was, so its members and its scope are.
  obtain ⟨statics, hinfo⟩ := horigin.persists (.classObject classRef) hclass
  have hmembers : (state.heap.classInfo classRef).members =
      (origin.classInfo classRef).members := by
    rw [hinfo]
  have hplace : (state.heap.classInfo classRef).scope = (origin.classInfo classRef).scope := by
    rw [hinfo]
  have hshelter : ready.heap.Shelters origin.forest.size scope :=
    shelters_withMemberScope horigin.forest_size_le object classRef
  obtain ⟨⟨⟨told, htold, hproceeds⟩, _⟩, _⟩ :=
    (hengine.execute origin.forest.size (state.heap.classInfo classRef).members scope
      (ready.enter (.members classRef)) hshelter.opens (hready.of_same rfl rfl)).1 _ _ hbody
  have hmade : object.index < (finish.leave (.members classRef)).heap.instances.size :=
    hproceeds.extension.grows (.instanceObject object)
      (hextends.grows (.instanceObject object) hobject)
  obtain ⟨final', htake', htells, hforest, hfields⟩ :=
    takeFields_spec (finish.heap.forest.scope scope).vars.sorted hmade
  obtain rfl : final = final' := by
    rw [htake] at htake'
    cases htake'
    rfl
  refine ⟨⟨classRef, scope, ready.enter (.members classRef), finish, told⟩, rfl,
    ⟨?_, ?_, ?_, htold⟩,
    (hproceeds.sheltered [] (.inl (Nat.le_refl _))).1, ⟨rfl, htake, rfl, ?_, ?_, ?_⟩⟩
  · exact horigin.forest_size_le
  · rw [← hplace]
    exact scope_withMemberScope state object classRef
  · rw [← hmembers]
    exact hbody
  · have hsize := hproceeds.extension.forest_size_le
    have hready' : ready.heap.forest.size = state.heap.forest.size + 1 :=
      size_withMemberScope state object classRef
    have hfinal : final.heap.forest.size = finish.heap.forest.size := by rw [hforest]; rfl
    have henter : (ready.enter (.members classRef)).heap.forest.size = ready.heap.forest.size := rfl
    omega
  · have hstart : state.Tells [.scopeMade scope, .bound scope Word.self (.instanceObject object),
        .entered (ready.depth + 1), .opened (.members classRef)]
        (ready.enter (.members classRef)) := rfl
    exact hstart.append (htold.append ((finish.tells_leave (.members classRef)).append htells))
  · intro hnone name
    have hsame : finish.heap.instanceInfo object = state.heap.instanceInfo object :=
      hproceeds.instanceInfo_eq (hextends.grows (.instanceObject object) hobject) hnone
    rw [hfields name]
    simp only [State.leave, hsame]
    rfl

theorem exists_stack (hengine : Discipline.progression.Governs engine) {origin : Heap}
    {classes : List ClassRef} (horigin : origin.Extends state.heap) (hstate : state.Sound)
    (hobject : state.heap.Made (.instanceObject object))
    (hclasses : ∀ classRef ∈ classes, origin.Made (.classObject classRef))
    (h : classes.forM (engine.runMembers host object) state = .ok () final) :
    ∃ layers, layers.map Layer.classRef = classes ∧ Layer.Stack object state layers final ∧
      ∀ layer ∈ layers, layer.IsRun engine origin object ∧
        Event.Sheltered origin.forest.size [] layer.told := by
  induction classes generalizing state with
  | nil =>
      cases h
      exact ⟨[], rfl, .nil _, fun _ hmem => by cases hmem⟩
  | cons classRef rest ih =>
      obtain ⟨_, middle, hfirst, hrest⟩ := exists_of_bind_ok h
      have hmembers : Discipline.progression.Obeys (0 : Nat) (fun _ _ => True)
          (engine.runMembers host object classRef) state :=
        hengine.runMembers hobject trivial
      obtain ⟨hadvances, _⟩ := (hmembers hstate).1 _ _ hfirst
      obtain ⟨layer, rfl, hlayer, hshelter, hcovers⟩ :=
        exists_layer hengine horigin hstate hobject (hclasses _ List.mem_cons_self) hfirst
      obtain ⟨layers, rfl, hstack, hlayers⟩ :=
        ih (horigin.trans hadvances.extension) hadvances.sound (hobject.mono hadvances.extension)
          (fun other hmem => hclasses other (List.mem_cons_of_mem _ hmem)) hrest
      refine ⟨layer :: layers, rfl, .cons hcovers hstack, fun other hmem => ?_⟩
      rcases List.mem_cons.mp hmem with rfl | hmem
      · exact ⟨hlayer, hshelter⟩
      · exact hlayers other hmem

/-- A new instance has no fields before the members are run. -/
theorem create_of_ok {className : String} {scope : ScopeRef} {value : Value}
    (h : engine.create host className scope state = .ok value final) :
    ∃ classRef, state.heap.forest.get? scope className = some (.classObject classRef) ∧
      value = .instanceObject ⟨state.heap.instances.size⟩ ∧
      (state.heap.lineage classRef).forM (engine.runMembers host ⟨state.heap.instances.size⟩)
        { state with heap := (state.heap.addInstance ⟨classRef, ∅⟩).2 } = .ok () final := by
  obtain ⟨classRef, middle, hfind, hrest⟩ := exists_of_bind_ok h
  obtain ⟨hfound, hsame⟩ := findClass_of_ok hfind
  subst middle
  let heap := (state.heap.addInstance ⟨classRef, ∅⟩).2
  have hparents : ∀ ref, (heap.classInfo ref).parent = (state.heap.classInfo ref).parent :=
    fun _ => rfl
  have hlineage : heap.lineage classRef = state.heap.lineage classRef :=
    congrArg List.reverse (Heap.ancestry_eq_of_parents hparents classRef)
  have hmembers : ((heap.lineage classRef).forM
      (engine.runMembers host ⟨state.heap.instances.size⟩) >>= fun _ =>
        pure (.instanceObject ⟨state.heap.instances.size⟩)) { state with heap } =
      .ok value final := hrest
  rw [hlineage] at hmembers
  obtain ⟨_, last, hrun, hgiven⟩ := exists_of_bind_ok hmembers
  cases hgiven
  exact ⟨classRef, hfound, rfl, hrun⟩

/-- A new instance is filled layer by layer. The members of the classes in the lineage are
run once each, from the root on, each in a new sealed scope of its own and from the state that
the layer before has left. An assignment among
them, in blocks and attempts but not in what is called, binds its name in a scope that is
new. If none of the members sets a field of the instance, its fields are the names, other
than that of the instance, that the scopes bound when their members had run, each with its
value in the youngest class that binds it. -/
theorem create_fills_instance (host : Host) (fuel : Nat) (className : String) (scope : ScopeRef)
    {state final : State} {value : Value} (hstate : state.Sound)
    (h : (ofFuel host (fuel + 1)).evaluate (.create className) scope state = .ok value final) :
    let object : InstanceRef := ⟨state.heap.instances.size⟩
    ∃ classRef layers,
      state.heap.forest.get? scope className = some (.classObject classRef) ∧
      value = .instanceObject object ∧ (final.heap.instanceInfo object).classRef = classRef ∧
      layers.map Layer.classRef = state.heap.lineage classRef ∧
      Layer.Stack object { state with heap := (state.heap.addInstance ⟨classRef, ∅⟩).2 } layers
        final ∧
      (∀ layer ∈ layers, layer.IsRun (ofFuel host fuel) state.heap object) ∧
      (layers.map Layer.scope).Nodup ∧
      state.Tells (layers.flatMap (Layer.events object)) final ∧
      (∀ layer ∈ layers, ∀ earlier inner name later,
        layer.told = earlier ++ .assigned inner name :: later →
        (∀ span ∈ openSpans earlier, span.IsAttempt) →
        ∃ owner value rest, later = .bound owner name value :: rest ∧
          state.heap.forest.size ≤ owner.index) ∧
      ((∀ layer ∈ layers, ∀ name value, .fieldSet object name value ∉ layer.told) →
        ∀ name value, (final.heap.instanceInfo object).fields.get? name = some value ↔
          name ≠ Word.self ∧ ∃ older layer younger, layers = older ++ layer :: younger ∧
            layer.binding? name = some value ∧
            ∀ other ∈ younger, other.binding? name = none) := by
  intro object
  have hengine := Discipline.Governs.ofFuel .progression host fuel
  obtain ⟨classRef, hfound, hvalue, hmembers⟩ := create_of_ok h
  let heap := (state.heap.addInstance ⟨classRef, ∅⟩).2
  have hnew : state.heap.Effect [] heap := .addInstance classRef
  have hready : ({ state with heap } : State).Sound :=
    hstate.of_extends hnew.extension (hnew.sound hstate.heap) rfl
  have hobject : heap.Made (.instanceObject object) :=
    Nat.lt_of_lt_of_eq (Nat.lt_succ_self _) (Array.size_push _).symm
  have hinfo : heap.instanceInfo object = ⟨classRef, ∅⟩ := Heap.getD_push_size _ _
  have hclass : state.heap.Made (.classObject classRef) := by
    obtain ⟨_, _, hbound⟩ := List.exists_of_findSome?_eq_some hfound
    exact hstate.heap.bound hbound
  have hclasses : ∀ member ∈ state.heap.lineage classRef,
      state.heap.Made (.classObject member) := fun member hmem =>
    Nat.lt_of_le_of_lt (hstate.heap.index_le classRef member (Heap.mem_lineage.mp hmem)) hclass
  obtain ⟨layers, hclassRefs, hstack, hlayers⟩ :=
    exists_stack hengine hnew.extension hready hobject hclasses hmembers
  refine ⟨classRef, layers, hfound, hvalue, ?_, hclassRefs, hstack,
    fun layer hmem => (hlayers layer hmem).1, hstack.nodup_scopes, hstack.tells, ?_, ?_⟩
  · have hrun : Discipline.progression.Obeys (0 : Nat) (fun _ _ => True)
        ((state.heap.lineage classRef).forM ((ofFuel host fuel).runMembers host object))
        { state with heap } :=
      .forM fun _ _ later hlater => hengine.runMembers (hobject.mono hlater) trivial
    have hadvances := ((hrun hready).1 _ _ hmembers).1
    have hkept : (final.heap.instanceInfo object).classRef = (heap.instanceInfo object).classRef :=
      hadvances.extension.persists (.instanceObject object) hobject
    rw [hkept, hinfo]
  · intro layer hmem earlier inner name later htold hspans
    exact (hlayers layer hmem).2.bound_of_assigned htold hspans
  · intro hnone name value
    have hfields := hstack.fields hnone name
    have hempty : (∅ : Table Value).get? name = none := rfl
    simp only [hinfo, hempty, Option.or_none] at hfields
    rw [hfields]
    by_cases hself : name = Word.self
    · simp [hself]
    · rw [if_neg hself, findSome?_reverse_eq_some_iff]
      exact ⟨fun hlast => ⟨hself, hlast⟩, fun hlast => hlast.2⟩

/-- A class that overrides a field of its parent, and assigns in a block to a name that is
bound outside. -/
def overridingClass : List Node :=
  [.variableDeclaration .here "外" (.literal (.text "旧")),
    .classDeclaration "親" none
      [.variableDeclaration .here "甲" (.literal (.text "親")),
        .variableDeclaration .here "乙" (.literal (.text "親"))],
    .classDeclaration "子" (some "親")
      [.variableDeclaration .nearest "甲" (.literal (.text "子")),
        .alternative (.literal (.truth true))
          [.variableDeclaration .nearest "外" (.literal (.text "新"))] none]]

theorem create_fills_instance_overridingClass :
    let engine := ofFuel Host.standard 9
    let state := (engine.execute overridingClass ⟨0⟩).after (Run.root.after .initial)
    let part := engine.evaluate (.create "子") ⟨0⟩
    let final := part.after state
    state.Sound ∧ part state = .ok (.instanceObject ⟨0⟩) final ∧
    (∃ layers : List Layer, layers.map Layer.classRef = [⟨0⟩, ⟨1⟩] ∧
      state.Tells (layers.flatMap (Layer.events ⟨0⟩)) final) ∧
    (final.heap.instanceInfo ⟨0⟩).fields.get? "甲" = some (.text "子") ∧
    (final.heap.instanceInfo ⟨0⟩).fields.get? "乙" = some (.text "親") ∧
    (final.heap.instanceInfo ⟨0⟩).fields.names = ["乙", "甲"] ∧
    final.heap.forest.binding? ⟨0⟩ "外" = some (.text "旧") := by
  intro engine state part final
  have hstate : state.Sound := State.Reached.sound (.execute _ _ _ _ (.root .initial))
  have hgiven : part.given? state = some (.instanceObject ⟨0⟩) := by decide +kernel
  have hrun : part state = .ok (.instanceObject ⟨0⟩) final := eq_ok_of_given? hgiven
  obtain ⟨classRef, layers, hfound, _, _, hclasses, _, _, _, htells, _, _⟩ :=
    create_fills_instance Host.standard 8 "子" ⟨0⟩ hstate hrun
  have hclass : state.heap.forest.get? ⟨0⟩ "子" = some (.classObject ⟨1⟩) := by decide +kernel
  obtain rfl : ⟨1⟩ = classRef := Value.classObject.inj (Option.some.inj (hclass.symm.trans hfound))
  have hsize : state.heap.instances.size = 0 := by decide +kernel
  have hlineage : state.heap.lineage ⟨1⟩ = [⟨0⟩, ⟨1⟩] := by decide +kernel
  refine ⟨hstate, hrun, ⟨layers, hclasses.trans hlineage, ?_⟩, ?_⟩
  · rw [hsize] at htells
    exact htells
  · decide +kernel

end Engine

end Wabun
