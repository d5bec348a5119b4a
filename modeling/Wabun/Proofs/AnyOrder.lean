import Wabun.Proofs.Bisimulation
import Wabun.Proofs.Tandem

/-!
No run depends on the order in which bindings are gone through. There are two places
where an order is left open: a comparison goes through the fields of an instance, and
an import goes through the bindings of a module. The answer of a comparison is fixed
by the bisimulations of the heap, and bindings of different names can be made in any
order. So two runs go through the same states, apart from the order in which their
journals tell of imported bindings. This holds even if every step of each run chooses
an order of its own, by all that happened before.
-/

namespace Wabun

namespace Table

variable {α : Type}

theorem mem_entries_iff_get? {table : Table α} {entry : String × α} :
    entry ∈ table.entries ↔ table.get? entry.1 = some entry.2 :=
  ⟨get?_of_mem_entries, mem_entries_of_get?⟩

theorem nodup_entries (table : Table α) : table.entries.Nodup := by
  apply table.sorted.imp
  rintro first second hlt rfl
  exact String.lt_irrefl first.1 hlt

/-- Tables with the same bindings are equal. -/
theorem eq_of_get? {first second : Table α}
    (h : ∀ name, first.get? name = second.get? name) : first = second := by
  have hperm : first.entries.Perm second.entries := by
    rw [List.perm_ext_iff_of_nodup first.nodup_entries second.nodup_entries]
    intro entry
    rw [mem_entries_iff_get?, mem_entries_iff_get?, h]
  have hentries : first.entries = second.entries := by
    apply hperm.eq_of_pairwise _ first.sorted second.sorted
    intro a b _ _ hlt hgt
    exact absurd (String.lt_trans hlt hgt) (String.lt_irrefl a.1)
  cases first
  cases second
  cases hentries
  rfl

theorem insert_comm (table : Table α) {name other : String} (h : name ≠ other) (x y : α) :
    (table.insert name x).insert other y = (table.insert other y).insert name x := by
  apply eq_of_get?
  intro key
  by_cases hname : key = name
  · subst hname
    rw [get?_insert_of_ne _ h, get?_insert_self, get?_insert_self]
  · by_cases hother : key = other
    · subst hother
      rw [get?_insert_self, get?_insert_of_ne _ hname, get?_insert_self]
    · rw [get?_insert_of_ne _ hother, get?_insert_of_ne _ hname, get?_insert_of_ne _ hname,
        get?_insert_of_ne _ hother]

end Table

namespace Forest

theorem modify_modify (forest : Forest) (ref : ScopeRef) (change later : Scope → Scope) :
    (forest.modify ref change).modify ref later = forest.modify ref (later ∘ change) := by
  unfold modify
  congr 1
  apply Array.ext_getElem?
  intro index
  simp only [Array.getElem?_modify]
  split
  · rw [Option.map_map]
  · rfl

theorem define_comm (forest : Forest) (ref : ScopeRef) {name other : String} (h : name ≠ other)
    (x y : Value) :
    (forest.define ref name x).define ref other y =
      (forest.define ref other y).define ref name x := by
  unfold define
  rw [modify_modify, modify_modify]
  congr 1
  funext scope
  simp only [Function.comp_apply, Table.insert_comm scope.vars h]

/-- Makes bindings one after another. -/
def defineAll (forest : Forest) (ref : ScopeRef) (bindings : List (String × Value)) : Forest :=
  bindings.foldl (fun forest binding => forest.define ref binding.1 binding.2) forest

/-- The order in which the bindings of a table are made does not matter. -/
theorem defineAll_eq_of_perm {bindings : Table Value} {first second : List (String × Value)}
    (hfirst : first.Perm bindings.entries) (hsecond : second.Perm bindings.entries)
    (forest : Forest) (ref : ScopeRef) :
    forest.defineAll ref first = forest.defineAll ref second := by
  apply (hfirst.trans hsecond.symm).foldl_eq'
  intro a ha b hb forest
  by_cases hname : a.1 = b.1
  · -- A name has one value in the table, so the two bindings are one.
    have hvalue := Table.get?_of_mem_entries (hfirst.mem_iff.mp ha)
    rw [hname, Table.get?_of_mem_entries (hfirst.mem_iff.mp hb)] at hvalue
    rw [hname, Option.some.inj hvalue]
  · exact forest.define_comm ref hname a.2 b.2

end Forest

namespace Heap

variable {heap : Heap} {listing other : Listing} {x y : Value}

/-- What is equal in one order cannot be told apart in another one. -/
theorem equal?_ne_some_false (h : heap.equal? listing x y = some true) :
    heap.equal? other x y ≠ some false := by
  intro hfalse
  apply Value.not_equalUpTo_of_equalBy? hfalse
  refine (Value.equalBy?_eq_some_true_iff.mp h).mono fun a b hinstances => ?_
  apply equalInstances?_ne_some_false isBisimulation_alike
  intro steps
  exact alikeFor_of_equalInstances? (fun _ hpair => absurd hpair List.not_mem_nil) hinstances

theorem equal_eq_of_listing (heap : Heap) (listing other : Listing) (x y : Value) :
    heap.equal listing x y = heap.equal other x y := by
  obtain ⟨answer, hanswer⟩ := Option.isSome_iff_exists.mp (heap.isSome_equal? listing x y)
  obtain ⟨answer', hanswer'⟩ := Option.isSome_iff_exists.mp (heap.isSome_equal? other x y)
  rw [equal, equal, hanswer, hanswer']
  cases answer with
  | true =>
      cases answer' with
      | true => rfl
      | false => exact absurd hanswer' (equal?_ne_some_false hanswer)
  | false =>
      cases answer' with
      | true => exact absurd hanswer (equal?_ne_some_false hanswer')
      | false => rfl

end Heap

/-- The states have the same bindings, objects and modules, and the same was shown in
the same order. -/
structure State.Matches (state other : State) : Prop where
  heap : state.heap = other.heap
  modules : state.modules = other.modules
  loading : state.loading = other.loading
  depth : state.depth = other.depth
  shown : state.shown = other.shown

namespace State

theorem Matches.refl (state : State) : state.Matches state := ⟨rfl, rfl, rfl, rfl, rfl⟩

/-- What an event adds to what was shown is the same in every state. -/
theorem shown_tell (state : State) (event : Event) :
    (state.tell event).shown = state.shown ++ (State.initial.tell event).shown := by
  rw [shown, tell, List.reverse_cons, List.filterMap_append]
  rfl

theorem Matches.tell {state other : State} (h : state.Matches other) (event : Event) :
    (state.tell event).Matches (other.tell event) where
  heap := h.heap
  modules := h.modules
  loading := h.loading
  depth := h.depth
  shown := by rw [shown_tell, shown_tell other, h.shown]

end State

namespace Run

variable {α : Type}

/-- The outcomes have one result or are halted in one way, in states that match. -/
abbrev SameEnd (result result' : EStateM.Result Halt State α) : Prop :=
  EndsAlike State.Matches (fun _ => True) result result'

/-- From states that match the parts end in the same way. -/
abbrev Matches (part part' : Run α) : Prop :=
  Alike State.Matches (fun _ => True) part part'

/-- What is left after all the bindings of a list are made. -/
theorem defineAll_run (scope : ScopeRef) (bindings : List (String × Value)) (state : State) :
    ∃ journal, Run.defineAll scope bindings state = .ok () { state with
        heap := { state.heap with forest := state.heap.forest.defineAll scope bindings }
        journal } ∧ { state with journal }.shown = state.shown := by
  induction bindings generalizing state with
  | nil => exact ⟨state.journal, rfl, rfl⟩
  | cons binding rest ih =>
      obtain ⟨journal, hrun, hshown⟩ := ih ((Run.define scope binding.1 binding.2).after state)
      refine ⟨journal, hrun, hshown.trans ?_⟩
      exact (State.shown_tell _ (.bound scope binding.1 binding.2)).trans (List.append_nil _)

/-- The bindings of a table can be made in any order. -/
theorem matches_defineAll (scope : ScopeRef) {bindings : Table Value}
    {first second : List (String × Value)} (hfirst : first.Perm bindings.entries)
    (hsecond : second.Perm bindings.entries) :
    Matches (Run.defineAll scope first) (Run.defineAll scope second) := by
  intro state other h
  obtain ⟨journal, hrun, hshown⟩ := defineAll_run scope first state
  obtain ⟨journal', hrun', hshown'⟩ := defineAll_run scope second other
  rw [hrun, hrun', h.heap, Forest.defineAll_eq_of_perm hfirst hsecond]
  refine .ok ⟨rfl, h.modules, h.loading, h.depth, ?_⟩
  exact hshown.trans (h.shown.trans hshown'.symm)

end Run

/-- What runs have in common that go through bindings in orders of their own. -/
def Tandem.anyOrder : Tandem Node.AnyBody where
  Same := State.Matches
  Halts _ := True
  outOfFuel := trivial
  plain _ _ := trivial
  holds {state _} _ := state.heap.holds_anyBody
  heap h := h.heap
  modules h := h.modules
  loading h := h.loading
  depth h := h.depth
  tell event h := h.tell event
  withHeap h _ := { h with heap := rfl }
  withModules _ h := { h with modules := rfl }
  withLoading _ h := { h with loading := rfl }
  withDepth _ h := { h with depth := rfl }

open Run (SameEnd Matches)

/-- The same surroundings, with an order of their own. -/
def Host.inOrder (host : Host) (listing : Listing) : Host :=
  { host with listing }

/-- Runs match in any two orders, part by part. -/
def Calculus.anyOrder (host : Host) (first second : Listing) :
    Calculus (host.inOrder first) (host.inOrder second) :=
  Tandem.anyOrder.calculus ⟨rfl, rfl⟩ rfl Node.hereditary_anyBody (Node.supplied_anyNode _)
    (fun heap => heap.equal_eq_of_listing first second)
    fun scope bindings =>
      Run.matches_defineAll scope (first.perm bindings) (second.perm bindings)

def Congruence.anyOrder (host : Host) (first second : Listing) :
    Congruence (host.inOrder first) (host.inOrder second) where
  toCalculus := .anyOrder host first second
  admits := Node.anyBody
  evaluates := Node.anyNode
  misplaced _ := Tandem.anyOrder.raise trivial
  outOfFuel := Tandem.anyOrder.halted
  module _ _ _ h := Tandem.anyOrder.during _ h
  inside h := h
  loading h := h

namespace Engine

open Run

/-- The engine that chooses an order anew for every step, by the state in which the step
begins. -/
def ofOrders (host : Host) (orders : State → Listing) : Nat → Engine :=
  ofSteps
    (fun engine node scope state =>
      engine.evaluateStep (host.inOrder (orders state)) node scope state)
    (fun engine fuel node scope state =>
      engine.statement (host.inOrder (orders state)) fuel node scope state)

/-- With one order for all steps it is the engine of the host. -/
theorem ofOrders_listing (host : Host) (fuel : Nat) :
    ofOrders host (fun _ => host.listing) fuel = ofFuel host fuel :=
  (ofFuel_eq_ofSteps host fuel).symm

theorem matches_ofOrders (host : Host) (orders orders' : State → Listing) (fuel : Nat)
    (first second : Listing) :
    (Congruence.anyOrder host first second).Engines (ofOrders host orders fuel)
      (ofOrders host orders' fuel) := by
  induction fuel generalizing first second with
  | zero => exact ⟨fun _ _ => Tandem.anyOrder.halted, fun _ _ => Tandem.anyOrder.halted⟩
  | succ fuel ih =>
      constructor
      · intro node scope state other hmatches
        -- The orders of this step are those that the two runs choose in these states.
        exact (ih (orders state) (orders' other)).evaluateStep node scope state other hmatches
      · intro body scope
        apply (Congruence.anyOrder host first second).executeEach
        intro node _ state other hmatches
        have hstep := ih (orders state) (orders' other)
        have hloop (condition : Node) (inner : List Node) := hstep.loop condition inner scope fuel
        exact hstep.statement node scope hloop state other hmatches

theorem matches_program (host : Host) (first second : Listing) (node : Node) (scope : ScopeRef) :
    Matches (Run.program (host.inOrder first) node scope)
      (Run.program (host.inOrder second) node scope) := by
  have hengines := (Congruence.anyOrder host first second).ofFuel Run.plenty
  refine Tandem.bind (hengines.execute node.statements scope) fun flow => ?_
  cases flow with
  | normal => exact Tandem.anyOrder.pure _
  | returned value => exact Tandem.anyOrder.pure _

/-- Runs do not depend on the order in which the fields of instances and the bindings of
modules are gone through, be it one order for the whole run or another one at every step. -/
theorem runs_match_in_any_order (host : Host) (scope : ScopeRef) :
    (∀ first second node state,
      SameEnd (Run.program (host.inOrder first) node scope state)
        (Run.program (host.inOrder second) node scope state)) ∧
    ∀ orders orders' fuel,
      ofOrders host (fun _ => host.listing) fuel = ofFuel host fuel ∧
      (∀ body, Matches ((ofOrders host orders fuel).execute body scope)
        ((ofOrders host orders' fuel).execute body scope)) ∧
      (∀ node, Matches ((ofOrders host orders fuel).evaluate node scope)
        ((ofOrders host orders' fuel).evaluate node scope)) ∧
      ∀ name, Matches ((ofOrders host orders fuel).loadModule host name)
        ((ofOrders host orders' fuel).loadModule host name) := by
  constructor
  · intro first second node state
    exact matches_program host first second node scope state state (.refl state)
  · intro orders orders' fuel
    have hengines := matches_ofOrders host orders orders' fuel host.listing host.listing
    refine ⟨ofOrders_listing host fuel, ?_, ?_, hengines.loadModule⟩
    · exact fun body => hengines.execute body scope
    · exact fun node => hengines.evaluate node scope

end Engine

end Wabun
