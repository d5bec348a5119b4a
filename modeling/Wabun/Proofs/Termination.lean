import Mathlib.Data.List.Count
import Wabun.Proofs.Cycles
import Wabun.Proofs.Fuel
import Wabun.Proofs.Journal
import Wabun.Proofs.LoopFree

/-!
Programs without loops come to an end. Nothing shrinks all the time: a call runs a
body of any size, and so does an import. But a call leaves room for one call less,
a module that is being loaded is not loaded again inside of itself, and everything
else goes on to a smaller part of the text. All bodies that are ever run are of a
bounded size, so there is a bound on how deep the parts of a run are nested.
-/

namespace Wabun

/-- What decides how much deeper a run can go: the modules that are being loaded and
the number of open calls. -/
structure Level where
  loading : List String
  depth : Nat

namespace Level

def deeper (level : Level) : Level :=
  { level with depth := level.depth + 1 }

def load (level : Level) (name : String) : Level :=
  { level with loading := name :: level.loading }

/-- How many more modules and calls can be begun inside of each other. -/
def room (host : Host) (names : List String) (level : Level) : Nat :=
  names.countP (· ∉ level.loading) + (host.maxDepth - level.depth)

variable {host : Host} {names : List String} {level : Level}

theorem room_deeper_lt (names : List String) (h : level.depth < host.maxDepth) :
    level.deeper.room host names < level.room host names := by
  unfold room deeper
  dsimp only
  omega

theorem room_load_lt (host : Host) {name : String} (hmem : name ∈ names)
    (hnew : name ∉ level.loading) :
    (level.load name).room host names < level.room host names := by
  have hcount : names.countP (· ∉ name :: level.loading) < names.countP (· ∉ level.loading) :=
    calc
      names.countP (· ∉ name :: level.loading)
        = (names.filter (· ∉ level.loading)).countP (· ≠ name) := by
          rw [List.countP_filter]
          simp only [List.mem_cons, not_or, Bool.decide_and]
      _ < (names.filter (· ∉ level.loading)).length := by
          refine List.countP_lt_length_iff.mpr ⟨name, ?_, by simp⟩
          exact List.mem_filter.mpr ⟨hmem, decide_eq_true hnew⟩
      _ = names.countP (· ∉ level.loading) := List.countP_eq_length_filter.symm
  unfold room load
  dsimp only
  omega

end Level

/-- The state is at the level, and all bodies in its heap are bounded. -/
structure State.IsAt (size : Nat) (level : Level) (state : State) : Prop where
  loading : state.loading = level.loading
  depth : state.depth = level.depth
  heap : state.heap.Holds (Node.Bounded size)

/-- A part came to an end at the level, other than by running out of fuel. -/
def Level.Ended {α : Type} (size : Nat) (level : Level) : EStateM.Result Halt State α → Prop
  | .ok _ final => final.IsAt size level
  | .error halt final => halt.isOutOfFuel = false ∧ final.IsAt size level

theorem Level.Ended.haltsBy_eq_false {α : Type} {size : Nat} {level : Level} {part : Run α}
    {state : State} (h : level.Ended size (part state)) :
    part.haltsBy Halt.isOutOfFuel state = false := by
  cases hrun : part state with
  | ok value final => exact Run.haltsBy_of_ok hrun
  | error halt final =>
      rw [hrun] at h
      rw [Run.haltsBy_of_error hrun]
      exact h.1

namespace Run

variable {α β : Type}

/-- Begun at the level, the part comes to an end there. -/
def Ends (size : Nat) (level : Level) (part : Run α) : Prop :=
  ∀ state, state.IsAt size level → level.Ended size (part state)

namespace Ends

variable {size : Nat} {level : Level} {part : Run α}

theorem pure (value : α) : Ends size level (Pure.pure value : Run α) :=
  fun _ hstate => hstate

theorem raise (fault : Fault) : Ends size level (Run.raise fault : Run α) :=
  fun _ hstate => ⟨rfl, hstate.loading, hstate.depth, hstate.heap⟩

theorem record (event : Event) : Ends size level (Run.record event) :=
  fun _ hstate => ⟨hstate.loading, hstate.depth, hstate.heap⟩

theorem bind {next : α → Run β} (hpart : Ends size level part)
    (hnext : ∀ value, Ends size level (next value)) : Ends size level (part >>= next) := by
  intro state hstate
  have hended := hpart state hstate
  cases hrun : part state with
  | ok value middle =>
      rw [hrun] at hended
      rw [bind_of_ok hrun]
      exact hnext value middle hended
  | error halt middle =>
      rw [hrun] at hended
      rw [bind_of_error hrun]
      exact hended

theorem ask {question : Heap → α} {next : α → Run β}
    (h : ∀ heap, heap.Holds (Node.Bounded size) → Ends size level (next (question heap))) :
    Ends size level (Run.ask question >>= next) :=
  fun state hstate => h state.heap hstate.heap state hstate

theorem make {build : Heap → α × Heap}
    (h : ∀ heap, heap.Holds (Node.Bounded size) → (build heap).2.Holds (Node.Bounded size)) :
    Ends size level (Run.make build) :=
  fun state hstate => ⟨hstate.loading, hstate.depth, h state.heap hstate.heap⟩

theorem change {update : Heap → Heap}
    (h : ∀ heap, heap.Holds (Node.Bounded size) → (update heap).Holds (Node.Bounded size)) :
    Ends size level (Run.change update) :=
  fun state hstate => ⟨hstate.loading, hstate.depth, h state.heap hstate.heap⟩

theorem makeScope (scope : Scope) : Ends size level (Run.makeScope scope) := by
  refine bind (make fun _ hheap => hheap.of_same rfl rfl) fun ref => ?_
  exact (record _).bind fun _ => pure ref

theorem define (scope : ScopeRef) (name : String) (value : Value) :
    Ends size level (Run.define scope name value) := by
  refine bind (change fun _ hheap => ?_) fun _ => record _
  exact hheap.of_same rfl rfl

theorem defineAll (scope : ScopeRef) (bindings : List (String × Value)) :
    Ends size level (Run.defineAll scope bindings) := by
  induction bindings with
  | nil => exact pure _
  | cons binding rest ih => exact (define scope binding.1 binding.2).bind fun _ => ih

/-- A part that ends at another level, to which the state is taken and from which it
is brought back. -/
theorem between {inner : Level} {enter leave : State → State} (h : Ends size inner part)
    {state : State} (henter : (enter state).IsAt size inner)
    (hleave : ∀ middle, middle.IsAt size inner → (leave middle).IsAt size level) :
    level.Ended size (Run.between enter leave part state) := by
  have hended := h (enter state) henter
  cases hrun : part (enter state) with
  | ok value middle =>
      rw [hrun] at hended
      rw [between_of_ok hrun]
      exact hleave middle hended
  | error halt middle =>
      rw [hrun] at hended
      rw [between_of_error hrun]
      exact ⟨hended.1, hleave middle hended.2⟩

theorem during (span : Span) (h : Ends size level part) :
    Ends size level (Run.during span part) := by
  intro state hstate
  apply h.between
  · exact ⟨hstate.loading, hstate.depth, hstate.heap⟩
  · exact fun middle hmiddle => ⟨hmiddle.loading, hmiddle.depth, hmiddle.heap⟩

theorem nested {host : Host} (span : Span)
    (h : level.depth < host.maxDepth → Ends size level.deeper part) :
    Ends size level (Run.nested host span part) := by
  intro state hstate
  by_cases hfull : host.maxDepth ≤ state.depth
  · rw [nested_of_full hfull]
    exact raise _ state hstate
  · rw [nested_of_room hfull]
    have hroom : level.depth < host.maxDepth := hstate.depth ▸ Nat.lt_of_not_le hfull
    apply (h hroom).between
    · exact ⟨hstate.loading, congrArg (· + 1) hstate.depth, hstate.heap⟩
    · exact fun middle hmiddle => ⟨hmiddle.loading, congrArg (· - 1) hmiddle.depth, hmiddle.heap⟩

theorem loadModule {host : Host} {engine : Engine} (name : String)
    (h : name ∉ level.loading → Ends size (level.load name) (engine.runModule host name)) :
    Ends size level (engine.loadModule host name) := by
  intro state hstate
  cases hloaded : state.modules.get? name with
  | some bindings =>
      rw [engine.loadModule_of_loaded hloaded]
      exact hstate
  | none =>
      cases hloading : state.loading.contains name with
      | true =>
          rw [engine.loadModule_of_loading hloaded hloading]
          exact raise _ state hstate
      | false =>
          have hnew : name ∉ level.loading := by
            rw [← hstate.loading]
            simpa using hloading
          let entered : State := { state with loading := name :: state.loading }
          have hentered : entered.IsAt size (level.load name) :=
            ⟨congrArg (name :: ·) hstate.loading, hstate.depth, hstate.heap⟩
          have hended := h hnew entered hentered
          rw [engine.loadModule_of_new hloaded hloading]
          cases hrun : engine.runModule host name entered with
          | ok bindings middle =>
              rw [hrun] at hended
              exact ⟨congrArg List.tail hended.loading, hended.depth, hended.heap⟩
          | error halt middle =>
              rw [hrun] at hended
              refine ⟨hended.1, ?_⟩
              exact ⟨congrArg List.tail hended.2.loading, hended.2.depth, hended.2.heap⟩

theorem attempt {engine : Engine} (body : List Node) (caught : String) (handler : List Node)
    (scope : ScopeRef) (hbody : Ends size level (engine.block body scope))
    (hhandler : ∀ inner, Ends size level (engine.execute handler inner)) :
    Ends size level (engine.attempt body caught handler scope) := by
  intro state hstate
  have htried := hbody.during (.attempt caught) state hstate
  rcases engine.attempt_cases body caught handler scope state with
    hsame | ⟨value, middle, hthrown, hcaught⟩
  · rw [hsame]
    exact htried
  · rw [hthrown] at htried
    rw [hcaught]
    have hhandled := (makeScope (.childOf scope)).bind fun inner =>
      (define inner caught value).bind fun _ => hhandler inner
    exact hhandled middle htried.2

end Ends

end Run

open Run (Ends)

/-- That parts come to an end at a level. -/
def Calculus.ending (host : Host) (size : Nat) (level : Level) : Calculus host host where
  Rel _ part _ := Ends size level part
  Inside part _ := level.depth < host.maxDepth → Ends size level.deeper part
  Loading name part _ := name ∉ level.loading → Ends size (level.load name) part
  Admits := Node.Bounded size
  hereditary := Node.hereditary_bounded size
  Evaluates := Node.AnyNode
  supplied := Node.supplied_anyNode _
  alike := .refl host
  pure _ := .pure _
  bind := .bind
  raise fault _ := .raise fault
  askThen _ _ _ h := .ask h
  make _ _ h := .make h
  change _ _ h := .change h
  record _ := .record _
  makeScope := .makeScope
  compare _ _ := fun _ hstate => hstate
  bindAll scope _ := .defineAll scope _
  andThen hfirst hnext _ hrest := by
    refine hfirst.bind fun flow => ?_
    cases flow with
    | normal => exact hrest
    | returned value =>
        rw [hnext]
        exact .pure _
  giveBack value := (Ends.record _).bind fun _ => .pure _
  call ref _ _ h := (Ends.nested _ h).bind fun _ => (Ends.record _).bind fun _ => .pure _
  members ref _ _ h := .nested _ h
  loadModule name h := .loadModule name h
  attempt body caught handler scope hbody hhandler :=
    .attempt body caught handler scope hbody hhandler

namespace Engine

section Bound

variable {host : Host} {names : List String} {size : Nat}
  (hmodules : ∀ name statements, host.modules name = .ok statements →
    name ∈ names ∧ Node.Bounded size statements)

/-- The fuel for all that can be begun inside of a step, beside the step itself. -/
def reserve (host : Host) (names : List String) (size : Nat) (level : Level) : Nat :=
  (size + 1) * level.room host names

/-- With less room a body needs no more than what its size takes off the reserve. -/
theorem reserve_add_lt {level inner : Level} {body : List Node}
    (hroom : inner.room host names < level.room host names) (hbody : Node.Bounded size body) :
    reserve host names size inner + sizeOf body < reserve host names size level := by
  have hmul : (size + 1) * (inner.room host names + 1) ≤ (size + 1) * level.room host names :=
    Nat.mul_le_mul_left (size + 1) hroom
  have hsize := hbody.sizeOf_le
  rw [Nat.mul_add] at hmul
  unfold reserve
  omega

/-- The engine has the fuel for expressions and statements of every level. -/
structure Suffices (host : Host) (names : List String) (size fuel : Nat) : Prop where
  evaluate : ∀ level node scope, reserve host names size level + sizeOf node < fuel →
    Ends size level ((ofFuel host fuel).evaluate node scope)
  execute : ∀ level body scope, Node.Bounded size body →
    reserve host names size level + sizeOf body < fuel →
    Ends size level ((ofFuel host fuel).execute body scope)

include hmodules

/-- What is nested in a step comes to an end with the fuel that the step leaves. -/
theorem Suffices.nested {fuel : Nat} (h : Suffices host names size fuel) {level : Level}
    {step : Nat} (hfuel : reserve host names size level + step ≤ fuel) :
    (Calculus.ending host size level).Nested (ofFuel host fuel) (ofFuel host fuel) step where
  evaluate node scope _ hlt := h.evaluate level node scope (by omega)
  execute body scope hbody hlt := h.execute level body scope hbody (by omega)
  inside body scope hbody hdepth := by
    have hlt := reserve_add_lt (Level.room_deeper_lt names hdepth) hbody
    exact h.execute level.deeper body scope hbody (by omega)
  loading name hnew := by
    let law := Calculus.ending host size (level.load name)
    have hrun (statements : List Node) (scope : ScopeRef)
        (hfound : host.modules name = .ok statements) :
        law.Flows ((ofFuel host fuel).execute statements scope)
          ((ofFuel host fuel).execute statements scope) := by
      obtain ⟨hmem, hbody⟩ := hmodules name statements hfound
      have hlt := reserve_add_lt (Level.room_load_lt host hmem hnew) hbody
      exact h.execute (level.load name) statements scope hbody (by omega)
    exact law.runModule (fun hflows => hflows.during _) hrun

theorem suffices_ofFuel (fuel : Nat) : Suffices host names size fuel := by
  induction fuel with
  | zero =>
      constructor
      · exact fun _ _ _ hlt => absurd hlt (Nat.not_lt_zero _)
      · exact fun _ _ _ _ hlt => absurd hlt (Nat.not_lt_zero _)
  | succ fuel ih =>
      constructor
      · intro level node scope hlt
        have hnested := ih.nested hmodules (Nat.le_of_lt_succ hlt)
        exact hnested.evaluateStep (Node.anyNode node) (Nat.le_refl _) (fun _ => Ends.raise _) scope
      · intro level body scope hbody hlt
        have hnested := ih.nested hmodules (Nat.le_of_lt_succ hlt)
        have hloop (condition : Node) (inner : List Node) : .loop condition inner ∉ body := by
          intro hmem
          cases Node.allLoopFree_iff.mp hbody.loopFree _ hmem
        have hallows (node : Node) (hmem : node ∈ body) :
            (Calculus.ending host size level).Allows node :=
          (Calculus.ending host size level).allows_of_admits hbody hmem
        have hstep : (Calculus.ending host size level).Flows
            ((ofFuel host fuel).executeStep host fuel body scope)
            ((ofFuel host fuel).executeStep host fuel body scope) :=
          hnested.executeStep hallows (Nat.le_refl _) (fun _ => Ends.raise _) scope
            fun condition inner hmem => absurd hmem (hloop condition inner)
        exact hstep

end Bound

section Size

/-- What can be bounded for each of finitely many items can be bounded for all. -/
theorem exists_common_bound {α : Type} (Within : α → Nat → Prop)
    (hmono : ∀ item bound larger, bound ≤ larger → Within item bound → Within item larger)
    (items : List α) (h : ∀ item ∈ items, ∃ bound, Within item bound) :
    ∃ bound, ∀ item ∈ items, Within item bound := by
  induction items with
  | nil => exact ⟨0, fun _ hmem => absurd hmem List.not_mem_nil⟩
  | cons item rest ih =>
      obtain ⟨bound, hbound⟩ := h item List.mem_cons_self
      obtain ⟨larger, hlarger⟩ := ih fun other hmem => h other (List.mem_cons_of_mem item hmem)
      refine ⟨max bound larger, fun other hmem => ?_⟩
      rcases List.mem_cons.mp hmem with rfl | hlater
      · exact hmono other bound _ (Nat.le_max_left _ _) hbound
      · exact hmono other larger _ (Nat.le_max_right _ _) (hlarger other hlater)

theorem exists_getD_bound {α : Type} (items : Array α) (default : α) (measure : α → Nat) :
    ∃ bound, ∀ index, measure (items.getD index default) ≤ bound := by
  obtain ⟨bound, hbound⟩ := exists_common_bound (fun item bound => measure item ≤ bound)
    (fun _ _ _ hle hwithin => Nat.le_trans hwithin hle) (default :: items.toList)
    fun item _ => ⟨measure item, Nat.le_refl _⟩
  refine ⟨bound, fun index => hbound _ ?_⟩
  by_cases hlt : index < items.size
  · rw [Array.getD, dif_pos hlt]
    exact List.mem_cons_of_mem _ (Array.getElem_mem_toList hlt)
  · rw [Array.getD, dif_neg hlt]
    exact List.mem_cons_self

/-- The bodies in the heap and the modules of finitely many names are of a bounded
size. -/
theorem exists_size (host : Host) (names : List String) (heap : Heap) (body : List Node) :
    ∃ size, sizeOf body ≤ size ∧
      (∀ ref, sizeOf (heap.procedure ref).body ≤ size) ∧
      (∀ ref, sizeOf (heap.classInfo ref).members ≤ size) ∧
      ∀ name ∈ names, ∀ statements, host.modules name = .ok statements →
        sizeOf statements ≤ size := by
  obtain ⟨first, hfirst⟩ := exists_getD_bound heap.procedures ⟨"", [], [], ⟨0⟩⟩ (sizeOf ·.body)
  obtain ⟨second, hsecond⟩ :=
    exists_getD_bound heap.classes ⟨"", none, [], ∅, ∅, ⟨0⟩⟩ (sizeOf ·.members)
  obtain ⟨third, hthird⟩ := exists_common_bound
    (fun name bound => ∀ statements, host.modules name = .ok statements →
      sizeOf statements ≤ bound)
    (fun _ _ _ hle hwithin statements hfound => Nat.le_trans (hwithin statements hfound) hle)
    names fun name _ => by
      cases host.modules name with
      | error cause =>
          refine ⟨0, fun _ hfound => ?_⟩
          cases hfound
      | ok statements =>
          refine ⟨sizeOf statements, fun other hfound => ?_⟩
          cases hfound
          exact Nat.le_refl _
  refine ⟨sizeOf body + first + second + third, by omega, ?_, ?_, ?_⟩
  · intro ref
    have hle : sizeOf (heap.procedure ref).body ≤ first := hfirst ref.index
    omega
  · intro ref
    have hle : sizeOf (heap.classInfo ref).members ≤ second := hsecond ref.index
    omega
  · intro name hmem statements hfound
    have hle := hthird name hmem statements hfound
    omega

end Size

/-- Without loops in the statements, in the heap and in the modules, of which there are
finitely many, a run comes to an end: with enough fuel it does not run out of it, and
what it comes to is the same with any more. On the way two values are always found to
be equal or not, and a value always has a text, also where instances refer to each
other in a circle. -/
theorem execute_ends_of_loopFree (host : Host) (names : List String)
    (hnames : ∀ name statements, host.modules name = .ok statements → name ∈ names)
    (hmodules : ∀ name statements, host.modules name = .ok statements →
      Node.allLoopFree statements = true)
    (state : State) (hheap : state.heap.Holds (Node.allLoopFree · = true))
    (body : List Node) (hbody : Node.allLoopFree body = true) (scope : ScopeRef) :
    (∃ enough, ((ofFuel host enough).execute body scope).haltsBy Halt.isOutOfFuel state = false ∧
      ∀ fuel, enough ≤ fuel → (ofFuel host fuel).execute body scope state =
        (ofFuel host enough).execute body scope state) ∧
    (∀ (heap : Heap) (x y : Value), (heap.equal? host.listing x y).isSome = true) ∧
    ∀ (heap : Heap) (value : Value), (heap.display? value).isSome = true := by
  refine ⟨?_, fun heap => heap.isSome_equal? host.listing, Heap.isSome_display?⟩
  obtain ⟨size, hsize, hprocedures, hclasses, hloaded⟩ := exists_size host names state.heap body
  let level : Level := ⟨state.loading, state.depth⟩
  have hstate : state.IsAt size level := by
    refine ⟨rfl, rfl, ?_, ?_⟩
    · exact fun ref => ⟨hheap.procedure ref, hprocedures ref⟩
    · exact fun ref => ⟨hheap.members ref, hclasses ref⟩
  have hsuffices (fuel : Nat) : Suffices host names size fuel := by
    apply suffices_ofFuel
    intro name statements hfound
    have hmem := hnames name statements hfound
    exact ⟨hmem, hmodules name statements hfound, hloaded name hmem statements hfound⟩
  let enough := reserve host names size level + sizeOf body + 1
  have hended := (hsuffices enough).execute level body scope ⟨hbody, hsize⟩ (by omega) state hstate
  have hhalts : ((ofFuel host enough).execute body scope).haltsBy Halt.isOutOfFuel state = false :=
    hended.haltsBy_eq_false
  refine ⟨enough, hhalts, fun fuel hle => ?_⟩
  have hagrees := (ofFuel_agrees host hle).execute body scope state
  exact hagrees.resolve_left (Bool.not_eq_true _ ▸ hhalts)

/-- Two modules that import each other: `取込 乙` and `取込 甲`. -/
def circularModules : Host :=
  { Host.standard with
    modules := fun name =>
      if name = "甲" then .ok [.importing "乙"]
      else if name = "乙" then .ok [.importing "甲"]
      else .error (.unknown name) }

/-- The statements of `構造 蛇 { 宣言 尾 は 生成 蛇 }  試み { 取込 甲 } 捕捉 ( 物 ) { }  生成 蛇`. -/
def selfContained : List Node :=
  [.classDeclaration "蛇" none [.variableDeclaration .here "尾" (.create "蛇")],
    .attempt [.importing "甲"] "物" [],
    .create "蛇"]

/-- A procedure that calls itself is in the heap from the start. -/
theorem execute_ends_of_loopFree_selfContained :
    let state := (Run.makeProcedure ⟨"環", [], [.giveBack (.call "環" [])], ⟨0⟩⟩).after
      (Run.root.after .initial)
    Node.allLoopFree selfContained = true ∧
      ∃ enough, ((ofFuel circularModules enough).execute selfContained ⟨0⟩).haltsBy
        Halt.isOutOfFuel state = false := by
  intro state
  have hfound (name : String) (statements : List Node)
      (h : circularModules.modules name = .ok statements) :
      name ∈ ["甲", "乙"] ∧ Node.allLoopFree statements = true := by
    unfold circularModules at h
    dsimp only at h
    split at h
    next hname =>
      cases h
      exact ⟨by simp [hname], rfl⟩
    next =>
      split at h
      next hname =>
        cases h
        exact ⟨by simp [hname], rfl⟩
      next => cases h
  have hempty : (Run.root.after .initial).heap.Holds (Node.allLoopFree · = true) :=
    ⟨fun _ => rfl, fun _ => rfl⟩
  have hheap : state.heap.Holds (Node.allLoopFree · = true) := hempty.addProcedure rfl
  obtain ⟨⟨enough, hhalts, _⟩, _⟩ := execute_ends_of_loopFree circularModules ["甲", "乙"]
    (fun name statements h => (hfound name statements h).1)
    (fun name statements h => (hfound name statements h).2) state hheap selfContained rfl ⟨0⟩
  exact ⟨rfl, enough, hhalts⟩

end Engine

end Wabun
