import Wabun.Proofs.Congruence
import Wabun.Proofs.Isolation
import Wabun.Proofs.Journal

/-!
Two runs in tandem. At each moment the states of the two runs have something in common,
at least the heap, the modules and the depth of calls, and the runs end together: with
one result, or halted in one way. If an effect that is the same in both keeps what they
have in common, then so do all parts of runs that are put together from such effects, be
they caught or inside of calls and modules. So two runs go in tandem if they do wherever
they differ.
-/

namespace Wabun

namespace Run

variable {α β : Type}

/-- The outcomes have one result or are halted in one such way, in states that go with each
other. -/
inductive EndsAlike (same : State → State → Prop) (halts : Halt → Prop) :
    EStateM.Result Halt State α → EStateM.Result Halt State α → Prop
  | ok {value : α} {state other : State} : same state other →
    EndsAlike same halts (.ok value state) (.ok value other)
  | error {halt : Halt} {state other : State} : halts halt → same state other →
    EndsAlike same halts (.error halt state) (.error halt other)

/-- From states that go with each other the parts end alike. -/
def Alike (same : State → State → Prop) (halts : Halt → Prop) (part part' : Run α) : Prop :=
  ∀ state other, same state other → EndsAlike same halts (part state) (part' other)

end Run

open Run (EndsAlike Alike)

/-- What two runs have in common, and the ways in which they are halted. It is kept by
every effect that leaves admitted bodies in the heap. -/
structure Tandem (admits : List Node → Prop) where
  Same : State → State → Prop
  Halts : Halt → Prop
  outOfFuel : Halts .outOfFuel
  plain : ∀ fault : Fault, fault.isMisplaced = false → Halts (.fault fault)
  holds : ∀ {state other : State}, Same state other → state.heap.Holds admits
  heap : ∀ {state other : State}, Same state other → state.heap = other.heap
  modules : ∀ {state other : State}, Same state other → state.modules = other.modules
  loading : ∀ {state other : State}, Same state other → state.loading = other.loading
  depth : ∀ {state other : State}, Same state other → state.depth = other.depth
  tell : ∀ {state other : State} (event : Event), Same state other →
    Same (state.tell event) (other.tell event)
  withHeap : ∀ {state other : State} {heap : Heap}, Same state other → heap.Holds admits →
    Same { state with heap } { other with heap }
  withModules : ∀ {state other : State} (modules : Table (Table Value)), Same state other →
    Same { state with modules } { other with modules }
  withLoading : ∀ {state other : State} (loading : List String), Same state other →
    Same { state with loading } { other with loading }
  withDepth : ∀ {state other : State} (depth : Nat), Same state other →
    Same { state with depth } { other with depth }

namespace Tandem

variable {admits : List Node → Prop} (tandem : Tandem admits) {α β : Type}

/-- The parts go in tandem. -/
abbrev Rel (part part' : Run α) : Prop := Alike tandem.Same tandem.Halts part part'

section States

variable {state other : State} (h : tandem.Same state other)
include h

theorem enter (span : Span) : tandem.Same (state.enter span) (other.enter span) := by
  have htold := tandem.tell (.opened span) (tandem.tell (.entered (state.depth + 1)) h)
  have hdepth := tandem.withDepth (state.depth + 1) htold
  unfold State.enter
  rw [← tandem.depth h]
  exact hdepth

theorem leave (span : Span) : tandem.Same (state.leave span) (other.leave span) := by
  have hdepth := tandem.withDepth (state.depth - 1) (tandem.tell (.closed span) h)
  unfold State.leave
  rw [← tandem.depth h]
  exact hdepth

theorem load (name : String) :
    tandem.Same { state with loading := name :: state.loading }
      { other with loading := name :: other.loading } := by
  rw [← tandem.loading h]
  exact tandem.withLoading _ h

theorem leaveModule : tandem.Same (Engine.leaveModule state) (Engine.leaveModule other) := by
  unfold Engine.leaveModule
  rw [← tandem.loading h]
  exact tandem.withLoading _ h

end States

section Parts

variable {part part' : Run α}

theorem pure (value : α) : tandem.Rel (Pure.pure value) (Pure.pure value) :=
  fun _ _ h => .ok h

theorem raise {fault : Fault} (hfault : tandem.Halts (.fault fault)) :
    tandem.Rel (Run.raise fault : Run α) (Run.raise fault) :=
  fun _ _ h => .error hfault (tandem.tell _ h)

theorem halted : tandem.Rel (Run.outOfFuel : Run α) Run.outOfFuel :=
  fun _ _ h => .error tandem.outOfFuel h

theorem record (event : Event) : tandem.Rel (Run.record event) (Run.record event) :=
  fun _ _ h => .ok (tandem.tell event h)

variable {tandem} in
theorem bind {next next' : α → Run β} (hpart : tandem.Rel part part')
    (hnext : ∀ value, tandem.Rel (next value) (next' value)) :
    tandem.Rel (part >>= next) (part' >>= next') := by
  intro state other h
  have hends := hpart state other h
  generalize hrun : part state = result, hrun' : part' other = result' at hends
  cases hends with
  | ok hmiddle =>
      rw [Run.bind_of_ok hrun, Run.bind_of_ok hrun']
      exact hnext _ _ _ hmiddle
  | error hhalt hmiddle =>
      rw [Run.bind_of_error hrun, Run.bind_of_error hrun']
      exact .error hhalt hmiddle

theorem askThen (question : Heap → α) {next next' : α → Run β}
    (h : ∀ heap, heap.Holds admits → tandem.Rel (next (question heap)) (next' (question heap))) :
    tandem.Rel (Run.ask question >>= next) (Run.ask question >>= next') := by
  intro state other hsame
  change EndsAlike _ _ (next (question state.heap) state) (next' (question other.heap) other)
  rw [← tandem.heap hsame]
  exact h state.heap (tandem.holds hsame) state other hsame

theorem ask {question question' : Heap → α} (h : ∀ heap, question heap = question' heap) :
    tandem.Rel (Run.ask question) (Run.ask question') := by
  intro state other hsame
  rw [Run.ask, Run.ask, h, tandem.heap hsame]
  exact .ok hsame

theorem make {build : Heap → α × Heap}
    (h : ∀ heap, heap.Holds admits → (build heap).2.Holds admits) :
    tandem.Rel (Run.make build) (Run.make build) := by
  intro state other hsame
  have hmade := tandem.withHeap hsame (h state.heap (tandem.holds hsame))
  rw [Run.make, Run.make, ← tandem.heap hsame]
  exact .ok hmade

theorem change {update : Heap → Heap}
    (h : ∀ heap, heap.Holds admits → (update heap).Holds admits) :
    tandem.Rel (Run.change update) (Run.change update) := by
  intro state other hsame
  have hchanged := tandem.withHeap hsame (h state.heap (tandem.holds hsame))
  rw [Run.change, Run.change, ← tandem.heap hsame]
  exact .ok hchanged

theorem makeScope (scope : Scope) : tandem.Rel (Run.makeScope scope) (Run.makeScope scope) := by
  refine bind (tandem.make fun _ hheap => hheap.of_same rfl rfl) fun _ => ?_
  exact bind (tandem.record _) fun _ => tandem.pure _

theorem define (scope : ScopeRef) (name : String) (value : Value) :
    tandem.Rel (Run.define scope name value) (Run.define scope name value) := by
  refine bind (tandem.change fun _ hheap => ?_) fun _ => tandem.record _
  exact hheap.of_same rfl rfl

theorem defineAll (scope : ScopeRef) (bindings : List (String × Value)) :
    tandem.Rel (Run.defineAll scope bindings) (Run.defineAll scope bindings) := by
  induction bindings with
  | nil => exact tandem.pure _
  | cons binding rest ih => exact bind (tandem.define scope binding.1 binding.2) fun _ => ih

theorem between {enter leave : State → State} (h : tandem.Rel part part')
    (henter : ∀ {state other : State}, tandem.Same state other →
      tandem.Same (enter state) (enter other))
    (hleave : ∀ {state other : State}, tandem.Same state other →
      tandem.Same (leave state) (leave other)) :
    tandem.Rel (Run.between enter leave part) (Run.between enter leave part') := by
  intro state other hsame
  have hends := h _ _ (henter hsame)
  generalize hrun : part (enter state) = result, hrun' : part' (enter other) = result' at hends
  cases hends with
  | ok hmiddle =>
      rw [Run.between_of_ok hrun, Run.between_of_ok hrun']
      exact .ok (hleave hmiddle)
  | error hhalt hmiddle =>
      rw [Run.between_of_error hrun, Run.between_of_error hrun']
      exact .error hhalt (hleave hmiddle)

theorem during (span : Span) (h : tandem.Rel part part') :
    tandem.Rel (Run.during span part) (Run.during span part') :=
  tandem.between h (tandem.tell _) (tandem.tell _)

theorem nested {host other : Host} (hlimit : host.maxDepth = other.maxDepth) (span : Span)
    (h : tandem.Rel part part') :
    tandem.Rel (Run.nested host span part) (Run.nested other span part') := by
  intro state state' hsame
  have hfull : host.maxDepth ≤ state.depth ↔ other.maxDepth ≤ state'.depth := by
    rw [hlimit, tandem.depth hsame]
  by_cases hcase : host.maxDepth ≤ state.depth
  · rw [Run.nested_of_full hcase, Run.nested_of_full (hfull.mp hcase), hlimit]
    exact tandem.raise (tandem.plain _ rfl) _ _ hsame
  · rw [Run.nested_of_room hcase, Run.nested_of_room (hcase ∘ hfull.mpr)]
    exact tandem.between h (fun hsame => tandem.enter hsame span)
      (fun hsame => tandem.leave hsame span) state state' hsame

theorem loadModule {host other : Host} {engine engine' : Engine} (name : String)
    (h : tandem.Rel (engine.runModule host name) (engine'.runModule other name)) :
    tandem.Rel (engine.loadModule host name) (engine'.loadModule other name) := by
  intro state state' hsame
  cases hloaded : state.modules.get? name with
  | some bindings =>
      have hloaded' := tandem.modules hsame ▸ hloaded
      rw [engine.loadModule_of_loaded hloaded, engine'.loadModule_of_loaded hloaded']
      exact .ok hsame
  | none =>
      have hloaded' := tandem.modules hsame ▸ hloaded
      cases hloading : state.loading.contains name with
      | true =>
          have hloading' := tandem.loading hsame ▸ hloading
          rw [engine.loadModule_of_loading hloaded hloading,
            engine'.loadModule_of_loading hloaded' hloading', tandem.loading hsame]
          exact tandem.raise (tandem.plain _ rfl) _ _ hsame
      | false =>
          have hloading' := tandem.loading hsame ▸ hloading
          have hends := h _ _ (tandem.load hsame name)
          rw [engine.loadModule_of_new hloaded hloading,
            engine'.loadModule_of_new hloaded' hloading']
          generalize engine.runModule host name { state with loading := name :: state.loading } =
            result, engine'.runModule other name { state' with loading := name :: state'.loading } =
            result' at hends ⊢
          cases hends with
          | @ok bindings middle middle' hmiddle =>
              have hdone := tandem.tell (.moduleLoaded name) (tandem.leaveModule hmiddle)
              have hkept := tandem.withModules (middle.modules.insert name bindings) hdone
              dsimp only
              rw [← tandem.modules hmiddle]
              exact .ok hkept
          | error hhalt hmiddle => exact .error hhalt (tandem.leaveModule hmiddle)

/-- A value that one run throws is thrown by the other one, so that both go on. -/
theorem attempt {engine engine' : Engine} (body : List Node) (caught : String)
    (handler : List Node) (scope : ScopeRef)
    (hbody : tandem.Rel (engine.block body scope) (engine'.block body scope))
    (hhandler : ∀ inner,
      tandem.Rel (engine.execute handler inner) (engine'.execute handler inner)) :
    tandem.Rel (engine.attempt body caught handler scope)
      (engine'.attempt body caught handler scope) := by
  intro state other hsame
  have hends := tandem.during (.attempt caught) hbody state other hsame
  unfold Engine.attempt
  generalize Run.during (.attempt caught) (engine.block body scope) state = result,
    Run.during (.attempt caught) (engine'.block body scope) other = result' at hends ⊢
  cases hends with
  | ok hmiddle => exact .ok hmiddle
  | @error halt middle middle' hhalt hmiddle =>
      have hhandled (value : Value) := bind (tandem.makeScope (.childOf scope)) fun inner =>
        bind (tandem.define inner caught value) fun _ => hhandler inner
      cases halt with
      | outOfFuel => exact .error hhalt hmiddle
      | fault fault =>
          cases fault with
          | thrown value => exact hhandled value middle middle' hmiddle
          | _ => exact .error hhalt hmiddle

end Parts

/-- Two runs go in tandem, part by part, if they do where they compare values and where they
make the bindings of a module. -/
def calculus {host other : Host} (halike : host.Alike other)
    (hlimit : host.maxDepth = other.maxDepth) (hadmits : Node.Hereditary admits)
    {evaluates : Node → Prop} (hevaluates : Node.Supplied admits evaluates)
    (hcompare : ∀ heap x y, Heap.equal heap host.listing x y = Heap.equal heap other.listing x y)
    (hbindAll : ∀ scope bindings, tandem.Rel (Run.defineAll scope (host.listing.list bindings))
      (Run.defineAll scope (other.listing.list bindings))) : Calculus host other where
  Rel _ part part' := tandem.Rel part part'
  Inside part part' := tandem.Rel part part'
  Loading _ part part' := tandem.Rel part part'
  Admits := admits
  hereditary := hadmits
  Evaluates := evaluates
  supplied := hevaluates
  alike := halike
  pure _ := tandem.pure _
  bind := bind
  raise fault hfault := tandem.raise (tandem.plain fault hfault)
  askThen question _ _ h := tandem.askThen question h
  make _ _ h := tandem.make h
  change _ _ h := tandem.change h
  record _ := tandem.record _
  makeScope := tandem.makeScope
  compare x y := tandem.ask fun heap => hcompare heap x y
  bindAll := hbindAll
  andThen hfirst hnext hnext' hrest := by
    refine bind hfirst fun flow => ?_
    cases flow with
    | normal => exact hrest
    | returned value =>
        rw [hnext, hnext']
        exact tandem.pure _
  giveBack _ := bind (tandem.record _) fun _ => tandem.pure _
  call _ _ _ h := bind (tandem.nested hlimit _ h) fun _ =>
    bind (tandem.record _) fun _ => tandem.pure _
  members _ _ _ h := tandem.nested hlimit _ h
  loadModule name h := tandem.loadModule name h
  attempt body caught handler scope hbody hhandler :=
    tandem.attempt body caught handler scope hbody hhandler

end Tandem

end Wabun
