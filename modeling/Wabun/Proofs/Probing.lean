import Wabun.Proofs.Congruence
import Wabun.Proofs.Journal

/-!
The states inside of a run. A probe is put before and after each expression, each
statement and each list of statements. A run meets a state if a probe that is silent in
all others shows in it. So if a probe never shows that is silent where some property
holds, the property holds of every state that is met. This is so for properties of what
is open in a state that are kept where calls and modules begin and end.
-/

namespace Wabun

open Run

/-- Runs a part with a probe before and after it. -/
def Run.probed {α : Type} (probe : Run Unit) (part : Run α) : Run α := do
  probe
  let value ← part
  probe
  return value

/-- The engine with a probe around each expression, each statement and each list of
statements. -/
def Engine.probed (host : Host) (probe : Run Unit) : Nat → Engine
  | 0 =>
    { evaluate := fun _ _ => outOfFuel
      execute := fun _ _ => outOfFuel }
  | fuel + 1 =>
    { evaluate := fun node scope =>
        Run.probed probe ((probed host probe fuel).evaluateStep host node scope)
      execute := fun body scope => Run.probed probe (Engine.executeEach (fun node =>
        Run.probed probe ((probed host probe fuel).statement host fuel node scope)) body) }

theorem Run.probed_silent {α : Type} (part : Run α) : Run.probed (pure ()) part = part := by
  funext state
  change EStateM.bind part _ state = _
  rw [EStateM.bind]
  cases part state with
  | ok value final => rfl
  | error halt final => rfl

/-- With a probe that is always silent the engine is the usual one. -/
theorem Engine.probed_silent (host : Host) (fuel : Nat) :
    Engine.probed host (pure ()) fuel = ofFuel host fuel := by
  induction fuel with
  | zero => rfl
  | succ fuel ih =>
      rw [Engine.probed, ih, ofFuel]
      simp only [Run.probed_silent, executeStep_eq_executeEach]

/-- A part that halts at its probe. -/
theorem Run.probed_of_error {α : Type} {probe : Run Unit} {part : Run α} {state final : State}
    {halt : Halt} (h : probe state = .error halt final) :
    Run.probed probe part state = .error halt final :=
  bind_of_error h

/-- The run comes through the moment: a probe that is silent in all other states shows. -/
def Run.Meets {α : Type} (part : Run Unit → Run α) (start moment : State) : Prop :=
  ∃ probe : Run Unit, (∀ state, state ≠ moment → probe state = .ok () state) ∧
    part probe start ≠ part (pure ()) start

/-- The moments inside of a run of an expression, of statements or of a module. -/
inductive State.Meets (host : Host) (start : State) : State → Prop
  | evaluate {moment : State} (fuel : Nat) (node : Node) (scope : ScopeRef)
    (h : Run.Meets (fun probe => (Engine.probed host probe fuel).evaluate node scope)
      start moment) : Meets host start moment
  | execute {moment : State} (fuel : Nat) (body : List Node) (scope : ScopeRef)
    (h : Run.Meets (fun probe => (Engine.probed host probe fuel).execute body scope)
      start moment) : Meets host start moment
  | loadModule {moment : State} (fuel : Nat) (name : String)
    (h : Run.Meets (fun probe => (Engine.probed host probe fuel).loadModule host name)
      start moment) : Meets host start moment

/-- A property of what is open in a state. It does not depend on the rest, and it is kept
where a call or a module begins, where it ends, and where a module becomes loaded. -/
structure State.Upheld (host : Host) (holds : State → Prop) : Prop where
  same : ∀ {s t : State}, holds s → t.depth = s.depth → t.loading = s.loading →
    t.modules = s.modules → holds t
  call : ∀ {s : State}, holds s → s.depth < host.maxDepth → holds { s with depth := s.depth + 1 }
  callEnd : ∀ {s : State}, holds s → holds { s with depth := s.depth - 1 }
  module : ∀ {s : State} {name : String}, holds s → s.modules.get? name = none →
    s.loading.contains name = false → holds { s with loading := name :: s.loading }
  moduleEnd : ∀ {s : State} {name : String} {rest : List String}, holds s →
    s.loading = name :: rest → holds { s with loading := rest }
  moduleLoaded : ∀ {s : State} {name : String} {rest : List String} {bindings : Table Value},
    holds s → s.loading = name :: rest →
    holds { s with loading := rest, modules := s.modules.insert name bindings }

namespace Run

variable {α β : Type} {host : Host} {holds : State → Prop}

/-- From every state in which the property holds the two parts do the same. However they
end the property holds, and the same modules are being loaded as before. -/
def Upholds (holds : State → Prop) (part part' : Run α) : Prop :=
  ∀ state, holds state → part' state = part state ∧ holds (part.after state) ∧
    (part.after state).loading = state.loading

namespace Upholds

variable {part part' : Run α}

theorem bind {next next' : α → Run β} (hpart : Upholds holds part part')
    (hnext : ∀ value, Upholds holds (next value) (next' value)) :
    Upholds holds (part >>= next) (part' >>= next') := by
  intro state hstate
  obtain ⟨hsame, hholds, hloading⟩ := hpart state hstate
  cases hrun : part state with
  | ok value middle =>
      rw [after_of_ok hrun] at hholds hloading
      rw [hrun] at hsame
      rw [bind_of_ok hsame, bind_of_ok hrun, after_bind_of_ok hrun, ← hloading]
      exact hnext value middle hholds
  | error halt middle =>
      rw [after_of_error hrun] at hholds hloading
      rw [hrun] at hsame
      rw [bind_of_error hsame, bind_of_error hrun, after_bind_of_error hrun]
      exact ⟨rfl, hholds, hloading⟩

theorem outOfFuel : Upholds holds (Run.outOfFuel : Run α) Run.outOfFuel :=
  fun _ hstate => ⟨rfl, hstate, rfl⟩

theorem pure (value : α) : Upholds holds (Pure.pure value : Run α) (Pure.pure value) :=
  fun _ hstate => ⟨rfl, hstate, rfl⟩

theorem andThen {first first' : Run Flow} {next next' : Flow → Run Flow}
    (hfirst : Upholds holds first first')
    (hreturned : ∀ value, next (.returned value) = Pure.pure (.returned value))
    (hreturned' : ∀ value, next' (.returned value) = Pure.pure (.returned value))
    (hnext : Upholds holds (next .normal) (next' .normal)) :
    Upholds holds (first >>= next) (first' >>= next') := by
  refine hfirst.bind fun flow => ?_
  cases flow with
  | normal => exact hnext
  | returned value =>
      rw [hreturned value, hreturned' value]
      exact pure _

/-- Silent probes change nothing. -/
theorem probed {probe : Run Unit} (hprobe : ∀ state, holds state → probe state = .ok () state)
    (h : Upholds holds part part') : Upholds holds part (Run.probed probe part') := by
  intro state hstate
  obtain ⟨hsame, hholds, hloading⟩ := h state hstate
  refine ⟨?_, hholds, hloading⟩
  rw [Run.probed, bind_of_ok (hprobe state hstate)]
  cases hrun : part state with
  | ok value middle =>
      rw [after_of_ok hrun] at hholds
      rw [bind_of_ok (hsame.trans hrun), bind_of_ok (hprobe middle hholds)]
      rfl
  | error halt middle => rw [bind_of_error (hsame.trans hrun)]

/-- A part between two changes of the state. -/
theorem between {enter leave : State → State} {state : State} (h : Upholds holds part part')
    (henter : holds (enter state))
    (hleave : ∀ later, holds later → later.loading = (enter state).loading →
      holds (leave later) ∧ (leave later).loading = state.loading) :
    Run.between enter leave part' state = Run.between enter leave part state ∧
      holds ((Run.between enter leave part).after state) ∧
      ((Run.between enter leave part).after state).loading = state.loading := by
  obtain ⟨hsame, hholds, hloading⟩ := h (enter state) henter
  refine ⟨?_, ?_⟩
  · rw [Run.between, Run.between, hsame]
  · rw [after_between]
    exact hleave _ hholds hloading

variable (law : State.Upheld host holds)
include law

/-- A part that opens and closes nothing. -/
theorem of_open (h : ∀ state, (part.after state).depth = state.depth ∧
    (part.after state).loading = state.loading ∧ (part.after state).modules = state.modules) :
    Upholds holds part part := by
  intro state hstate
  obtain ⟨hdepth, hloading, hmodules⟩ := h state
  exact ⟨rfl, law.same hstate hdepth hloading hmodules, hloading⟩

theorem raise (fault : Fault) : Upholds holds (Run.raise fault : Run α) (Run.raise fault) :=
  of_open law fun _ => ⟨rfl, rfl, rfl⟩

theorem record (event : Event) : Upholds holds (Run.record event) (Run.record event) :=
  of_open law fun _ => ⟨rfl, rfl, rfl⟩

theorem makeScope (scope : Scope) : Upholds holds (Run.makeScope scope) (Run.makeScope scope) :=
  of_open law fun _ => ⟨rfl, rfl, rfl⟩

theorem define (scope : ScopeRef) (name : String) (value : Value) :
    Upholds holds (Run.define scope name value) (Run.define scope name value) :=
  of_open law fun _ => ⟨rfl, rfl, rfl⟩

theorem defineAll (scope : ScopeRef) (bindings : List (String × Value)) :
    Upholds holds (Run.defineAll scope bindings) (Run.defineAll scope bindings) := by
  induction bindings with
  | nil => exact pure _
  | cons binding rest ih => exact bind (define law scope binding.1 binding.2) fun _ => ih

theorem during (span : Span) (h : Upholds holds part part') :
    Upholds holds (Run.during span part) (Run.during span part') := by
  intro state hstate
  refine between h (law.same hstate rfl rfl rfl) fun later hlater hloading => ?_
  exact ⟨law.same hlater rfl rfl rfl, hloading⟩

theorem nested (span : Span) (h : Upholds holds part part') :
    Upholds holds (Run.nested host span part) (Run.nested host span part') := by
  intro state hstate
  by_cases hfull : host.maxDepth ≤ state.depth
  · rw [after, nested_of_full hfull, nested_of_full hfull]
    exact raise law _ state hstate
  · rw [after, nested_of_room hfull, nested_of_room hfull]
    have hroom := law.call hstate (Nat.lt_of_not_le hfull)
    refine between h (law.same hroom rfl rfl rfl) fun later hlater hloading => ?_
    exact ⟨law.same (law.callEnd hlater) rfl rfl rfl, hloading⟩

theorem attempt {engine engine' : Engine} (body : List Node) (caught : String)
    (handler : List Node) (scope : ScopeRef)
    (hbody : Upholds holds (engine.block body scope) (engine'.block body scope))
    (hhandler : ∀ inner, Upholds holds (engine.execute handler inner)
      (engine'.execute handler inner)) :
    Upholds holds (engine.attempt body caught handler scope)
      (engine'.attempt body caught handler scope) := by
  intro state hstate
  obtain ⟨hsame, hholds, hloading⟩ := hbody.during law (.attempt caught) state hstate
  by_cases hthrown : ∃ value middle, Run.during (.attempt caught) (engine.block body scope) state =
      .error (.fault (.thrown value)) middle
  · obtain ⟨value, middle, hthrown⟩ := hthrown
    rw [after_of_error hthrown] at hholds hloading
    have hhandled := (makeScope law (.childOf scope)).bind fun inner =>
      (define law inner caught value).bind fun _ => hhandler inner
    rw [after, Engine.attempt_of_thrown hthrown, Engine.attempt_of_thrown (hsame.trans hthrown),
      ← hloading]
    exact hhandled middle hholds
  · have hnot : ∀ value middle, Run.during (.attempt caught) (engine.block body scope) state ≠
        .error (.fault (.thrown value)) middle :=
      fun value middle hrun => hthrown ⟨value, middle, hrun⟩
    rw [after, Engine.attempt_of_not_thrown hnot, Engine.attempt_of_not_thrown (hsame ▸ hnot)]
    exact ⟨hsame, hholds, hloading⟩

/-- While a module runs it is on top of those that are being loaded. -/
theorem loadModule {engine engine' : Engine} (name : String)
    (h : Upholds holds (engine.runModule host name) (engine'.runModule host name)) :
    Upholds holds (engine.loadModule host name) (engine'.loadModule host name) := by
  intro state hstate
  cases hloaded : state.modules.get? name with
  | some bindings =>
      rw [after, engine.loadModule_of_loaded hloaded, engine'.loadModule_of_loaded hloaded]
      exact ⟨rfl, hstate, rfl⟩
  | none =>
      cases hloading : state.loading.contains name with
      | true =>
          rw [after, engine.loadModule_of_loading hloaded hloading,
            engine'.loadModule_of_loading hloaded hloading]
          exact raise law _ state hstate
      | false =>
          let entered : State := { state with loading := name :: state.loading }
          obtain ⟨hsame, hholds, hkept⟩ := h entered (law.module hstate hloaded hloading)
          rw [after, engine.loadModule_of_new hloaded hloading,
            engine'.loadModule_of_new hloaded hloading, hsame]
          refine ⟨rfl, ?_⟩
          have hleft (middle : State)
              (hmiddle : (engine.runModule host name).after entered = middle) :
              holds middle ∧ middle.loading = name :: state.loading ∧
                (Engine.leaveModule middle).loading = state.loading := by
            subst hmiddle
            exact ⟨hholds, hkept, congrArg List.tail hkept⟩
          cases hrun : engine.runModule host name entered with
          | ok bindings middle =>
              obtain ⟨hmiddle, htop, hrest⟩ := hleft middle (after_of_ok hrun)
              exact ⟨law.same (law.moduleLoaded hmiddle htop) rfl hrest rfl, hrest⟩
          | error halt middle =>
              obtain ⟨hmiddle, htop, hrest⟩ := hleft middle (after_of_error hrun)
              exact ⟨law.same (law.moduleEnd hmiddle htop) rfl hrest rfl, hrest⟩

end Upholds

end Run

/-- That two runs do the same and keep a property up, part by part. -/
def Congruence.upholding {host : Host} {holds : State → Prop} (law : State.Upheld host holds) :
    Congruence host host where
  Rel _ part part' := Upholds holds part part'
  Inside part part' := Upholds holds part part'
  Loading _ part part' := Upholds holds part part'
  Admits := Node.AnyBody
  hereditary := Node.hereditary_anyBody
  Evaluates := Node.AnyNode
  supplied := Node.supplied_anyNode _
  alike := .refl host
  pure _ := .pure _
  bind := .bind
  raise fault _ := .raise law fault
  askThen _ _ _ h := fun state => h state.heap state.heap.holds_anyBody state
  make _ _ _ := .of_open law fun _ => ⟨rfl, rfl, rfl⟩
  change _ _ _ := .of_open law fun _ => ⟨rfl, rfl, rfl⟩
  record _ := .record law _
  makeScope := .makeScope law
  compare _ _ := .of_open law fun _ => ⟨rfl, rfl, rfl⟩
  bindAll scope _ := .defineAll law scope _
  andThen := .andThen
  giveBack _ := (Upholds.record law _).bind fun _ => .pure _
  call _ _ _ h := (h.nested law _).bind fun _ => (Upholds.record law _).bind fun _ => .pure _
  members _ _ _ h := h.nested law _
  module name _ _ h := h.during law (.module name)
  loadModule name h := .loadModule law name h
  attempt body caught handler scope hbody hhandler :=
    .attempt law body caught handler scope hbody hhandler
  admits := Node.anyBody
  evaluates := Node.anyNode
  misplaced _ := .raise law _
  outOfFuel := .outOfFuel
  inside h := h
  loading h := h

section Moments

variable {host : Host} {holds : State → Prop}

/-- What silent probes do not show in, meets only states in which the property holds. -/
theorem Run.Meets.holds_of_upholds {α : Type} {part : Run Unit → Run α} {usual : Run α}
    {start moment : State} (h : Run.Meets part start moment) (hstart : holds start)
    (hpart : ∀ probe : Run Unit, (∀ state, holds state → probe state = .ok () state) →
      Upholds holds usual (part probe)) : holds moment := by
  obtain ⟨probe, hprobe, hshows⟩ := h
  refine Classical.byContradiction fun hnot => hshows ?_
  have hsilent (state : State) (hstate : holds state) : probe state = .ok () state := by
    apply hprobe
    rintro rfl
    exact hnot hstate
  have hprobed := (hpart probe hsilent start hstart).1
  have husual := (hpart (pure ()) (fun _ _ => rfl) start hstart).1
  exact hprobed.trans husual.symm

variable (law : State.Upheld host holds)
include law

/-- Probes that are silent where the property holds change nothing, by induction on the
fuel. -/
theorem Congruence.probed {probe : Run Unit}
    (hprobe : ∀ state, holds state → probe state = .ok () state) (fuel : Nat) :
    (Congruence.upholding law).Engines (Engine.ofFuel host fuel)
      (Engine.probed host probe fuel) := by
  induction fuel with
  | zero => exact ⟨fun _ _ => Upholds.outOfFuel, fun _ _ => Upholds.outOfFuel⟩
  | succ fuel ih =>
      constructor
      · intro node scope
        exact (ih.evaluateStep node scope).probed hprobe
      · intro body scope
        have hbody := (Congruence.upholding law).executeEach fun node (_ : node ∈ body) =>
          Upholds.probed hprobe (ih.statement node scope fun condition inner =>
            ih.loop condition inner scope fuel)
        rw [← Engine.executeStep_eq_executeEach] at hbody
        exact hbody.probed hprobe

/-- A property that is kept up holds at every moment. -/
theorem State.Meets.holds_of_upheld {start moment : State} (h : State.Meets host start moment)
    (hstart : holds start) : holds moment := by
  cases h with
  | evaluate fuel node scope h =>
      exact h.holds_of_upholds hstart fun _ hprobe =>
        (Congruence.probed law hprobe fuel).evaluate node scope
  | execute fuel body scope h =>
      exact h.holds_of_upholds hstart fun _ hprobe =>
        (Congruence.probed law hprobe fuel).execute body scope
  | loadModule fuel name h =>
      exact h.holds_of_upholds hstart fun _ hprobe =>
        (Congruence.probed law hprobe fuel).loadModule name

end Moments

section Beginnings

variable {host : Host} {state : State}

/-- Whatever a run ends with, it does not end with one or the other halt. -/
theorem Run.exists_halt_ne {α : Type} (part : Run α) (state : State) :
    ∃ halt, ∀ final, part state ≠ .error halt final := by
  cases hrun : part state with
  | ok value final => exact ⟨.outOfFuel, fun _ => by simp⟩
  | error halt final =>
      cases halt with
      | outOfFuel => exact ⟨.fault (.undefined ""), fun _ => by simp⟩
      | fault fault => exact ⟨.outOfFuel, fun _ => by simp⟩

/-- A run meets the moment if it is halted by every probe that halts there. -/
theorem Run.Meets.of_halted {α : Type} {part : Run Unit → Run α} {start moment : State}
    (h : ∀ probe : Run Unit, (∀ state, state ≠ moment → probe state = .ok () state) →
      ∀ halt, probe moment = .error halt moment → ∃ final, part probe start = .error halt final) :
    Run.Meets part start moment := by
  classical
  obtain ⟨halt, hother⟩ := Run.exists_halt_ne (part (pure ())) start
  let probe : Run Unit := fun state =>
    if state = moment then .error halt state else .ok () state
  have hsilent (state : State) (hne : state ≠ moment) : probe state = .ok () state := if_neg hne
  obtain ⟨final, hhalted⟩ := h probe hsilent halt (if_pos rfl)
  exact ⟨probe, hsilent, fun hsame => hother final (hsame.symm.trans hhalted)⟩

/-- The beginning of the statements of a module is met. -/
theorem State.meets_module {name : String} {statements : List Node}
    (hnew : state.modules.get? name = none) (hloading : state.loading.contains name = false)
    (hfound : host.modules name = .ok statements) :
    state.Meets host (((makeScope .root).after
      { state with loading := name :: state.loading }).tell (.opened (.module name))) := by
  refine .loadModule 1 name (.of_halted fun probe _ halt hhalt => ?_)
  let entered : State := { state with loading := name :: state.loading }
  have hmodule : ∃ middle, (Engine.probed host probe 1).runModule host name entered =
      .error halt middle := by
    unfold Engine.runModule
    rw [hfound]
    have hmade : makeScope .root entered = .ok ⟨state.heap.forest.size⟩ _ := rfl
    exact ⟨_, (bind_of_ok hmade).trans (bind_of_error (between_of_error (probed_of_error hhalt)))⟩
  obtain ⟨middle, hmodule⟩ := hmodule
  rw [Engine.loadModule_of_new _ hnew hloading, hmodule]
  exact ⟨_, rfl⟩

/-- The beginning of the body of a procedure is met where the procedure is called. -/
theorem State.meets_call {callee : String} {scope : ScopeRef} {ref : ProcedureRef}
    (hbuiltin : host.builtins.get? callee = none)
    (hresolve : resolve callee scope state = .ok (.procedure ref) state)
    (hparams : (state.heap.procedure ref).params = []) (hroom : ¬ host.maxDepth ≤ state.depth) :
    state.Meets host (((makeScope (.childOf (state.heap.procedure ref).closure)).after
      state).enter (.call ref)) := by
  refine .evaluate 2 (.call callee []) scope (.of_halted fun probe hsilent halt hhalt => ?_)
  have happly : ∃ final, (Engine.probed host probe 1).apply host ref [] state =
      .error halt final := by
    let made := (makeScope (.childOf (state.heap.procedure ref).closure)).after state
    have hmade : makeScope (.childOf (state.heap.procedure ref).closure) state =
      .ok ⟨state.heap.forest.size⟩ made := rfl
    have hasked : ask (·.procedure ref) state = .ok (state.heap.procedure ref) state := rfl
    have hroom' : ¬ host.maxDepth ≤ made.depth := hroom
    have hbody : ∃ final, nested host (.call ref) ((Engine.probed host probe 1).execute
        (state.heap.procedure ref).body ⟨state.heap.forest.size⟩) made = .error halt final :=
      ⟨_, (nested_of_room hroom' _ _).trans (between_of_error (probed_of_error hhalt))⟩
    obtain ⟨final, hbody⟩ := hbody
    unfold Engine.apply
    rw [bind_of_ok hasked, hparams]
    exact ⟨final, (bind_of_ok hmade).trans ((bind_of_ok rfl).trans (bind_of_error hbody))⟩
  have hstart : probe state = .ok () state := by
    apply hsilent
    intro hsame
    have hdepth : state.depth = state.depth + 1 := congrArg State.depth hsame
    omega
  obtain ⟨final, happly⟩ := happly
  have hcall : (Engine.probed host probe 1).call host callee [] scope state =
      .error halt final := by
    unfold Engine.call
    refine (bind_of_ok rfl).trans ?_
    rw [hbuiltin]
    exact (bind_of_ok hresolve).trans happly
  exact ⟨final, (bind_of_ok hstart).trans (bind_of_error hcall)⟩

end Beginnings

end Wabun
