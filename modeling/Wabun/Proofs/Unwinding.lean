import Wabun.Proofs.DepthLimit
import Wabun.Proofs.Probing

/-!
A run leaves no trace of how deep it went. However a part of a run ends, as
many calls are open as before it and the same modules are being loaded, and on
the way no more calls are open than there may be. So between the steps of a
session nothing is open and nothing is being loaded.
-/

namespace Wabun

namespace Event

/-- How many calls are open after an event, if so many are before it. -/
def depthAfter (depth : Nat) : Event → Nat
  | .entered count => count
  | .closed (.call _) | .closed (.members _) => depth - 1
  | _ => depth

/-- How many calls are open after some events. -/
def depthTold (depth : Nat) (events : List Event) : Nat :=
  events.foldl depthAfter depth

/-- At every moment of the events no more calls are open than the limit says. -/
def HeedsLimit (limit depth : Nat) (events : List Event) : Prop :=
  ∀ earlier later, events = earlier ++ later → depthTold depth earlier ≤ limit

variable {limit depth : Nat} {events later : List Event}

theorem depthAfter_of_isPlain {event : Event} (h : event.IsPlain) (depth : Nat) :
    event.depthAfter depth = depth := by
  cases event with
  | entered _ | closed _ => cases h
  | _ => rfl

theorem depthTold_append (depth : Nat) (events later : List Event) :
    depthTold depth (events ++ later) = depthTold (depthTold depth events) later :=
  List.foldl_append

theorem heedsLimit_nil (h : depth ≤ limit) : HeedsLimit limit depth [] := by
  intro earlier rest hevents
  obtain ⟨rfl, rfl⟩ := List.append_eq_nil_iff.mp hevents.symm
  exact h

theorem HeedsLimit.append (h : HeedsLimit limit depth events)
    (h' : HeedsLimit limit (depthTold depth events) later) :
    HeedsLimit limit depth (events ++ later) := by
  intro earlier rest hevents
  rcases List.append_eq_append_iff.mp hevents with ⟨middle, rfl, hlater⟩ | ⟨middle, hfirst, _⟩
  · rw [depthTold_append]
    exact h' middle rest hlater
  · exact h earlier middle hfirst

/-- One event has two moments, before it and after it. -/
theorem heedsLimit_singleton {event : Event} (hbefore : depth ≤ limit)
    (hafter : event.depthAfter depth ≤ limit) : HeedsLimit limit depth [event] := by
  intro earlier rest hevents
  cases earlier with
  | nil => exact hbefore
  | cons first more =>
      obtain ⟨rfl, hmore⟩ := List.cons.inj hevents
      obtain ⟨rfl, _⟩ := List.append_eq_nil_iff.mp hmore.symm
      exact hafter

end Event

open Event (HeedsLimit depthTold)

namespace State

/-- Between the two states every call that began has come to its end and every
module that was begun is done with, and the limit was heeded all the way. -/
structure Unwound (limit : Nat) (before after : State) : Prop where
  depth : after.depth = before.depth
  loading : after.loading = before.loading
  moments : ∃ events, before.Tells events after ∧
    depthTold before.depth events = after.depth ∧ HeedsLimit limit before.depth events

namespace Unwound

variable {limit : Nat} {s t u : State}

/-- A change that tells of nothing that is opened or closed. -/
theorem of_tells {events : List Event} (hdepth : t.depth = s.depth)
    (hloading : t.loading = s.loading) (htells : s.Tells events t)
    (htold : depthTold s.depth events = s.depth) (hheeds : HeedsLimit limit s.depth events) :
    Unwound limit s t :=
  ⟨hdepth, hloading, events, htells, htold.trans hdepth.symm, hheeds⟩

theorem refl (h : s.depth ≤ limit) : Unwound limit s s :=
  of_tells rfl rfl (.of_journal_eq rfl) rfl (Event.heedsLimit_nil h)

theorem trans (h : Unwound limit s t) (h' : Unwound limit t u) : Unwound limit s u := by
  obtain ⟨events, htells, htold, hheeds⟩ := h.moments
  obtain ⟨later, htells', htold', hheeds'⟩ := h'.moments
  refine ⟨h'.depth.trans h.depth, h'.loading.trans h.loading, events ++ later,
    htells.append htells', ?_, hheeds.append ?_⟩
  · rw [Event.depthTold_append, htold, htold']
  · rw [htold]
    exact hheeds'

/-- Nothing else of a state matters. -/
theorem of_same (h : Unwound limit s t) (hdepth : u.depth = t.depth)
    (hloading : u.loading = t.loading) (hjournal : u.journal = t.journal) :
    Unwound limit s u := by
  obtain ⟨events, htells, htold, hheeds⟩ := h.moments
  exact ⟨hdepth.trans h.depth, hloading.trans h.loading, events, hjournal.trans htells,
    htold.trans hdepth.symm, hheeds⟩

/-- An event that leaves the number of open calls alone. -/
theorem tell (event : Event) (hevent : event.depthAfter s.depth = s.depth)
    (h : s.depth ≤ limit) : Unwound limit s (s.tell event) :=
  of_tells rfl rfl (tells_tell s event) hevent
    (Event.heedsLimit_singleton h (Nat.le_trans (Nat.le_of_eq hevent) h))

/-- A call that unwinds leaves the state as it was before its beginning. -/
theorem call {span : Span}
    (hspan : ∀ depth, (Event.closed span).depthAfter depth = depth - 1)
    (hroom : s.depth < limit) (h : Unwound limit (s.enter span) t) :
    Unwound limit s (t.leave span) := by
  obtain ⟨events, htells, htold, hheeds⟩ := h.moments
  have hdepth : t.depth = s.depth + 1 := h.depth
  have hentered : HeedsLimit limit s.depth [.entered (s.depth + 1)] :=
    Event.heedsLimit_singleton (Nat.le_of_lt hroom) hroom
  have hopened : HeedsLimit limit (s.depth + 1) [.opened span] :=
    Event.heedsLimit_singleton hroom hroom
  have hclosed : HeedsLimit limit t.depth [.closed span] := by
    apply Event.heedsLimit_singleton
    · omega
    · rw [hspan]
      omega
  refine .of_tells ?_ h.loading
    (((tells_enter s span).append htells).append (tells_leave t span)) ?_ ?_
  · change t.depth - 1 = s.depth
    omega
  · rw [Event.depthTold_append, Event.depthTold_append]
    change depthTold (depthTold (s.enter span).depth events) [.closed span] = s.depth
    rw [htold]
    change (Event.closed span).depthAfter t.depth = s.depth
    rw [hspan]
    omega
  · refine ((hentered.append hopened).append hheeds).append ?_
    rw [Event.depthTold_append]
    change HeedsLimit limit (depthTold (s.enter span).depth events) [.closed span]
    rw [htold]
    exact hclosed

theorem depth_le (h : Unwound limit s t) (hdepth : s.depth ≤ limit) : t.depth ≤ limit :=
  h.depth ▸ hdepth

end Unwound

end State

open State (Unwound)

namespace Run

variable {α β : Type}

/-- From every state that heeds the limit the part unwinds, however it ends. -/
def Unwinds (limit : Nat) (part : Run α) : Prop :=
  ∀ state, state.depth ≤ limit → Unwound limit state (part.after state)

namespace Unwinds

variable {limit : Nat} {part : Run α}

theorem bind {next : α → Run β} (hpart : Unwinds limit part)
    (hnext : ∀ value, Unwinds limit (next value)) : Unwinds limit (part >>= next) := by
  intro state hdepth
  have hfirst := hpart state hdepth
  cases hrun : part state with
  | ok value middle =>
      rw [after_of_ok hrun] at hfirst
      rw [after_bind_of_ok hrun]
      exact hfirst.trans (hnext value middle (hfirst.depth_le hdepth))
  | error halt middle =>
      rw [after_of_error hrun] at hfirst
      rw [after_bind_of_error hrun]
      exact hfirst

theorem pure (value : α) : Unwinds limit (Pure.pure value : Run α) :=
  fun _ => .refl

theorem outOfFuel : Unwinds limit (Run.outOfFuel : Run α) :=
  fun _ => .refl

theorem raise (fault : Fault) : Unwinds limit (Run.raise fault : Run α) :=
  fun _ => .tell (.raised fault) rfl

theorem record {event : Event} (h : ∀ depth, event.depthAfter depth = depth) :
    Unwinds limit (Run.record event) :=
  fun state => .tell event (h state.depth)

/-- A part that changes the heap only. -/
theorem of_heap {part : Run α}
    (h : ∀ state, ∃ heap, part.after state = { state with heap }) : Unwinds limit part := by
  intro state hdepth
  obtain ⟨heap, hafter⟩ := h state
  rw [hafter]
  exact .of_tells rfl rfl (.of_journal_eq rfl) rfl (Event.heedsLimit_nil hdepth)

/-- A span whose end leaves the number of open calls alone. -/
theorem during (span : Span) (hspan : ∀ depth, (Event.closed span).depthAfter depth = depth)
    (h : Unwinds limit part) : Unwinds limit (Run.during span part) := by
  intro state hdepth
  rw [Run.during, after_between]
  have hopened : Unwound limit state (state.tell (.opened span)) := .tell _ rfl hdepth
  have hpart := h _ (hopened.depth_le hdepth)
  have hdone := hopened.trans hpart
  exact hdone.trans (.tell _ (hspan _) (hdone.depth_le hdepth))

/-- The end of a call takes back what its beginning added. -/
theorem nested {host : Host} {span : Span}
    (hspan : ∀ depth, (Event.closed span).depthAfter depth = depth - 1)
    (h : Unwinds host.maxDepth part) : Unwinds host.maxDepth (Run.nested host span part) := by
  intro state hdepth
  by_cases hfull : host.maxDepth ≤ state.depth
  · rw [after, nested_of_full hfull]
    exact .tell _ rfl hdepth
  · have hroom : state.depth < host.maxDepth := Nat.lt_of_not_le hfull
    have hpart := h (state.enter span) hroom
    rw [after, nested_of_room hfull, ← after, after_between]
    exact hpart.call hspan hroom

/-- A module is among those being loaded while it runs, and only then. -/
theorem loadModule {host : Host} {engine : Engine} (name : String)
    (h : Unwinds limit (engine.runModule host name)) :
    Unwinds limit (engine.loadModule host name) := by
  intro state hdepth
  cases hloaded : state.modules.get? name with
  | some bindings =>
      rw [after_of_ok (engine.loadModule_of_loaded hloaded)]
      exact .refl hdepth
  | none =>
      cases hloading : state.loading.contains name with
      | true =>
          rw [after, engine.loadModule_of_loading hloaded hloading]
          exact .tell _ rfl hdepth
      | false =>
          have hrun := h { state with loading := name :: state.loading } hdepth
          obtain ⟨events, htells, htold, hheeds⟩ := hrun.moments
          rw [after, engine.loadModule_of_new hloaded hloading]
          have hleft (middle : State)
              (hmiddle : (engine.runModule host name).after
                { state with loading := name :: state.loading } = middle) :
              Unwound limit state (Engine.leaveModule middle) := by
            subst hmiddle
            refine ⟨hrun.depth, ?_, events, htells, htold, hheeds⟩
            rw [Engine.leaveModule, hrun.loading, List.tail_cons]
          cases hmodule : engine.runModule host name
              { state with loading := name :: state.loading } with
          | ok bindings middle =>
              have hdone := hleft middle (after_of_ok hmodule)
              have htold := Unwound.tell (.moduleLoaded name) rfl (hdone.depth_le hdepth)
              exact (hdone.trans htold).of_same rfl rfl rfl
          | error halt middle => exact hleft middle (after_of_error hmodule)

theorem makeScope (scope : Scope) : Unwinds limit (Run.makeScope scope) := by
  refine bind (of_heap fun _ => ⟨_, rfl⟩) fun ref => ?_
  exact bind (record fun _ => rfl) fun _ => pure ref

theorem define (scope : ScopeRef) (name : String) (value : Value) :
    Unwinds limit (Run.define scope name value) :=
  bind (of_heap fun _ => ⟨_, rfl⟩) fun _ => record fun _ => rfl

theorem defineAll (scope : ScopeRef) (bindings : List (String × Value)) :
    Unwinds limit (Run.defineAll scope bindings) := by
  induction bindings with
  | nil => exact pure _
  | cons binding rest ih => exact bind (define scope binding.1 binding.2) fun _ => ih

theorem attempt {engine : Engine} (body : List Node) (caught : String) (handler : List Node)
    (scope : ScopeRef) (hbody : Unwinds limit (engine.block body scope))
    (hhandler : ∀ inner, Unwinds limit (engine.execute handler inner)) :
    Unwinds limit (engine.attempt body caught handler scope) := by
  intro state hdepth
  have htried := hbody.during (.attempt caught) (fun _ => rfl) state hdepth
  rcases engine.attempt_cases body caught handler scope state with
    hsame | ⟨value, middle, hthrown, hcaught⟩
  · rw [after, hsame]
    exact htried
  · rw [after_of_error hthrown] at htried
    rw [after, hcaught]
    have hhandled := (makeScope (.childOf scope)).bind fun inner =>
      (define inner caught value).bind fun _ => hhandler inner
    exact htried.trans (hhandled middle (htried.depth_le hdepth))

end Unwinds

end Run

open Run (Unwinds)

/-- That a run unwinds, part by part. -/
def Congruence.unwinding (host : Host) : Congruence host host where
  Rel _ part _ := Unwinds host.maxDepth part
  Inside part _ := Unwinds host.maxDepth part
  Loading _ part _ := Unwinds host.maxDepth part
  Admits := Node.AnyBody
  hereditary := Node.hereditary_anyBody
  Evaluates := Node.AnyNode
  supplied := Node.supplied_anyNode _
  alike := .refl host
  pure _ := .pure _
  bind := .bind
  raise fault _ := .raise fault
  askThen _ _ _ h := fun state => h state.heap state.heap.holds_anyBody state
  make _ _ _ := .of_heap fun _ => ⟨_, rfl⟩
  change _ _ _ := .of_heap fun _ => ⟨_, rfl⟩
  record hplain := .record (Event.depthAfter_of_isPlain hplain)
  makeScope := .makeScope
  compare _ _ := .of_heap fun state => ⟨state.heap, rfl⟩
  bindAll scope _ := .defineAll scope _
  andThen hfirst hnext _ hrest := by
    refine hfirst.bind fun flow => ?_
    cases flow with
    | normal => exact hrest
    | returned value =>
        rw [hnext]
        exact .pure _
  giveBack value := (Unwinds.record fun _ => rfl).bind fun _ => .pure _
  call ref _ _ h := (h.nested fun _ => rfl).bind fun _ =>
    (Unwinds.record fun _ => rfl).bind fun _ => .pure _
  members ref _ _ h := h.nested fun _ => rfl
  module name _ _ h := h.during (.module name) fun _ => rfl
  loadModule name h := .loadModule name h
  attempt body caught handler scope hbody hhandler :=
    .attempt body caught handler scope hbody hhandler
  admits := Node.anyBody
  evaluates := Node.anyNode
  misplaced _ := .raise _
  outOfFuel := .outOfFuel
  inside h := h
  loading h := h

/-- The states between the steps of a session, whatever is around each step. -/
inductive State.Reached : State → Prop
  | initial : Reached .initial
  | reset {state} : Reached state → Reached state.reset
  | root {state} : Reached state → Reached (Run.root.after state)
  | evaluate {state} (host : Host) (fuel : Nat) (node : Node) (scope : ScopeRef) :
    Reached state → Reached (((Engine.ofFuel host fuel).evaluate node scope).after state)
  | execute {state} (host : Host) (fuel : Nat) (body : List Node) (scope : ScopeRef) :
    Reached state → Reached (((Engine.ofFuel host fuel).execute body scope).after state)
  | program {state} (host : Host) (node : Node) (scope : ScopeRef) :
    Reached state → Reached ((Run.program host node scope).after state)
  | loadModule {state} (host : Host) (fuel : Nat) (name : String) :
    Reached state → Reached (((Engine.ofFuel host fuel).loadModule host name).after state)

namespace Engine

theorem program_unwinds (host : Host) (node : Node) (scope : ScopeRef) :
    Unwinds host.maxDepth (Run.program host node scope) := by
  have hengines := (Congruence.unwinding host).ofFuel Run.plenty
  refine Unwinds.bind (hengines.execute node.statements scope) fun flow => ?_
  cases flow with
  | normal => exact .pure none
  | returned value => exact .pure (some value)

/-- Between the steps of a session no call is open and no module is being loaded. -/
theorem depth_loading_of_reached {state : State} (h : state.Reached) :
    state.depth = 0 ∧ state.loading = [] := by
  have hstep {α : Type} {limit : Nat} {part : Run α} {state : State} (hpart : Unwinds limit part)
      (hstate : state.depth = 0 ∧ state.loading = []) :
      (part.after state).depth = 0 ∧ (part.after state).loading = [] := by
    have hunwound := hpart state (by omega)
    exact ⟨hunwound.depth.trans hstate.1, hunwound.loading.trans hstate.2⟩
  induction h with
  | initial | reset _ _ => exact ⟨rfl, rfl⟩
  | root _ ih => exact hstep (Unwinds.makeScope .root : Unwinds 0 _) ih
  | evaluate host fuel node scope _ ih =>
      exact hstep (((Congruence.unwinding host).ofFuel fuel).evaluate node scope) ih
  | execute host fuel body scope _ ih =>
      exact hstep (((Congruence.unwinding host).ofFuel fuel).execute body scope) ih
  | program host node scope _ ih => exact hstep (program_unwinds host node scope) ih
  | loadModule host fuel name _ ih =>
      exact hstep (((Congruence.unwinding host).ofFuel fuel).loadModule name) ih

/-- No more calls are open than there may be. -/
theorem upheld_depth (host : Host) :
    State.Upheld host fun state => state.depth ≤ host.maxDepth where
  same h hdepth _ _ := Nat.le_trans (Nat.le_of_eq hdepth) h
  call _ hroom := hroom
  callEnd h := Nat.le_trans (Nat.sub_le _ 1) h
  module h _ _ := h
  moduleEnd h _ := h
  moduleLoaded h _ := h

/-- However expressions, statements, programs and modules end, they leave as many
calls open as before and the same modules being loaded, and heed the limit all the
way, in what they tell and at every moment inside of them; so nothing is open between
the steps of a session. -/
theorem runs_unwind :
    (∀ (host : Host) (fuel : Nat) (state : State), state.depth ≤ host.maxDepth →
      let engine := ofFuel host fuel
      (∀ node scope,
        Unwound host.maxDepth state ((engine.evaluate node scope).after state)) ∧
      (∀ body scope,
        Unwound host.maxDepth state ((engine.execute body scope).after state)) ∧
      (∀ node scope,
        Unwound host.maxDepth state ((Run.program host node scope).after state)) ∧
      (∀ name,
        Unwound host.maxDepth state ((engine.loadModule host name).after state))) ∧
    (∀ (host : Host) (state moment : State), state.depth ≤ host.maxDepth →
      state.Meets host moment → moment.depth ≤ host.maxDepth) ∧
    ∀ state : State, state.Reached → state.depth = 0 ∧ state.loading = [] := by
  refine ⟨?_, ?_, ?_⟩
  · intro host fuel state hdepth engine
    have hengine := (Congruence.unwinding host).ofFuel fuel
    refine ⟨?_, ?_, ?_, ?_⟩
    · intro node scope
      exact hengine.evaluate node scope state hdepth
    · intro body scope
      exact hengine.execute body scope state hdepth
    · intro node scope
      exact program_unwinds host node scope state hdepth
    · intro name
      exact hengine.loadModule name state hdepth
  · intro host state moment hdepth hmeets
    exact hmeets.holds_of_upheld (upheld_depth host) hdepth
  · intro state hreached
    exact depth_loading_of_reached hreached

/-- The statements of `関数 環 () { () を 環 を 返却 }  () を 環`. -/
def endlessCall : List Node :=
  [.function "環" [] [.giveBack (.call "環" [])], .call "環" []]

/-- From within a call of a module, one more call is too many for the second turn. The
first one begins at a moment when as many calls are open as there may be. -/
theorem runs_unwind_endlessCall :
    let host := { Host.standard with maxDepth := 2 }
    let state := { Run.root.after .initial with depth := 1, loading := ["本"] }
    let part := (ofFuel host 9).execute endlessCall ⟨0⟩
    let declared := ((ofFuel host 9).execute (endlessCall.take 1) ⟨0⟩).after state
    state.depth ≤ host.maxDepth ∧ part.haltsBy Halt.isTooDeep state = true ∧
      (part.after state).depth = 1 ∧ (part.after state).loading = ["本"] ∧
      ∃ moment, declared.Meets host moment ∧ moment.depth = 2 ∧ moment.depth ≤ host.maxDepth := by
  intro host state part declared
  have hdepth : state.depth ≤ host.maxDepth := by decide
  obtain ⟨hunwind, hmoments, _⟩ := runs_unwind
  obtain ⟨_, hexecute, _⟩ := hunwind host 9 state hdepth
  have hunwound := hexecute endlessCall ⟨0⟩
  have hresolve : Run.resolve "環" ⟨0⟩ declared = .ok (.procedure ⟨0⟩) declared := by
    have hpath : Path.segments "環" = ("環", []) := by decide
    have hfound : declared.heap.forest.get? ⟨0⟩ "環" = some (.procedure ⟨0⟩) := by decide +kernel
    have hasked : Run.ask (fun heap => heap.forest.get? ⟨0⟩ "環") declared =
      .ok (declared.heap.forest.get? ⟨0⟩ "環") declared := rfl
    rw [hfound] at hasked
    rw [Run.resolve, hpath]
    exact Run.bind_of_ok hasked
  have hbuiltin : host.builtins.get? "環" = none := by decide
  have hmeets := State.meets_call hbuiltin hresolve (by decide +kernel) (by decide)
  have hheeds := hmoments host declared _ (by decide) hmeets
  exact ⟨hdepth, by decide +kernel, hunwound.depth, hunwound.loading, _, hmeets, rfl, hheeds⟩

end Engine

end Wabun
