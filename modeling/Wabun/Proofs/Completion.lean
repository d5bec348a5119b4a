import Wabun.Proofs.Course
import Wabun.Proofs.Isolation
import Wabun.Proofs.Journal

/-!
What happens after a fault is raised or a value is returned. Every part of a
run goes its course, so a fault that is not a thrown value ends the run and
nothing happens after it; a thrown value ends the run or is the next thing that
is bound, by the innermost attempt that is under way; and what is returned from
within a call is what the call gives.
-/

namespace Wabun

open Event (spansTold openSpans)

namespace Event

def madeScope? : Event → Option Nat
  | .scopeMade scope => some scope.index
  | _ => none

theorem IsPlain.madeScope? {event : Event} (h : event.IsPlain) : event.madeScope? = none := by
  cases event with
  | scopeMade _ => cases h
  | _ => rfl

/-- The scopes that were made, by their indices. -/
def madeScopes (events : List Event) : List Nat :=
  events.filterMap madeScope?

end Event

open Event (madeScopes)

namespace State

/-- What happened between two states, where every scope that is new is told of
in its turn. -/
structure Recounts (before : State) (events : List Event) (after : State) : Prop where
  tells : before.Tells events after
  made : ∃ count, madeScopes events = List.range' before.heap.forest.size count ∧
    after.heap.forest.size = before.heap.forest.size + count

variable {s t u : State} {events later : List Event}

theorem Recounts.of_same (hjournal : t.journal = s.journal)
    (hsize : t.heap.forest.size = s.heap.forest.size) : s.Recounts [] t :=
  ⟨.of_journal_eq hjournal, 0, rfl, hsize⟩

theorem Recounts.append (h : s.Recounts events t) (h' : t.Recounts later u) :
    s.Recounts (events ++ later) u := by
  obtain ⟨count, hmade, hsize⟩ := h.made
  obtain ⟨more, hmade', hsize'⟩ := h'.made
  refine ⟨h.tells.append h'.tells, count + more, ?_, by omega⟩
  have happend : madeScopes (events ++ later) = madeScopes events ++ madeScopes later :=
    List.filterMap_append
  rw [happend, hmade, hmade', hsize, List.range'_append_1]

theorem recounts_tell {event : Event} (hevent : event.madeScope? = none) (s : State) :
    s.Recounts [event] (s.tell event) := by
  refine ⟨tells_tell s event, 0, ?_, rfl⟩
  exact List.filterMap_cons_none hevent

theorem Recounts.during {span : Span} (h : (s.tell (.opened span)).Recounts events t)
    (h' : (t.tell (.closed span)).Recounts later u) :
    s.Recounts (.opened span :: (events ++ .closed span :: later)) u := by
  have hopened : s.Recounts [.opened span] (s.tell (.opened span)) := recounts_tell rfl s
  have hclosed : t.Recounts [.closed span] (t.tell (.closed span)) := recounts_tell rfl t
  exact hopened.append (h.append (hclosed.append h'))

theorem Recounts.nested {span : Span} (h : (s.enter span).Recounts events t)
    (h' : (t.leave span).Recounts later u) :
    s.Recounts (.entered (s.depth + 1) :: .opened span :: (events ++ .closed span :: later))
      u := by
  have hentered : s.Recounts [.entered (s.depth + 1), .opened span] (s.enter span) :=
    ⟨tells_enter s span, 0, rfl, rfl⟩
  have hleft : t.Recounts [.closed span] (t.leave span) := ⟨tells_leave t span, 0, rfl, rfl⟩
  exact hentered.append (h.append (hleft.append h'))

theorem recounts_makeScope (scope : Scope) (s : State) :
    s.Recounts [.scopeMade ⟨s.heap.forest.size⟩] ((Run.makeScope scope).after s) :=
  ⟨rfl, 1, rfl, Forest.size_add s.heap.forest scope⟩

theorem recounts_define (scope : ScopeRef) (name : String) (value : Value) (s : State) :
    s.Recounts [.bound scope name value] ((Run.define scope name value).after s) :=
  ⟨rfl, 0, rfl, Forest.size_modify s.heap.forest scope _⟩

/-- A scope that is told of is newer than the run and than all that were told of
before. -/
theorem Recounts.fresh {earlier : List Event} {scope : ScopeRef}
    (h : s.Recounts (earlier ++ .scopeMade scope :: later) t) :
    s.heap.forest.size ≤ scope.index ∧ .scopeMade scope ∉ earlier := by
  obtain ⟨count, hmade, _⟩ := h.made
  have hsplit : madeScopes (earlier ++ .scopeMade scope :: later) =
      madeScopes earlier ++ scope.index :: madeScopes later := by
    rw [madeScopes, List.filterMap_append]
    rfl
  rw [hsplit] at hmade
  constructor
  · have hmem : scope.index ∈ List.range' s.heap.forest.size count := by
      rw [← hmade]
      simp
    exact (List.mem_range'_1.mp hmem).1
  · intro hearlier
    have hnodup : (madeScopes earlier ++ scope.index :: madeScopes later).Nodup := by
      rw [hmade]
      exact List.nodup_range'
    have hmem : scope.index ∈ madeScopes earlier :=
      List.mem_filterMap.mpr ⟨_, hearlier, rfl⟩
    exact (List.nodup_append.mp hnodup).2.2 _ hmem _ List.mem_cons_self rfl

end State

/-- What is told of a call, with its result: it is refused, or its body runs as a span
and the call gives what the body returned, or it is halted together with its body. -/
inductive Event.TellsCall (ref : ProcedureRef) :
    List Event → EStateM.Result Halt State Value → Prop
  | refused {before final} (fault : Fault) : (∀ event ∈ before, event.IsNeutral) →
    TellsCall ref (before ++ [.raised fault]) (.error (.fault fault) final)
  | gave {before inner final} {flow : Flow} : (∀ event ∈ before, event.IsNeutral) →
    Orderly inner flow.outcome →
    TellsCall ref (before ++ .opened (.call ref) :: (inner ++ [.closed (.call ref),
      .gave flow.value])) (.ok flow.value final)
  | halted {before inner halt final} : (∀ event ∈ before, event.IsNeutral) →
    Orderly inner (.halted halt) →
    TellsCall ref (before ++ .opened (.call ref) :: (inner ++ [.closed (.call ref)]))
      (.error halt final)

namespace Event.TellsCall

variable {ref : ProcedureRef} {events before : List Event}
  {result : EStateM.Result Halt State Value}

/-- The call goes on as it does behind other things. -/
theorem prepend (h : TellsCall ref events result) (hbefore : ∀ event ∈ before, event.IsNeutral) :
    TellsCall ref (before ++ events) result := by
  cases h with
  | refused fault h =>
      rw [← List.append_assoc]
      exact .refused fault (List.forall_mem_append.mpr ⟨hbefore, h⟩)
  | gave h horderly =>
      rw [← List.append_assoc]
      exact .gave (List.forall_mem_append.mpr ⟨hbefore, h⟩) horderly
  | halted h horderly =>
      rw [← List.append_assoc]
      exact .halted (List.forall_mem_append.mpr ⟨hbefore, h⟩) horderly

theorem orderly (h : TellsCall ref events result) :
    Orderly events (.of (fun _ => .normal) result) := by
  cases h with
  | refused fault h => exact (Orderly.signal (.raised fault)).neutral_append h
  | gave h horderly => exact (horderly.call ref).neutral_append h
  | halted h horderly =>
      refine Orderly.neutral_append (horderly.halted fun fault _ => ?_) h
      exact Signal.takenUp_raised (fun _ => Span.noConfusion) fault

/-- A call that ends with a value has it from its last event. -/
theorem exists_of_ok {value : Value} {final : State} (h : TellsCall ref events (.ok value final)) :
    ∃ told, events = told ++ [.closed (.call ref), .gave value] := by
  generalize hresult : EStateM.Result.ok value final = result at h
  cases h with
  | gave _ _ =>
      cases hresult
      exact ⟨_, (List.append_assoc _ (_ :: _) _).symm⟩
  | refused | halted => cases hresult

/-- What is no neutral event stands behind those. -/
theorem exists_behind {value : Value} {tail earlier later : List Event}
    (h : ∀ event ∈ before, event.IsNeutral)
    (hevents : before ++ tail = earlier ++ .returned value :: later) :
    ∃ middle, earlier = before ++ middle ∧ tail = middle ++ .returned value :: later := by
  rcases List.append_eq_append_iff.mp hevents
    with ⟨middle, hearlier, htail⟩ | ⟨middle, hbefore, hrest⟩
  · exact ⟨middle, hearlier, htail⟩
  · cases middle with
    | nil => exact ⟨[], by simpa using hbefore.symm, hrest.symm⟩
    | cons event middle =>
        obtain ⟨rfl, _⟩ := List.cons.inj hrest
        cases h (.returned value) (by simp [hbefore])

/-- A return that is inside a span, with attempts only between them, ends what is
inside the span. -/
theorem inside_of_returned {span : Span} {inner closing earlier later : List Event}
    {spans : List Span} {outcome : Outcome} {value : Value} (h : Orderly inner outcome)
    (hclosing : .returned value ∉ closing)
    (hevents : .opened span :: (inner ++ closing) = earlier ++ .returned value :: later)
    (hspans : openSpans earlier = spans ++ [span])
    (hattempts : ∀ span ∈ spans, ∃ caught, span = .attempt caught) :
    later = spans.map .closed ++ closing ∧ outcome = .returned value := by
  cases earlier with
  | nil => cases hevents
  | cons first earlier =>
      obtain ⟨rfl, hinside⟩ := List.cons.inj hevents
      obtain ⟨middle, hinner, rfl⟩ : ∃ middle,
          inner = earlier ++ .returned value :: middle ∧ later = middle ++ closing := by
        rcases List.append_eq_append_iff.mp hinside with ⟨rest, _, hrest⟩ | ⟨rest, hinner, hrest⟩
        · exact absurd (by simp [hrest]) hclosing
        · cases rest with
          | nil =>
              rw [List.nil_append] at hrest
              exact absurd (hrest ▸ List.mem_cons_self) hclosing
          | cons event rest =>
              obtain ⟨rfl, rfl⟩ := List.cons.inj hrest
              exact ⟨rest, hinner, rfl⟩
      have hopen : openSpans (.opened span :: earlier) = openSpans earlier ++ [span] :=
        h.nests earlier _ hinner [span]
      obtain rfl := List.append_cancel_right (hspans.symm.trans hopen)
      have hunwinds := h.settles earlier (.returned value) middle hinner
      obtain ⟨rfl, houtcome⟩ := hunwinds.eq_of_through fun span hmem => by
        obtain ⟨caught, rfl⟩ := hattempts span hmem
        rfl
      exact ⟨rfl, houtcome⟩

/-- A return that only attempts are around within the call ends it. -/
theorem eq_of_returned {earlier later : List Event} {value : Value} {spans : List Span}
    (h : TellsCall ref events result) (hevents : events = earlier ++ .returned value :: later)
    (hspans : openSpans earlier = spans ++ [.call ref])
    (hattempts : ∀ span ∈ spans, ∃ caught, span = .attempt caught) :
    later = spans.map .closed ++ [.closed (.call ref), .gave value] ∧
      ∃ final, result = .ok value final := by
  cases h with
  | refused fault hbefore =>
      obtain ⟨middle, _, htail⟩ := exists_behind hbefore hevents
      have hmem : Event.returned value ∈ [Event.raised fault] := by simp [htail]
      cases List.mem_singleton.mp hmem
  | gave hbefore horderly =>
      obtain ⟨middle, rfl, htail⟩ := exists_behind hbefore hevents
      rw [openSpans, Event.spansTold_append, Event.spansTold_of_isNeutral hbefore] at hspans
      obtain ⟨rfl, houtcome⟩ := inside_of_returned horderly (by simp) htail hspans hattempts
      obtain rfl := Flow.eq_returned_of_outcome houtcome
      exact ⟨rfl, _, rfl⟩
  | halted hbefore horderly =>
      obtain ⟨middle, rfl, htail⟩ := exists_behind hbefore hevents
      rw [openSpans, Event.spansTold_append, Event.spansTold_of_isNeutral hbefore] at hspans
      obtain ⟨_, houtcome⟩ := inside_of_returned horderly (by simp) htail hspans hattempts
      cases houtcome

end Event.TellsCall

namespace Run

variable {α β : Type}

/-- From every state the events of the part are a course with its outcome. -/
def GoesInOrder (reading : α → Flow) (part : Run α) : Prop :=
  ∀ state, ∃ events, state.Recounts events (part.after state) ∧
    Orderly events (.of reading (part state))

namespace GoesInOrder

variable {reading : α → Flow} {part : Run α}

theorem pure (value : α) : GoesInOrder reading (Pure.pure value) :=
  fun _ => ⟨[], .of_same rfl rfl, .nil _⟩

theorem outOfFuel : GoesInOrder reading (Run.outOfFuel : Run α) :=
  fun _ => ⟨[], .of_same rfl rfl, .nil _⟩

theorem raise (fault : Fault) : GoesInOrder reading (Run.raise fault : Run α) :=
  fun state => ⟨[.raised fault], State.recounts_tell rfl state, .signal (.raised fault)⟩

theorem record {event : Event} (h : event.IsNeutral) (hscope : event.madeScope? = none) :
    GoesInOrder (fun _ => .normal) (Run.record event) :=
  fun state => ⟨[event], State.recounts_tell hscope state, .neutral event h _⟩

/-- A part that changes the heap only, and no scope of it. -/
theorem of_heap {part : Run α} (hok : ∀ state, ∃ value heap,
      part state = .ok value { state with heap } ∧
        heap.forest.size = state.heap.forest.size) :
    GoesInOrder (fun _ => .normal) part := by
  intro state
  obtain ⟨value, heap, hrun, hsize⟩ := hok state
  refine ⟨[], ?_, .nil _⟩
  rw [after_of_ok hrun]
  exact .of_same rfl hsize

theorem bind {reading : β → Flow} {next : α → Run β}
    (hpart : GoesInOrder (fun _ => .normal) part)
    (hnext : ∀ value, GoesInOrder reading (next value)) :
    GoesInOrder reading (part >>= next) := by
  intro state
  obtain ⟨events, hrecounts, horderly⟩ := hpart state
  cases hrun : part state with
  | error halt middle =>
      rw [after_of_error hrun] at hrecounts
      rw [hrun] at horderly
      refine ⟨events, ?_, ?_⟩
      · rw [after_bind_of_error hrun]
        exact hrecounts
      · rw [bind_of_error hrun]
        exact horderly
  | ok value middle =>
      rw [after_of_ok hrun] at hrecounts
      rw [hrun] at horderly
      obtain ⟨later, hrecounts', horderly'⟩ := hnext value middle
      refine ⟨events ++ later, ?_, ?_⟩
      · rw [after_bind_of_ok hrun]
        exact hrecounts.append hrecounts'
      · rw [bind_of_ok hrun]
        exact horderly.append horderly'

theorem makeScope (scope : Scope) : GoesInOrder (fun _ => .normal) (Run.makeScope scope) :=
  fun state => ⟨_, State.recounts_makeScope scope state, .neutral (.scopeMade _) trivial _⟩

theorem define (scope : ScopeRef) (name : String) (value : Value) :
    GoesInOrder (fun _ => .normal) (Run.define scope name value) :=
  fun state => ⟨_, State.recounts_define scope name value state,
    .neutral (.bound scope name value) trivial _⟩

theorem defineAll (scope : ScopeRef) (bindings : List (String × Value)) :
    GoesInOrder (fun _ => .normal) (Run.defineAll scope bindings) := by
  induction bindings with
  | nil => exact pure _
  | cons binding rest ih => exact bind (define scope binding.1 binding.2) fun _ => ih

theorem andThen {first : Run Flow} {next : Flow → Run Flow} (hfirst : GoesInOrder id first)
    (hreturned : ∀ value, next (.returned value) = Pure.pure (.returned value))
    (hnormal : GoesInOrder id (next .normal)) : GoesInOrder id (first >>= next) := by
  intro state
  obtain ⟨events, hrecounts, horderly⟩ := hfirst state
  cases hrun : first state with
  | error halt middle =>
      rw [after_of_error hrun] at hrecounts
      rw [hrun] at horderly
      rw [after_bind_of_error hrun, bind_of_error hrun]
      exact ⟨events, hrecounts, horderly⟩
  | ok flow middle =>
      rw [after_of_ok hrun] at hrecounts
      rw [hrun] at horderly
      rw [after_bind_of_ok hrun, bind_of_ok hrun]
      cases flow with
      | returned value =>
          rw [hreturned]
          exact ⟨events, hrecounts, horderly⟩
      | normal =>
          obtain ⟨later, hrecounts', horderly'⟩ := hnormal middle
          exact ⟨events ++ later, hrecounts.append hrecounts', horderly.append horderly'⟩

theorem giveBack (value : Value) :
    GoesInOrder id (Run.record (.returned value) >>= fun _ => Pure.pure (.returned value)) :=
  fun state => ⟨[.returned value], State.recounts_tell rfl state, .signal (.returned value)⟩

section Spans

variable {host : Host} {part : Run Flow} {state middle : State} {halt : Halt}

/-- A call that is halted closes its span and is halted for the same reason. -/
theorem nested_halted (h : GoesInOrder id part) {span : Span}
    (hspan : ∀ caught, span ≠ .attempt caught)
    (hbody : part (state.enter span) = .error halt middle) :
    ∃ events, state.Recounts events (middle.leave span) ∧ Orderly events (.halted halt) := by
  obtain ⟨events, hrecounts, horderly⟩ := h (state.enter span)
  rw [after_of_error hbody] at hrecounts
  rw [hbody] at horderly
  have hhalted : Orderly (.opened span :: (events ++ [.closed span])) (.halted halt) :=
    horderly.halted fun fault _ => Signal.takenUp_raised hspan fault
  exact ⟨_, hrecounts.nested (.of_same rfl rfl), hhalted.neutral_cons trivial⟩

/-- What a call tells of, with a body that goes in order. -/
theorem tellsCall (h : GoesInOrder id part) (ref : ProcedureRef) (state : State) :
    ∃ events, state.Recounts events
        ((Run.nested host (.call ref) part >>= fun flow => give flow.value).after state) ∧
      Event.TellsCall ref events
        ((Run.nested host (.call ref) part >>= fun flow => give flow.value) state) := by
  have hentered : ∀ event ∈ [Event.entered (state.depth + 1)], event.IsNeutral := by
    intro event hmem
    rw [List.mem_singleton.mp hmem]
    trivial
  by_cases hfull : host.maxDepth ≤ state.depth
  · have hrun := nested_of_full hfull (.call ref) part
    rw [after_bind_of_error hrun, bind_of_error hrun]
    exact ⟨_, State.recounts_tell rfl state,
      .refused _ (fun _ hmem => absurd hmem List.not_mem_nil)⟩
  · have hrun := nested_of_room hfull (.call ref) part
    obtain ⟨inner, hrecounts, horderly⟩ := h (state.enter (.call ref))
    cases hbody : part (state.enter (.call ref)) with
    | error halt middle =>
        rw [after_of_error hbody] at hrecounts
        rw [hbody] at horderly
        rw [between_of_error hbody] at hrun
        rw [after_bind_of_error hrun, bind_of_error hrun]
        exact ⟨_, hrecounts.nested (.of_same rfl rfl), .halted hentered horderly⟩
    | ok flow middle =>
        rw [after_of_ok hbody] at hrecounts
        rw [hbody] at horderly
        rw [between_of_ok hbody] at hrun
        rw [after_bind_of_ok hrun, bind_of_ok hrun]
        have hgave : (middle.leave (.call ref)).Recounts [.gave flow.value] _ :=
          State.recounts_tell rfl _
        exact ⟨_, hrecounts.nested hgave, .gave hentered horderly⟩

theorem call (h : GoesInOrder id part) (ref : ProcedureRef) :
    GoesInOrder (fun _ => .normal)
      (Run.nested host (.call ref) part >>= fun flow => give flow.value) := by
  intro state
  obtain ⟨events, hrecounts, hcall⟩ := h.tellsCall ref state
  exact ⟨events, hrecounts, hcall.orderly⟩

theorem members (h : GoesInOrder id part) (ref : ClassRef) :
    GoesInOrder (fun _ => .normal) (Run.nested host (.members ref) part) := by
  intro state
  by_cases hfull : host.maxDepth ≤ state.depth
  · rw [after, nested_of_full hfull]
    exact raise (.callsTooDeep host.maxDepth) state
  · rw [after, nested_of_room hfull]
    cases hbody : part (state.enter (.members ref)) with
    | error halt middle =>
        rw [between_of_error hbody]
        exact h.nested_halted (fun _ => Span.noConfusion) hbody
    | ok flow middle =>
        obtain ⟨events, hrecounts, horderly⟩ := h (state.enter (.members ref))
        rw [after_of_ok hbody] at hrecounts
        rw [hbody] at horderly
        rw [between_of_ok hbody]
        exact ⟨_, hrecounts.nested (.of_same rfl rfl),
          (horderly.frame fun _ => rfl).neutral_cons trivial⟩

theorem module (h : GoesInOrder id part) (name : String) :
    GoesInOrder (fun _ => .normal) (during (.module name) part) := by
  intro state
  obtain ⟨events, hrecounts, horderly⟩ := h (state.tell (.opened (.module name)))
  rw [after, during]
  cases hbody : part (state.tell (.opened (.module name))) with
  | error halt middle =>
      rw [after_of_error hbody] at hrecounts
      rw [hbody] at horderly
      rw [between_of_error hbody]
      refine ⟨_, hrecounts.during (.of_same rfl rfl), horderly.halted fun fault _ => ?_⟩
      exact Signal.takenUp_raised (fun _ => Span.noConfusion) fault
  | ok flow middle =>
      rw [after_of_ok hbody] at hrecounts
      rw [hbody] at horderly
      rw [between_of_ok hbody]
      exact ⟨_, hrecounts.during (.of_same rfl rfl), horderly.frame fun _ => rfl⟩

end Spans

theorem loadModule {host : Host} {engine : Engine} (name : String)
    (h : GoesInOrder (fun _ => .normal) (engine.runModule host name)) :
    GoesInOrder (fun _ => .normal) (engine.loadModule host name) := by
  intro state
  rw [after]
  cases hloaded : state.modules.get? name with
  | some bindings =>
      rw [engine.loadModule_of_loaded hloaded]
      exact pure bindings state
  | none =>
      cases hloading : state.loading.contains name with
      | true =>
          rw [engine.loadModule_of_loading hloaded hloading]
          exact raise _ state
      | false =>
          let entered : State := { state with loading := name :: state.loading }
          obtain ⟨events, hrecounts, horderly⟩ := h entered
          rw [engine.loadModule_of_new hloaded hloading]
          cases hrun : engine.runModule host name entered with
          | error halt middle =>
              rw [after_of_error hrun] at hrecounts
              rw [hrun] at horderly
              exact ⟨events, ⟨hrecounts.tells, hrecounts.made⟩, horderly⟩
          | ok bindings middle =>
              rw [after_of_ok hrun] at hrecounts
              rw [hrun] at horderly
              have htold : middle.Recounts [.moduleLoaded name] _ := State.recounts_tell rfl middle
              have hloaded := hrecounts.append htold
              exact ⟨_, ⟨hloaded.tells, hloaded.made⟩,
                horderly.append (.neutral (.moduleLoaded name) trivial .done)⟩

/-- A handler binds the value that it is for in a new scope before anything else. -/
theorem handler {engine : Engine} {body : List Node}
    (h : ∀ inner, GoesInOrder id (engine.execute body inner)) (scope : ScopeRef) (caught : String)
    (value : Value) (state : State) :
    let part := Run.makeScope (.childOf scope) >>= fun inner =>
      Run.define inner caught value >>= fun _ => engine.execute body inner
    ∃ inner later,
      state.Recounts (.scopeMade inner :: .bound inner caught value :: later) (part.after state) ∧
      Orderly later (.of id (part state)) := by
  intro part
  let inner : ScopeRef := ⟨state.heap.forest.size⟩
  let made : State := (Run.makeScope (.childOf scope)).after state
  let bound : State := (Run.define inner caught value).after made
  have hrun : part state = engine.execute body inner bound := rfl
  obtain ⟨later, hrecounts, horderly⟩ := h inner bound
  refine ⟨inner, later, ?_, ?_⟩
  · rw [after, hrun]
    have hmade : state.Recounts [.scopeMade inner] made := State.recounts_makeScope _ state
    have hbound : made.Recounts [.bound inner caught value] bound :=
      State.recounts_define inner caught value made
    exact hmade.append (hbound.append hrecounts)
  · rw [hrun]
    exact horderly

theorem attempt {engine : Engine} (body : List Node) (caught : String) (handler : List Node)
    (scope : ScopeRef) (hbody : GoesInOrder id (engine.block body scope))
    (hhandler : ∀ inner, GoesInOrder id (engine.execute handler inner)) :
    GoesInOrder id (engine.attempt body caught handler scope) := by
  intro state
  obtain ⟨events, hrecounts, horderly⟩ := hbody (state.tell (.opened (.attempt caught)))
  cases hrun : engine.block body scope (state.tell (.opened (.attempt caught))) with
  | ok flow middle =>
      rw [after_of_ok hrun] at hrecounts
      rw [hrun] at horderly
      have hduring : during (.attempt caught) (engine.block body scope) state =
          .ok flow (middle.tell (.closed (.attempt caught))) := between_of_ok hrun
      have hbare : ∀ value final, during (.attempt caught) (engine.block body scope) state ≠
          .error (.fault (.thrown value)) final := by
        intro value final hvalue
        cases hduring.symm.trans hvalue
      rw [after, Engine.attempt_of_not_thrown hbare, hduring]
      exact ⟨_, hrecounts.during (.of_same rfl rfl), horderly.attempt caught⟩
  | error halt middle =>
      rw [after_of_error hrun] at hrecounts
      rw [hrun] at horderly
      have hduring : during (.attempt caught) (engine.block body scope) state =
          .error halt (middle.tell (.closed (.attempt caught))) := between_of_error hrun
      by_cases hthrown : ∃ value, halt = .fault (.thrown value)
      · obtain ⟨value, rfl⟩ := hthrown
        rw [after, Engine.attempt_of_thrown hduring]
        obtain ⟨inner, later, hrecounts', horderly'⟩ :=
          GoesInOrder.handler hhandler scope caught value (middle.tell (.closed (.attempt caught)))
        exact ⟨_, hrecounts.during hrecounts', horderly.caught caught inner horderly'⟩
      · have hbare : ∀ value final, during (.attempt caught) (engine.block body scope) state ≠
            .error (.fault (.thrown value)) final := by
          intro value final hvalue
          cases hduring.symm.trans hvalue
          exact hthrown ⟨value, rfl⟩
        rw [after, Engine.attempt_of_not_thrown hbare, hduring]
        refine ⟨_, hrecounts.during (.of_same rfl rfl), horderly.halted ?_⟩
        rintro fault rfl
        exact Signal.takenUp_raised_of_ne (fun value hvalue => hthrown ⟨value, hvalue ▸ rfl⟩) _

end GoesInOrder

end Run

open Run (GoesInOrder)

/-- That runs go in order, part by part. -/
def Congruence.order (host : Host) : Congruence host host where
  Rel reading part _ := GoesInOrder reading part
  Inside part _ := GoesInOrder id part
  Loading _ part _ := GoesInOrder (fun _ => .normal) part
  Admits := Node.AnyBody
  hereditary := Node.hereditary_anyBody
  Evaluates := Node.AnyNode
  supplied := Node.supplied_anyNode _
  alike := .refl host
  pure _ := .pure _
  bind := .bind
  raise fault _ := .raise fault
  askThen _ _ _ h := fun state => h state.heap state.heap.holds_anyBody state
  make _ hbuild _ := .of_heap fun state => ⟨_, _, rfl, congrArg Forest.size (hbuild state.heap)⟩
  change _ hupdate _ := .of_heap fun state => ⟨_, _, rfl, hupdate state.heap⟩
  record hplain := .record hplain.isNeutral hplain.madeScope?
  makeScope := .makeScope
  compare _ _ := .of_heap fun state => ⟨_, state.heap, rfl, rfl⟩
  bindAll scope _ := .defineAll scope _
  andThen hfirst hreturned _ hnormal := hfirst.andThen hreturned hnormal
  giveBack := .giveBack
  call ref _ _ h := h.call ref
  members ref _ _ h := h.members ref
  module name _ _ h := h.module name
  loadModule name h := .loadModule name h
  attempt body caught handler scope hbody hhandler :=
    .attempt body caught handler scope hbody hhandler
  admits := Node.anyBody
  evaluates := Node.anyNode
  misplaced _ := .raise _
  outOfFuel := .outOfFuel
  inside h := h
  loading h := h

/-- Among open spans there is no attempt, or an innermost one. -/
theorem Span.innermost_attempt (spans : List Span) :
    (∀ name, .attempt name ∉ spans) ∨
    ∃ inner caught outer, spans = inner ++ .attempt caught :: outer ∧
      ∀ name, .attempt name ∉ inner := by
  induction spans with
  | nil => exact .inl fun _ => List.not_mem_nil
  | cons span spans ih =>
      by_cases hspan : ∃ caught, span = .attempt caught
      · obtain ⟨caught, rfl⟩ := hspan
        exact .inr ⟨[], caught, spans, rfl, fun _ => List.not_mem_nil⟩
      · have hother (name : String) (rest : List Span) (hrest : .attempt name ∉ rest) :
            .attempt name ∉ span :: rest := by
          intro hmem
          rcases List.mem_cons.mp hmem with hsame | hlater
          · exact hspan ⟨name, hsame.symm⟩
          · exact hrest hlater
        rcases ih with hnone | ⟨inner, caught, outer, rfl, hinner⟩
        · exact .inl fun name => hother name spans (hnone name)
        · refine .inr ⟨span :: inner, caught, outer, rfl, fun name => ?_⟩
          exact hother name inner (hinner name)

theorem Outcome.eq_error_of_halted {α : Type} {reading : α → Flow} {part : Run α} {state : State}
    {halt : Halt} (h : Outcome.of reading (part state) = .halted halt) :
    part state = .error halt (part.after state) := by
  unfold Run.after
  cases hrun : part state with
  | ok value final =>
      rw [hrun] at h
      exact absurd h ((reading value).outcome_ne_halted halt)
  | error other final =>
      rw [hrun] at h
      cases h
      rfl

theorem Run.defineAll_tells (scope : ScopeRef) (bindings : List (String × Value)) (state : State) :
    ∃ events final, Run.defineAll scope bindings state = .ok () final ∧
      state.Tells events final ∧ ∀ event ∈ events, event.IsNeutral := by
  induction bindings generalizing state with
  | nil => exact ⟨[], state, rfl, rfl, fun _ hmem => absurd hmem List.not_mem_nil⟩
  | cons binding rest ih =>
      let middle := (Run.define scope binding.1 binding.2).after state
      have hmiddle : state.Tells [.bound scope binding.1 binding.2] middle := rfl
      obtain ⟨events, final, hrun, htells, hneutral⟩ := ih middle
      exact ⟨_, final, hrun, hmiddle.append htells,
        List.forall_mem_cons.mpr ⟨trivial, hneutral⟩⟩

namespace Engine

variable {host : Host} {engine : Engine}

/-- What a call of a procedure tells of, up to the value that it gives. -/
theorem apply_tellsCall (h : ∀ body scope, GoesInOrder id (engine.execute body scope))
    (ref : ProcedureRef) (args : List Value) (state : State) :
    ∃ events, state.Tells events ((engine.apply host ref args).after state) ∧
      Event.TellsCall ref events (engine.apply host ref args state) := by
  let procedure := state.heap.procedure ref
  by_cases hcount : procedure.params.length ≠ args.length
  · have hrun : engine.apply host ref args state = Run.raise (.type (.argumentCount procedure.name
        procedure.params.length args.length)) state := by
      have happly : engine.apply host ref args state = (ite _ _ _ : Run Value) state := rfl
      rw [happly, if_pos hcount]
    rw [Run.after, hrun]
    exact ⟨_, state.tells_tell _, .refused _ (fun _ hmem => absurd hmem List.not_mem_nil)⟩
  · let scope : ScopeRef := ⟨state.heap.forest.size⟩
    let made := (Run.makeScope (.childOf procedure.closure)).after state
    obtain ⟨bound, middle, hbound, htold, hneutral⟩ :=
      Run.defineAll_tells scope (procedure.params.zip args) made
    have hrun : engine.apply host ref args state =
        (Run.nested host (.call ref) (engine.execute procedure.body scope) >>= fun flow =>
          Run.give flow.value) middle := by
      have happly : engine.apply host ref args state = (ite _ _ _ : Run Value) state := rfl
      rw [happly, if_neg hcount]
      exact Run.bind_of_ok hbound
    obtain ⟨events, hrecounts, hcall⟩ := (h procedure.body scope).tellsCall ref middle
    have hmade : state.Tells [.scopeMade scope] made := rfl
    rw [Run.after, hrun]
    exact ⟨_, (hmade.append htold).append hrecounts.tells,
      hcall.prepend (List.forall_mem_cons.mpr ⟨trivial, hneutral⟩)⟩

/-- A call by name has the value of its last event. -/
theorem call_tells (h : ∀ body scope, GoesInOrder id (engine.execute body scope))
    (hevaluate : ∀ node scope, GoesInOrder (fun _ => .normal) (engine.evaluate node scope))
    {callee : String} (hcallee : host.builtins.get? callee = none) {args : List Node}
    {scope : ScopeRef} {state final : State} {value : Value}
    (hrun : engine.call host callee args scope state = .ok value final) :
    ∃ told, state.Tells (told ++ [.gave value]) final := by
  obtain ⟨values, s₁, hargs, hrun⟩ := Run.exists_of_bind_ok hrun
  have hmap : GoesInOrder (fun _ => .normal) (args.mapM fun arg => engine.evaluate arg scope) :=
    @Calculus.mapM _ _ (Congruence.order host).toCalculus _ _ args _
      (fun arg => engine.evaluate arg scope) fun arg _ => hevaluate arg scope
  obtain ⟨events, hevents, _⟩ := hmap state
  rw [Run.after_of_ok hargs] at hevents
  rw [hcallee] at hrun
  obtain ⟨found, s₂, hresolve, hrun⟩ := Run.exists_of_bind_ok hrun
  obtain ⟨later, hlater, _⟩ := (Congruence.order host).resolve callee scope s₁
  rw [Run.after_of_ok hresolve] at hlater
  cases found with
  | procedure ref =>
      obtain ⟨calls, hcalls, hcall⟩ := apply_tellsCall h ref values s₂
      have happly : engine.apply host ref values s₂ = .ok value final := hrun
      rw [Run.after_of_ok happly] at hcalls
      rw [happly] at hcall
      obtain ⟨told, rfl⟩ := hcall.exists_of_ok
      refine ⟨events ++ later ++ told ++ [.closed (.call ref)], ?_⟩
      simpa using (hevents.tells.append hlater.tells).append hcalls
  | _ => cases hrun

/-- After a fault that is not a thrown value the open spans are closed, nothing else
happens and the run ends with that fault. After a thrown value it is the same if no
attempt is open; else the spans inside the innermost attempt and the attempt itself
are closed, and next the value is bound to the attempt's name in a new scope. After
a return from within a call the attempts inside the call and the call itself are
closed, and next the call gives the value. What a call gives last is its result: a
return that only attempts are around within the call ends it with the value that is
returned, and an evaluated call has the value that was given last. -/
theorem execute_completes_exactly (host : Host) (fuel : Nat) (body : List Node)
    (scope : ScopeRef) (state : State) :
    let part := (ofFuel host fuel).execute body scope
    ∃ events, state.Tells events (part.after state) ∧
    (∀ earlier fault later, events = earlier ++ .raised fault :: later →
      (∀ value, fault ≠ .thrown value) →
      later = (openSpans earlier).map .closed ∧
      part state = .error (.fault fault) (part.after state)) ∧
    (∀ earlier value later, events = earlier ++ .raised (.thrown value) :: later →
      ((∀ name, .attempt name ∉ openSpans earlier) ∧
        later = (openSpans earlier).map .closed ∧
        part state = .error (.fault (.thrown value)) (part.after state)) ∨
      ∃ inner caught outer fresh rest,
        openSpans earlier = inner ++ .attempt caught :: outer ∧
        (∀ name, .attempt name ∉ inner) ∧
        later = inner.map .closed ++ .closed (.attempt caught) ::
          .scopeMade fresh :: .bound fresh caught value :: rest ∧
        state.heap.forest.size ≤ fresh.index ∧ .scopeMade fresh ∉ earlier) ∧
    (∀ earlier value later inner ref outer, events = earlier ++ .returned value :: later →
      openSpans earlier = inner ++ .call ref :: outer →
      (∀ span ∈ inner, ∃ caught, span = .attempt caught) →
      ∃ rest, later = inner.map .closed ++ .closed (.call ref) :: .gave value :: rest) ∧
    (∀ ref args, let call := (ofFuel host fuel).apply host ref args
      ∃ told, state.Tells told (call.after state) ∧
      (∀ value final, call state = .ok value final →
        ∃ others, told = others ++ [.closed (.call ref), .gave value]) ∧
      ∀ earlier value later inner, told = earlier ++ .returned value :: later →
        openSpans earlier = inner ++ [.call ref] →
        (∀ span ∈ inner, ∃ caught, span = .attempt caught) →
        later = inner.map .closed ++ [.closed (.call ref), .gave value] ∧
          call state = .ok value (call.after state)) ∧
    (∀ callee args caller value final, host.builtins.get? callee = none →
      (ofFuel host fuel).evaluate (.call callee args) caller state = .ok value final →
      ∃ told, state.Tells (told ++ [.gave value]) final) := by
  intro part
  obtain ⟨events, hrecounts, horderly⟩ :=
    ((Congruence.order host).ofFuel fuel).execute body scope state
  refine ⟨events, hrecounts.tells, ?_, ?_, ?_, ?_, ?_⟩
  · intro earlier fault later hevents hfault
    have hunwinds := horderly.settles earlier (.raised fault) later hevents
    obtain ⟨hlater, houtcome⟩ := hunwinds.eq_of_through fun span _ =>
      Signal.takenUp_raised_of_ne hfault span
    exact ⟨hlater, Outcome.eq_error_of_halted houtcome⟩
  · intro earlier value later hevents
    have hunwinds := horderly.settles earlier (.raised (.thrown value)) later hevents
    have hthrough (spans : List Span) (hspans : ∀ name, .attempt name ∉ spans) :
        ∀ span ∈ spans, (Signal.raised (.thrown value)).takenUp span = none := by
      intro span hmem
      apply Signal.takenUp_raised
      rintro caught rfl
      exact hspans caught hmem
    rcases Span.innermost_attempt (openSpans earlier) with
      hnone | ⟨inner, caught, outer, hspans, hinner⟩
    · obtain ⟨hlater, houtcome⟩ := hunwinds.eq_of_through (hthrough _ hnone)
      exact .inl ⟨hnone, hlater, Outcome.eq_error_of_halted houtcome⟩
    · rw [hspans] at hunwinds
      obtain ⟨_, rfl, fresh, rest, rfl⟩ := hunwinds.eq_of_takenUp (hthrough inner hinner) rfl
      refine .inr ⟨inner, caught, outer, fresh, rest, hspans, hinner, rfl, ?_⟩
      -- The new scope comes after all that happened up to the end of the attempt.
      let before := earlier ++ .raised (.thrown value) ::
        (inner.map .closed ++ [.closed (.attempt caught)])
      have hsplit : events = before ++ .scopeMade fresh :: .bound fresh caught value :: rest := by
        simp [hevents, before]
      rw [hsplit] at hrecounts
      obtain ⟨hnew, hbefore⟩ := hrecounts.fresh
      exact ⟨hnew, fun hmem => hbefore (List.mem_append_left _ hmem)⟩
  · intro earlier value later inner ref outer hevents hspans hinner
    have hunwinds := horderly.settles earlier (.returned value) later hevents
    rw [hspans] at hunwinds
    obtain ⟨_, rfl, rest, rfl⟩ := hunwinds.eq_of_takenUp (fun span hmem => by
      obtain ⟨caught, rfl⟩ := hinner span hmem
      rfl) rfl
    exact ⟨rest, rfl⟩
  · intro ref args call
    obtain ⟨told, htold, hcall⟩ :=
      apply_tellsCall ((Congruence.order host).ofFuel fuel).execute ref args state
    refine ⟨told, htold, fun value final hrun => ?_, ?_⟩
    · rw [show (ofFuel host fuel).apply host ref args state = .ok value final from hrun] at hcall
      exact hcall.exists_of_ok
    · intro earlier value later inner htold hspans hinner
      obtain ⟨hlater, final, hrun⟩ := hcall.eq_of_returned htold hspans hinner
      exact ⟨hlater, hrun.trans (by rw [Run.after_of_ok hrun])⟩
  · intro callee args caller value final hcallee hrun
    cases fuel with
    | zero => cases hrun
    | succ fuel =>
        have hengines := (Congruence.order host).ofFuel fuel
        exact call_tells hengines.execute hengines.evaluate hcallee hrun

/-- The statements of
`関数 渡す () { 試み { 「石」 を 投げる } 捕捉 ( 物 ) { 物 を 返却 } }  () を 渡す を 返却`. -/
def caughtAndReturned : List Node :=
  [.function "渡す" [] [.attempt [.throwUp (.literal (.text "石"))] "物"
      [.giveBack (.identifier "物")]],
    .giveBack (.call "渡す" [])]

theorem execute_completes_exactly_caughtAndReturned :
    let state := Run.root.after .initial
    let final := ((ofFuel .standard 9).execute caughtAndReturned ⟨0⟩).after state
    let stone : Value := .text "石"
    (∃ earlier fresh rest, openSpans earlier = [.attempt "物", .call ⟨0⟩] ∧
      state.Tells (earlier ++ .raised (.thrown stone) :: .closed (.attempt "物") ::
        .scopeMade fresh :: .bound fresh "物" stone :: rest) final ∧
      .scopeMade fresh ∉ earlier) ∧
    (∃ earlier rest, openSpans earlier = [.call ⟨0⟩] ∧
      state.Tells (earlier ++ .returned stone :: .closed (.call ⟨0⟩) :: .gave stone :: rest)
        final) ∧
    ∃ last, (ofFuel .standard 9).apply .standard ⟨0⟩ [] final = .ok stone last := by
  intro state final stone
  let thrown : List Event := [.bound ⟨0⟩ "渡す" (.procedure ⟨0⟩), .scopeMade ⟨1⟩, .entered 1,
    .opened (.call ⟨0⟩), .opened (.attempt "物"), .scopeMade ⟨2⟩]
  let taken : List Event := [.closed (.attempt "物"), .scopeMade ⟨3⟩, .bound ⟨3⟩ "物" stone]
  let given : List Event := [.closed (.call ⟨0⟩), .gave stone, .returned stone]
  have htells : state.Tells
      (thrown ++ .raised (.thrown stone) :: (taken ++ .returned stone :: given)) final := by
    unfold State.Tells
    decide +kernel
  obtain ⟨events, hevents, _, hthrown, hreturned, _⟩ :=
    execute_completes_exactly .standard 9 caughtAndReturned ⟨0⟩ state
  obtain rfl := hevents.unique htells
  refine ⟨?_, ?_, ?_⟩
  · rcases hthrown thrown stone _ rfl with ⟨hnone, _⟩ |
      ⟨inner, caught, outer, fresh, rest, hspans, hinner, hlater, _, hfresh⟩
    · exact absurd List.mem_cons_self (hnone "物")
    · -- The attempt is the innermost of the open spans.
      cases inner with
      | cons span inner =>
          obtain ⟨rfl, _⟩ := List.cons.inj hspans
          exact absurd List.mem_cons_self (hinner "物")
      | nil =>
          obtain ⟨hcaught, _⟩ := List.cons.inj hspans
          cases hcaught
          rw [hlater] at htells
          exact ⟨thrown, fresh, rest, rfl, htells, hfresh⟩
  · obtain ⟨rest, hrest⟩ := hreturned (thrown ++ .raised (.thrown stone) :: taken) stone given
      [] ⟨0⟩ [] (by simp) rfl (fun _ hmem => absurd hmem List.not_mem_nil)
    rw [hrest] at htells
    exact ⟨thrown ++ .raised (.thrown stone) :: taken, rest, rfl, by simpa using htells⟩
  · -- The procedure is there to be called again.
    let before : List Event := [.scopeMade ⟨4⟩, .entered 1, .opened (.call ⟨0⟩),
      .opened (.attempt "物"), .scopeMade ⟨5⟩, .raised (.thrown stone), .closed (.attempt "物"),
      .scopeMade ⟨6⟩, .bound ⟨6⟩ "物" stone]
    have hagain : final.Tells (before ++ .returned stone :: [.closed (.call ⟨0⟩), .gave stone])
        (((ofFuel .standard 9).apply .standard ⟨0⟩ []).after final) := by
      unfold State.Tells
      decide +kernel
    obtain ⟨_, _, _, _, _, hcalls, _⟩ :=
      execute_completes_exactly .standard 9 caughtAndReturned ⟨0⟩ final
    obtain ⟨told, htold, _, hcall⟩ := hcalls ⟨0⟩ []
    obtain rfl := htold.unique hagain
    obtain ⟨_, hrun⟩ := hcall before stone _ [] rfl rfl
      (fun _ hmem => absurd hmem List.not_mem_nil)
    exact ⟨_, hrun⟩

end Engine

end Wabun
