import Wabun.Proofs.Congruence

/-!
Courses of events. While a run goes on spans are opened and closed again, the
innermost first. When a fault is raised or a value is returned the open spans
are closed one by one, and nothing else happens until one of them takes up what
was raised or returned: a thrown value goes to the innermost attempt, a returned
one to the call that it is returned from. If no span does, that is the end.
-/

namespace Wabun

/-- How a part of a run ends. -/
inductive Outcome where
  | done
  | returned (value : Value)
  | halted (halt : Halt)

def Flow.outcome : Flow → Outcome
  | normal => .done
  | returned value => .returned value

theorem Flow.outcome_ne_halted (flow : Flow) (halt : Halt) : flow.outcome ≠ .halted halt := by
  cases flow <;> exact Outcome.noConfusion

theorem Flow.eq_returned_of_outcome {flow : Flow} {value : Value}
    (h : flow.outcome = .returned value) : flow = .returned value := by
  cases flow <;> cases h
  rfl

/-- The outcome of a part whose results are read as ways to go on. -/
def Outcome.of {α : Type} (reading : α → Flow) : EStateM.Result Halt State α → Outcome
  | .ok value _ => (reading value).outcome
  | .error halt _ => .halted halt

namespace Event

/-- The spans that are open after an event, the innermost first. -/
def spansAfter (spans : List Span) : Event → List Span
  | .opened span => span :: spans
  | .closed _ => spans.tail
  | _ => spans

def spansTold (spans : List Span) (events : List Event) : List Span :=
  events.foldl spansAfter spans

/-- The spans that the events open and do not close, the innermost first. -/
def openSpans (events : List Event) : List Span :=
  spansTold [] events

/-- The event opens and closes nothing and is no reason to. -/
def IsNeutral : Event → Prop
  | .opened _ | .closed _ | .raised _ | .returned _ => False
  | _ => True

theorem IsPlain.isNeutral {event : Event} (h : event.IsPlain) : event.IsNeutral := by
  cases event with
  | opened _ | closed _ | raised _ | returned _ => cases h
  | _ => trivial

theorem spansAfter_of_isNeutral {event : Event} (h : event.IsNeutral) (spans : List Span) :
    event.spansAfter spans = spans := by
  cases event with
  | opened _ | closed _ => cases h
  | _ => rfl

theorem spansTold_of_isNeutral {events : List Event} (h : ∀ event ∈ events, event.IsNeutral)
    (spans : List Span) : spansTold spans events = spans := by
  induction events with
  | nil => rfl
  | cons event rest ih =>
      obtain ⟨hevent, hrest⟩ := List.forall_mem_cons.mp h
      rw [spansTold, List.foldl_cons, spansAfter_of_isNeutral hevent]
      exact ih hrest

theorem spansTold_append (spans : List Span) (events later : List Event) :
    spansTold spans (events ++ later) = spansTold (spansTold spans events) later :=
  List.foldl_append

end Event

open Event (spansTold openSpans)

/-- What ends statements before their time. -/
inductive Signal where
  | raised (fault : Fault)
  | returned (value : Value)

namespace Signal

def event : Signal → Event
  | raised fault => .raised fault
  | returned value => .returned value

def outcome : Signal → Outcome
  | raised fault => .halted (.fault fault)
  | returned value => .returned value

/-- What comes after the end of a span that takes a signal up. Other spans let it
through. -/
def takenUp : Signal → Span → Option (List Event → Prop)
  | raised (.thrown value), .attempt caught =>
    some fun later => ∃ scope rest, later = .scopeMade scope :: .bound scope caught value :: rest
  | raised _, _ => none
  | returned value, .call _ => some fun later => ∃ rest, later = .gave value :: rest
  | returned _, .attempt _ => none
  | returned _, .members _ | returned _, .module _ => some fun _ => True

/-- What happens after a signal while some spans are open, the innermost first:
they are closed in turn, until one takes the signal up. -/
def Unwinds (signal : Signal) : List Span → List Event → Outcome → Prop
  | [], later, outcome => later = [] ∧ outcome = signal.outcome
  | span :: spans, later, outcome =>
    ∃ rest, later = .closed span :: rest ∧
      match signal.takenUp span with
      | some follows => follows rest
      | none => signal.Unwinds spans rest outcome

/-- Only an attempt takes up a fault. -/
theorem takenUp_raised {span : Span} (h : ∀ caught, span ≠ .attempt caught) (fault : Fault) :
    (raised fault).takenUp span = none := by
  cases span with
  | attempt caught => exact absurd rfl (h caught)
  | _ => cases fault <;> rfl

/-- Only a thrown value is taken up. -/
theorem takenUp_raised_of_ne {fault : Fault} (h : ∀ value, fault ≠ .thrown value) (span : Span) :
    (raised fault).takenUp span = none := by
  cases fault with
  | thrown value => exact absurd rfl (h value)
  | _ => rfl

variable {signal : Signal} {spans outer : List Span} {later more : List Event}
  {outcome final : Outcome}

theorem unwinds_of_through {span : Span} (hspan : signal.takenUp span = none)
    (h : signal.Unwinds spans later outcome) :
    signal.Unwinds (span :: spans) (.closed span :: later) outcome := by
  refine ⟨later, rfl, ?_⟩
  rw [hspan]
  exact h

theorem unwinds_of_takenUp {span : Span} {follows : List Event → Prop}
    (hspan : signal.takenUp span = some follows) (h : follows later) :
    signal.Unwinds (span :: spans) (.closed span :: later) outcome := by
  refine ⟨later, rfl, ?_⟩
  rw [hspan]
  exact h

/-- More may happen after a signal has been taken up. -/
theorem follows_append {span : Span} {follows : List Event → Prop}
    (hspan : signal.takenUp span = some follows) (h : follows later) (more : List Event) :
    follows (later ++ more) := by
  unfold takenUp at hspan
  split at hspan
  · cases hspan
    obtain ⟨scope, rest, rfl⟩ := h
    exact ⟨scope, rest ++ more, rfl⟩
  · cases hspan
  · cases hspan
    obtain ⟨rest, rfl⟩ := h
    exact ⟨rest ++ more, rfl⟩
  · cases hspan
  · cases hspan
    trivial
  · cases hspan
    trivial

/-- A signal that goes through all the spans goes on to the spans around them. -/
theorem Unwinds.append (h : signal.Unwinds spans later outcome)
    (houter : outcome = signal.outcome → signal.Unwinds outer more final) :
    signal.Unwinds (spans ++ outer) (later ++ more) final := by
  induction spans generalizing later with
  | nil =>
      obtain ⟨rfl, houtcome⟩ := h
      exact houter houtcome
  | cons span spans ih =>
      obtain ⟨rest, rfl, hrest⟩ := h
      cases hspan : signal.takenUp span with
      | some follows =>
          rw [hspan] at hrest
          exact unwinds_of_takenUp hspan (follows_append hspan hrest more)
      | none =>
          rw [hspan] at hrest
          exact unwinds_of_through hspan (ih hrest)

/-- A signal that no span takes up closes them all and ends the run. -/
theorem Unwinds.eq_of_through (h : signal.Unwinds spans later outcome)
    (hspans : ∀ span ∈ spans, signal.takenUp span = none) :
    later = spans.map .closed ∧ outcome = signal.outcome := by
  induction spans generalizing later with
  | nil => exact h
  | cons span spans ih =>
      obtain ⟨rest, rfl, hrest⟩ := h
      rw [hspans span List.mem_cons_self] at hrest
      obtain ⟨rfl, houtcome⟩ := ih hrest fun other hmem =>
        hspans other (List.mem_cons_of_mem span hmem)
      exact ⟨rfl, houtcome⟩

/-- A signal is taken up by the innermost span that does so. -/
theorem Unwinds.eq_of_takenUp {inner : List Span} {span : Span} {follows : List Event → Prop}
    (h : signal.Unwinds (inner ++ span :: outer) later outcome)
    (hinner : ∀ other ∈ inner, signal.takenUp other = none)
    (hspan : signal.takenUp span = some follows) :
    ∃ rest, later = inner.map .closed ++ .closed span :: rest ∧ follows rest := by
  induction inner generalizing later with
  | nil =>
      obtain ⟨rest, rfl, hrest⟩ := h
      rw [hspan] at hrest
      exact ⟨rest, rfl, hrest⟩
  | cons other inner ih =>
      obtain ⟨middle, rfl, hmiddle⟩ := h
      rw [hinner other List.mem_cons_self] at hmiddle
      obtain ⟨rest, rfl, hrest⟩ := ih hmiddle fun another hmem =>
        hinner another (List.mem_cons_of_mem other hmem)
      exact ⟨rest, rfl, hrest⟩

end Signal

/-- A course of events with an outcome: spans are closed in the order in which they
nest, and after each signal comes what has to come. -/
structure Orderly (events : List Event) (outcome : Outcome) : Prop where
  nests : ∀ earlier later, events = earlier ++ later →
    ∀ spans, spansTold spans earlier = openSpans earlier ++ spans
  closes : openSpans events = []
  settles : ∀ earlier (signal : Signal) later, events = earlier ++ signal.event :: later →
    signal.Unwinds (openSpans earlier) later outcome

namespace Orderly

variable {events later : List Event} {outcome final : Outcome}

theorem spansTold_eq (h : Orderly events outcome) (spans : List Span) :
    spansTold spans events = spans := by
  have htold := h.nests events [] (List.append_nil events).symm spans
  rw [htold, h.closes, List.nil_append]

theorem openSpans_append (h : Orderly events outcome) (later : List Event) :
    openSpans (events ++ later) = openSpans later := by
  rw [openSpans, Event.spansTold_append, h.spansTold_eq, openSpans]

theorem nil (outcome : Outcome) : Orderly [] outcome where
  nests earlier later hevents spans := by
    obtain ⟨rfl, _⟩ := List.append_eq_nil_iff.mp hevents.symm
    rfl
  closes := rfl
  settles earlier signal later hevents := by
    have hlength := congrArg List.length hevents
    simp at hlength

theorem singleton {event : Event} (hspans : ∀ spans, event.spansAfter spans = spans)
    (hsignal : ∀ signal : Signal, event = signal.event → outcome = signal.outcome) :
    Orderly [event] outcome where
  nests earlier later hevents spans := by
    cases earlier with
    | nil => rfl
    | cons first rest =>
        obtain ⟨rfl, hrest⟩ := List.cons.inj hevents
        obtain ⟨rfl, _⟩ := List.append_eq_nil_iff.mp hrest.symm
        change event.spansAfter spans = event.spansAfter [] ++ spans
        rw [hspans, hspans, List.nil_append]
  closes := hspans []
  settles earlier signal later hevents := by
    cases earlier with
    | nil =>
        obtain ⟨hevent, rfl⟩ := List.cons.inj hevents
        exact ⟨rfl, hsignal signal hevent⟩
    | cons first rest =>
        have hlength := congrArg List.length hevents
        simp at hlength

theorem signal (signal : Signal) : Orderly [signal.event] signal.outcome := by
  apply singleton
  · intro spans
    cases signal <;> rfl
  · intro other hevent
    cases signal <;> cases other <;> cases hevent <;> rfl

theorem neutral (event : Event) (h : event.IsNeutral) (outcome : Outcome) :
    Orderly [event] outcome := by
  apply singleton (Event.spansAfter_of_isNeutral h)
  intro signal hevent
  subst hevent
  cases signal <;> cases h

theorem append (h : Orderly events .done) (h' : Orderly later outcome) :
    Orderly (events ++ later) outcome where
  nests earlier rest hevents spans := by
    rcases List.append_eq_append_iff.mp hevents with ⟨middle, rfl, hlater⟩ | ⟨middle, hfirst, _⟩
    · rw [Event.spansTold_append, h.spansTold_eq, h.openSpans_append]
      exact h'.nests middle rest hlater spans
    · exact h.nests earlier middle hfirst spans
  closes := by rw [h.openSpans_append, h'.closes]
  settles earlier signal rest hevents := by
    rcases List.append_eq_append_iff.mp hevents with ⟨middle, rfl, hlater⟩ | ⟨middle, hfirst, hrest⟩
    · rw [h.openSpans_append]
      exact h'.settles middle signal rest hlater
    · cases middle with
      | nil =>
          rw [List.append_nil] at hfirst
          subst hfirst
          rw [h.closes]
          exact h'.settles [] signal rest hrest.symm
      | cons first middle =>
          -- The first part is done, so the signal was taken up within it.
          obtain ⟨rfl, rfl⟩ := List.cons.inj hrest
          have hunwinds := h.settles earlier signal middle hfirst
          have hmore : Outcome.done = signal.outcome → signal.Unwinds [] later outcome := by
            intro hdone
            cases signal <;> cases hdone
          simpa using hunwinds.append hmore

/-- A span with what comes after it. A signal that reaches its end is taken up or
goes through it. -/
theorem span {span : Span} (h : Orderly events outcome) (h' : Orderly later final)
    (hend : ∀ signal : Signal, outcome = signal.outcome →
      signal.Unwinds [span] (.closed span :: later) final) :
    Orderly (.opened span :: (events ++ .closed span :: later)) final where
  nests earlier rest hevents spans := by
    cases earlier with
    | nil => rfl
    | cons first earlier =>
        obtain ⟨rfl, hinside⟩ := List.cons.inj hevents
        change spansTold (span :: spans) earlier = spansTold [span] earlier ++ spans
        rcases List.append_eq_append_iff.mp hinside with ⟨middle, rfl, hlater⟩ | ⟨middle, hfirst, _⟩
        · rw [Event.spansTold_append, Event.spansTold_append, h.spansTold_eq, h.spansTold_eq]
          cases middle with
          | nil => rfl
          | cons closing middle =>
              obtain ⟨rfl, hrest⟩ := List.cons.inj hlater
              exact h'.nests middle rest hrest spans
        · rw [h.nests earlier middle hfirst, h.nests earlier middle hfirst [span],
            List.append_assoc]
          rfl
  closes := by
    change spansTold [span] (events ++ .closed span :: later) = []
    rw [Event.spansTold_append, h.spansTold_eq]
    exact h'.closes
  settles earlier signal rest hevents := by
    cases earlier with
    | nil =>
        obtain ⟨hevent, _⟩ := List.cons.inj hevents
        cases signal <;> cases hevent
    | cons first earlier =>
        obtain ⟨rfl, hinside⟩ := List.cons.inj hevents
        change signal.Unwinds (spansTold [span] earlier) rest final
        rcases List.append_eq_append_iff.mp hinside
          with ⟨middle, rfl, hlater⟩ | ⟨middle, hfirst, hrest⟩
        · rw [Event.spansTold_append, h.spansTold_eq]
          cases middle with
          | nil =>
              obtain ⟨hevent, _⟩ := List.cons.inj hlater
              cases signal <;> cases hevent
          | cons closing middle =>
              obtain ⟨rfl, hafter⟩ := List.cons.inj hlater
              exact h'.settles middle signal rest hafter
        · cases middle with
          | nil =>
              obtain ⟨hevent, _⟩ := List.cons.inj hrest
              cases signal <;> cases hevent
          | cons raising middle =>
              obtain ⟨rfl, rfl⟩ := List.cons.inj hrest
              rw [h.nests earlier _ hfirst]
              exact (h.settles earlier signal middle hfirst).append (hend signal)

theorem neutral_cons {event : Event} (h : event.IsNeutral) (h' : Orderly later outcome) :
    Orderly (event :: later) outcome :=
  (neutral event h .done).append h'

theorem neutral_append {before : List Event} (h' : Orderly later outcome)
    (h : ∀ event ∈ before, event.IsNeutral) : Orderly (before ++ later) outcome := by
  induction before with
  | nil => exact h'
  | cons event rest ih =>
      obtain ⟨hevent, hrest⟩ := List.forall_mem_cons.mp h
      exact (ih hrest).neutral_cons hevent

/-- A call gives what its body returns. -/
theorem call (ref : ProcedureRef) {flow : Flow} (h : Orderly events flow.outcome) :
    Orderly (.opened (.call ref) :: (events ++ [.closed (.call ref), .gave flow.value]))
      .done := by
  refine h.span (neutral (.gave flow.value) trivial .done) fun signal hsignal => ?_
  cases flow with
  | normal => cases signal <;> cases hsignal
  | returned value =>
      cases signal <;> cases hsignal
      exact Signal.unwinds_of_takenUp rfl ⟨[], rfl⟩

/-- A return is not passed on by the members of a class and by modules. -/
theorem frame {span : Span} {flow : Flow} (h : Orderly events flow.outcome)
    (hspan : ∀ value, (Signal.returned value).takenUp span = some fun _ => True) :
    Orderly (.opened span :: (events ++ [.closed span])) .done := by
  refine h.span (nil .done) fun signal hsignal => ?_
  cases flow with
  | normal => cases signal <;> cases hsignal
  | returned value =>
      cases signal <;> cases hsignal
      exact Signal.unwinds_of_takenUp (hspan value) trivial

theorem attempt (caught : String) {flow : Flow} (h : Orderly events flow.outcome) :
    Orderly (.opened (.attempt caught) :: (events ++ [.closed (.attempt caught)]))
      flow.outcome := by
  refine h.span (nil _) fun signal hsignal => ?_
  cases flow with
  | normal => cases signal <;> cases hsignal
  | returned value =>
      cases signal <;> cases hsignal
      exact Signal.unwinds_of_through rfl ⟨rfl, rfl⟩

/-- A span that does not take up what halts it. -/
theorem halted {span : Span} {halt : Halt} (h : Orderly events (.halted halt))
    (hspan : ∀ fault, halt = .fault fault → (Signal.raised fault).takenUp span = none) :
    Orderly (.opened span :: (events ++ [.closed span])) (.halted halt) := by
  refine h.span (nil _) fun signal hsignal => ?_
  cases signal <;> cases hsignal
  exact Signal.unwinds_of_through (hspan _ rfl) ⟨rfl, rfl⟩

theorem caught (name : String) {value : Value} (scope : ScopeRef)
    (h : Orderly events (.halted (.fault (.thrown value)))) (h' : Orderly later final) :
    Orderly (.opened (.attempt name) :: (events ++ .closed (.attempt name) ::
      .scopeMade scope :: .bound scope name value :: later)) final := by
  refine h.span (neutral_cons trivial (neutral_cons trivial h')) fun signal hsignal => ?_
  cases signal <;> cases hsignal
  exact Signal.unwinds_of_takenUp rfl ⟨scope, later, rfl⟩

end Orderly

end Wabun
