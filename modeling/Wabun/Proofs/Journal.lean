import Wabun.Proofs.Frame
import Wabun.Run.Expression

/-!
The events between two states. A part of a run only adds to the journal, so
what it did is a list of events, the earliest first, and the events of two
parts in a row are those of the first followed by those of the second.
-/

namespace Wabun

def Span.IsAttempt : Span → Prop
  | .attempt _ => True
  | _ => False

/-- The event tells of no effect on the heap, and opens and closes nothing. -/
def Event.IsRemark : Event → Prop
  | .shown _ _ | .moduleLoaded _ | .entered _ | .raised _ | .returned _ | .gave _ => True
  | _ => False

namespace State

/-- These events happened between the two states, in this order. -/
def Tells (before : State) (events : List Event) (after : State) : Prop :=
  after.journal = events.reverse ++ before.journal

variable {s t u : State} {events later : List Event}

theorem Tells.of_journal_eq (h : t.journal = s.journal) : s.Tells [] t := h

theorem Tells.append (h : s.Tells events t) (h' : t.Tells later u) :
    s.Tells (events ++ later) u := by
  rw [Tells, List.reverse_append, List.append_assoc, ← show t.journal = _ from h]
  exact h'

theorem tells_tell (s : State) (event : Event) : s.Tells [event] (s.tell event) := rfl

/-- What happened between two states is determined by them. -/
theorem Tells.unique (h : s.Tells events t) (h' : s.Tells later t) : events = later := by
  have hsame : events.reverse ++ s.journal = later.reverse ++ s.journal := h.symm.trans h'
  exact List.reverse_inj.mp (List.append_cancel_right hsame)

/-- The state in which a call has begun. -/
def enter (state : State) (span : Span) : State :=
  { state with
    depth := state.depth + 1
    journal := .opened span :: .entered (state.depth + 1) :: state.journal }

/-- The state in which a call has come to its end. -/
def leave (state : State) (span : Span) : State :=
  { state with depth := state.depth - 1, journal := .closed span :: state.journal }

theorem tells_enter (s : State) (span : Span) :
    s.Tells [.entered (s.depth + 1), .opened span] (s.enter span) := rfl

theorem tells_leave (s : State) (span : Span) : s.Tells [.closed span] (s.leave span) := rfl

end State

namespace Run

variable {α : Type} {host : Host} {state : State}

theorem between_between (enter enter' leave leave' : State → State) (part : Run α)
    (state : State) :
    between enter leave (between enter' leave' part) state =
      between (fun before => enter' (enter before)) (fun after => leave (leave' after)) part
        state := by
  unfold between
  cases part (enter' (enter state)) with
  | ok value after => rfl
  | error halt after => rfl

theorem nested_of_full (h : host.maxDepth ≤ state.depth) (span : Span) (part : Run α) :
    nested host span part state = raise (.callsTooDeep host.maxDepth) state := by
  have hnested : nested host span part state = (ite (host.maxDepth ≤ state.depth)
    (raise (.callsTooDeep host.maxDepth)) _ : Run α) state := rfl
  rw [hnested, if_pos h]

/-- Where there is room for a call it runs between its beginning and its end. -/
theorem nested_of_room (h : ¬ host.maxDepth ≤ state.depth) (span : Span) (part : Run α) :
    nested host span part state = between (·.enter span) (·.leave span) part state := by
  have hnested : nested host span part state = (ite (host.maxDepth ≤ state.depth) _
    (between
      (fun before => { before with
        depth := state.depth + 1, journal := .entered (state.depth + 1) :: before.journal })
      (fun before => { before with depth := before.depth - 1 }) (during span part)) : Run α)
      state := rfl
  rw [hnested, if_neg h, during, between_between]
  rfl

end Run

end Wabun
