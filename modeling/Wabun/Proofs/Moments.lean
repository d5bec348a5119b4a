import Wabun.Proofs.Progression
import Wabun.Proofs.Unwinding

/-!
The moments of a session. Between the steps of a session lie the states that it has
reached; inside of a step lie those at the beginning and at the end of each expression, each
statement and each list of statements. Such a moment is where the step ends if it is cut
short there. At no moment can a class or an instance be come by that was not made, and every
class is younger than its parent.
-/

namespace Wabun

open Run

/-- Halts if the state is one to stop at. -/
def Run.stopAt (stop : State → Bool) : Run Unit := fun state =>
  if stop state then .error .outOfFuel state else .ok () state

/-- An engine that is halted at the first state to stop at. -/
def Engine.cutAt (host : Host) (stop : State → Bool) : Nat → Engine :=
  Engine.probed host (stopAt stop)

/-- Where it never has to stop, the engine is the usual one. -/
theorem Engine.cutAt_never (host : Host) (fuel : Nat) :
    cutAt host (fun _ => false) fuel = ofFuel host fuel :=
  Engine.probed_silent host fuel

/-- A moment of a session: between two steps, or where a step is cut short. -/
inductive State.Passed : State → Prop
  | reached {state : State} (h : state.Reached) : Passed state
  | evaluate {state : State} (host : Host) (stop : State → Bool) (fuel : Nat) (node : Node)
    (scope : ScopeRef) (h : state.Reached) :
    Passed (((Engine.cutAt host stop fuel).evaluate node scope).after state)
  | execute {state : State} (host : Host) (stop : State → Bool) (fuel : Nat) (body : List Node)
    (scope : ScopeRef) (h : state.Reached) :
    Passed (((Engine.cutAt host stop fuel).execute body scope).after state)
  | loadModule {state : State} (host : Host) (stop : State → Bool) (fuel : Nat) (name : String)
    (h : state.Reached) :
    Passed (((Engine.cutAt host stop fuel).loadModule host name).after state)

namespace Discipline

variable {law : Discipline} {frame : law.Frame} {α : Type} {post : Heap → α → Prop}
  {part : Run α} {state : State}

theorem Obeys.stopAt (stop : State → Bool) :
    law.Obeys frame (fun heap _ => heap = state.heap) (Run.stopAt stop) state := by
  have hrun : Run.stopAt stop state =
      if stop state then .error .outOfFuel state else .ok () state := rfl
  cases hstop : stop state with
  | true =>
      rw [hstop, if_pos rfl] at hrun
      exact .of_error hrun fun hstate => ⟨law.refl hstate, fun _ hvalue => by cases hvalue⟩
  | false =>
      rw [hstop, if_neg Bool.false_ne_true] at hrun
      exact .of_ok hrun fun hstate => ⟨law.refl hstate, rfl⟩

theorem Obeys.probed_stopAt (stop : State → Bool)
    (h : ∀ later : State, later.heap = state.heap → law.Obeys frame post part later) :
    law.Obeys frame post (Run.probed (Run.stopAt stop) part) state := by
  refine .bind (.stopAt stop) fun _ s₁ _ hsame => ?_
  refine .bind (h s₁ hsame) fun value s₂ _ hvalue => ?_
  exact .bind (.stopAt stop) fun _ s₃ _ hsame => .pure (hsame ▸ hvalue)

/-- Runs that are cut short obey the same disciplines. -/
theorem Governs.cutAt (law : Discipline) (host : Host) (stop : State → Bool) (fuel : Nat) :
    law.Governs (Engine.cutAt host stop fuel) := by
  induction fuel with
  | zero => exact ⟨fun _ _ _ _ _ => .outOfFuel, fun _ _ _ _ _ => .outOfFuel⟩
  | succ fuel ih =>
      constructor
      · intro frame node scope state hscope
        exact .probed_stopAt stop fun later hsame => ih.evaluateStep node (hsame ▸ hscope)
      · intro frame body scope state hscope
        refine .probed_stopAt stop fun later hsame =>
          Governs.executeEach body (fun node last hlast => ?_) (hsame ▸ hscope)
        refine .probed_stopAt stop fun _ hsame => ?_
        rw [← hsame] at hlast
        exact ih.statement fuel node hlast.1 fun name _ _ => hlast.2 name

end Discipline

namespace State

variable {α : Type} {post : Heap → α → Prop} {part : Run α} {state : State}

theorem Sound.after (hstate : state.Sound)
    (h : Discipline.progression.Obeys (0 : Nat) post part state) :
    (part.after state).Sound :=
  (h.after hstate).sound

theorem Reached.sound (h : state.Reached) : state.Sound := by
  have hengine := Discipline.Governs.ofFuel .progression
  induction h with
  | initial => exact sound_initial
  | reset _ ih => exact ⟨ih.heap, fun _ hmem => by cases hmem⟩
  | root _ ih => exact ih.after (.makeInner rfl fun _ hmem => by cases hmem)
  | evaluate host fuel node scope _ ih =>
      exact ih.after ((hengine host fuel).evaluate (0 : Nat) node scope _ (.free scope))
  | execute host fuel body scope _ ih =>
      exact ih.after
        ((hengine host fuel).execute (0 : Nat) body scope _ (Heap.Shelters.free scope).opens)
  | program host node scope _ ih =>
      have hbody (state : State) := (hengine host plenty).execute (0 : Nat) node.statements scope
        state (Heap.Shelters.free scope).opens
      refine ih.after (.bind (hbody _) fun flow later _ _ =>
        (?_ : Discipline.progression.Obeys (0 : Nat) (fun _ _ => True) _ later))
      cases flow with
      | normal | returned => exact .pure trivial
  | loadModule host fuel name _ ih => exact ih.after ((hengine host fuel).loadModule name)

/-- At every moment only values that were made can be come by. -/
theorem Passed.sound (h : state.Passed) : state.Sound := by
  have hengine := Discipline.Governs.cutAt .progression
  cases h with
  | reached h => exact h.sound
  | evaluate host stop fuel node scope h =>
      exact h.sound.after
        ((hengine host stop fuel).evaluate (0 : Nat) node scope _ (.free scope))
  | execute host stop fuel body scope h =>
      exact h.sound.after
        ((hengine host stop fuel).execute (0 : Nat) body scope _ (Heap.Shelters.free scope).opens)
  | loadModule host stop fuel name h =>
      exact h.sound.after ((hengine host stop fuel).loadModule name)

end State

end Wabun
