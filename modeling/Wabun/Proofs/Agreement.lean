import Wabun.Proofs.Congruence
import Wabun.Proofs.Isolation

/-!
Runs that agree unless one of them is cut short. Two runs of one program may
be given different limits; then they are the same run, to the last event in
its journal, unless the first one is halted by its limit. This needs a limit
that a program cannot see and a way of being halted that it cannot catch.
-/

namespace Wabun

namespace Run

variable {α β : Type}

/-- Whether the part is halted in a certain way. -/
def haltsBy (way : Halt → Bool) (part : Run α) (state : State) : Bool :=
  match part state with
  | .ok _ _ => false
  | .error halt _ => way halt

section HaltsBy

variable {way : Halt → Bool} {part : Run α} {state middle : State}

theorem haltsBy_of_ok {value : α} (h : part state = .ok value middle) :
    part.haltsBy way state = false := by
  rw [haltsBy, h]

theorem haltsBy_of_error {halt : Halt} (h : part state = .error halt middle) :
    part.haltsBy way state = way halt := by
  rw [haltsBy, h]

theorem exists_of_haltsBy (h : part.haltsBy way state = true) :
    ∃ halt final, part state = .error halt final ∧ way halt = true := by
  cases hrun : part state with
  | ok value final =>
      rw [haltsBy_of_ok hrun] at h
      cases h
  | error halt final => exact ⟨halt, final, rfl, (haltsBy_of_error hrun).symm.trans h⟩

end HaltsBy

/-- The parts are the same wherever the first one is not halted in this way. -/
def AgreesUnless (way : Halt → Bool) (part part' : Run α) : Prop :=
  ∀ state, part.haltsBy way state = true ∨ part' state = part state

namespace AgreesUnless

variable {way : Halt → Bool} {part part' : Run α}

theorem refl (part : Run α) : AgreesUnless way part part :=
  fun _ => .inr rfl

theorem of_haltsBy (h : ∀ state, part.haltsBy way state = true) (part' : Run α) :
    AgreesUnless way part part' :=
  fun state => .inl (h state)

theorem bind {next next' : α → Run β} (hpart : AgreesUnless way part part')
    (hnext : ∀ value, AgreesUnless way (next value) (next' value)) :
    AgreesUnless way (part >>= next) (part' >>= next') := by
  intro state
  rcases hpart state with hhalts | hsame
  · obtain ⟨halt, final, hrun, hway⟩ := exists_of_haltsBy hhalts
    exact .inl ((haltsBy_of_error (bind_of_error hrun)).trans hway)
  · unfold haltsBy
    cases hrun : part state with
    | ok value middle =>
        rw [bind_of_ok hrun, bind_of_ok (hsame.trans hrun)]
        exact hnext value middle
    | error halt middle =>
        rw [bind_of_error hrun, bind_of_error (hsame.trans hrun)]
        exact .inr rfl

theorem between (enter leave : State → State) (h : AgreesUnless way part part') :
    AgreesUnless way (Run.between enter leave part) (Run.between enter leave part') := by
  intro state
  rcases h (enter state) with hhalts | hsame
  · obtain ⟨halt, final, hrun, hway⟩ := exists_of_haltsBy hhalts
    exact .inl ((haltsBy_of_error (between_of_error hrun)).trans hway)
  · rw [Run.between, Run.between, hsame]
    exact .inr rfl

theorem during (span : Span) (h : AgreesUnless way part part') :
    AgreesUnless way (Run.during span part) (Run.during span part') :=
  h.between _ _

/-- A way of being halted that is no thrown value is not caught. -/
theorem attempt (hway : ∀ value, way (.fault (.thrown value)) = false) {engine engine' : Engine}
    (body : List Node) (caught : String) (handler : List Node) (scope : ScopeRef)
    (hbody : AgreesUnless way (engine.block body scope) (engine'.block body scope))
    (hhandler : ∀ inner,
      AgreesUnless way (engine.execute handler inner) (engine'.execute handler inner)) :
    AgreesUnless way (engine.attempt body caught handler scope)
      (engine'.attempt body caught handler scope) := by
  intro state
  unfold haltsBy
  have hduring := hbody.during (.attempt caught) state
  by_cases hthrown : ∃ value middle, Run.during (.attempt caught) (engine.block body scope) state =
      .error (.fault (.thrown value)) middle
  · obtain ⟨value, middle, hthrown⟩ := hthrown
    rw [haltsBy_of_error hthrown, hway] at hduring
    have hsame := hduring.resolve_left Bool.noConfusion
    rw [Engine.attempt_of_thrown hthrown, Engine.attempt_of_thrown (hsame.trans hthrown)]
    refine (refl _).bind (fun inner => ?_) middle
    exact (refl _).bind fun _ => hhandler inner
  · have hbare := fun value middle hrun => hthrown ⟨value, middle, hrun⟩
    rw [Engine.attempt_of_not_thrown hbare]
    rcases hduring with hhalts | hsame
    · exact .inl hhalts
    · rw [Engine.attempt_of_not_thrown (hsame ▸ hbare)]
      exact .inr hsame

theorem loadModule {host other : Host} {engine engine' : Engine} (name : String)
    (h : AgreesUnless way (engine.runModule host name) (engine'.runModule other name)) :
    AgreesUnless way (engine.loadModule host name) (engine'.loadModule other name) := by
  intro state
  unfold haltsBy
  cases hloaded : state.modules.get? name with
  | some bindings =>
      rw [engine.loadModule_of_loaded hloaded, engine'.loadModule_of_loaded hloaded]
      exact .inr rfl
  | none =>
      cases hloading : state.loading.contains name with
      | true =>
          rw [engine.loadModule_of_loading hloaded hloading,
            engine'.loadModule_of_loading hloaded hloading]
          exact .inr rfl
      | false =>
          rw [engine.loadModule_of_new hloaded hloading,
            engine'.loadModule_of_new hloaded hloading]
          rcases h { state with loading := name :: state.loading } with hhalts | hsame
          · obtain ⟨halt, final, hrun, hway⟩ := exists_of_haltsBy hhalts
            rw [hrun]
            exact .inl hway
          · rw [hsame]
            exact .inr rfl

end AgreesUnless

end Run

open Run (AgreesUnless)

/-- Agreement of two runs, part by part, if it is kept by opening a call. -/
def Congruence.agreement {host other : Host} (way : Halt → Bool)
    (halike : host.Alike other) (hlisting : other.listing = host.listing)
    (hway : ∀ value, way (.fault (.thrown value)) = false)
    (hnested : ∀ span {part part' : Run Flow}, AgreesUnless way part part' →
      AgreesUnless way (Run.nested host span part) (Run.nested other span part')) :
    Congruence host other where
  Rel _ part part' := AgreesUnless way part part'
  Inside part part' := AgreesUnless way part part'
  Loading _ part part' := AgreesUnless way part part'
  Admits := Node.AnyBody
  hereditary := Node.hereditary_anyBody
  Evaluates := Node.AnyNode
  supplied := Node.supplied_anyNode _
  alike := halike
  pure _ := .refl _
  bind := .bind
  raise _ _ := .refl _
  askThen _ _ _ h := fun state => h state.heap state.heap.holds_anyBody state
  make _ _ _ := .refl _
  change _ _ _ := .refl _
  record _ := .refl _
  makeScope _ := .refl _
  compare _ _ := hlisting ▸ .refl _
  bindAll _ _ := hlisting ▸ .refl _
  andThen hfirst hnext hnext' hrest := by
    refine hfirst.bind fun flow => ?_
    cases flow with
    | normal => exact hrest
    | returned value =>
        rw [hnext, hnext']
        exact .refl _
  giveBack _ := .refl _
  call _ _ _ h := (hnested _ h).bind fun _ => .refl _
  members _ _ _ h := hnested _ h
  module _ _ _ h := h.during _
  loadModule name h := .loadModule name h
  attempt body caught handler scope hbody hhandler :=
    .attempt hway body caught handler scope hbody hhandler
  admits := Node.anyBody
  evaluates := Node.anyNode
  misplaced _ := .refl _
  outOfFuel := .refl _
  inside h := h
  loading h := h

end Wabun
