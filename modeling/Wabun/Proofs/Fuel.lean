import Wabun.Proofs.Agreement

/-!
Fuel is only a limit. A run that does not run out of fuel is the same run with
more of it, so what a run comes to does not depend on how much fuel it has once
it has enough.
-/

namespace Wabun

def Halt.isOutOfFuel : Halt → Bool
  | .outOfFuel => true
  | .fault _ => false

open Run (AgreesUnless)

theorem Run.AgreesUnless.nested {way : Halt → Bool} (host : Host) (span : Span)
    {part part' : Run Flow} (h : AgreesUnless way part part') :
    AgreesUnless way (Run.nested host span part) (Run.nested host span part') := by
  refine (AgreesUnless.refl MonadState.get).bind fun state => ?_
  dsimp only
  by_cases hfull : host.maxDepth ≤ state.depth
  · rw [if_pos hfull, if_pos hfull]
    exact .refl _
  · rw [if_neg hfull, if_neg hfull]
    exact (h.during span).between _ _

/-- Agreement of two runs of which the second has more fuel. -/
def Congruence.moreFuel (host : Host) : Congruence host host :=
  .agreement Halt.isOutOfFuel (.refl host) rfl (fun _ => rfl) (AgreesUnless.nested host)

namespace Engine

variable {host : Host} {fuel more : Nat}

/-- The turns of a loop are counted by the fuel as well. -/
theorem loop_agrees {engine engine' : Engine}
    (h : (Congruence.moreFuel host).Engines engine engine') (hle : fuel ≤ more)
    (condition : Node) (body : List Node) (scope : ScopeRef) :
    (Congruence.moreFuel host).Flows
      (loop (engine.evaluate condition scope) (engine.block body scope) fuel)
      (loop (engine'.evaluate condition scope) (engine'.block body scope) more) := by
  induction fuel generalizing more with
  | zero => exact AgreesUnless.of_haltsBy (fun _ => rfl) _
  | succ fuel ih =>
      obtain ⟨more, rfl⟩ : ∃ less, more = less + 1 := ⟨more - 1, by omega⟩
      let law := Congruence.moreFuel host
      refine law.bind (h.evaluate condition scope) fun value => ?_
      have hbody := (h.nested _).block (law.admits body) (Nat.lt_succ_self _) scope
      have hturns := ih (Nat.le_of_succ_le_succ hle)
      cases value.isTruthy with
      | true => exact law.andThen hbody (fun _ => rfl) (fun _ => rfl) hturns
      | false => exact law.pure rfl

theorem ofFuel_agrees (host : Host) (hle : fuel ≤ more) :
    (Congruence.moreFuel host).Engines (ofFuel host fuel) (ofFuel host more) := by
  induction fuel generalizing more with
  | zero =>
      constructor
      · exact fun _ _ => AgreesUnless.of_haltsBy (fun _ => rfl) _
      · exact fun _ _ => AgreesUnless.of_haltsBy (fun _ => rfl) _
  | succ fuel ih =>
      obtain ⟨more, rfl⟩ : ∃ less, more = less + 1 := ⟨more - 1, by omega⟩
      have hengines := ih (Nat.le_of_succ_le_succ hle)
      constructor
      · intro node scope
        exact hengines.evaluateStep node scope
      · intro body scope
        refine hengines.executeStep body scope fun condition inner => ?_
        exact loop_agrees hengines (Nat.le_of_succ_le_succ hle) condition inner scope

end Engine

end Wabun
