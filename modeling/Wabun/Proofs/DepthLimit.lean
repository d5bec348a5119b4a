import Wabun.Proofs.Agreement

/-!
The limit on open calls is only a limit. A run that does not meet it is the
same run under any larger one, to the last event in its journal: how deep the
open calls are cannot be seen by a program, and the fault of having too many
cannot be caught.
-/

namespace Wabun

/-- Too many calls are open. -/
def Halt.isTooDeep : Halt → Bool
  | .fault (.callsTooDeep _) => true
  | _ => false

open Run (AgreesUnless)

/-- Where the smaller limit lets a call begin, so does the larger one. -/
theorem Run.AgreesUnless.nested_of_le {host : Host} {limit larger : Nat} (hle : limit ≤ larger)
    (span : Span) {part part' : Run Flow} (h : AgreesUnless Halt.isTooDeep part part') :
    AgreesUnless Halt.isTooDeep (Run.nested { host with maxDepth := limit } span part)
      (Run.nested { host with maxDepth := larger } span part') := by
  refine (AgreesUnless.refl MonadState.get).bind fun state => ?_
  dsimp only
  by_cases hdeep : limit ≤ state.depth
  · rw [if_pos hdeep]
    exact .of_haltsBy (fun _ => rfl) _
  · rw [if_neg hdeep]
    by_cases hdeeper : larger ≤ state.depth
    · omega
    · rw [if_neg hdeeper]
      exact (h.during span).between _ _

/-- Agreement of the runs under two limits. -/
def Congruence.raisedLimit (host : Host) {limit larger : Nat} (hle : limit ≤ larger) :
    Congruence { host with maxDepth := limit } { host with maxDepth := larger } :=
  .agreement Halt.isTooDeep ⟨rfl, rfl⟩ rfl (fun _ => rfl) (AgreesUnless.nested_of_le hle)

namespace Engine

/-- A run that does not end with too many open calls ends under every larger limit
with the same result and leaves the same state. -/
theorem execute_eq_of_larger_limit (host : Host) (limit larger fuel : Nat) (hle : limit ≤ larger)
    (body : List Node) (scope : ScopeRef) (state : State)
    (hended : ((ofFuel { host with maxDepth := limit } fuel).execute body scope).haltsBy
      Halt.isTooDeep state = false) :
    (ofFuel { host with maxDepth := larger } fuel).execute body scope state =
      (ofFuel { host with maxDepth := limit } fuel).execute body scope state := by
  have hengines := (Congruence.raisedLimit host hle).ofFuel fuel
  exact (hengines.execute body scope state).resolve_left (Bool.not_eq_true _ ▸ hended)

/-- The statements of `関数 外 () { () を 内 を 返却 }  関数 内 () { 「葉」 を 返却 }  () を 外 を 返却`. -/
def callInCall : List Node :=
  [.function "外" [] [.giveBack (.call "内" [])],
    .function "内" [] [.giveBack (.literal (.text "葉"))],
    .giveBack (.call "外" [])]

theorem execute_eq_of_larger_limit_callInCall :
    let run (limit : Nat) := (ofFuel { Host.standard with maxDepth := limit } 9).execute callInCall
    let state := Run.root.after .initial
    (run 1 ⟨0⟩).haltsBy Halt.isTooDeep state = true ∧
      (run 2 ⟨0⟩).haltsBy Halt.isTooDeep state = false ∧
      run 1000 ⟨0⟩ state = run 2 ⟨0⟩ state := by
  intro run state
  have hended : (run 2 ⟨0⟩).haltsBy Halt.isTooDeep state = false := by decide +kernel
  refine ⟨by decide +kernel, hended, ?_⟩
  exact execute_eq_of_larger_limit .standard 2 1000 9 (by decide) callInCall ⟨0⟩ state hended

end Engine

end Wabun
