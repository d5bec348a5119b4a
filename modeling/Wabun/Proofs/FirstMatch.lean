import Wabun.Proofs.Congruence
import Wabun.Proofs.Frame

/-!
How a case is chosen. The rules say what is evaluated for one case, and that a choice among
many passes over those in front of the first that is for the subject. With every rule stands
what it asks of the engine, in order and each in the state that the one before it left. The
statement behaves as the rules say, and all that it depends on is what they ask for. So the
patterns and conditions behind the chosen case are not evaluated, and no other body is run.
-/

namespace Wabun

namespace Engine

open Run

/-- What an engine is asked for in a state: the value of a node, or how a body ends. -/
inductive Demand where
  | value (node : Node) (scope : ScopeRef) (state : State)
  | flow (body : List Node) (scope : ScopeRef) (state : State)

/-- Two engines give the same answer to a demand. -/
def Demand.Alike (engine other : Engine) : Demand → Prop
  | .value node scope state => other.evaluate node scope state = engine.evaluate node scope state
  | .flow body scope state => other.execute body scope state = engine.execute body scope state

section Rules

variable (engine : Engine) (host : Host) (scope : ScopeRef)

/-- Whether a pattern fits the subject. The absent one does, and nothing is asked for it. -/
inductive Compares (subject : Value) :
    Option Node → State → List Demand → EStateM.Result Halt State Bool → Prop
  | absent (state : State) : Compares subject none state [] (.ok true state)
  | compared {pattern : Node} {value : Value} {before after : State}
      (h : engine.evaluate pattern scope before = .ok value after) :
    Compares subject (some pattern) before [.value pattern scope before]
      (.ok (after.heap.equal host.listing value subject) after)
  | failed {pattern : Node} {halt : Halt} {before after : State}
      (h : engine.evaluate pattern scope before = .error halt after) :
    Compares subject (some pattern) before [.value pattern scope before] (.error halt after)

/-- Whether a condition is met. The absent one is. -/
inductive Weighs : Option Node → State → List Demand → EStateM.Result Halt State Bool → Prop
  | absent (state : State) : Weighs none state [] (.ok true state)
  | weighed {guard : Node} {value : Value} {before after : State}
      (h : engine.evaluate guard scope before = .ok value after) :
    Weighs (some guard) before [.value guard scope before] (.ok value.isTruthy after)
  | failed {guard : Node} {halt : Halt} {before after : State}
      (h : engine.evaluate guard scope before = .error halt after) :
    Weighs (some guard) before [.value guard scope before] (.error halt after)

/-- Whether a case is for the subject. The condition counts only if the pattern fits. -/
inductive Tries (subject : Value) (candidate : PatternCase) (before : State) :
    List Demand → EStateM.Result Halt State Bool → Prop
  | differs {asked : List Demand} {after : State}
      (h : Compares engine host scope subject candidate.pattern before asked (.ok false after)) :
    Tries subject candidate before asked (.ok false after)
  | failed {asked : List Demand} {halt : Halt} {after : State}
      (h : Compares engine host scope subject candidate.pattern before asked (.error halt after)) :
    Tries subject candidate before asked (.error halt after)
  | fits {asked guardAsked : List Demand} {middle : State}
      {result : EStateM.Result Halt State Bool}
      (h : Compares engine host scope subject candidate.pattern before asked (.ok true middle))
      (hguard : Weighs engine scope candidate.guard middle guardAsked result) :
    Tries subject candidate before (asked ++ guardAsked) result

/-- None of the cases is for the subject. -/
inductive PassesAll (subject : Value) :
    List PatternCase → State → List Demand → State → Prop
  | nil (state : State) : PassesAll subject [] state [] state
  | cons {candidate : PatternCase} {rest : List PatternCase} {asked laterAsked : List Demand}
      {before middle after : State}
      (h : Tries engine host scope subject candidate before asked (.ok false middle))
      (hrest : PassesAll subject rest middle laterAsked after) :
    PassesAll subject (candidate :: rest) before (asked ++ laterAsked) after

/-- How a choice among cases ends, and what is asked for on the way. The subject is evaluated
first. The cases in front of the chosen one are passed over, and its body runs in a new scope. -/
inductive Distinguishes (subject : Node) (cases : List PatternCase) (state : State) :
    List Demand → EStateM.Result Halt State Flow → Prop
  | noSubject {halt : Halt} {final : State}
      (h : engine.evaluate subject scope state = .error halt final) :
    Distinguishes subject cases state [.value subject scope state] (.error halt final)
  | unmatched {value : Value} {asked : List Demand} {start final : State}
      (hsubject : engine.evaluate subject scope state = .ok value start)
      (hpasses : PassesAll engine host scope value cases start asked final) :
    Distinguishes subject cases state (.value subject scope state :: asked) (.ok .normal final)
  | failed {value : Value} {before later : List PatternCase} {candidate : PatternCase}
      {asked lastAsked : List Demand} {halt : Halt} {start middle final : State}
      (hsubject : engine.evaluate subject scope state = .ok value start)
      (hcases : cases = before ++ candidate :: later)
      (hpasses : PassesAll engine host scope value before start asked middle)
      (hfails : Tries engine host scope value candidate middle lastAsked (.error halt final)) :
    Distinguishes subject cases state (.value subject scope state :: (asked ++ lastAsked))
      (.error halt final)
  | chosen {value : Value} {before later : List PatternCase} {candidate : PatternCase}
      {asked lastAsked : List Demand} {start middle found entered : State} {inner : ScopeRef}
      {result : EStateM.Result Halt State Flow}
      (hsubject : engine.evaluate subject scope state = .ok value start)
      (hcases : cases = before ++ candidate :: later)
      (hpasses : PassesAll engine host scope value before start asked middle)
      (htakes : Tries engine host scope value candidate middle lastAsked (.ok true found))
      (hscope : makeScope (.childOf scope) found = .ok inner entered)
      (hbody : engine.execute candidate.body inner entered = result) :
    Distinguishes subject cases state
      (.value subject scope state :: (asked ++ lastAsked ++ [.flow candidate.body inner entered]))
      result

end Rules

section Soundness

variable {engine : Engine} {host : Host} {scope : ScopeRef} {subject : Value}
  {candidate : PatternCase} {node? : Option Node} {asked : List Demand} {before after : State}
  {result : EStateM.Result Halt State Bool}

theorem Compares.matchesPattern
    (h : Compares engine host scope subject node? before asked result) :
    engine.matchesPattern host subject scope node? before = result := by
  cases h with
  | absent => rfl
  | compared heval => exact bind_of_ok heval
  | failed heval => exact bind_of_error heval

theorem Weighs.meetsGuard (h : Weighs engine scope node? before asked result) :
    engine.meetsGuard scope node? before = result := by
  cases h with
  | absent => rfl
  | weighed heval => exact bind_of_ok heval
  | failed heval => exact bind_of_error heval

theorem Tries.accepts (h : Tries engine host scope subject candidate before asked result) :
    engine.accepts host subject scope candidate before = result := by
  rw [Engine.accepts]
  cases h with
  | differs hpattern => exact bind_of_ok hpattern.matchesPattern
  | failed hpattern => exact bind_of_error hpattern.matchesPattern
  | fits hpattern hguard => exact (bind_of_ok hpattern.matchesPattern).trans hguard.meetsGuard

theorem PassesAll.matchingCase {cases : List PatternCase}
    (h : PassesAll engine host scope subject cases before asked after) (rest : List PatternCase) :
    engine.matchingCase host subject scope (cases ++ rest) before =
      engine.matchingCase host subject scope rest after := by
  induction h with
  | nil state => rfl
  | cons htry _ ih => exact (bind_of_ok htry.accepts).trans ih

theorem Tries.matchingCase
    (h : Tries engine host scope subject candidate before asked (.ok true after))
    (rest : List PatternCase) :
    engine.matchingCase host subject scope (candidate :: rest) before =
      .ok (some candidate) after :=
  bind_of_ok h.accepts

/-- The statement ends as the rules say. -/
theorem Distinguishes.statement {subject : Node} {cases : List PatternCase} {state : State}
    {result : EStateM.Result Halt State Flow}
    (h : Distinguishes engine host scope subject cases state asked result) (fuel : Nat) :
    engine.statement host fuel (.distinguish subject cases) scope state = result := by
  rw [Engine.statement]
  cases h with
  | noSubject hsubject => exact bind_of_error hsubject
  | unmatched hsubject hpasses =>
      have hnone := hpasses.matchingCase []
      rw [List.append_nil] at hnone
      rw [bind_of_ok hsubject]
      exact bind_of_ok hnone
  | failed hsubject hcases hpasses hfails =>
      rw [bind_of_ok hsubject, hcases]
      exact bind_of_error ((hpasses.matchingCase _).trans (bind_of_error hfails.accepts))
  | chosen hsubject hcases hpasses htakes hscope hbody =>
      rw [bind_of_ok hsubject, hcases,
        bind_of_ok ((hpasses.matchingCase _).trans (htakes.matchingCase _))]
      exact (bind_of_ok hscope).trans hbody

end Soundness

section Completeness

variable (engine : Engine) (host : Host) (scope : ScopeRef)

theorem exists_compares (subject : Value) (pattern : Option Node) (state : State) :
    ∃ asked result, Compares engine host scope subject pattern state asked result := by
  cases pattern with
  | none => exact ⟨_, _, .absent state⟩
  | some pattern =>
      cases heval : engine.evaluate pattern scope state with
      | ok value after => exact ⟨_, _, .compared heval⟩
      | error halt after => exact ⟨_, _, .failed heval⟩

theorem exists_weighs (guard : Option Node) (state : State) :
    ∃ asked result, Weighs engine scope guard state asked result := by
  cases guard with
  | none => exact ⟨_, _, .absent state⟩
  | some guard =>
      cases heval : engine.evaluate guard scope state with
      | ok value after => exact ⟨_, _, .weighed heval⟩
      | error halt after => exact ⟨_, _, .failed heval⟩

theorem exists_tries (subject : Value) (candidate : PatternCase) (state : State) :
    ∃ asked result, Tries engine host scope subject candidate state asked result := by
  obtain ⟨asked, compared, hpattern⟩ :=
    exists_compares engine host scope subject candidate.pattern state
  cases compared with
  | error halt after => exact ⟨_, _, .failed hpattern⟩
  | ok fits middle =>
      cases fits with
      | false => exact ⟨_, _, .differs hpattern⟩
      | true =>
          obtain ⟨guardAsked, result, hguard⟩ := exists_weighs engine scope candidate.guard middle
          exact ⟨_, _, .fits hpattern hguard⟩

/-- Either all cases are passed over, or there is a first one that is not: it is for the
subject, or it cannot be tried to the end. -/
theorem passesAll_or_first (subject : Value) (cases : List PatternCase) (state : State) :
    (∃ asked final, PassesAll engine host scope subject cases state asked final) ∨
    ∃ before candidate later asked middle lastAsked,
      cases = before ++ candidate :: later ∧
      PassesAll engine host scope subject before state asked middle ∧
      ((∃ found, Tries engine host scope subject candidate middle lastAsked (.ok true found)) ∨
        ∃ halt final,
          Tries engine host scope subject candidate middle lastAsked (.error halt final)) := by
  induction cases generalizing state with
  | nil => exact .inl ⟨_, _, .nil state⟩
  | cons candidate rest ih =>
      obtain ⟨asked, result, htry⟩ := exists_tries engine host scope subject candidate state
      cases result with
      | error halt final =>
          exact .inr ⟨[], candidate, rest, _, _, _, rfl, .nil state, .inr ⟨halt, final, htry⟩⟩
      | ok accepted middle =>
          cases accepted with
          | true =>
              exact .inr ⟨[], candidate, rest, _, _, _, rfl, .nil state, .inl ⟨middle, htry⟩⟩
          | false =>
              -- The search goes on in the state that this case has left.
              rcases ih middle with ⟨laterAsked, final, hpasses⟩ |
                ⟨before, first, later, laterAsked, last, lastAsked, rfl, hpasses, hend⟩
              · exact .inl ⟨_, _, .cons htry hpasses⟩
              · exact .inr ⟨candidate :: before, first, later, _, _, _, rfl,
                  .cons htry hpasses, hend⟩

theorem exists_distinguishes (subject : Node) (cases : List PatternCase) (state : State) :
    ∃ asked result, Distinguishes engine host scope subject cases state asked result := by
  cases hsubject : engine.evaluate subject scope state with
  | error halt final => exact ⟨_, _, .noSubject hsubject⟩
  | ok value start =>
      rcases passesAll_or_first engine host scope value cases start with
        ⟨asked, final, hpasses⟩ |
        ⟨before, candidate, later, asked, middle, lastAsked, hcases, hpasses, hend⟩
      · exact ⟨_, _, .unmatched hsubject hpasses⟩
      · rcases hend with ⟨found, htakes⟩ | ⟨halt, final, hfails⟩
        · exact ⟨_, _, .chosen hsubject hcases hpasses htakes rfl rfl⟩
        · exact ⟨_, _, .failed hsubject hcases hpasses hfails⟩

end Completeness

section Transfer

variable {engine other : Engine} {host : Host} {scope : ScopeRef} {subject : Value}
  {candidate : PatternCase} {node? : Option Node} {asked : List Demand} {before after : State}
  {result : EStateM.Result Halt State Bool}

theorem Compares.transfer (h : Compares engine host scope subject node? before asked result)
    (halike : ∀ demand ∈ asked, demand.Alike engine other) :
    Compares other host scope subject node? before asked result := by
  cases h with
  | absent => exact .absent before
  | compared heval => exact .compared ((halike _ List.mem_cons_self).trans heval)
  | failed heval => exact .failed ((halike _ List.mem_cons_self).trans heval)

theorem Weighs.transfer (h : Weighs engine scope node? before asked result)
    (halike : ∀ demand ∈ asked, demand.Alike engine other) :
    Weighs other scope node? before asked result := by
  cases h with
  | absent => exact .absent before
  | weighed heval => exact .weighed ((halike _ List.mem_cons_self).trans heval)
  | failed heval => exact .failed ((halike _ List.mem_cons_self).trans heval)

theorem Tries.transfer (h : Tries engine host scope subject candidate before asked result)
    (halike : ∀ demand ∈ asked, demand.Alike engine other) :
    Tries other host scope subject candidate before asked result := by
  cases h with
  | differs hpattern => exact .differs (hpattern.transfer halike)
  | failed hpattern => exact .failed (hpattern.transfer halike)
  | fits hpattern hguard =>
      rw [List.forall_mem_append] at halike
      exact .fits (hpattern.transfer halike.1) (hguard.transfer halike.2)

theorem PassesAll.transfer {cases : List PatternCase}
    (h : PassesAll engine host scope subject cases before asked after)
    (halike : ∀ demand ∈ asked, demand.Alike engine other) :
    PassesAll other host scope subject cases before asked after := by
  induction h with
  | nil state => exact .nil state
  | cons htry _ ih =>
      rw [List.forall_mem_append] at halike
      exact .cons (htry.transfer halike.1) (ih halike.2)

theorem Distinguishes.transfer {subject : Node} {cases : List PatternCase} {state : State}
    {result : EStateM.Result Halt State Flow}
    (h : Distinguishes engine host scope subject cases state asked result)
    (halike : ∀ demand ∈ asked, demand.Alike engine other) :
    Distinguishes other host scope subject cases state asked result := by
  cases h with
  | noSubject heval => exact .noSubject ((halike _ List.mem_cons_self).trans heval)
  | unmatched heval hpasses =>
      rw [List.forall_mem_cons] at halike
      exact .unmatched (halike.1.trans heval) (hpasses.transfer halike.2)
  | failed heval hcases hpasses hfails =>
      rw [List.forall_mem_cons, List.forall_mem_append] at halike
      obtain ⟨hvalue, hbefore, hlast⟩ := halike
      exact .failed (hvalue.trans heval) hcases (hpasses.transfer hbefore) (hfails.transfer hlast)
  | chosen heval hcases hpasses htakes hscope hbody =>
      rw [List.forall_mem_cons, List.forall_mem_append, List.forall_mem_append] at halike
      obtain ⟨hvalue, ⟨hbefore, hlast⟩, hflow⟩ := halike
      exact .chosen (hvalue.trans heval) hcases (hpasses.transfer hbefore)
        (htakes.transfer hlast) hscope ((hflow _ List.mem_cons_self).trans hbody)

end Transfer

/-- The first case that is for the subject is chosen, as the rules say: the statement ends in a
way just if they lead to it, for every engine and so for a program of every depth. What the
rules do not ask for has no part in it: an engine that differs in nothing that they ask for
makes the same choice, from the same evaluations, with the same end. -/
theorem distinguish_takes_first_match (host : Host) (subject : Node) (cases : List PatternCase)
    (scope : ScopeRef) (state : State) :
    (∀ (engine : Engine) (fuel : Nat) (result : EStateM.Result Halt State Flow),
      engine.statement host fuel (.distinguish subject cases) scope state = result ↔
        ∃ asked, Distinguishes engine host scope subject cases state asked result) ∧
    (∀ (fuel : Nat) (result : EStateM.Result Halt State Flow),
      (ofFuel host (fuel + 1)).execute [.distinguish subject cases] scope state = result ↔
        ∃ asked, Distinguishes (ofFuel host fuel) host scope subject cases state asked result) ∧
    ∀ (engine other : Engine) (asked : List Demand) (result : EStateM.Result Halt State Flow),
      Distinguishes engine host scope subject cases state asked result →
      (∀ demand ∈ asked, demand.Alike engine other) →
      Distinguishes other host scope subject cases state asked result ∧
      ∀ fuel, other.statement host fuel (.distinguish subject cases) scope state = result := by
  have hstatement (engine : Engine) (fuel : Nat) (result : EStateM.Result Halt State Flow) :
      engine.statement host fuel (.distinguish subject cases) scope state = result ↔
        ∃ asked, Distinguishes engine host scope subject cases state asked result := by
    refine ⟨fun hresult => ?_, fun ⟨_, hrules⟩ => hrules.statement fuel⟩
    obtain ⟨asked, found, hrules⟩ := exists_distinguishes engine host scope subject cases state
    obtain rfl := (hrules.statement fuel).symm.trans hresult
    exact ⟨asked, hrules⟩
  refine ⟨hstatement, fun fuel result => ?_, fun engine other asked result hrules halike => ?_⟩
  · rw [execute_singleton]
    exact hstatement _ fuel result
  · have hother := hrules.transfer halike
    exact ⟨hother, fun fuel => hother.statement fuel⟩

end Engine

end Wabun
