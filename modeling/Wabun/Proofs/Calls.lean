import Wabun.Proofs.Lockstep
import Wabun.Proofs.Recognition

/-!
Calls of the reader, one after another on what is left of one stream, after successes and
faults alike. Every call comes to an end by itself: neither the depth of the grammar nor the
number of rounds in a repetition has to be cut off, because a phrase inside another one begins
behind a token of it and every round takes a token. No call goes back, none goes past the end,
and a statement or an expression that is read is not empty.
-/

namespace Wabun

open TokenStream

namespace Parse

variable {α : Type} {n : Nat} {p : Parse α} {more : TokenStream → Bool}

/-- A repetition that turns to something else after so many rounds. -/
def manyOr (cut : Parse (List α)) (more : TokenStream → Bool) (item : Parse α) :
    Nat → Parse (List α)
  | 0 => cut
  | bound + 1 => do
    if more (← get) then
      let first ← item
      let rest ← manyOr cut more item bound
      return first :: rest
    else
      return []

theorem manyUpTo_eq_manyOr (more : TokenStream → Bool) (item : Parse α) (bound : Nat) :
    manyUpTo more item bound = manyOr (pure []) more item bound := by
  induction bound with
  | zero => rfl
  | succ bound ih => rw [manyUpTo, manyOr, ih]

/-- Where every round takes a token, a repetition ends before it has gone on for more rounds
than there are tokens. -/
theorem manyOr_eq (hp : Lockstep 1 n n p p) {cut cut' : Parse (List α)} {bound bound' : Nat}
    {s : TokenStream} (hs : s.tokens.length < n) (hbound : s.tokens.length < bound)
    (hbound' : s.tokens.length < bound') :
    manyOr cut more p bound s = manyOr cut' more p bound' s := by
  induction bound generalizing bound' s with
  | zero => exact absurd hbound (Nat.not_lt_zero _)
  | succ bound ih =>
      cases bound' with
      | zero => exact absurd hbound' (Nat.not_lt_zero _)
      | succ bound' =>
          rw [manyOr, manyOr, get_bind, get_bind]
          split
          · obtain ⟨taken, htakes, _⟩ := hp s s hs (.refl 2 s)
            change EStateM.bind p _ s = EStateM.bind p _ s
            rw [EStateM.bind, EStateM.bind]
            cases hfirst : p s with
            | error located t => rfl
            | ok a t =>
                rw [hfirst] at htakes
                have hwithin := htakes.within
                have henough := htakes.enough rfl
                obtain rfl : t = s.skip taken := htakes.rest
                have hlength := length_skip s taken
                have hrest : manyOr cut more p bound (s.skip taken) =
                    manyOr cut' more p bound' (s.skip taken) :=
                  ih (by omega) (by omega) (by omega)
                change EStateM.bind _ _ _ = EStateM.bind _ _ _
                rw [EStateM.bind, EStateM.bind, hrest]
          · rfl

theorem manyOr_eq_many (hp : Lockstep 1 n n p p) (cut : Parse (List α)) {bound : Nat}
    {s : TokenStream} (hs : s.tokens.length < n) (hbound : s.tokens.length < bound) :
    manyOr cut more p bound s = many more p s := by
  change _ = manyUpTo more p (s.tokens.length + 1) s
  rw [manyUpTo_eq_manyOr]
  exact manyOr_eq hp hs hbound (Nat.lt_succ_self _)

end Parse

namespace Grammar

open Parse

/-- The repetitions of the reader: the test before each round, and what is read in it. -/
inductive Repeats (grammar : Grammar) : {α : Type} → (TokenStream → Bool) → Parse α → Prop
  | statements : Repeats grammar (fun stream => !stream.atEnd) grammar.statement
  | block : Repeats grammar (fun stream => !stream.atSymbol .rightBrace) do
      if (← get).atEnd then unexpected (.symbol .rightBrace) else grammar.statement
  | cases : Repeats grammar (fun stream => !stream.atSymbol .rightBrace) do
      if (← get).atEnd then unexpected (.symbol .rightBrace) else grammar.patternCase
  | names : Repeats grammar (·.atSymbol .comma) do
      let comma ← symbol .comma
      let next ← name
      return [comma, next]
  | values : Repeats grammar (·.atSymbol .comma) do
      let comma ← symbol .comma
      let next ← grammar.expression
      return [comma, next]
  | enumItems : Repeats grammar (fun stream => !stream.atSymbol .rightBrace) do
      if (← get).atSymbol .comma then symbol .comma else name
  | factors : Repeats grammar (fun stream => (stream.operator? .multiplicative).isSome)
      (joint .multiplicative grammar.operandStep)
  | summands : Repeats grammar (fun stream => (stream.operator? .additive).isSome)
      (joint .additive (joined .multiplicative grammar.operandStep))
  | compared : Repeats grammar (fun stream => (stream.operator? .comparison).isSome)
      (joint .comparison (joined .additive (joined .multiplicative grammar.operandStep)))
  | callees : Repeats grammar (fun stream => stream.callee?.isSome) do
      let _ ← keyword .object
      name

theorem Repeats.lockstep {n : Nat} {grammar : Grammar} (h : InLockstep n n grammar grammar)
    {α : Type} {more : TokenStream → Bool} {item : Parse α} (hrepeats : Repeats grammar more item) :
    Lockstep 1 n n item item := by
  have hcomma {item : Parse Phrase} (hitem : Lockstep 1 n n item item) : Lockstep 1 n n (do
      let comma ← symbol .comma
      let next ← item
      return [comma, next]) _ :=
    (Lockstep.symbol _).bind fun _ => hitem.loose.bind fun _ => .pure _
  have hoperand : Lockstep 1 n n grammar.operandStep grammar.operandStep :=
    h.operandStep.mono (Nat.le_refl _) (Nat.le_succ _) (Nat.le_succ _)
  cases hrepeats with
  | statements => exact h.statement
  | block => exact .ite sighted_atEnd (.unexpected _) h.statement
  | cases => exact .ite sighted_atEnd (.unexpected _) h.patternCase
  | names => exact hcomma .name
  | values => exact hcomma h.expression
  | enumItems => exact .ite (sighted_atSymbol _) (.symbol _) .name
  | factors => exact hoperand.joint _
  | summands => exact (hoperand.joined _).joint _
  | compared => exact ((hoperand.joined _).joined _).joint _
  | callees => exact (Lockstep.keyword _).bind fun _ => Lockstep.name.loose

end Grammar

/-- What can be asked of the reader. -/
inductive Call where
  | program
  | statement
  | expression
deriving DecidableEq

namespace Call

def run : Call → Parse Phrase
  | program => Parse.program
  | statement => Parse.statement
  | expression => Parse.expression

/-- What is asked of a grammar. -/
def reading : Call → Grammar → Parse Phrase
  | program => fun grammar => do
    let statements ← Parse.many (fun stream => !stream.atEnd) grammar.statement
    return .group statements
  | statement => Grammar.statement
  | expression => Grammar.expression

theorem run_eq (call : Call) (s : TokenStream) :
    call.run s = call.reading (.ofDepth (s.tokens.length + 1)) s := by
  cases call <;> rfl

/-- The least number of tokens that a success takes. -/
def least : Call → Nat
  | program => 0
  | statement => 1
  | expression => 1

theorem lockstep {n n' : Nat} {grammar other : Grammar} (h : grammar.InLockstep n n' other)
    (call : Call) : Parse.Lockstep call.least n n' (call.reading grammar) (call.reading other) := by
  cases call with
  | program => exact h.program
  | statement => exact h.statement
  | expression => exact h.expression

/-- A call has the same ending with every grammar that is deep enough, whatever stands below. -/
theorem reading_unroll (call : Call) {s : TokenStream} (base : Grammar) {depth : Nat}
    (hdepth : s.tokens.length < depth) :
    call.reading (.unroll base depth) s = call.run s := by
  have hgrammar := Grammar.inLockstep_unroll base (.ofDepth 0) depth (s.tokens.length + 1)
  obtain ⟨taken, htakes, hfollow⟩ := lockstep hgrammar call s s hdepth (.refl 2 s)
  rw [run_eq, Grammar.ofDepth_eq_unroll, hfollow (Nat.lt_succ_self _) (.refl _ s), ← htakes.rest]
  cases call.reading (.unroll base depth) s <;> rfl

theorem takes (call : Call) (s : TokenStream) :
    ∃ taken, Parse.Takes call.least taken s (call.run s) := by
  have hgrammar := Grammar.inLockstep_unroll (.ofDepth 0) (.ofDepth 0) (s.tokens.length + 1) 0
  obtain ⟨taken, htakes, _⟩ := lockstep hgrammar call s s (Nat.lt_succ_self _) (.refl 2 s)
  rw [reading_unroll call _ (Nat.lt_succ_self _)] at htakes
  exact ⟨taken, htakes⟩

end Call

/-- What calls leave of a stream, whatever they come to. -/
def TokenStream.after (stream : TokenStream) : List Call → TokenStream
  | [] => stream
  | call :: calls => after (Ending.rest (call.run stream)) calls

namespace TokenStream

/-- Calls take tokens off one after another, and never the mark of an end. -/
theorem after_eq_skip (stream : TokenStream) (calls : List Call) :
    ∃ passed, passed ≤ stream.tokens.length ∧ stream.after calls = stream.skip passed ∧
      ∀ token ∈ stream.tokens.take passed, token.kind ≠ .mark := by
  induction calls generalizing stream with
  | nil => exact ⟨0, Nat.zero_le _, rfl, by simp⟩
  | cons call calls ih =>
      obtain ⟨taken, htakes⟩ := call.takes stream
      obtain ⟨passed, hpassed, hafter, hunmarked⟩ := ih (Ending.rest (call.run stream))
      rw [htakes.rest] at hpassed hafter hunmarked
      rw [length_skip] at hpassed
      have hwithin := htakes.within
      refine ⟨taken + passed, by omega, ?_, fun token hmem => ?_⟩
      · rw [after, htakes.rest, hafter, skip_skip]
      · rw [List.take_add, List.mem_append] at hmem
        rcases hmem with hfirst | hsecond
        · exact htakes.unmarked token hfirst
        · exact hunmarked token hsecond

theorem after_append (stream : TokenStream) (calls : List Call) (call : Call) :
    stream.after (calls ++ [call]) = Ending.rest (call.run (stream.after calls)) := by
  induction calls generalizing stream with
  | nil => rfl
  | cons first calls ih => exact ih _

end TokenStream

namespace Call

/-- A program is read up to the end. -/
theorem atEnd_of_program {s : TokenStream} (h : Ending.isOk (program.run s) = true) :
    (Ending.rest (program.run s)).tokens = [] := by
  change Ending.isOk (Parse.program s) = true at h
  change (Ending.rest (Parse.program s)).tokens = []
  cases hread : Parse.program s with
  | error located rest =>
      rw [hread] at h
      exact absurd h Bool.false_ne_true
  | ok phrase rest =>
      obtain ⟨_, _, hkinds, _⟩ := Parse.statements_of_program hread
      exact List.map_eq_nil_iff.mp hkinds

/-- However the reader has been called before, the next call ends. Its ending does not depend
on what stands below a depth that exceeds the number of tokens left, and every repetition ends
by its test and not by a bound on its rounds. It leaves the stream at a place that is not before
the one where it began and not past the end: it does not go on from there, and neither past a
mark that would stand among the tokens. A statement or an expression that it has read takes a
token, and where it has read a program it is at the end. -/
theorem calls_end_on_stream (stream : TokenStream) (calls : List Call) (call : Call) :
    (∀ base depth, (stream.after calls).tokens.length < depth →
      call.reading (.unroll base depth) (stream.after calls) = call.run (stream.after calls)) ∧
    (∀ base depth (α : Type) more (item : Parse α),
      (Grammar.unroll base depth).Repeats more item →
      ∀ cut bound (s : TokenStream), s.tokens.length < depth → s.tokens.length < bound →
        Parse.manyOr cut more item bound s = Parse.many more item s) ∧
    ∃ before behind, before ≤ behind ∧ behind ≤ stream.tokens.length ∧
      stream.after calls = stream.skip before ∧
      Ending.rest (call.run (stream.after calls)) = stream.skip behind ∧
      (Ending.rest (call.run (stream.after calls))).overrun = stream.overrun ∧
      (∀ token ∈ stream.tokens.take behind, token.kind ≠ .mark) ∧
      (Ending.isOk (call.run (stream.after calls)) = true →
        (call ≠ program → before < behind) ∧
        (call = program → behind = stream.tokens.length)) := by
  refine ⟨fun base depth hdepth => call.reading_unroll base hdepth, ?_, ?_⟩
  · intro base depth α more item hrepeats cut bound s hdepth hbound
    exact Parse.manyOr_eq_many (hrepeats.lockstep (Grammar.inLockstep_unroll base base depth depth))
      cut hdepth hbound
  · obtain ⟨before, hbefore, hafter, _⟩ := stream.after_eq_skip calls
    obtain ⟨behind, hbehind, hrest, hunmarked⟩ := stream.after_eq_skip (calls ++ [call])
    rw [after_append] at hrest
    obtain ⟨taken, htakes⟩ := call.takes (stream.after calls)
    have hwithin := htakes.within
    rw [hafter, length_skip] at hwithin
    obtain rfl : behind = before + taken := by
      refine skip_inj hbehind (by omega) ?_
      rw [← hrest, htakes.rest, hafter, skip_skip]
    have hoverrun : (Ending.rest (call.run (stream.after calls))).overrun = stream.overrun := by
      rw [hrest]
      rfl
    refine ⟨before, before + taken, Nat.le_add_right _ _, hbehind, hafter, hrest, hoverrun,
      hunmarked, fun hok => ⟨fun hcall => ?_, fun hcall => ?_⟩⟩
    · have henough := htakes.enough hok
      have hleast : call.least = 1 := by
        cases call with
        | program => exact absurd rfl hcall
        | statement => rfl
        | expression => rfl
      omega
    · subst hcall
      have hlength : (stream.skip (before + taken)).tokens.length = 0 := by
        rw [← hrest, atEnd_of_program hok]
        rfl
      rw [length_skip] at hlength
      omega

end Call

end Wabun
