import Wabun.Proofs.Lookahead
import Wabun.Proofs.Trail

/-!
The whole grammar looks ahead by one token. Where every recursive part of two grammars is
in step on short streams, the next parts are in step on streams of one token more, because
they begin behind their first token. So the grammars of two depths are in step on all
streams that have fewer tokens, whatever stands below these depths.
-/

namespace Wabun

namespace Grammar

open Parse (Lockstep InStep)
open TokenStream
open Token (Kind)

/-- The recursive parts of two grammars are in step on streams of fewer tokens. -/
structure InLockstep (n n' : Nat) (grammar other : Grammar) : Prop where
  statement : Lockstep 1 n n' grammar.statement other.statement
  sentence : Lockstep 1 n n' grammar.sentence other.sentence
  expression : Lockstep 1 n n' grammar.expression other.expression
  operand : Lockstep 1 n n' grammar.operand other.operand

namespace InLockstep

variable {n n' : Nat} {grammar other : Grammar}

theorem primary (h : InLockstep n n' grammar other) :
    Lockstep 1 (n + 1) (n' + 1) grammar.primary other.primary := by
  refine .get fun s s' hs hagree => ?_
  rw [← sighted_next? _ _ hagree]
  cases hnext : s.next? with
  | none => exact .unexpected _
  | some kind =>
      have htake (phrase : Phrase) (hmark : kind ≠ .mark) : InStep 1 (n' + 1) _ _ s s' :=
        .take phrase hs hnext hmark
      cases kind with
      | number x => exact htake _ (by simp [Kind.mark])
      | text value => exact htake _ (by simp [Kind.mark])
      | truth b => exact htake _ (by simp [Kind.mark])
      | word w =>
          refine .ite rfl (fun _ => ?_) fun _ => .ite rfl (fun hname => ?_) fun _ => .unexpected _
          · exact ((Lockstep.keyword _).bind fun _ => Lockstep.name.loose.bind fun _ => .pure _)
              s s' hs hagree
          · exact htake _ (Kind.name_ne_mark hname)
      | symbol sign =>
          cases sign with
          | leftParen => exact h.expression.bracketed s s' hs hagree
          | leftBrace | rightBrace | rightParen | comma | operator => exact .unexpected _

theorem operandStep (h : InLockstep n n' grammar other) :
    Lockstep 1 (n + 1) (n' + 1) grammar.operandStep other.operandStep := by
  refine .get fun s s' hs hagree => ?_
  refine .ite (sighted_atSymbol _ _ _ hagree) (fun hminus => ?_) fun _ => h.primary s s' hs hagree
  refine .advance_bind hs (next?_of_atSymbol hminus) (by simp [Kind.mark])
    (.get fun s s' hs hagree => ?_)
  rw [← sighted_next? _ _ hagree]
  have hminus := (h.operand.loose.bind fun operand =>
    .pure (Phrase.group [.number 0, .word Operator.sub.symbol, operand])) s s' hs hagree
  cases hnext : s.next? with
  | none => exact hminus
  | some kind =>
      cases kind with
      | number x =>
          exact (InStep.take _ hs hnext (by simp [Kind.mark])).loose
      | text | truth | word | symbol => exact hminus

theorem expressionStep (h : InLockstep n n' grammar other) :
    Lockstep 1 (n + 1) (n' + 1) grammar.expressionStep other.expressionStep := by
  refine .bind ?_ fun _ => (Lockstep.many ?_ ?_).bind fun _ => .pure _
  · exact ((h.operandStep.joined _).joined _).joined _
  · intro s s' hagree
    simp only [sighted_callee? _ _ hagree]
  · exact (Lockstep.keyword _).bind fun _ => Lockstep.name.loose

/-- A block begins with its brace, so it may stand where a shorter stream is expected. -/
theorem block (h : InLockstep n n' grammar other) :
    Lockstep 0 n n' grammar.block other.block :=
  h.statement.braced.mono (Nat.zero_le _) (Nat.le_succ _) (Nat.le_succ _)

theorem functionDeclaration (h : InLockstep n n' grammar other) :
    Lockstep 1 (n + 1) (n' + 1) grammar.functionDeclaration other.functionDeclaration := by
  refine (Lockstep.keyword _).inside fun _ => Lockstep.name.loose.bind fun _ => ?_
  refine .bind ?_ fun _ => h.block.bind fun _ => .pure _
  exact (Lockstep.name.bracketed).mono (Nat.zero_le _) (Nat.le_succ _) (Nat.le_succ _)

theorem binding (h : InLockstep n n' grammar other) (marker : Keyword) :
    Lockstep 1 (n + 1) (n' + 1) (grammar.binding marker) (other.binding marker) :=
  (Lockstep.keyword _).inside fun _ => Lockstep.name.loose.bind fun _ =>
    (Lockstep.keyword _).loose.bind fun _ => h.expression.loose.bind fun _ => .pure _

theorem classDeclaration (h : InLockstep n n' grammar other) :
    Lockstep 1 (n + 1) (n' + 1) grammar.classDeclaration other.classDeclaration := by
  have hbody (front : List Phrase) := h.block.bind fun body =>
    .pure (Phrase.group (front ++ [body]))
  refine (Lockstep.keyword _).inside fun marker => Lockstep.name.loose.bind fun className => ?_
  refine .ite (sighted_atKeyword _) ?_ (hbody _)
  exact (Lockstep.keyword _).loose.bind fun _ => Lockstep.name.loose.bind fun _ => hbody _

theorem enumDeclaration :
    Lockstep 1 (n + 1) (n' + 1) Grammar.enumDeclaration Grammar.enumDeclaration := by
  refine (Lockstep.keyword _).inside fun _ => Lockstep.name.loose.bind fun _ =>
    (Lockstep.symbol _).loose.bind fun _ => ?_
  refine (Lockstep.many ?_ ?_).bind fun _ => (Lockstep.symbol _).loose.bind fun _ => .pure _
  · intro s s' hagree
    simp only [sighted_atSymbol _ _ _ hagree]
  · exact .ite (sighted_atSymbol _) (.symbol _) .name

theorem staticDeclaration (h : InLockstep n n' grammar other) :
    Lockstep 1 (n + 1) (n' + 1) grammar.staticDeclaration other.staticDeclaration :=
  (Lockstep.keyword _).inside fun _ => Lockstep.name.loose.bind fun _ =>
    h.block.bind fun _ => .pure _

theorem attempt (h : InLockstep n n' grammar other) :
    Lockstep 1 (n + 1) (n' + 1) grammar.attempt other.attempt := by
  refine (Lockstep.keyword _).inside fun _ => h.block.bind fun _ =>
    (Lockstep.keyword _).loose.bind fun _ => .bind ?_ fun _ => h.block.bind fun _ => .pure _
  exact (Lockstep.name.bracketed).mono (Nat.zero_le _) (Nat.le_succ _) (Nat.le_succ _)

theorem importing : Lockstep 1 (n + 1) (n' + 1) Grammar.importing Grammar.importing := by
  refine (Lockstep.keyword _).inside fun marker => .get fun s s' hs hagree => ?_
  rw [← sighted_next? _ _ hagree]
  have hname : InStep 0 n' (do
      let moduleName ← Parse.name
      return .group [marker, moduleName] : Parse Phrase) _ s s' :=
    (Lockstep.name.loose.bind fun _ => .pure _) s s' hs hagree
  cases hnext : s.next? with
  | none => exact hname
  | some kind =>
      cases kind with
      | text value =>
          exact (InStep.take _ hs hnext (by simp [Kind.mark])).loose
      | number | truth | word | symbol => exact hname

theorem typeInspection (h : InLockstep n n' grammar other) :
    Lockstep 1 (n + 1) (n' + 1) grammar.typeInspection other.typeInspection :=
  (Lockstep.keyword _).inside fun _ => h.expression.loose.bind fun _ =>
    (Lockstep.keyword _).loose.bind fun _ => Lockstep.name.loose.bind fun _ => .pure _

theorem alternative (h : InLockstep n n' grammar other) (condition : Phrase) :
    Lockstep 1 (n + 1) (n' + 1) (grammar.alternative condition) (other.alternative condition) := by
  refine (Lockstep.keyword _).inside fun _ => h.block.bind fun _ => ?_
  refine .ite (sighted_atKeyword _) ?_ (.pure _)
  refine (Lockstep.keyword _).loose.bind fun _ => .ite (sighted_atSymbol _) ?_ ?_
  · exact h.block.bind fun _ => .pure _
  · exact h.sentence.loose.bind fun _ => .pure _

theorem patternCase (h : InLockstep n n' grammar other) :
    Lockstep 1 n n' grammar.patternCase other.patternCase := by
  have hbody (front : List Phrase) := h.block.bind fun body =>
    .pure (Phrase.group (front ++ [body]))
  have hguarded (pattern : List Phrase) : Lockstep 0 n n' (do
      if (← get).atKeyword .provided then
        let marker ← Parse.keyword .provided
        let value ← grammar.expression
        let body ← grammar.block
        return .group (pattern ++ [marker, value] ++ [body])
      else
        let body ← grammar.block
        return .group (pattern ++ [] ++ [body]) : Parse Phrase) _ :=
    .ite (sighted_atKeyword _)
      ((Lockstep.keyword _).loose.bind fun _ => h.expression.loose.bind fun _ => hbody _) (hbody _)
  refine .ite (sighted_atKeyword _) ((Lockstep.keyword _).bind fun _ => hguarded _) ?_
  exact h.expression.bind fun _ => (Lockstep.keyword _).loose.bind fun _ => hguarded _

theorem sentenceStep (h : InLockstep n n' grammar other) :
    Lockstep 1 (n + 1) (n' + 1) grammar.sentenceStep other.sentenceStep := by
  have hclosed (subject : Phrase) (k : Keyword) : Lockstep 0 (n + 1) (n' + 1) (do
      let object ← Parse.keyword .object
      let marker ← Parse.keyword k
      return .group [subject, object, marker] : Parse Phrase) _ :=
    (Lockstep.keyword _).loose.bind fun _ => (Lockstep.keyword _).loose.bind fun _ => .pure _
  refine h.expressionStep.bind fun subject => .get fun s s' hs hagree => ?_
  refine .ite (sighted_atKeyword _ _ _ hagree) (fun hobject => ?_) fun _ => ?_
  · refine .ite (sighted_tail_atKeyword _ _ _ hagree)
      (fun _ => hclosed subject _ s s' hs hagree) fun _ => ?_
    refine .ite (sighted_tail_atKeyword _ _ _ hagree)
      (fun _ => hclosed subject _ s s' hs hagree) fun _ => ?_
    refine .ite (sighted_tail_atKeyword _ _ _ hagree) (fun _ => ?_) fun _ => ?_
    · refine Lockstep.loose ((Lockstep.keyword _).inside fun _ =>
        (Lockstep.keyword _).loose.bind fun _ => .bind ?_ fun _ => .pure _) s s' hs hagree
      exact h.patternCase.braced.mono (Nat.zero_le _) (Nat.le_succ _) (Nat.le_succ _)
    · exact (InStep.advance_bind hs (next?_of_atKeyword hobject) (Kind.keyword_ne_mark _)
        (.unexpected _)).loose
  · refine .ite (sighted_atKeyword _ _ _ hagree)
      (fun _ => (h.alternative subject).loose s s' hs hagree) fun _ => ?_
    refine .ite (sighted_atKeyword _ _ _ hagree) (fun _ => ?_) fun _ => .pure _
    exact Lockstep.loose ((Lockstep.keyword _).inside fun _ => h.block.bind fun _ => .pure _)
      s s' hs hagree

theorem statementStep (h : InLockstep n n' grammar other) :
    Lockstep 1 (n + 1) (n' + 1) grammar.statementStep other.statementStep := by
  refine .get fun s s' hs hagree => ?_
  have htest (k : Keyword) : s.atKeyword k = s'.atKeyword k := sighted_atKeyword k _ _ hagree
  refine .ite (htest _) (fun _ => h.functionDeclaration s s' hs hagree) fun _ => ?_
  refine .ite (htest _) (fun _ => h.binding _ s s' hs hagree) fun _ => ?_
  refine .ite (htest _) (fun _ => h.binding _ s s' hs hagree) fun _ => ?_
  refine .ite (htest _) (fun _ => h.classDeclaration s s' hs hagree) fun _ => ?_
  refine .ite (htest _) (fun _ => enumDeclaration s s' hs hagree) fun _ => ?_
  refine .ite (htest _) (fun _ => h.staticDeclaration s s' hs hagree) fun _ => ?_
  refine .ite (htest _) (fun _ => h.attempt s s' hs hagree) fun _ => ?_
  refine .ite (htest _) (fun _ => importing s s' hs hagree) fun _ => ?_
  refine .ite (htest _) (fun _ => h.binding _ s s' hs hagree) fun _ => ?_
  refine .ite (htest _) (fun _ => h.typeInspection s s' hs hagree) fun _ => ?_
  exact h.sentenceStep s s' hs hagree

/-- All the statements up to the end of the text. -/
theorem program (h : InLockstep n n' grammar other) : Lockstep 0 n n' (do
      let statements ← Parse.many (fun stream => !stream.atEnd) grammar.statement
      return .group statements : Parse Phrase) (do
      let statements ← Parse.many (fun stream => !stream.atEnd) other.statement
      return .group statements) := by
  refine (Lockstep.many ?_ h.statement).bind fun _ => .pure _
  intro s s' hagree
  simp only [sighted_atEnd _ _ hagree]

end InLockstep

/-- The grammar whose phrases may hold the phrases of the given one. -/
def deeper (grammar : Grammar) : Grammar where
  statement stream := grammar.statementStep stream
  sentence stream := grammar.sentenceStep stream
  expression stream := grammar.expressionStep stream
  operand stream := grammar.operandStep stream

/-- A grammar unrolled to some depth, with any other one below. -/
def unroll (base : Grammar) : Nat → Grammar
  | 0 => base
  | depth + 1 => (unroll base depth).deeper

theorem ofDepth_eq_unroll (depth : Nat) : ofDepth depth = unroll (ofDepth 0) depth := by
  induction depth with
  | zero => rfl
  | succ depth ih => exact congrArg deeper ih

/-- The parts below are never reached on streams of fewer tokens than the grammars are deep. -/
theorem inLockstep_unroll (base base' : Grammar) (depth depth' : Nat) :
    InLockstep depth depth' (unroll base depth) (unroll base' depth') := by
  induction depth generalizing depth' with
  | zero =>
      constructor <;> exact fun s s' hs => absurd hs (Nat.not_lt_zero _)
  | succ depth ih =>
      cases depth' with
      | zero =>
          exact ⟨(ih 0).statementStep.zero _, (ih 0).sentenceStep.zero _,
            (ih 0).expressionStep.zero _, (ih 0).operandStep.zero _⟩
      | succ depth' =>
          exact ⟨(ih depth').statementStep, (ih depth').sentenceStep,
            (ih depth').expressionStep, (ih depth').operandStep⟩

end Grammar

namespace Parse

open TokenStream
open Token (Kind)

theorem program_run (s : TokenStream) :
    program s = (do
      let statements ← many (fun stream => !stream.atEnd)
        (Grammar.ofDepth (s.tokens.length + 1)).statement
      return .group statements : Parse Phrase) s := rfl

/-- Two texts are read in step, each with a grammar that is deep enough for it. -/
theorem program_inStep {s s' : TokenStream} (hagree : AgreeOn 2 s s') :
    InStep 0 (s'.tokens.length + 1) program program s s' := by
  have hgrammar := Grammar.inLockstep_unroll (.ofDepth 0) (.ofDepth 0) (s.tokens.length + 1)
    (s'.tokens.length + 1)
  rw [← Grammar.ofDepth_eq_unroll, ← Grammar.ofDepth_eq_unroll] at hgrammar
  rw [InStep, program_run, program_run]
  exact hgrammar.program s s' (Nat.lt_succ_self _) hagree

/-- A fault is found at a token, and depends on no more than the tokens up to that one and the
one behind it: every stream that begins with these has the same fault. -/
theorem program_fault_is_local {stream rest : TokenStream} {located : Located GrammarFault}
    (h : program stream = .error located rest) :
    ∃ taken, taken ≤ stream.tokens.length ∧ rest = stream.skip taken ∧
      stream.sights[taken]? = some (located.fault.found, located.place) ∧
      ∀ other : TokenStream, stream.sights.take (taken + 2) = other.sights.take (taken + 2) →
        program other = .error located (other.skip taken) := by
  obtain ⟨taken, htakes, _⟩ := program_inStep (.refl 2 stream)
  rw [h] at htakes
  obtain rfl : rest = stream.skip taken := htakes.rest
  obtain ⟨_, hfound, hplace⟩ := stays_program.error h
  refine ⟨taken, htakes.within, rfl, ?_, fun other hagree => ?_⟩
  · rw [hfound, hplace, ← sights_head?, sights_skip htakes.within, List.head?_drop]
  · obtain ⟨taken', htakes', hfollow⟩ := program_inStep (AgreeOn.mono (by omega) hagree)
    rw [h] at htakes' hfollow
    obtain rfl := htakes.unique htakes'
    exact hfollow (Nat.lt_succ_self _) hagree

/-- The tokens of `(x を 返却`, and then some others. -/
def returnInBrackets (others : List Token) (stop : Position) : TokenStream where
  tokens :=
    [⟨.symbol .leftParen, ⟨1, 1⟩⟩, ⟨.word "x", ⟨1, 2⟩⟩, ⟨.keyword .object, ⟨1, 4⟩⟩,
      ⟨.keyword .giveBack, ⟨1, 6⟩⟩] ++ others
  stop := stop

/-- A closing bracket is missed before `を`. The word behind it is looked at too, since a name
there would be called, but the bracket that follows is not. -/
theorem program_fault_is_local_returnInBrackets :
    program (returnInBrackets [] ⟨1, 8⟩) =
        .error ⟨⟨.symbol .rightParen, some (.keyword .object)⟩, ⟨1, 4⟩⟩
          ((returnInBrackets [] ⟨1, 8⟩).skip 2) ∧
      program (returnInBrackets [⟨.symbol .rightParen, ⟨1, 8⟩⟩] ⟨1, 9⟩) =
        .error ⟨⟨.symbol .rightParen, some (.keyword .object)⟩, ⟨1, 4⟩⟩
          ((returnInBrackets [⟨.symbol .rightParen, ⟨1, 8⟩⟩] ⟨1, 9⟩).skip 2) := by
  have hread : program (returnInBrackets [] ⟨1, 8⟩) =
      .error ⟨⟨.symbol .rightParen, some (.keyword .object)⟩, ⟨1, 4⟩⟩
        ((returnInBrackets [] ⟨1, 8⟩).skip 2) := rfl
  obtain ⟨taken, hwithin, hrest, _, hlocal⟩ := program_fault_is_local hread
  obtain rfl : 2 = taken := skip_inj (by decide) hwithin hrest
  exact ⟨hread, hlocal _ rfl⟩

end Parse

end Wabun
