import Wabun.Phrase.Parser

/-!
Where readings come to on a token stream. A reading only takes tokens off, so it always
stands at some token of the stream it began with, or at its end. And it gives up where
it stands: the token that it reports is the next one, at the place of that token.
-/

namespace Wabun

namespace TokenStream

/-- What is left of a stream when some of its tokens are taken off. -/
structure Behind (later stream : TokenStream) : Prop where
  tokens : later.tokens <:+ stream.tokens
  stop : later.stop = stream.stop

namespace Behind

variable {stream later last : TokenStream}

theorem refl (stream : TokenStream) : stream.Behind stream :=
  ⟨List.suffix_rfl, rfl⟩

theorem trans (hlast : last.Behind later) (hlater : later.Behind stream) : last.Behind stream :=
  ⟨hlast.tokens.trans hlater.tokens, hlast.stop.trans hlater.stop⟩

theorem tail (stream : TokenStream) : stream.tail.Behind stream :=
  ⟨List.tail_suffix stream.tokens, rfl⟩

/-- The next token is one of the stream, unless the stream is at its end. -/
theorem place (h : later.Behind stream) :
    (∃ token ∈ stream.tokens, later.next? = some token.kind ∧ later.place = token.place) ∨
      later.next? = none ∧ later.place = stream.stop := by
  cases htokens : later.tokens with
  | nil =>
      right
      simp [next?, TokenStream.place, htokens, h.stop]
  | cons token rest =>
      left
      have hmem : token ∈ later.tokens := by simp [htokens]
      exact ⟨token, h.tokens.mem hmem, by simp [next?, htokens],
        by simp [TokenStream.place, htokens]⟩

end Behind

end TokenStream

namespace Parse

variable {α β : Type} {p : Parse α}

/-- Wherever the reading ends it stands on the stream that it was given, and a fault is
about the token at which it stands. -/
structure Stays (p : Parse α) : Prop where
  ok : ∀ {s s' a}, p s = .ok a s' → s'.Behind s
  error : ∀ {s s' located}, p s = .error located s' →
    s'.Behind s ∧ located.fault.found = s'.next? ∧ located.place = s'.place

namespace Stays

theorem pure (a : α) : Stays (Pure.pure a : Parse α) := by
  constructor
  · intro s s' b h
    cases h
    exact .refl s
  · intro s s' located h
    cases h

theorem get : Stays (MonadState.get : Parse TokenStream) := by
  constructor
  · intro s s' a h
    cases h
    exact .refl s
  · intro s s' located h
    cases h

theorem advance : Stays Parse.advance := by
  constructor
  · intro s s' a h
    cases h
    exact .tail s
  · intro s s' located h
    cases h

theorem unexpected (expected : Expectation) : Stays (Parse.unexpected expected : Parse α) := by
  constructor
  · intro s s' a h
    cases h
  · intro s s' located h
    cases h
    exact ⟨.refl s, rfl, rfl⟩

theorem bind {f : α → Parse β} (hp : Stays p) (hf : ∀ a, Stays (f a)) : Stays (p >>= f) := by
  have hrun (s : TokenStream) : (p >>= f) s = EStateM.bind p f s := rfl
  constructor
  · intro s s' b h
    rw [hrun, EStateM.bind] at h
    cases hfirst : p s with
    | ok a t =>
        rw [hfirst] at h
        exact ((hf a).ok h).trans (hp.ok hfirst)
    | error located t =>
        rw [hfirst] at h
        cases h
  · intro s s' located h
    rw [hrun, EStateM.bind] at h
    cases hfirst : p s with
    | ok a t =>
        rw [hfirst] at h
        obtain ⟨hbehind, hfault⟩ := (hf a).error h
        exact ⟨hbehind.trans (hp.ok hfirst), hfault⟩
    | error located t =>
        rw [hfirst] at h
        cases h
        exact hp.error hfirst

theorem ite {condition : Prop} [Decidable condition] {q : Parse α} (hp : Stays p)
    (hq : Stays q) : Stays (if condition then p else q) := by
  split
  · exact hp
  · exact hq

theorem keyword (k : Keyword) : Stays (Parse.keyword k) :=
  get.bind fun _ => ite (advance.bind fun _ => pure _) (unexpected _)

theorem symbol (s : Symbol) : Stays (Parse.symbol s) :=
  get.bind fun _ => ite (advance.bind fun _ => pure _) (unexpected _)

theorem name : Stays Parse.name := by
  refine get.bind fun s => ?_
  cases s.name? with
  | some w => exact advance.bind fun _ => pure _
  | none => exact unexpected _

theorem manyUpTo (more : TokenStream → Bool) (hp : Stays p) (bound : Nat) :
    Stays (Parse.manyUpTo more p bound) := by
  induction bound with
  | zero => exact pure _
  | succ bound ih =>
      exact get.bind fun _ => ite (hp.bind fun _ => ih.bind fun _ => pure _) (pure _)

theorem many (more : TokenStream → Bool) (hp : Stays p) : Stays (Parse.many more p) :=
  get.bind fun _ => hp.manyUpTo more _

theorem bracketed {item : Parse Phrase} (h : Stays item) : Stays (Parse.bracketed item) := by
  have hclose (opening : Phrase) (items : List Phrase) : Stays (do
      let closing ← Parse.symbol .rightParen
      return .group (opening :: items ++ [closing]) : Parse Phrase) :=
    (symbol _).bind fun _ => pure _
  refine (symbol _).bind fun opening => get.bind fun _ => ?_
  dsimp only
  refine ite (hclose opening _) (h.bind fun _ => ?_)
  refine (many _ ?_).bind fun _ => hclose opening _
  exact (symbol _).bind fun _ => h.bind fun _ => pure _

theorem braced {item : Parse Phrase} (h : Stays item) : Stays (Parse.braced item) := by
  refine (symbol _).bind fun _ => (many _ ?_).bind fun _ => (symbol _).bind fun _ => pure _
  exact get.bind fun _ => ite (unexpected _) h

theorem joint (level : Operator.Level) {operand : Parse Phrase} (h : Stays operand) :
    Stays (Parse.joint level operand) := by
  refine get.bind fun s => ?_
  cases s.operator? level with
  | some op => exact advance.bind fun _ => h.bind fun _ => pure _
  | none => exact unexpected _

theorem joined (level : Operator.Level) {operand : Parse Phrase} (h : Stays operand) :
    Stays (Parse.joined level operand) :=
  h.bind fun _ => (many _ (h.joint level)).bind fun _ => pure _

end Stays

end Parse

namespace Grammar

open Parse (Stays)

/-- All the recursive parts stay on their stream. -/
structure StaysOn (grammar : Grammar) : Prop where
  statement : Stays grammar.statement
  sentence : Stays grammar.sentence
  expression : Stays grammar.expression
  operand : Stays grammar.operand

namespace StaysOn

variable {grammar : Grammar}

theorem primary (h : grammar.StaysOn) : Stays grammar.primary := by
  refine Stays.get.bind fun s => ?_
  have htake (phrase : Phrase) : Stays (do Parse.advance; return phrase : Parse Phrase) :=
    Stays.advance.bind fun _ => .pure phrase
  cases s.next? with
  | none => exact .unexpected _
  | some kind =>
      cases kind with
      | number x => exact htake _
      | text value => exact htake _
      | truth b => exact htake _
      | word w =>
          refine .ite ?_ (.ite (htake _) (.unexpected _))
          exact (Stays.keyword _).bind fun _ => Stays.name.bind fun _ => .pure _
      | symbol sign =>
          cases sign with
          | leftParen => exact h.expression.bracketed
          | leftBrace | rightBrace | rightParen | comma | operator => exact .unexpected _

theorem operandStep (h : grammar.StaysOn) : Stays grammar.operandStep := by
  refine Stays.get.bind fun _ => .ite (Stays.advance.bind fun _ => Stays.get.bind fun s => ?_)
    h.primary
  have hminus : Stays (do
      let operand ← grammar.operand
      return .group [.number 0, .word Operator.sub.symbol, operand] : Parse Phrase) :=
    h.operand.bind fun _ => .pure _
  cases s.next? with
  | none => exact hminus
  | some kind =>
      cases kind with
      | number x => exact Stays.advance.bind fun _ => .pure _
      | text | truth | word | symbol => exact hminus

theorem expressionStep (h : grammar.StaysOn) : Stays grammar.expressionStep := by
  refine Stays.bind ?_ fun _ => (Stays.many _ ?_).bind fun _ => .pure _
  · exact ((h.operandStep.joined _).joined _).joined _
  · exact (Stays.keyword _).bind fun _ => .name

theorem block (h : grammar.StaysOn) : Stays grammar.block :=
  h.statement.braced

theorem functionDeclaration (h : grammar.StaysOn) : Stays grammar.functionDeclaration :=
  (Stays.keyword _).bind fun _ => Stays.name.bind fun _ => Stays.name.bracketed.bind fun _ =>
    h.block.bind fun _ => .pure _

theorem binding (h : grammar.StaysOn) (marker : Keyword) : Stays (grammar.binding marker) :=
  (Stays.keyword _).bind fun _ => Stays.name.bind fun _ => (Stays.keyword _).bind fun _ =>
    h.expression.bind fun _ => .pure _

theorem classDeclaration (h : grammar.StaysOn) : Stays grammar.classDeclaration := by
  refine (Stays.keyword _).bind fun _ => Stays.name.bind fun _ => Stays.get.bind fun _ => ?_
  dsimp only
  refine .ite ?_ (h.block.bind fun _ => .pure _)
  exact (Stays.keyword _).bind fun _ => Stays.name.bind fun _ => h.block.bind fun _ => .pure _

theorem enumDeclaration : Stays Grammar.enumDeclaration := by
  refine (Stays.keyword _).bind fun _ => Stays.name.bind fun _ => (Stays.symbol _).bind fun _ => ?_
  refine (Stays.many _ ?_).bind fun _ => (Stays.symbol _).bind fun _ => .pure _
  exact Stays.get.bind fun _ => .ite (.symbol _) .name

theorem staticDeclaration (h : grammar.StaysOn) : Stays grammar.staticDeclaration :=
  (Stays.keyword _).bind fun _ => Stays.name.bind fun _ => h.block.bind fun _ => .pure _

theorem attempt (h : grammar.StaysOn) : Stays grammar.attempt :=
  (Stays.keyword _).bind fun _ => h.block.bind fun _ => (Stays.keyword _).bind fun _ =>
    Stays.name.bracketed.bind fun _ => h.block.bind fun _ => .pure _

theorem importing : Stays Grammar.importing := by
  refine (Stays.keyword _).bind fun _ => Stays.get.bind fun s => ?_
  have hname (marker : Phrase) : Stays (do
      let moduleName ← Parse.name
      return .group [marker, moduleName] : Parse Phrase) :=
    Stays.name.bind fun _ => .pure _
  cases s.next? with
  | none => exact hname _
  | some kind =>
      cases kind with
      | text value => exact Stays.advance.bind fun _ => .pure _
      | number | truth | word | symbol => exact hname _

theorem typeInspection (h : grammar.StaysOn) : Stays grammar.typeInspection :=
  (Stays.keyword _).bind fun _ => h.expression.bind fun _ => (Stays.keyword _).bind fun _ =>
    Stays.name.bind fun _ => .pure _

theorem alternative (h : grammar.StaysOn) (condition : Phrase) :
    Stays (grammar.alternative condition) := by
  refine (Stays.keyword _).bind fun _ => h.block.bind fun _ => Stays.get.bind fun _ => ?_
  refine .ite ((Stays.keyword _).bind fun _ => Stays.get.bind fun _ => ?_) (.pure _)
  dsimp only
  exact .ite (h.block.bind fun _ => .pure _) (h.sentence.bind fun _ => .pure _)

theorem patternCase (h : grammar.StaysOn) : Stays grammar.patternCase := by
  have hbody (front : List Phrase) : Stays (do
      let body ← grammar.block
      return .group (front ++ [body]) : Parse Phrase) :=
    h.block.bind fun _ => .pure _
  have hguarded (pattern : List Phrase) : Stays (do
      if (← get).atKeyword .provided then
        let marker ← Parse.keyword .provided
        let value ← grammar.expression
        let body ← grammar.block
        return .group (pattern ++ [marker, value] ++ [body])
      else
        let body ← grammar.block
        return .group (pattern ++ [] ++ [body]) : Parse Phrase) := by
    refine Stays.get.bind fun _ => .ite ?_ (hbody _)
    exact (Stays.keyword _).bind fun _ => h.expression.bind fun _ => hbody _
  refine Stays.get.bind fun _ => ?_
  dsimp only
  refine .ite ((Stays.keyword _).bind fun _ => hguarded _) ?_
  exact h.expression.bind fun _ => (Stays.keyword _).bind fun _ => hguarded _

theorem sentenceStep (h : grammar.StaysOn) : Stays grammar.sentenceStep := by
  have hclosed (subject : Phrase) (k : Keyword) : Stays (do
      let object ← Parse.keyword .object
      let marker ← Parse.keyword k
      return .group [subject, object, marker] : Parse Phrase) :=
    (Stays.keyword _).bind fun _ => (Stays.keyword _).bind fun _ => .pure _
  refine h.expressionStep.bind fun subject => Stays.get.bind fun _ => ?_
  refine .ite (.ite (hclosed subject _) (.ite (hclosed subject _) (.ite ?_ ?_)))
    (.ite (h.alternative subject) (.ite ?_ (.pure _)))
  · exact (Stays.keyword _).bind fun _ => (Stays.keyword _).bind fun _ =>
      h.patternCase.braced.bind fun _ => .pure _
  · exact Stays.advance.bind fun _ => .unexpected _
  · exact (Stays.keyword _).bind fun _ => h.block.bind fun _ => .pure _

theorem statementStep (h : grammar.StaysOn) : Stays grammar.statementStep := by
  refine Stays.get.bind fun _ => ?_
  refine .ite h.functionDeclaration <| .ite (h.binding _) <| .ite (h.binding _) <|
    .ite h.classDeclaration <| .ite enumDeclaration <| .ite h.staticDeclaration <|
    .ite h.attempt <| .ite importing <| .ite (h.binding _) <| .ite h.typeInspection ?_
  exact h.sentenceStep

end StaysOn

theorem staysOn_ofDepth (depth : Nat) : (ofDepth depth).StaysOn := by
  induction depth with
  | zero => exact ⟨.unexpected _, .unexpected _, .unexpected _, .unexpected _⟩
  | succ depth ih =>
      exact ⟨ih.statementStep, ih.sentenceStep, ih.expressionStep, ih.operandStep⟩

end Grammar

namespace Parse

theorem stays_withGrammar {reading : Grammar → Parse Phrase}
    (h : ∀ grammar : Grammar, grammar.StaysOn → Stays (reading grammar)) :
    Stays (withGrammar reading) := by
  constructor
  · intro s s' phrase hread
    exact (h _ (Grammar.staysOn_ofDepth (s.tokens.length + 1))).ok hread
  · intro s s' located hread
    exact (h _ (Grammar.staysOn_ofDepth (s.tokens.length + 1))).error hread

theorem stays_program : Stays program :=
  stays_withGrammar fun _ h => (h.statement.many _).bind fun _ => .pure _

end Parse

end Wabun
