import Wabun.Proofs.Concrete
import Wabun.Proofs.Vocabulary

/-!
The first token of a derivation. The language has no separators between
statements, so where one phrase ends is known only from the tokens that the
next one can begin with.
-/

namespace Wabun

namespace Token.Kind

@[simp]
theorem isWord_keyword (k other : Keyword) : (keyword k).isWord other = decide (k = other) := by
  by_cases h : k = other
  · simp [keyword, isWord, h]
  · simp [keyword, isWord, h]

@[simp]
theorem isSymbol_keyword (k : Keyword) (s : Symbol) : (keyword k).isSymbol s = false := rfl

theorem isWord_word_of_isName {w : String} (h : Word.isName w = true) (k : Keyword) :
    (word w).isWord k = false := by
  simpa [isWord] using Word.ne_of_isName h (Word.isName_keyword k)

/-- The tokens that an expression can begin with. -/
def opensExpression : Kind → Bool
  | number _ | text _ | truth _ => true
  | word w => w == Keyword.create.text || Word.isName w
  | symbol s => s == .leftParen || s == .operator .sub

/-- The key words that a statement can begin with. -/
def statementKeywords : List Keyword :=
  [.function, .declare, .define, .classOf, .enumerate, .static, .attempt, .importing, .exporting,
   .inspectType]

/-- The tokens that a statement can begin with. -/
def opensStatement (kind : Kind) : Bool :=
  kind.opensExpression || statementKeywords.any fun k => kind.isWord k

theorem isWord_of_opensExpression {kind : Kind} (h : kind.opensExpression = true) {k : Keyword}
    (hk : k ≠ .create) : kind.isWord k = false := by
  cases kind with
  | word w =>
      simp only [opensExpression, Bool.or_eq_true, beq_iff_eq] at h
      rcases h with hcreate | hname
      · have hne : Keyword.create ≠ k := fun heq => hk heq.symm
        simpa [isWord, hcreate] using hne
      · exact isWord_word_of_isName hname k
  | number | text | truth | symbol => rfl

theorem isSymbol_of_opensExpression {kind : Kind} (h : kind.opensExpression = true) {s : Symbol}
    (hparen : s ≠ .leftParen) (hminus : s ≠ .operator .sub) : kind.isSymbol s = false := by
  cases kind with
  | symbol other =>
      simp only [opensExpression, Bool.or_eq_true, beq_iff_eq] at h
      rcases h with rfl | rfl
      · simpa [isSymbol] using hparen.symm
      · simpa [isSymbol] using hminus.symm
  | word | number | text | truth => rfl

theorem eq_keyword_of_isWord {kind : Kind} {k : Keyword} (h : kind.isWord k = true) :
    kind = keyword k := by
  cases kind with
  | word w =>
      have hw : w = k.text := by simpa [isWord] using h
      rw [hw, keyword]
  | number | text | truth | symbol => cases h

theorem isWord_of_opensStatement {kind : Kind} (h : kind.opensStatement = true) {k : Keyword}
    (hcreate : k ≠ .create) (hk : k ∉ statementKeywords) : kind.isWord k = false := by
  rcases Bool.or_eq_true_iff.mp h with hexpression | hkeyword
  · exact isWord_of_opensExpression hexpression hcreate
  · obtain ⟨other, hmem, hother⟩ := List.any_eq_true.mp hkeyword
    rw [eq_keyword_of_isWord hother, isWord_keyword]
    exact decide_eq_false fun heq => hk (heq ▸ hmem)

theorem isSymbol_of_opensStatement {kind : Kind} (h : kind.opensStatement = true) {s : Symbol}
    (hparen : s ≠ .leftParen) (hminus : s ≠ .operator .sub) : kind.isSymbol s = false := by
  rcases Bool.or_eq_true_iff.mp h with hexpression | hkeyword
  · exact isSymbol_of_opensExpression hexpression hparen hminus
  · obtain ⟨other, _, hother⟩ := List.any_eq_true.mp hkeyword
    rw [eq_keyword_of_isWord hother, isSymbol_keyword]

end Token.Kind

namespace Concrete

open Token (Kind)

namespace Expression

theorem kinds_head {rank : Rank} (e : Expression rank) :
    ∃ kind rest, e.kinds = kind :: rest ∧ kind.opensExpression = true := by
  induction e with
  | text value => exact ⟨.text value, [], rfl, rfl⟩
  | truth value => exact ⟨.truth value, [], rfl, rfl⟩
  | named name => exact ⟨.word name.text, [], rfl, by simp [Kind.opensExpression, name.isName]⟩
  | creation className =>
      exact ⟨.keyword .create, [.word className.text], rfl,
        by simp [Kind.opensExpression, Kind.keyword]⟩
  | bracketed items ih => exact ⟨.symbol .leftParen, _, rfl, rfl⟩
  | negative magnitude => exact ⟨.symbol (.operator .sub), [.number magnitude], rfl, rfl⟩
  | minus inner ih => exact ⟨.symbol (.operator .sub), inner.kinds, rfl, rfl⟩
  | number value => exact ⟨.number value, [], rfl, rfl⟩
  | operand inner ih => exact ih
  | single level inner ih => exact ih
  | joined level operator hlevel left right ihl ihr =>
      obtain ⟨kind, rest, hleft, hopens⟩ := ihl
      exact ⟨kind, rest ++ .symbol (.operator operator) :: right.kinds,
        by rw [kinds, hleft, List.cons_append], hopens⟩
  | plain inner ih => exact ih
  | call argument callee ih =>
      obtain ⟨kind, rest, hargument, hopens⟩ := ih
      exact ⟨kind, rest ++ [.keyword .object, .word callee.text],
        by rw [kinds, hargument, List.cons_append], hopens⟩

theorem head_ne_number (e : Expression .unnumbered) (x : Float) :
    e.kinds.head? ≠ some (.number x) := by
  cases e <;> simp [kinds, bracketKinds, Kind.keyword]

end Expression

namespace Clause

/-- The tokens that a clause can begin with. -/
def opens : Part → Kind → Bool
  | .statement, kind => kind.opensStatement
  | .sentence, kind => kind.opensExpression
  | .patternCase, kind => kind.opensExpression || kind.isWord .otherwise

theorem opens_append {part : Part} {e : Expression .chain} (rest : List Kind)
    (h : ∀ kind : Kind, kind.opensExpression = true → opens part kind = true) :
    ∃ kind tail, e.kinds ++ rest = kind :: tail ∧ opens part kind = true := by
  obtain ⟨kind, tail, hkinds, hopens⟩ := e.kinds_head
  exact ⟨kind, tail ++ rest, by rw [hkinds, List.cons_append], h kind hopens⟩

theorem kinds_head {part : Part} (clause : Clause part) :
    ∃ kind rest, clause.kinds = kind :: rest ∧ opens part kind = true := by
  have hsentence (kind : Kind) (h : kind.opensExpression = true) :
      opens .sentence kind = true := h
  induction clause with
  | function | classDeclaration | enumDeclaration | staticMethod | attempt | importText
  | importName | exporting | typeInspection =>
      exact ⟨_, _, rfl, by simp [opens, Kind.opensStatement, Kind.statementKeywords]⟩
  | declaration kind name value =>
      refine ⟨_, _, rfl, ?_⟩
      cases kind <;>
        simp [opens, Kind.opensStatement, Kind.statementKeywords, Declaration.keyword]
  | sentence inner ih =>
      obtain ⟨kind, rest, hkinds, hopens⟩ := ih
      exact ⟨kind, rest, hkinds, Bool.or_eq_true_iff.mpr (.inl hopens)⟩
  | bare value => exact value.kinds_head
  | giveBack value => exact opens_append _ hsentence
  | throwUp value => exact opens_append _ hsentence
  | distinction subject cases ih => exact opens_append _ hsentence
  | loop condition body ih => exact opens_append _ hsentence
  | alternative condition consequent ih => exact opens_append _ hsentence
  | alternativeBlock condition consequent alternate ihc iha =>
      rw [kinds, List.append_assoc]
      exact opens_append _ hsentence
  | alternativeSentence condition consequent alternate ihc iha =>
      rw [kinds, List.append_assoc]
      exact opens_append _ hsentence
  | patternCase pattern guard body ih =>
      cases pattern with
      | none => exact ⟨.keyword .otherwise, _, rfl, by simp [opens]⟩
      | some pattern =>
          rw [kinds, patternKinds, List.append_assoc, List.append_assoc]
          exact opens_append _ fun kind h => Bool.or_eq_true_iff.mpr (.inl h)

theorem kinds_ne_nil {part : Part} (clause : Clause part) : clause.kinds ≠ [] := by
  obtain ⟨kind, rest, hkinds, _⟩ := clause.kinds_head
  rw [hkinds]
  exact List.cons_ne_nil kind rest

end Clause

end Concrete

end Wabun
