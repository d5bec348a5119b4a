import Wabun.Proofs.Completeness.Expression

/-!
Every clause that the grammar derives is accepted by the reader of token
streams, as the phrase of its derivation. Nothing separates statements, so a
statement ends only where the next token cannot continue it. Of the tokens
that a statement can begin with, the minus sign alone could.
-/

namespace Wabun

open Token (Kind)

theorem TokenStream.atKeyword_eq_false {stream : TokenStream} {k : Keyword}
    (h : stream.kinds.head? ≠ some (.keyword k)) : stream.atKeyword k = false := by
  rw [Bool.eq_false_iff]
  intro hat
  rw [← next?_eq_head?] at h
  exact h (next?_of_atKeyword hat)

namespace Concrete

/-- The key words that continue a sentence behind its expression or behind its
first block. -/
def sentenceKeywords : List Keyword := [.object, .ifThen, .loop, .otherwise]

/-- What may follow a sentence without being taken for a part of it. -/
def EndsSentence (rest : List Kind) : Prop :=
  Stops .chain rest ∧ ∀ k ∈ sentenceKeywords, rest.head? ≠ some (.keyword k)

theorem endsSentence_nil : EndsSentence [] := by
  refine ⟨stops_nil, ?_⟩
  intro k _ hhead
  cases hhead

theorem endsSentence_rightBrace (rest : List Kind) :
    EndsSentence (.symbol .rightBrace :: rest) := by
  constructor
  · exact stops_symbol (fun op h => by cases h) rest
  · intro k _ hhead
    cases hhead

theorem endsSentence_statement {statement : Statement} (h : ¬ statement.StartsWithMinus)
    (rest : List Kind) : EndsSentence (statement.kinds ++ rest) := by
  obtain ⟨kind, tail, hkinds, hopens⟩ := statement.kinds_head
  have hkeyword (k : Keyword) (hk : k ∈ sentenceKeywords) : kind ≠ .keyword k := by
    intro heq
    have hword : kind.isWord k = false := by
      apply Kind.isWord_of_opensStatement hopens
      · rintro rfl
        simp [sentenceKeywords] at hk
      · intro hmem
        revert hk hmem
        cases k <;> decide
    rw [heq, Kind.isWord_keyword, decide_eq_true rfl] at hword
    cases hword
  have hoperator (op : Operator) : kind ≠ .symbol (.operator op) := by
    intro heq
    by_cases hsub : op = .sub
    · apply h
      rw [Clause.StartsWithMinus, hkinds, heq, hsub]
      rfl
    · have hsymbol : kind.isSymbol (.operator op) = false :=
        Kind.isSymbol_of_opensStatement hopens (by simp) (by simpa using hsub)
      rw [heq] at hsymbol
      simp [Kind.isSymbol] at hsymbol
  rw [hkinds]
  constructor
  · exact stops_of_head _ hoperator (hkeyword .object (by decide))
  · intro k hk hhead
    exact hkeyword k hk (Option.some.inj hhead)

namespace Clause

theorem apart_of_allApart {body : List Statement} (h : AllApart body) {statement : Statement}
    (hmem : statement ∈ body) : statement.Apart := by
  induction body with
  | nil => exact absurd hmem List.not_mem_nil
  | cons first rest ih =>
      rcases List.mem_cons.mp hmem with rfl | hrest
      · exact h.1
      · exact ih h.2.2 hrest

theorem not_startsWithMinus_of_allApart {body : List Statement} (h : AllApart body)
    {statement : Statement} (hmem : statement ∈ body.tail) : ¬ statement.StartsWithMinus := by
  induction body with
  | nil => exact absurd hmem List.not_mem_nil
  | cons first rest ih =>
      cases rest with
      | nil => exact absurd hmem List.not_mem_nil
      | cons second rest =>
          rcases List.mem_cons.mp hmem with rfl | hrest
          · exact h.2.1 _ rfl
          · exact ih h.2.2 hrest

theorem apart_of_casesApart {cases : List (Clause .patternCase)} (h : CasesApart cases)
    {case : Clause .patternCase} (hmem : case ∈ cases) : case.Apart := by
  induction cases with
  | nil => exact absurd hmem List.not_mem_nil
  | cons first rest ih =>
      rcases List.mem_cons.mp hmem with rfl | hrest
      · exact h.1
      · exact ih h.2 hrest

theorem length_kinds_lt_braceKinds {part : Part} {clauses : List (Clause part)}
    {clause : Clause part} (h : clause ∈ clauses) :
    clause.kinds.length + 1 < (braceKinds (clauses.map kinds)).length := by
  have hlength := (List.sublist_flatten_of_mem (List.mem_map_of_mem (f := kinds) h)).length_le
  simp only [braceKinds, List.length_append, List.length_cons, List.length_nil]
  omega

/-- What may follow a clause without being taken for a part of it. -/
def Ends : Part → List Kind → Prop
  | .statement => EndsSentence
  | .sentence => EndsSentence
  | .patternCase => Parse.Anything

end Clause

end Concrete

namespace Grammar

open Concrete Parse

/-- The part of the grammar that reads the clauses of a part. -/
def clauseReader (grammar : Grammar) : Part → Parse Phrase
  | .statement => grammar.statementStep
  | .sentence => grammar.sentenceStep
  | .patternCase => grammar.patternCase

/-- A clause is read as its phrase by every grammar that is as deep as the
clause has tokens. -/
def Reads {part : Part} (clause : Clause part) : Prop :=
  clause.Apart → ∀ depth, clause.kinds.length ≤ depth →
    Accepts ((ofDepth depth).clauseReader part) clause.kinds clause.phrase (Clause.Ends part)

def ReadsBlock (depth : Nat) (body : List Statement) : Prop :=
  Accepts (ofDepth depth).block (braceKinds (body.map Clause.kinds))
    (.braces (body.map Clause.phrase)) Anything

variable {depth : Nat}

theorem expression_accepts {value : Expression .chain} (h : value.kinds.length < depth) :
    Accepts (ofDepth depth).expression value.kinds value.phrase (Stops .chain) := by
  obtain ⟨depth, rfl⟩ : ∃ n, depth = n + 1 := ⟨depth - 1, by omega⟩
  exact reader_accepts value depth (by omega)

theorem statement_accepts {statement : Statement} (hreads : Reads statement)
    (hapart : statement.Apart) (h : statement.kinds.length < depth) :
    Accepts (ofDepth depth).statement statement.kinds statement.phrase EndsSentence := by
  obtain ⟨depth, rfl⟩ : ∃ n, depth = n + 1 := ⟨depth - 1, by omega⟩
  exact hreads hapart depth (by omega)

theorem sentence_accepts {sentence : Clause .sentence} (hreads : Reads sentence)
    (hapart : sentence.Apart) (h : sentence.kinds.length < depth) :
    Accepts (ofDepth depth).sentence sentence.kinds sentence.phrase EndsSentence := by
  obtain ⟨depth, rfl⟩ : ∃ n, depth = n + 1 := ⟨depth - 1, by omega⟩
  exact hreads hapart depth (by omega)

theorem readsBlock {body : List Statement} (hreads : ∀ statement ∈ body, Reads statement)
    (hapart : Clause.AllApart body) (h : (braceKinds (body.map Clause.kinds)).length ≤ depth) :
    ReadsBlock depth body := by
  have hitem : ∀ statement ∈ body,
      Accepts (ofDepth depth).statement statement.kinds statement.phrase EndsSentence := by
    intro statement hmem
    have hlength := Clause.length_kinds_lt_braceKinds hmem
    exact statement_accepts (hreads statement hmem) (Clause.apart_of_allApart hapart hmem)
      (by omega)
  refine braced_accepts ?_ hitem ?_ ?_ endsSentence_rightBrace
  · intro statement _
    exact statement.kinds_ne_nil
  · intro statement _ s rest hs
    obtain ⟨kind, tail, hkinds, hopens⟩ := statement.kinds_head
    rw [TokenStream.atSymbol_eq, hs, hkinds]
    exact Kind.isSymbol_of_opensStatement hopens (by decide) (by decide)
  · intro statement hmem rest
    exact endsSentence_statement (Clause.not_startsWithMinus_of_allApart hapart hmem) rest

theorem caseBlock_accepts {cases : List (Clause .patternCase)}
    (hreads : ∀ case ∈ cases, Reads case) (hapart : Clause.CasesApart cases)
    (h : (braceKinds (cases.map Clause.kinds)).length ≤ depth) :
    Accepts (braced (ofDepth depth).patternCase) (braceKinds (cases.map Clause.kinds))
      (.braces (cases.map Clause.phrase)) Anything := by
  have hitem : ∀ case ∈ cases,
      Accepts (ofDepth depth).patternCase case.kinds case.phrase Anything := by
    intro case hmem
    have hlength := Clause.length_kinds_lt_braceKinds hmem
    exact hreads case hmem (Clause.apart_of_casesApart hapart hmem) depth (by omega)
  refine braced_accepts ?_ hitem ?_ (fun _ _ _ => trivial) (fun _ => trivial)
  · intro case _
    exact case.kinds_ne_nil
  · intro case _ s rest hs
    obtain ⟨kind, tail, hkinds, hopens⟩ := case.kinds_head
    rw [TokenStream.atSymbol_eq, hs, hkinds]
    rcases Bool.or_eq_true_iff.mp hopens with hexpression | hotherwise
    · exact Kind.isSymbol_of_opensExpression hexpression (by decide) (by decide)
    · rw [Kind.eq_keyword_of_isWord hotherwise]
      rfl

theorem names_accepts (names : List Name) :
    Accepts (bracketed name) (nameKinds names)
      (.brackets (names.map fun name => .word name.text)) Anything := by
  have hitem : ∀ n ∈ names, Accepts name [.word n.text] (.word n.text) Anything :=
    fun n _ => .name n
  refine bracketed_accepts hitem ?_ (fun _ => trivial) (fun _ => trivial)
  intro n _ s rest hs
  rw [TokenStream.atSymbol_eq, hs]
  rfl

/-- The declarations that bind a name to a value differ in their marker only. -/
theorem binding_accepts (marker : Keyword) {name : Name} {value : Expression .chain}
    (h : value.kinds.length < depth) :
    Accepts ((ofDepth depth).binding marker)
      (.keyword marker :: .word name.text :: .keyword .topic :: value.kinds)
      (.group [.keyword marker, .word name.text, .keyword .topic, value.phrase])
      (Stops .chain) :=
  .keyword_bind (.name_bind (.keyword_bind (expression_accepts h).bind_pure))

theorem functionDeclaration_accepts (name : Name) (params : List Name) {body : List Statement}
    (hbody : ReadsBlock depth body) :
    Accepts (ofDepth depth).functionDeclaration (Clause.function name params body).kinds
      (Clause.function name params body).phrase Anything := by
  rw [Clause.phrase_function, Clause.kinds, Clause.statementKinds_eq_map]
  exact .keyword_bind (.name_bind ((names_accepts params).andThen hbody.bind_pure))

theorem classDeclaration_accepts (name : Name) (parent : Option Name) {body : List Statement}
    (hbody : ReadsBlock depth body) :
    Accepts (ofDepth depth).classDeclaration (Clause.classDeclaration name parent body).kinds
      (Clause.classDeclaration name parent body).phrase Anything := by
  rw [Clause.phrase_classDeclaration, Clause.kinds, Clause.statementKinds_eq_map]
  cases parent with
  | none =>
      refine .keyword_bind (.name_bind (.get_bind (fun s rest hs _ => if_neg ?_) hbody.bind_pure))
      rw [TokenStream.atKeyword_eq, hs]
      exact Bool.false_ne_true
  | some parent =>
      refine .keyword_bind (.name_bind (.get_bind (fun s rest hs _ => if_pos ?_)
        (.keyword_bind (.name_bind hbody.bind_pure))))
      rw [TokenStream.atKeyword_keyword hs, decide_eq_true rfl]

theorem enumDeclaration_accepts (enumName : Name) (items : List (Option Name)) :
    Accepts enumDeclaration (Clause.enumDeclaration enumName items).kinds
      (Clause.enumDeclaration enumName items).phrase Anything := by
  have hitem : ∀ item ∈ items, Accepts (do if (← get).atSymbol .comma then symbol .comma else name)
      [enumItemKind item] (enumItemTree item).phrase Anything := by
    intro item _
    cases item with
    | none =>
        refine .get_bind (fun s rest hs _ => if_pos ?_) (.symbol .comma)
        rw [TokenStream.atSymbol_symbol hs, decide_eq_true rfl]
    | some value =>
        refine .get_bind (fun s rest hs _ => if_neg ?_) (.name value)
        rw [TokenStream.atSymbol_eq, hs]
        exact Bool.false_ne_true
  have hitems : Accepts (many (fun stream => !stream.atSymbol .rightBrace)
      (do if (← get).atSymbol .comma then symbol .comma else name))
      (items.map fun item => [enumItemKind item]).flatten
      (items.map fun item => (enumItemTree item).phrase)
      (fun rest => Anything rest ∧
        ∀ s : TokenStream, s.kinds = rest → (!s.atSymbol .rightBrace) = false) := by
    refine many_accepts (fun item _ => List.cons_ne_nil _ _) hitem ?_ (fun _ _ _ => trivial)
    intro item _ s rest hs
    rw [TokenStream.atSymbol_eq, hs]
    cases item <;> rfl
  rw [← List.flatMap_def, ← List.map_eq_flatMap] at hitems
  rw [Clause.phrase_enumDeclaration]
  refine .keyword_bind (.name_bind (.symbol_bind
    (hitems.bind (Accepts.symbol .rightBrace).bind_pure ?_)))
  intro rest _
  refine ⟨trivial, fun s hs => ?_⟩
  rw [TokenStream.atSymbol_symbol hs, decide_eq_true rfl]
  rfl

theorem staticDeclaration_accepts (path : Name) {body : List Statement}
    (hbody : ReadsBlock depth body) :
    Accepts (ofDepth depth).staticDeclaration (Clause.staticMethod path body).kinds
      (Clause.staticMethod path body).phrase Anything := by
  rw [Clause.phrase_staticMethod, Clause.kinds, Clause.statementKinds_eq_map]
  exact .keyword_bind (.name_bind hbody.bind_pure)

theorem attempt_accepts (caught : List Name) {body handler : List Statement}
    (hbody : ReadsBlock depth body)
    (hhandler : ReadsBlock depth handler) :
    Accepts (ofDepth depth).attempt (Clause.attempt body caught handler).kinds
      (Clause.attempt body caught handler).phrase Anything := by
  rw [Clause.phrase_attempt, Clause.kinds, Clause.statementKinds_eq_map,
    Clause.statementKinds_eq_map, List.append_assoc]
  exact .keyword_bind (Accepts.andThen hbody
    (.keyword_bind ((names_accepts caught).andThen hhandler.bind_pure)))

theorem importText_accepts (moduleName : String) :
    Accepts importing (Clause.importText moduleName).kinds (Clause.importText moduleName).phrase
      Anything := by
  refine .keyword_bind fun s rest hs _ => ⟨s.tail, ?_, TokenStream.kinds_tail_of_cons hs⟩
  rw [get_bind, TokenStream.next?_eq_head?, hs]
  rfl

theorem importName_accepts (moduleName : Name) :
    Accepts importing (Clause.importName moduleName).kinds (Clause.importName moduleName).phrase
      Anything := by
  have hname : Accepts (do
      let moduleName ← name
      return Phrase.group [.keyword .importing, moduleName]) [.word moduleName.text]
      (Clause.importName moduleName).phrase Anything := (Accepts.name moduleName).bind_pure
  refine .keyword_bind (.get_bind (fun s rest hs _ => ?_) hname)
  rw [TokenStream.next?_eq_head?, hs]
  rfl

theorem typeInspection_accepts (typeName : Name) {value : Expression .chain}
    (h : value.kinds.length < depth) :
    Accepts (ofDepth depth).typeInspection (Clause.typeInspection value typeName).kinds
      (Clause.typeInspection value typeName).phrase Anything := by
  refine .keyword_bind ((expression_accepts h).bind
    (.keyword_bind (Accepts.name typeName).bind_pure) ?_)
  intro rest _
  exact stops_keyword (by decide) _

theorem patternCase_accepts {pattern guard : Option (Expression .chain)} {body : List Statement}
    (hpattern : ∀ value ∈ pattern, value.kinds.length < depth)
    (hguard : ∀ value ∈ guard, value.kinds.length < depth) (hbody : ReadsBlock depth body) :
    Accepts (ofDepth depth).patternCase (Clause.patternCase pattern guard body).kinds
      (Clause.patternCase pattern guard body).phrase Anything := by
  have hrest (head : List Phrase) : Accepts (do
      let condition ←
        if (← get).atKeyword .provided then do
          let marker ← keyword .provided
          let value ← (ofDepth depth).expression
          pure [marker, value]
        else
          pure []
      let body ← (ofDepth depth).block
      return Phrase.group (head ++ condition ++ [body]))
      (guardKinds guard ++ braceKinds (body.map Clause.kinds))
      (.group (head ++ (guardTrees guard).map Tree.phrase ++ [.braces (body.map Clause.phrase)]))
      Anything := by
    cases guard with
    | none =>
        refine .get_bind (fun s rest hs _ => if_neg ?_) hbody.bind_pure
        rw [TokenStream.atKeyword_eq, hs]
        exact Bool.false_ne_true
    | some value =>
        refine .get_bind (fun s rest hs _ => if_pos ?_) (.keyword_bind
          ((expression_accepts (hguard value rfl)).bind hbody.bind_pure fun rest _ => ?_))
        · rw [TokenStream.atKeyword_keyword hs, decide_eq_true rfl]
        · exact stops_symbol (fun op h => by cases h) _
  rw [Clause.phrase_patternCase, Clause.kinds, Clause.statementKinds_eq_map, List.append_assoc]
  cases pattern with
  | none =>
      refine .get_bind (fun s rest hs _ => if_pos ?_) (.keyword_bind (hrest _))
      rw [TokenStream.atKeyword_keyword hs, decide_eq_true rfl]
  | some value =>
      rw [patternKinds, List.append_assoc]
      refine .get_bind (fun s rest hs _ => if_neg ?_)
        ((expression_accepts (hpattern value rfl)).bind (.keyword_bind (hrest _)) ?_)
      · obtain ⟨kind, tail, hkinds, hopens⟩ := value.kinds_head
        have hword := Kind.isWord_of_opensExpression hopens (k := .otherwise) (by decide)
        rw [TokenStream.atKeyword_eq, hs, hkinds]
        simpa using hword
      · intro rest _
        exact stops_keyword (by decide) _

theorem bare_accepts {value : Expression .chain} (h : value.kinds.length ≤ depth) :
    Accepts (ofDepth depth).sentenceStep value.kinds value.phrase EndsSentence := by
  rw [← List.append_nil value.kinds]
  refine (reader_accepts value depth h).bind
    (.get_bind (fun s rest hs hrest => ?_) (.pure value.phrase)) (fun rest hrest => hrest.1)
  have hnone {k : Keyword} (hk : k ∈ sentenceKeywords) : s.atKeyword k = false :=
    TokenStream.atKeyword_eq_false (hs ▸ hrest.2 k hk)
  simp only [hnone (k := .object) (by decide), hnone (k := .ifThen) (by decide),
    hnone (k := .loop) (by decide)]
  rfl

/-- A key word behind `を` that closes the sentence. -/
theorem closed_accepts {subject : Expression .chain} (h : subject.kinds.length ≤ depth)
    {k : Keyword} (hk : k = .giveBack ∨ k = .throwUp) :
    Accepts (ofDepth depth).sentenceStep (subject.kinds ++ [.keyword .object, .keyword k])
      (.group [subject.phrase, .keyword .object, .keyword k]) EndsSentence := by
  have hread : Accepts (do
      let object ← keyword .object
      let marker ← keyword k
      return Phrase.group [subject.phrase, object, marker]) [.keyword .object, .keyword k]
      (.group [subject.phrase, .keyword .object, .keyword k]) EndsSentence :=
    .keyword_bind (Accepts.keyword k).bind_pure
  refine (reader_accepts subject depth h).bind (.get_bind (fun s rest hs _ => ?_) hread) ?_
  · have htail := TokenStream.kinds_tail_of_cons hs
    simp only [TokenStream.atKeyword_keyword hs, TokenStream.atKeyword_keyword htail]
    rcases hk with rfl | rfl <;> rfl
  · intro rest _
    exact stops_object_keyword k rest

theorem distinction_accepts {subject : Expression .chain} {cases : List (Clause .patternCase)}
    (h : subject.kinds.length ≤ depth)
    (hcases : Accepts (braced (ofDepth depth).patternCase) (braceKinds (cases.map Clause.kinds))
      (.braces (cases.map Clause.phrase)) Anything) :
    Accepts (ofDepth depth).sentenceStep (Clause.distinction subject cases).kinds
      (Clause.distinction subject cases).phrase EndsSentence := by
  have hread : Accepts (do
      let object ← keyword .object
      let marker ← keyword .distinguish
      let cases ← braced (ofDepth depth).patternCase
      return Phrase.group [subject.phrase, object, marker, cases])
      (.keyword .object :: .keyword .distinguish :: braceKinds (cases.map Clause.kinds))
      (.group [subject.phrase, .keyword .object, .keyword .distinguish,
        .braces (cases.map Clause.phrase)]) Anything :=
    .keyword_bind (.keyword_bind hcases.bind_pure)
  rw [Clause.phrase_distinction, Clause.kinds, Clause.caseKinds_eq_map]
  refine (reader_accepts subject depth h).bind
    (.get_bind (fun s rest hs _ => ?_) (hread.weaken fun _ _ => trivial)) ?_
  · have htail := TokenStream.kinds_tail_of_cons hs
    simp only [TokenStream.atKeyword_keyword hs, TokenStream.atKeyword_keyword htail]
    rfl
  · intro rest _
    exact stops_object_keyword .distinguish _

theorem loop_accepts {condition : Expression .chain} {body : List Statement}
    (h : condition.kinds.length ≤ depth) (hbody : ReadsBlock depth body) :
    Accepts (ofDepth depth).sentenceStep (Clause.loop condition body).kinds
      (Clause.loop condition body).phrase EndsSentence := by
  have hread : Accepts (do
      let marker ← keyword .loop
      let body ← (ofDepth depth).block
      return Phrase.group [condition.phrase, marker, body])
      (.keyword .loop :: braceKinds (body.map Clause.kinds))
      (.group [condition.phrase, .keyword .loop, .braces (body.map Clause.phrase)]) Anything :=
    .keyword_bind hbody.bind_pure
  rw [Clause.phrase_loop, Clause.kinds, Clause.statementKinds_eq_map]
  refine (reader_accepts condition depth h).bind
    (.get_bind (fun s rest hs _ => ?_) (hread.weaken fun _ _ => trivial)) ?_
  · simp only [TokenStream.atKeyword_keyword hs]
    rfl
  · intro rest _
    exact stops_keyword (by decide) _

theorem sentence_alternative_accepts {condition : Expression .chain} {later : List Kind}
    {result : Phrase} (h : condition.kinds.length ≤ depth)
    (hlater : Accepts ((ofDepth depth).alternative condition.phrase) (.keyword .ifThen :: later)
      result EndsSentence) :
    Accepts (ofDepth depth).sentenceStep (condition.kinds ++ .keyword .ifThen :: later) result
      EndsSentence := by
  refine (reader_accepts condition depth h).bind (.get_bind (fun s rest hs _ => ?_) hlater) ?_
  · simp only [TokenStream.atKeyword_keyword hs]
    rfl
  · intro rest _
    exact stops_keyword (by decide) _

theorem alternative_accepts {condition : Expression .chain} {consequent : List Statement}
    (h : condition.kinds.length ≤ depth) (hconsequent : ReadsBlock depth consequent) :
    Accepts (ofDepth depth).sentenceStep (Clause.alternative condition consequent).kinds
      (Clause.alternative condition consequent).phrase EndsSentence := by
  rw [Clause.phrase_alternative, Clause.kinds, Clause.statementKinds_eq_map,
    ← List.append_nil (braceKinds _)]
  refine sentence_alternative_accepts h (.keyword_bind (Accepts.andThen hconsequent
    (.get_bind (fun s rest hs hrest => if_neg ?_) (.pure _))))
  rw [TokenStream.atKeyword_eq_false (hs ▸ hrest.2 .otherwise (by decide))]
  exact Bool.false_ne_true

theorem alternativeBlock_accepts {condition : Expression .chain}
    {consequent alternate : List Statement} (h : condition.kinds.length ≤ depth)
    (hconsequent : ReadsBlock depth consequent) (halternate : ReadsBlock depth alternate) :
    Accepts (ofDepth depth).sentenceStep
      (Clause.alternativeBlock condition consequent alternate).kinds
      (Clause.alternativeBlock condition consequent alternate).phrase EndsSentence := by
  rw [Clause.phrase_alternativeBlock, Clause.kinds, Clause.statementKinds_eq_map,
    Clause.statementKinds_eq_map, List.append_assoc]
  refine sentence_alternative_accepts h (.keyword_bind (Accepts.andThen hconsequent
    (.get_bind (fun s rest hs _ => if_pos ?_) (.keyword_bind
      (.get_bind (fun s rest hs _ => if_pos ?_)
        (halternate.weaken fun _ _ => trivial).bind_pure)))))
  · rw [TokenStream.atKeyword_keyword hs, decide_eq_true rfl]
  · rw [TokenStream.atSymbol_symbol hs, decide_eq_true rfl]

theorem alternativeSentence_accepts {condition : Expression .chain}
    {consequent : List Statement} {alternate : Clause .sentence}
    (h : condition.kinds.length ≤ depth) (hconsequent : ReadsBlock depth consequent)
    (halternate : Accepts (ofDepth depth).sentence alternate.kinds alternate.phrase
      EndsSentence) :
    Accepts (ofDepth depth).sentenceStep
      (Clause.alternativeSentence condition consequent alternate).kinds
      (Clause.alternativeSentence condition consequent alternate).phrase EndsSentence := by
  rw [Clause.phrase_alternativeSentence, Clause.kinds, Clause.statementKinds_eq_map,
    List.append_assoc]
  refine sentence_alternative_accepts h (.keyword_bind (Accepts.andThen hconsequent
    (.get_bind (fun s rest hs _ => if_pos ?_) (.keyword_bind
      (.get_bind (fun s rest hs _ => if_neg ?_) halternate.bind_pure)))))
  · rw [TokenStream.atKeyword_keyword hs, decide_eq_true rfl]
  · obtain ⟨kind, tail, hkinds, hopens⟩ := alternate.kinds_head
    rw [TokenStream.atSymbol_eq, hs, hkinds]
    have hsymbol := Kind.isSymbol_of_opensExpression hopens (s := .leftBrace) (by decide)
      (by decide)
    simpa using hsymbol

/-- A statement that does not begin with a key word of its own is a sentence. -/
theorem statementStep_accepts {sentence : Clause .sentence}
    (h : Accepts (ofDepth depth).sentenceStep sentence.kinds sentence.phrase EndsSentence) :
    Accepts (ofDepth depth).statementStep sentence.kinds sentence.phrase EndsSentence := by
  refine .get_bind (fun s rest hs _ => ?_) h
  obtain ⟨kind, tail, hkinds, hopens⟩ := sentence.kinds_head
  have hnone {k : Keyword} (hk : k ≠ .create) : s.atKeyword k = false := by
    rw [TokenStream.atKeyword_eq, hs, hkinds]
    exact Kind.isWord_of_opensExpression hopens hk
  simp [hnone]

/-- What reads a statement that begins with a key word. -/
def statementReading (grammar : Grammar) : Keyword → Parse Phrase
  | .function => grammar.functionDeclaration
  | .declare => grammar.binding .declare
  | .define => grammar.binding .define
  | .classOf => grammar.classDeclaration
  | .enumerate => enumDeclaration
  | .static => grammar.staticDeclaration
  | .attempt => grammar.attempt
  | .importing => importing
  | .exporting => grammar.binding .exporting
  | .inspectType => grammar.typeInspection
  | _ => grammar.sentenceStep

theorem keywordStatement_accepts (k : Keyword) {later : List Kind} {result : Phrase}
    (h : Accepts ((ofDepth depth).statementReading k) (.keyword k :: later) result EndsSentence) :
    Accepts (ofDepth depth).statementStep (.keyword k :: later) result EndsSentence := by
  refine .get_bind (fun s rest hs _ => ?_) h
  simp only [TokenStream.atKeyword_keyword hs]
  cases k <;> rfl

/-- Every clause is read as its phrase. The depth goes down by one wherever the
grammar goes through one of its recursive parts, and there a token has been
taken. -/
theorem reads {part : Part} (clause : Clause part) : Reads clause := by
  induction clause with
  | function name params body ih =>
      intro hapart depth hdepth
      have hbody : ReadsBlock depth body := readsBlock ih hapart (by
        simp only [Clause.kinds, Clause.statementKinds_eq_map, List.length_append] at hdepth
        omega)
      exact keywordStatement_accepts .function
        ((functionDeclaration_accepts name params hbody).weaken fun _ _ => trivial)
  | declaration kind name value =>
      intro _ depth hdepth
      have hvalue : value.kinds.length < depth := by
        simp only [Clause.kinds, List.length_cons] at hdepth
        omega
      apply keywordStatement_accepts kind.keyword
      cases kind <;> exact (binding_accepts _ hvalue).weaken fun _ hrest => hrest.1
  | classDeclaration name parent body ih =>
      intro hapart depth hdepth
      have hbody : ReadsBlock depth body := readsBlock ih hapart (by
        simp only [Clause.kinds, Clause.statementKinds_eq_map, List.length_append] at hdepth
        omega)
      exact keywordStatement_accepts .classOf
        ((classDeclaration_accepts name parent hbody).weaken fun _ _ => trivial)
  | enumDeclaration name items =>
      intro _ depth _
      exact keywordStatement_accepts .enumerate
        ((enumDeclaration_accepts name items).weaken fun _ _ => trivial)
  | staticMethod path body ih =>
      intro hapart depth hdepth
      have hbody : ReadsBlock depth body := readsBlock ih hapart (by
        simp only [Clause.kinds, Clause.statementKinds_eq_map, List.length_cons] at hdepth
        omega)
      exact keywordStatement_accepts .static
        ((staticDeclaration_accepts path hbody).weaken fun _ _ => trivial)
  | attempt body caught handler ihb ihh =>
      intro hapart depth hdepth
      simp only [Clause.kinds, Clause.statementKinds_eq_map, List.length_append,
        List.length_cons] at hdepth
      have hbody : ReadsBlock depth body := readsBlock ihb hapart.1 (by omega)
      have hhandler : ReadsBlock depth handler := readsBlock ihh hapart.2 (by omega)
      exact keywordStatement_accepts .attempt
        ((attempt_accepts caught hbody hhandler).weaken fun _ _ => trivial)
  | importText moduleName =>
      intro _ depth _
      exact keywordStatement_accepts .importing
        ((importText_accepts moduleName).weaken fun _ _ => trivial)
  | importName moduleName =>
      intro _ depth _
      exact keywordStatement_accepts .importing
        ((importName_accepts moduleName).weaken fun _ _ => trivial)
  | exporting name value =>
      intro _ depth hdepth
      have hvalue : value.kinds.length < depth := by
        simp only [Clause.kinds, List.length_cons] at hdepth
        omega
      exact keywordStatement_accepts .exporting
        ((binding_accepts .exporting hvalue).weaken fun _ hrest => hrest.1)
  | typeInspection value typeName =>
      intro _ depth hdepth
      have hvalue : value.kinds.length < depth := by
        simp only [Clause.kinds, List.length_cons, List.length_append] at hdepth
        omega
      exact keywordStatement_accepts .inspectType
        ((typeInspection_accepts typeName hvalue).weaken fun _ _ => trivial)
  | sentence inner ih =>
      intro hapart depth hdepth
      exact statementStep_accepts (ih hapart depth hdepth)
  | bare value =>
      intro _ depth hdepth
      exact bare_accepts hdepth
  | giveBack value =>
      intro _ depth hdepth
      simp only [Clause.kinds, List.length_append] at hdepth
      exact closed_accepts (by omega) (.inl rfl)
  | throwUp value =>
      intro _ depth hdepth
      simp only [Clause.kinds, List.length_append] at hdepth
      exact closed_accepts (by omega) (.inr rfl)
  | distinction subject cases ih =>
      intro hapart depth hdepth
      simp only [Clause.kinds, Clause.caseKinds_eq_map, List.length_append,
        List.length_cons] at hdepth
      exact distinction_accepts (by omega) (caseBlock_accepts ih hapart (by omega))
  | loop condition body ih =>
      intro hapart depth hdepth
      simp only [Clause.kinds, Clause.statementKinds_eq_map, List.length_append,
        List.length_cons] at hdepth
      exact loop_accepts (by omega) (readsBlock ih hapart (by omega))
  | alternative condition consequent ih =>
      intro hapart depth hdepth
      simp only [Clause.kinds, Clause.statementKinds_eq_map, List.length_append,
        List.length_cons] at hdepth
      exact alternative_accepts (by omega) (readsBlock ih hapart (by omega))
  | alternativeBlock condition consequent alternate ihc iha =>
      intro hapart depth hdepth
      simp only [Clause.kinds, Clause.statementKinds_eq_map, List.length_append,
        List.length_cons] at hdepth
      exact alternativeBlock_accepts (by omega) (readsBlock ihc hapart.1 (by omega))
        (readsBlock iha hapart.2 (by omega))
  | alternativeSentence condition consequent alternate ihc iha =>
      intro hapart depth hdepth
      simp only [Clause.kinds, Clause.statementKinds_eq_map, List.length_append,
        List.length_cons] at hdepth
      exact alternativeSentence_accepts (by omega) (readsBlock ihc hapart.1 (by omega))
        (sentence_accepts iha hapart.2 (by omega))
  | patternCase pattern guard body ih =>
      intro hapart depth hdepth
      simp only [Clause.kinds, Clause.statementKinds_eq_map, List.length_append] at hdepth
      refine patternCase_accepts ?_ ?_ (readsBlock ih hapart (by omega))
      · rintro value rfl
        simp only [patternKinds, List.length_append, List.length_cons] at hdepth
        omega
      · rintro value rfl
        simp only [guardKinds, List.length_cons] at hdepth
        omega

end Grammar

end Wabun
