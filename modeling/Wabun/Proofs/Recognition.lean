import Wabun.Proofs.Completeness.Clause
import Wabun.Proofs.Lowering
import Wabun.Proofs.Soundness

/-!
The reader of token streams recognizes the language of the grammar. What it
accepts is derived, and what is derived is accepted, unless a statement that
begins with a minus sign stands behind another one: there the minus sign
continues the statement before.
-/

namespace Wabun

open Token (Kind)

namespace Parse

open Concrete

variable {α X : Type}

/-- Items that take tokens are read until the test fails, however many there are. -/
theorem manyUpTo_stops {more : TokenStream → Bool} {item : Parse α} {kinds : X → List Kind}
    {result : X → α} (hitem : Yields item kinds result) (hnonempty : ∀ x, kinds x ≠ [])
    {bound : Nat} {s s' : TokenStream} {a : List α} (hbound : s.kinds.length < bound)
    (h : manyUpTo more item bound s = .ok a s') : more s' = false := by
  induction bound generalizing s a with
  | zero => omega
  | succ bound ih =>
      rw [manyUpTo_succ] at h
      split at h
      · obtain ⟨x, t, hx, h⟩ := hitem.bind_ok h
        obtain ⟨items, u, hitems, h⟩ := bind_ok h
        obtain ⟨rfl, rfl⟩ := pure_ok h
        have htaken : 0 < (kinds x).length := List.length_pos_iff.mpr (hnonempty x)
        rw [hx, List.length_append] at hbound
        exact ih (by omega) hitems
      · next hstop =>
          cases h
          exact Bool.eq_false_iff.mpr hstop

theorem many_stops {more : TokenStream → Bool} {item : Parse α} {kinds : X → List Kind}
    {result : X → α} (hitem : Yields item kinds result) (hnonempty : ∀ x, kinds x ≠ [])
    {s s' : TokenStream} {a : List α} (h : many more item s = .ok a s') : more s' = false := by
  refine manyUpTo_stops hitem hnonempty (s := s) (a := a) ?_ h
  rw [s.length_kinds]
  exact Nat.lt_succ_self _

/-- A program is made of the statements up to the end of the text. -/
theorem statements_of_program {s s' : TokenStream} {phrase : Phrase}
    (h : program s = .ok phrase s') :
    ∃ phrases, phrase = .group phrases ∧ s'.kinds = [] ∧
      many (fun stream => !stream.atEnd) (Grammar.ofDepth (s.tokens.length + 1)).statement s =
        .ok phrases s' := by
  have hstatement := (Grammar.ofDepth_sound (s.tokens.length + 1)).statement
  obtain ⟨phrases, t, hread, h⟩ := bind_ok (show (do
    let statements ← many (fun stream => !stream.atEnd)
      (Grammar.ofDepth (s.tokens.length + 1)).statement
    return .group statements : Parse Phrase) s = .ok phrase s' from h)
  obtain ⟨rfl, rfl⟩ := pure_ok h
  refine ⟨phrases, rfl, ?_, hread⟩
  have hstop := many_stops hstatement Clause.kinds_ne_nil hread
  rw [← TokenStream.atEnd_iff]
  simpa using hstop

theorem derives_of_program {s s' : TokenStream} {phrase : Phrase}
    (h : program s = .ok phrase s') : Derives s.kinds phrase := by
  have hstatement := (Grammar.ofDepth_sound (s.tokens.length + 1)).statement
  obtain ⟨phrases, rfl, hend, hread⟩ := statements_of_program h
  obtain ⟨statements, hkinds, rfl⟩ := many_yields hstatement s phrases s' hread
  refine ⟨statements, ?_, ?_⟩
  · rw [hkinds, hend, List.append_nil]
    rfl
  · exact Program.phrase_eq statements

theorem program_accepts {statements : Concrete.Program} (hapart : Clause.AllApart statements)
    {s : TokenStream} (hs : s.kinds = statements.kinds) :
    ∃ s', program s = .ok statements.phrase s' := by
  have hitem : ∀ statement ∈ (statements : List Statement),
      Accepts (Grammar.ofDepth (s.tokens.length + 1)).statement statement.kinds statement.phrase
        EndsSentence := by
    intro statement hmem
    have hlength :=
      (List.sublist_flatten_of_mem (List.mem_map_of_mem (f := Clause.kinds) hmem)).length_le
    refine Grammar.statement_accepts (Grammar.reads statement)
      (Clause.apart_of_allApart hapart hmem) ?_
    rw [← s.length_kinds, hs]
    exact Nat.lt_succ_of_le hlength
  have hread : Accepts (many (fun stream => !stream.atEnd)
      (Grammar.ofDepth (s.tokens.length + 1)).statement)
      (statements.map Clause.kinds).flatten (statements.map Clause.phrase)
      (fun rest => EndsSentence rest ∧
        ∀ s : TokenStream, s.kinds = rest → (!s.atEnd) = false) := by
    refine many_accepts (fun statement _ => statement.kinds_ne_nil) hitem ?_ ?_
    · intro statement _ s rest hs
      have hmore : ¬ s.atEnd = true := by
        rw [TokenStream.atEnd_iff, hs]
        exact fun h => statement.kinds_ne_nil (List.append_eq_nil_iff.mp h).1
      simpa using hmore
    · intro statement hmem rest
      exact endsSentence_statement (Clause.not_startsWithMinus_of_allApart hapart hmem) rest
  have hend : EndsSentence [] ∧ ∀ s : TokenStream, s.kinds = [] → (!s.atEnd) = false := by
    refine ⟨endsSentence_nil, fun s hs => ?_⟩
    rw [(TokenStream.atEnd_iff s).mpr hs]
    rfl
  obtain ⟨s', hs', _⟩ := hread.bind_pure (g := Phrase.group) s []
    (by rw [hs, List.append_nil]; rfl) hend
  exact ⟨s', by rw [Program.phrase_eq]; exact hs'⟩

/-- In every phrase that the reader gives, each group forms the construct of the
production that made it, so lowering does what the productions mean. -/
theorem constructs_follow_grammar {stream rest : TokenStream} {phrase : Phrase}
    (h : program stream = .ok phrase rest) :
    Derives stream.kinds phrase ∧
    ∀ derivation : Concrete.Program, derivation.kinds = stream.kinds → derivation.phrase = phrase →
      (∀ production parts, Tree.Occurs production parts derivation.tree →
        Construct.of? (parts.map Tree.phrase) = production.construct?) ∧
      (∀ parts, Phrase.Contains parts phrase →
        ∃ production children, Tree.Occurs production children derivation.tree ∧
          children.map Tree.phrase = parts ∧ Construct.of? parts = production.construct?) ∧
      Node.ofPhrase phrase = derivation.node := by
  refine ⟨derives_of_program h, ?_⟩
  rintro derivation _ rfl
  refine ⟨derivation.classified, ?_, derivation.ofPhrase_phrase⟩
  intro parts hcontains
  obtain ⟨production, children, hoccurs, rfl⟩ := Tree.occurs_of_contains hcontains
  exact ⟨production, children, hoccurs, rfl, derivation.classified production children hoccurs⟩

/-- A text has a phrase only if the grammar derives it from the tokens of the text. -/
theorem derives_of_ofText {source : String} {phrase : Phrase}
    (h : Phrase.ofText source = .ok phrase) :
    ∃ stream, TokenStream.ofText source = .ok stream ∧ Derives stream.kinds phrase := by
  obtain ⟨_, _, hfault⟩ | ⟨stream, hstream, ⟨_, _, _, hfault⟩ | ⟨read, rest, hread, hphrase⟩⟩ :=
    Phrase.ofText_cases source
  · rw [hfault] at h
    cases h
  · rw [hfault] at h
    cases h
  · rw [hphrase] at h
    cases h
    exact ⟨stream, hstream, derives_of_program hread⟩

/-- The tokens of `x - 真 を 返却`. -/
def returnedDifference : TokenStream where
  tokens :=
    [⟨.word "x", ⟨1, 1⟩⟩, ⟨.symbol (.operator .sub), ⟨1, 3⟩⟩, ⟨.truth true, ⟨1, 5⟩⟩,
      ⟨.keyword .object, ⟨1, 7⟩⟩, ⟨.keyword .giveBack, ⟨1, 9⟩⟩]
  stop := ⟨1, 11⟩

theorem constructs_follow_grammar_returnedDifference :
    program returnedDifference =
      .ok (.group [.group [.group [.word "x", .word "-", .leaf (.truth true)],
        .keyword .object, .keyword .giveBack]]) { tokens := [], stop := ⟨1, 11⟩ } ∧
    ∃ derivation : Concrete.Program, derivation.kinds = returnedDifference.kinds ∧
      derivation.tree.Classified ∧ Node.ofPhrase derivation.phrase = derivation.node := by
  have hread : program returnedDifference =
      .ok (.group [.group [.group [.word "x", .word "-", .leaf (.truth true)],
        .keyword .object, .keyword .giveBack]]) { tokens := [], stop := ⟨1, 11⟩ } := rfl
  obtain ⟨⟨derivation, hkinds, hphrase⟩, hall⟩ := constructs_follow_grammar hread
  obtain ⟨hclassified, _, hnode⟩ := hall derivation hkinds hphrase
  rw [← hphrase] at hnode
  exact ⟨hread, derivation, hkinds, hclassified, hnode⟩

end Parse

end Wabun
