import Wabun.Console.Repl
import Wabun.Proofs.Recognition
import Wabun.Proofs.Spelling

/-!
Brackets in accepted programs. The grammar writes brackets in pairs, with whole
derivations between them, so behind every derivation the same brackets are open as
before it. An interactive entry only counts how many brackets are open. So it never
waits for more lines when what it has is a program.
-/

namespace Wabun

open Token (Kind)

/-- The kinds of brackets. -/
inductive Bracket where
  | round
  | brace
deriving DecidableEq

namespace Bracket

def opening : Bracket → Symbol
  | round => .leftParen
  | brace => .leftBrace

def closing : Bracket → Symbol
  | round => .rightParen
  | brace => .rightBrace

/-- What is left open when a bracket is closed. It has to be of the kind of the
innermost open one. -/
def close (bracket : Bracket) : List Bracket → Option (List Bracket)
  | [] => none
  | innermost :: outer => if innermost = bracket then some outer else none

/-- The brackets that are open behind a token, the innermost first. -/
def behind (unclosed : List Bracket) : Kind → Option (List Bracket)
  | .symbol .leftParen => some (round :: unclosed)
  | .symbol .leftBrace => some (brace :: unclosed)
  | .symbol .rightParen => close round unclosed
  | .symbol .rightBrace => close brace unclosed
  | _ => some unclosed

/-- Every bracket is closed, by one of its own kind, and none is closed before those
that were opened inside of it. -/
def Nested (kinds : List Kind) : Prop :=
  kinds.foldlM behind [] = some []

/-- Whatever is open before the tokens is open behind them, and was not touched. -/
def Neutral (kinds : List Kind) : Prop :=
  ∀ unclosed, kinds.foldlM behind unclosed = some unclosed

theorem behind_opening (bracket : Bracket) (unclosed : List Bracket) :
    behind unclosed (.symbol bracket.opening) = some (bracket :: unclosed) := by
  cases bracket <;> rfl

theorem behind_closing (bracket : Bracket) (unclosed : List Bracket) :
    behind unclosed (.symbol bracket.closing) = close bracket unclosed := by
  cases bracket <;> rfl

namespace Neutral

variable {kinds others : List Kind}

theorem nil : Neutral [] :=
  fun _ => rfl

theorem append (h : Neutral kinds) (hothers : Neutral others) : Neutral (kinds ++ others) := by
  intro unclosed
  simp [List.foldlM_append, h unclosed, hothers unclosed]

theorem cons {kind : Kind} (hkind : Neutral [kind]) (h : Neutral kinds) :
    Neutral (kind :: kinds) :=
  hkind.append h

theorem of_each (h : ∀ kind ∈ kinds, Neutral [kind]) : Neutral kinds := by
  induction kinds with
  | nil => exact nil
  | cons kind rest ih =>
      exact cons (h kind List.mem_cons_self) (ih fun other hother => h other (.tail _ hother))

theorem flatten {rows : List (List Kind)} (h : ∀ row ∈ rows, Neutral row) :
    Neutral rows.flatten := by
  induction rows with
  | nil => exact nil
  | cons row rest ih =>
      rw [List.flatten_cons]
      exact (h row List.mem_cons_self).append (ih fun row hrow => h row (.tail _ hrow))

theorem intercalate {rows : List (List Kind)} (h : ∀ row ∈ rows, Neutral row)
    {separator : Kind} (hseparator : Neutral [separator]) :
    Neutral (List.intercalate [separator] rows) := by
  rw [List.intercalate]
  apply flatten
  intro row hrow
  rcases mem_of_mem_intersperse hrow with rfl | hmem
  · exact hseparator
  · exact h row hmem

/-- A pair of brackets leaves open what was open before it. -/
theorem enclosed (bracket : Bracket) (h : Neutral kinds) :
    Neutral (.symbol bracket.opening :: kinds ++ [.symbol bracket.closing]) := by
  intro unclosed
  simp [List.foldlM_append, behind_opening, behind_closing, h (bracket :: unclosed), close]

theorem word (text : String) : Neutral [.word text] :=
  fun _ => rfl

theorem keyword (k : Keyword) : Neutral [.keyword k] :=
  word k.text

theorem comma : Neutral [.symbol .comma] :=
  fun _ => rfl

theorem operator (op : Operator) : Neutral [.symbol (.operator op)] :=
  fun _ => rfl

theorem brackets {rows : List (List Kind)} (h : ∀ row ∈ rows, Neutral row) :
    Neutral (Concrete.bracketKinds rows) :=
  enclosed .round (intercalate h comma)

theorem braces {rows : List (List Kind)} (h : ∀ row ∈ rows, Neutral row) :
    Neutral (Concrete.braceKinds rows) :=
  enclosed .brace (flatten h)

theorem names (names : List Name) : Neutral (Concrete.nameKinds names) := by
  apply brackets
  intro row hrow
  obtain ⟨name, _, rfl⟩ := List.mem_map.mp hrow
  exact word name.text

end Neutral

theorem eq_cons_of_close {bracket : Bracket} {unclosed rest : List Bracket}
    (h : close bracket unclosed = some rest) : unclosed = bracket :: rest := by
  cases unclosed with
  | nil => cases h
  | cons innermost outer =>
      rw [close] at h
      split at h
      · next heq => rw [heq, Option.some.inj h]
      · cases h

/-- A token opens a bracket, closes the innermost one or is no bracket. -/
theorem count_behind {kind : Kind} {before after : List Bracket}
    (h : behind before kind = some after) (bracket : Bracket) :
    before.count bracket + (if kind.isSymbol bracket.opening then 1 else 0) =
      after.count bracket + (if kind.isSymbol bracket.closing then 1 else 0) := by
  cases kind with
  | word | number | text | truth =>
      cases h
      rfl
  | symbol sign =>
      cases sign with
      | leftParen | leftBrace =>
          cases h
          cases bracket <;> simp [Kind.isSymbol, opening, closing]
      | rightParen | rightBrace =>
          rw [eq_cons_of_close h]
          cases bracket <;> simp [Kind.isSymbol, opening, closing]
      | comma | operator =>
          cases h
          cases bracket <;> rfl

/-- A bracket is opened as often as it is closed, but for those that are open before
and behind the tokens. -/
theorem count_of_foldlM {kinds : List Kind} {before after : List Bracket}
    (h : kinds.foldlM behind before = some after) (bracket : Bracket) :
    before.count bracket + kinds.countP (·.isSymbol bracket.opening) =
      after.count bracket + kinds.countP (·.isSymbol bracket.closing) := by
  induction kinds generalizing before with
  | nil =>
      cases h
      rfl
  | cons kind rest ih =>
      rw [List.foldlM_cons] at h
      obtain ⟨middle, hmiddle, hrest⟩ := Option.bind_eq_some_iff.mp h
      have hstep := count_behind hmiddle bracket
      have hcount := ih hrest
      rw [List.countP_cons, List.countP_cons]
      omega

theorem Nested.balance_eq_zero {tokens : List Token} (h : Nested (tokens.map Token.kind))
    (bracket : Bracket) : Console.balance bracket.opening bracket.closing tokens = 0 := by
  have hcount := count_of_foldlM h bracket
  rw [List.countP_map, List.countP_map] at hcount
  simp only [Console.balance, Function.comp_def] at hcount ⊢
  omega

end Bracket

namespace Concrete

open Wabun.Bracket

theorem Expression.neutral {rank : Rank} (e : Expression rank) : Neutral e.kinds := by
  induction e with
  | text | truth | negative | number => exact fun _ => rfl
  | named name => exact .word name.text
  | creation className => exact (Neutral.keyword .create).cons (.word className.text)
  | bracketed items ih =>
      rw [kinds, kindsOfAll_eq_map]
      apply Neutral.brackets
      intro row hrow
      obtain ⟨item, hitem, rfl⟩ := List.mem_map.mp hrow
      exact ih item hitem
  | minus inner ih => exact (Neutral.operator .sub).cons ih
  | operand inner ih => exact ih
  | single level inner ih => exact ih
  | joined level operator hlevel left right ihl ihr =>
      exact ihl.append ((Neutral.operator operator).cons ihr)
  | plain inner ih => exact ih
  | call argument callee ih =>
      exact ih.append ((Neutral.keyword .object).cons (.word callee.text))

namespace Clause

theorem neutral_block {body : List Statement} (h : ∀ statement ∈ body, Neutral statement.kinds) :
    Neutral (braceKinds (statementKinds body)) := by
  rw [statementKinds_eq_map]
  apply Neutral.braces
  intro row hrow
  obtain ⟨statement, hmem, rfl⟩ := List.mem_map.mp hrow
  exact h statement hmem

theorem neutral_binding (marker : Keyword) (name : Name) (value : Expression .chain) :
    Neutral (.keyword marker :: .word name.text :: .keyword .topic :: value.kinds) :=
  (Neutral.keyword marker).cons <| (Neutral.word name.text).cons <|
    (Neutral.keyword .topic).cons value.neutral

/-- What stands before a block and the block. -/
theorem neutral_conditional (condition : Expression .chain) (marker : Keyword)
    {body : List Statement} (h : ∀ statement ∈ body, Neutral statement.kinds) :
    Neutral (condition.kinds ++ .keyword marker :: braceKinds (statementKinds body)) :=
  condition.neutral.append ((Neutral.keyword marker).cons (neutral_block h))

theorem neutral {part : Part} (clause : Clause part) : Neutral clause.kinds := by
  induction clause with
  | function name params body ih =>
      exact (Neutral.keyword .function).cons <| (Neutral.word name.text).cons <|
        (Neutral.names params).append (neutral_block ih)
  | declaration kind name value => exact neutral_binding kind.keyword name value
  | classDeclaration name parent body ih =>
      have hparent : Neutral (parentKinds parent) := by
        cases parent with
        | none => exact .nil
        | some parent => exact (Neutral.keyword .inherits).cons (.word parent.text)
      exact (Neutral.keyword .classOf).cons <| (Neutral.word name.text).cons <|
        hparent.append (neutral_block ih)
  | enumDeclaration name items =>
      have hitems : Neutral (items.map enumItemKind) := by
        apply Neutral.of_each
        intro kind hkind
        obtain ⟨item, _, rfl⟩ := List.mem_map.mp hkind
        cases item with
        | none => exact .comma
        | some value => exact .word value.text
      exact (Neutral.keyword .enumerate).cons <| (Neutral.word name.text).cons <|
        hitems.enclosed .brace
  | staticMethod path body ih =>
      exact (Neutral.keyword .static).cons ((Neutral.word path.text).cons (neutral_block ih))
  | attempt body caught handler ihb ihh =>
      have hcaught : Neutral (.keyword .rescue :: nameKinds caught) :=
        (Neutral.keyword .rescue).cons (.names caught)
      exact (Neutral.keyword .attempt).cons <|
        ((neutral_block ihb).append hcaught).append (neutral_block ihh)
  | importText moduleName => exact fun _ => rfl
  | importName moduleName => exact (Neutral.keyword .importing).cons (.word moduleName.text)
  | exporting name value => exact neutral_binding .exporting name value
  | typeInspection value typeName =>
      exact (Neutral.keyword .inspectType).cons <| value.neutral.append <|
        (Neutral.keyword .topic).cons (.word typeName.text)
  | sentence inner ih => exact ih
  | bare value => exact value.neutral
  | giveBack value =>
      exact value.neutral.append ((Neutral.keyword .object).cons (.keyword .giveBack))
  | throwUp value =>
      exact value.neutral.append ((Neutral.keyword .object).cons (.keyword .throwUp))
  | distinction subject cases ih =>
      have hcases : Neutral (braceKinds (caseKinds cases)) := by
        rw [caseKinds_eq_map]
        apply Neutral.braces
        intro row hrow
        obtain ⟨case, hmem, rfl⟩ := List.mem_map.mp hrow
        exact ih case hmem
      exact subject.neutral.append <| (Neutral.keyword .object).cons <|
        (Neutral.keyword .distinguish).cons hcases
  | loop condition body ih => exact neutral_conditional condition .loop ih
  | alternative condition consequent ih => exact neutral_conditional condition .ifThen ih
  | alternativeBlock condition consequent alternate ihc iha =>
      exact (neutral_conditional condition .ifThen ihc).append
        ((Neutral.keyword .otherwise).cons (neutral_block iha))
  | alternativeSentence condition consequent alternate ihc iha =>
      exact (neutral_conditional condition .ifThen ihc).append
        ((Neutral.keyword .otherwise).cons iha)
  | patternCase pattern guard body ih =>
      have hpattern : Neutral (patternKinds pattern) := by
        cases pattern with
        | none => exact .keyword .otherwise
        | some pattern => exact pattern.neutral.append (.keyword .caseOf)
      have hguard : Neutral (guardKinds guard) := by
        cases guard with
        | none => exact .nil
        | some guard => exact (Neutral.keyword .provided).cons guard.neutral
      exact (hpattern.append hguard).append (neutral_block ih)

end Clause

/-- What the grammar derives has its brackets in pairs. -/
theorem nested_of_derives {kinds : List Kind} {phrase : Phrase} (h : Derives kinds phrase) :
    Nested kinds := by
  obtain ⟨program, rfl, _⟩ := h
  have hprogram : Neutral program.kinds := by
    apply Neutral.flatten
    intro row hrow
    obtain ⟨statement, _, rfl⟩ := List.mem_map.mp hrow
    exact statement.neutral
  exact hprogram []

end Concrete

namespace Console

theorem head?_of_trimEnd {line : String} {c : Char}
    (h : (Repl.trimEnd line).toList.head? = some c) : line.toList.head? = some c := by
  rw [Repl.trimEnd, String.toList_ofList] at h
  have hsuffix : line.toList.reverse.dropWhile Text.isSpace <:+ line.toList.reverse :=
    List.dropWhile_suffix Text.isSpace
  obtain ⟨rest, hrest⟩ := List.reverse_prefix.mpr hsuffix
  rw [List.reverse_reverse] at hrest
  rw [← hrest, List.head?_append, h]
  rfl

/-- A command is no program: no token begins with a colon. -/
theorem ofText_of_colon {source : String} (h : source.toList.head? = some ':') :
    ∃ located, TokenStream.ofText source = .error located := by
  obtain ⟨rest, hsource⟩ := List.head?_eq_some_iff.mp h
  have hgap : Token.splitGap false source.toList = ([], ':' :: rest) := by
    rw [hsource]
    rfl
  refine ⟨⟨.strayCharacter ':', .start⟩, ?_⟩
  rw [TokenStream.ofText, Cursor.ofText, Cursor.tokenize, Cursor.readFrom_of_fault hgap rfl]
  rfl

/-- A complete entry that is not a command is run. -/
theorem take_of_isComplete {host : Host} {repl : Repl} {line source : String}
    (hsource : repl.buffer ++ line = source) (hcomplete : isComplete source = true)
    (hcommand : repl.buffer.isEmpty = true → (Repl.trimEnd line).toList.head? ≠ some ':') :
    repl.take host line =
      (.goOn (repl.runEntry host source).1, (repl.runEntry host source).2) := by
  have hplain : (repl.buffer.isEmpty && (Repl.trimEnd line).toList.head? == some ':') = false := by
    simpa using hcommand
  simp only [Repl.take, hplain, hsource, hcomplete]
  rfl

theorem isComplete_of_nested {source : String} {stream : TokenStream}
    (hstream : TokenStream.ofText source = .ok stream) (h : Bracket.Nested stream.kinds) :
    isComplete source = true := by
  have hround : balance .leftParen .rightParen stream.tokens = 0 := h.balance_eq_zero .round
  have hbrace : balance .leftBrace .rightBrace stream.tokens = 0 := h.balance_eq_zero .brace
  simp [isComplete, hstream, hround, hbrace]

/-- On the way through tokens a count stays within the number of brackets. -/
theorem balance_of_prefix {tokens earlier later : List Token} (h : tokens = earlier ++ later)
    (opening closing : Symbol) :
    -(tokens.countP (·.kind.isSymbol closing) : Int) ≤ balance opening closing earlier ∧
      balance opening closing earlier ≤ tokens.countP (·.kind.isSymbol opening) := by
  subst h
  rw [List.countP_append, List.countP_append, balance]
  omega

/-- A text that has a phrase has its brackets in pairs, so an interactive entry is never
held back when it is a program. What is held back has a fault. If there are less than
`2 ^ 31` brackets of a kind, then 32 bits are enough to count them from one token to the
next. -/
theorem accepted_entries_are_complete (source : String) :
    (∀ phrase, Phrase.ofText source = .ok phrase →
      ∃ stream, TokenStream.ofText source = .ok stream ∧ Bracket.Nested stream.kinds ∧
        isComplete source = true ∧
        ∀ (host : Host) (repl : Repl) (line : String), repl.buffer ++ line = source →
          repl.take host line =
            (.goOn (repl.runEntry host source).1, (repl.runEntry host source).2)) ∧
    (isComplete source = false →
      ∃ diagnostic, Phrase.ofText source = .error diagnostic ∧
        Node.ofText source = .error diagnostic) ∧
    (∀ stream, TokenStream.ofText source = .ok stream → ∀ bracket : Bracket,
      stream.tokens.countP (·.kind.isSymbol bracket.opening) < 2147483648 →
      stream.tokens.countP (·.kind.isSymbol bracket.closing) < 2147483648 →
      ∀ earlier later, stream.tokens = earlier ++ later →
        -2147483648 < balance bracket.opening bracket.closing earlier ∧
          balance bracket.opening bracket.closing earlier < 2147483648) := by
  refine ⟨?_, ?_, ?_⟩
  · intro phrase hphrase
    obtain ⟨stream, hstream, hderives⟩ := Parse.derives_of_ofText hphrase
    have hnested := Concrete.nested_of_derives hderives
    have hcomplete := isComplete_of_nested hstream hnested
    refine ⟨stream, hstream, hnested, hcomplete, ?_⟩
    intro host repl line hsource
    refine take_of_isComplete hsource hcomplete ?_
    intro hempty hcolon
    rw [String.isEmpty_iff.mp hempty, String.empty_append] at hsource
    obtain ⟨located, hfault⟩ := ofText_of_colon (head?_of_trimEnd hcolon)
    rw [hsource, hstream] at hfault
    cases hfault
  · intro hheld
    cases hphrase : Phrase.ofText source with
    | error diagnostic =>
        refine ⟨diagnostic, rfl, ?_⟩
        rw [Node.ofText, hphrase]
        rfl
    | ok phrase =>
        obtain ⟨stream, hstream, hderives⟩ := Parse.derives_of_ofText hphrase
        rw [isComplete_of_nested hstream (Concrete.nested_of_derives hderives)] at hheld
        cases hheld
  · intro stream _ bracket hopening hclosing earlier later htokens
    have hcount := balance_of_prefix htokens bracket.opening bracket.closing
    omega

end Console

end Wabun
