import Wabun.Proofs.Concrete
import Wabun.Proofs.Vocabulary

/-!
The key words among the parts of a group say which production made it. A
phrase that stands for an expression, a statement or a name is never itself a
key word or a symbol, so the only such words among the direct parts of a group
are those that its own production wrote there.
-/

namespace Wabun

namespace Phrase

/-- Neither a key word nor a symbol. -/
def Plain (phrase : Phrase) : Prop :=
  ∀ w, phrase.word? = some w → Word.isName w = true

theorem plain_group (parts : List Phrase) : (group parts).Plain := by
  intro w h
  cases h

theorem plain_name (name : Name) : (word name.text).Plain := by
  intro w h
  obtain rfl := Option.some.inj h
  exact name.isName

namespace Plain

variable {phrase : Phrase}

theorem isWord (h : phrase.Plain) {reserved : String} (hreserved : Word.isName reserved = false) :
    phrase.isWord reserved = false := by
  rw [Phrase.isWord, beq_eq_false_iff_ne]
  intro hword
  have hname := h reserved hword
  rw [hreserved] at hname
  cases hname

theorem isKeyword (h : phrase.Plain) (k : Keyword) : phrase.isKeyword k = false :=
  h.isWord (Word.isName_keyword k)

theorem isOperator (h : phrase.Plain) : phrase.word?.any Word.isOperator = false := by
  cases hword : phrase.word? with
  | none => rfl
  | some w => exact Operator.isOperator_of_isName (h w hword)

theorem isComma (h : phrase.Plain) : phrase.word?.any Word.isComma = false := by
  cases hword : phrase.word? with
  | none => rfl
  | some w => exact Word.isComma_of_isName (h w hword)

end Plain

@[simp]
theorem word?_word (text : String) : (word text).word? = some text := rfl

@[simp]
theorem word?_keyword (k : Keyword) : (keyword k).word? = some k.text := rfl

@[simp]
theorem isKeyword_keyword (k other : Keyword) :
    (keyword k).isKeyword other = decide (k = other) := by
  by_cases h : k = other
  · simp [isKeyword, isWord, keyword, word, word?, h]
  · simp [isKeyword, isWord, keyword, word, word?, h]

@[simp]
theorem isKeyword_symbol (s : Symbol) (k : Keyword) :
    (word s.text).isKeyword k = false := by
  simp [isKeyword, isWord, word, word?, Symbol.text_ne_keyword s k]

@[simp]
theorem isKeyword_name (name : Name) (k : Keyword) : (word name.text).isKeyword k = false :=
  (plain_name name).isKeyword k

@[simp]
theorem isKeyword_group (parts : List Phrase) (k : Keyword) :
    (group parts).isKeyword k = false := rfl

@[simp]
theorem isKeyword_brackets (items : List Phrase) (k : Keyword) :
    (brackets items).isKeyword k = false := rfl

@[simp]
theorem isKeyword_braces (items : List Phrase) (k : Keyword) :
    (braces items).isKeyword k = false := rfl

end Phrase

namespace Concrete

theorem Expression.plain_phrase {rank : Rank} (e : Expression rank) : e.tree.phrase.Plain := by
  induction e with
  | text | truth | negative | number =>
      intro w h
      cases h
  | named name => exact Phrase.plain_name name
  | creation | bracketed | minus | joined | call => exact Phrase.plain_group _
  | operand inner ih => exact ih
  | single level inner ih => exact ih
  | plain inner ih => exact ih

theorem Clause.plain_phrase {part : Part} (clause : Clause part) : clause.tree.phrase.Plain := by
  induction clause with
  | sentence inner ih => exact ih
  | bare value => exact value.plain_phrase
  | _ => exact Phrase.plain_group _

@[simp]
theorem Expression.isKeyword_tree {rank : Rank} (e : Expression rank) (k : Keyword) :
    e.tree.phrase.isKeyword k = false :=
  e.plain_phrase.isKeyword k

@[simp]
theorem Clause.isKeyword_tree {part : Part} (clause : Clause part) (k : Keyword) :
    clause.tree.phrase.isKeyword k = false :=
  clause.plain_phrase.isKeyword k

end Concrete

namespace Construct

/-- Parts without any key word or operator form no construct. -/
theorem of?_eq_none {parts : List Phrase}
    (hkeyword : ∀ part ∈ parts, ∀ k, part.isKeyword k = false)
    (hoperator : ∀ part ∈ parts, part.word?.any Word.isOperator = false) :
    of? parts = none := by
  have hhas (k : Keyword) : has parts k = false := by
    rw [has, List.any_eq_false]
    intro part hpart
    rw [hkeyword part hpart k]
    exact Bool.false_ne_true
  have hcall : isCall parts = false := by
    unfold isCall
    split
    · next object callee =>
        rw [hkeyword object (by simp) .object]
        rfl
    · rfl
  have hbinary : isBinary parts = false := by
    unfold isBinary
    split
    · next symbol _ => exact hoperator symbol (by simp)
    · rfl
  simp [of?, hhas, hcall, hbinary]

/-- What stands in brackets is not looked at. -/
theorem of?_brackets {items : List Phrase} (hitems : ∀ item ∈ items, item.Plain) :
    of? (.word Symbol.leftParen.text :: items.intersperse (.word Symbol.comma.text) ++
      [.word Symbol.rightParen.text]) = none := by
  have hparts : ∀ part ∈ Phrase.word Symbol.leftParen.text ::
      items.intersperse (.word Symbol.comma.text) ++ [.word Symbol.rightParen.text],
      (∀ k, part.isKeyword k = false) ∧ part.word?.any Word.isOperator = false := by
    intro part hpart
    rw [List.cons_append, List.mem_cons, List.mem_append, List.mem_singleton] at hpart
    rcases hpart with rfl | hpart | rfl
    · exact ⟨Phrase.isKeyword_symbol _, by decide⟩
    · rcases mem_of_mem_intersperse hpart with rfl | hitem
      · exact ⟨Phrase.isKeyword_symbol _, by decide⟩
      · exact ⟨(hitems part hitem).isKeyword, (hitems part hitem).isOperator⟩
    · exact ⟨Phrase.isKeyword_symbol _, by decide⟩
  exact of?_eq_none (fun part hpart => (hparts part hpart).1)
    (fun part hpart => (hparts part hpart).2)

theorem of?_binary {left right : Phrase} (hleft : left.Plain) (hright : right.Plain)
    (op : Operator) : of? [left, .word op.symbol, right] = some .binary := by
  have hsymbol (k : Keyword) : (Phrase.word op.symbol).isKeyword k = false :=
    Phrase.isKeyword_symbol (.operator op) k
  simp [of?, has, hleft.isKeyword, hright.isKeyword, hsymbol, isCall, isBinary,
    Operator.isOperator_symbol]

theorem of?_call {argument : Phrase} (hargument : argument.Plain) (callee : Name) :
    of? [argument, .keyword .object, .word callee.text] = some .call := by
  simp [of?, has, hargument.isKeyword, isCall, callee.isName]

end Construct

namespace Tree

/-- Every group of the tree forms the construct of its production. -/
def Classified (tree : Tree) : Prop :=
  ∀ production parts, Occurs production parts tree →
    Construct.of? (parts.map phrase) = production.construct?

theorem classified_leaf (atom : Atom) : (leaf atom).Classified := by
  intro production parts h
  cases h

theorem classified_group {production : Production} {parts : List Tree}
    (hgroup : Construct.of? (parts.map phrase) = production.construct?)
    (hparts : ∀ part ∈ parts, part.Classified) : (group production parts).Classified := by
  intro inner innerParts h
  cases h with
  | here => exact hgroup
  | inside hmem hoccurs => exact hparts _ hmem inner innerParts hoccurs

@[simp]
theorem classified_word (text : String) : (word text).Classified :=
  classified_leaf _

@[simp]
theorem classified_keyword (k : Keyword) : (keyword k).Classified :=
  classified_leaf _

@[simp]
theorem classified_symbol (s : Symbol) : (symbol s).Classified :=
  classified_leaf _

theorem Classified.construct {production : Production} {parts : List Tree}
    {phrases : List Phrase} (h : (group production parts).Classified)
    (hphrase : (group production parts).phrase = .group phrases) :
    Construct.of? phrases = production.construct? := by
  rw [phrase_group] at hphrase
  rw [← Phrase.group.inj hphrase]
  exact h production parts .here

/-- Groups that only hold other phrases together, between symbols. -/
theorem classified_of_plain {production : Production} {parts : List Tree}
    (hproduction : production.construct? = none)
    (hparts : ∀ part ∈ parts, part.phrase.Plain ∧ part.Classified ∨
      ∃ s, part = symbol s ∧ Word.isOperator s.text = false) :
    (group production parts).Classified := by
  have hquiet : ∀ part ∈ parts, (∀ k, part.phrase.isKeyword k = false) ∧
      part.phrase.word?.any Word.isOperator = false := by
    intro part hmem
    rcases hparts part hmem with ⟨hplain, _⟩ | ⟨s, rfl, hs⟩
    · exact ⟨hplain.isKeyword, hplain.isOperator⟩
    · exact ⟨Phrase.isKeyword_symbol s, hs⟩
  apply classified_group
  · rw [hproduction]
    apply Construct.of?_eq_none
    · intro phrase hphrase
      obtain ⟨part, hmem, rfl⟩ := List.mem_map.mp hphrase
      exact (hquiet part hmem).1
    · intro phrase hphrase
      obtain ⟨part, hmem, rfl⟩ := List.mem_map.mp hphrase
      exact (hquiet part hmem).2
  · intro part hmem
    rcases hparts part hmem with ⟨_, hclassified⟩ | ⟨s, rfl, _⟩
    · exact hclassified
    · exact classified_symbol s

theorem classified_braces {outer inner : Production} {items : List Tree}
    (houter : outer.construct? = none) (hinner : inner.construct? = none)
    (hitems : ∀ item ∈ items, item.phrase.Plain ∧ item.Classified) :
    (braces outer inner items).Classified := by
  have hinside : (group inner items).Classified :=
    classified_of_plain hinner fun item hmem => .inl (hitems item hmem)
  have hplain : (group inner items).phrase.Plain := by
    rw [phrase_group]
    exact Phrase.plain_group _
  apply classified_of_plain houter
  simp only [List.forall_mem_cons]
  refine ⟨.inr ⟨.leftBrace, rfl, by decide⟩, .inl ⟨hplain, hinside⟩,
    .inr ⟨.rightBrace, rfl, by decide⟩, ?_⟩
  exact fun _ h => absurd h List.not_mem_nil

theorem classified_brackets {production : Production} {items : List Tree}
    (hproduction : production.construct? = none)
    (hitems : ∀ item ∈ items, item.phrase.Plain ∧ item.Classified) :
    (brackets production items).Classified := by
  apply classified_group
  · have hnone := Construct.of?_brackets (items.forall_mem_map.mpr fun item hmem =>
      (hitems item hmem).1)
    simpa [map_intersperse, hproduction] using hnone
  · intro part hpart
    rw [List.cons_append, List.mem_cons, List.mem_append, List.mem_singleton] at hpart
    rcases hpart with rfl | hpart | rfl
    · exact classified_symbol _
    · rcases mem_of_mem_intersperse hpart with rfl | hitem
      · exact classified_symbol _
      · exact (hitems part hitem).2
    · exact classified_symbol _

theorem classified_names (names : List Name) : (Tree.names names).Classified := by
  apply classified_brackets rfl
  intro item hitem
  obtain ⟨name, _, rfl⟩ := List.mem_map.mp hitem
  exact ⟨Phrase.plain_name name, classified_word _⟩

end Tree

namespace Concrete

open Construct Wabun.Tree

theorem Expression.classified {rank : Rank} (e : Expression rank) : e.tree.Classified := by
  induction e with
  | text value => exact classified_leaf _
  | truth value => exact classified_leaf _
  | named name => exact classified_leaf _
  | creation className =>
      refine classified_group ?_ (by simp)
      simp [of?, has, Production.construct?]
  | bracketed items ih =>
      rw [tree, trees_eq_map]
      apply classified_brackets rfl
      intro part hpart
      obtain ⟨item, hitem, rfl⟩ := List.mem_map.mp hpart
      exact ⟨item.plain_phrase, ih item hitem⟩
  | negative magnitude => exact classified_leaf _
  | minus inner ih =>
      refine classified_group ?_ (by simp [ih, classified_leaf])
      exact of?_binary (fun _ h => by cases h) inner.plain_phrase .sub
  | number value => exact classified_leaf _
  | operand inner ih => exact ih
  | single level inner ih => exact ih
  | joined level operator hlevel left right ihl ihr =>
      refine classified_group ?_ (by simp [ihl, ihr])
      exact of?_binary left.plain_phrase right.plain_phrase operator
  | plain inner ih => exact ih
  | call argument callee ih =>
      refine classified_group ?_ (by simp [ih])
      exact of?_call argument.plain_phrase callee

namespace Clause

theorem classified_block {body : List Statement}
    (h : ∀ statement ∈ body, statement.tree.Classified) :
    (blockTree (body.map tree)).Classified := by
  apply classified_braces rfl rfl
  intro part hpart
  obtain ⟨statement, hmem, rfl⟩ := List.mem_map.mp hpart
  exact ⟨statement.plain_phrase, h statement hmem⟩

/-- Every group of a clause forms the construct of its production. In each case
the key words that the production writes decide before the tests that other
key words would pass. -/
theorem classified {part : Part} (clause : Clause part) : clause.tree.Classified := by
  induction clause with
  | function name params body ih =>
      refine classified_group ?_ (by simp [classified_names, classified_block ih])
      simp [of?, has, Production.construct?]
  | declaration kind name value =>
      refine classified_group ?_ (by simp [value.classified])
      cases kind <;> simp [of?, has, Production.construct?, Declaration.keyword]
  | classDeclaration name parent body ih =>
      cases parent with
      | none =>
          refine classified_group ?_ (by simp [parentTrees, classified_block ih])
          simp [of?, has, parentTrees, Production.construct?]
      | some parent =>
          refine classified_group ?_ (by simp [parentTrees, classified_block ih])
          simp [of?, has, parentTrees, Production.construct?]
  | enumDeclaration name items =>
      have hitems : (Tree.group .names
          (.symbol .leftBrace :: items.map enumItemTree ++ [.symbol .rightBrace])).Classified := by
        apply classified_of_plain rfl
        intro part hpart
        rw [List.cons_append, List.mem_cons, List.mem_append, List.mem_singleton] at hpart
        rcases hpart with rfl | hpart | rfl
        · exact .inr ⟨.leftBrace, rfl, by decide⟩
        · obtain ⟨item, _, rfl⟩ := List.mem_map.mp hpart
          cases item with
          | none => exact .inr ⟨.comma, rfl, by decide⟩
          | some value => exact .inl ⟨Phrase.plain_name value, classified_word _⟩
        · exact .inr ⟨.rightBrace, rfl, by decide⟩
      refine classified_group ?_ (by simpa using hitems)
      simp [of?, has, Production.construct?]
  | staticMethod path body ih =>
      refine classified_group ?_ (by simp [classified_block ih])
      simp [of?, has, Production.construct?]
  | attempt body caught handler ihb ihh =>
      refine classified_group ?_
        (by simp [classified_names, classified_block ihb, classified_block ihh])
      simp [of?, has, Production.construct?]
  | importText moduleName =>
      refine classified_group ?_ (by simp [classified_leaf])
      simp [of?, has, Production.construct?]
  | importName moduleName =>
      refine classified_group ?_ (by simp)
      simp [of?, has, Production.construct?]
  | exporting name value =>
      refine classified_group ?_ (by simp [value.classified])
      simp [of?, has, Production.construct?]
  | typeInspection value typeName =>
      refine classified_group ?_ (by simp [value.classified])
      simp [of?, has, isCall, Production.construct?]
  | sentence inner ih => exact ih
  | bare value => exact value.classified
  | giveBack value =>
      refine classified_group ?_ (by simp [value.classified])
      simp [of?, has, isCall, Production.construct?]
  | throwUp value =>
      refine classified_group ?_ (by simp [value.classified])
      simp [of?, has, isCall, Production.construct?]
  | distinction subject cases ih =>
      have hcases : (Tree.braces .caseBlock .cases (cases.map tree)).Classified := by
        apply classified_braces rfl rfl
        intro part hpart
        obtain ⟨case, hmem, rfl⟩ := List.mem_map.mp hpart
        exact ⟨case.plain_phrase, ih case hmem⟩
      refine classified_group ?_ (by simp [subject.classified, hcases])
      simp [of?, has, Production.construct?]
  | loop condition body ih =>
      refine classified_group ?_ (by simp [condition.classified, classified_block ih])
      simp [of?, has, Production.construct?]
  | alternative condition consequent ih =>
      refine classified_group ?_ (by simp [condition.classified, classified_block ih])
      simp [of?, has, Production.construct?]
  | alternativeBlock condition consequent alternate ihc iha =>
      refine classified_group ?_
        (by simp [condition.classified, classified_block ihc, classified_block iha])
      simp [of?, has, Production.construct?]
  | alternativeSentence condition consequent alternate ihc iha =>
      refine classified_group ?_
        (by simp [condition.classified, classified_block ihc, iha])
      simp [of?, has, Production.construct?]
  | patternCase pattern guard body ih =>
      have hguard : ∀ part ∈ guardTrees guard, part.Classified := by
        cases guard with
        | none => simp [guardTrees]
        | some guard => simp [guardTrees, guard.classified]
      cases pattern with
      | none =>
          refine classified_group ?_ (by
            simpa [patternTrees, or_imp, forall_and, classified_block ih] using hguard)
          cases guard <;>
            simp [of?, has, isCall, isBinary, patternTrees, guardTrees, caseProduction,
              Production.construct?]
      | some pattern =>
          refine classified_group ?_ (by
            simpa [patternTrees, or_imp, forall_and, pattern.classified, classified_block ih]
              using hguard)
          cases guard <;>
            simp [of?, has, patternTrees, guardTrees, caseProduction, Production.construct?]

end Clause

theorem Program.classified (program : Program) : program.tree.Classified := by
  apply classified_of_plain rfl
  intro part hpart
  obtain ⟨statement, _, rfl⟩ := List.mem_map.mp hpart
  exact .inl ⟨statement.plain_phrase, statement.classified⟩

end Concrete

end Wabun
