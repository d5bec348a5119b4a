import Mathlib.Data.List.Forall2
import Wabun.Proofs.Leaves
import Wabun.Proofs.Paths

/-!
No content is lost, doubled or moved between the tokens of a text and its program. The
content is what is not fixed by the language: names, literals and operators. It can be
read off the leaves of a phrase, by leaving out key words and punctuation, and off a
program, by going through each node in the order in which it is written. Both give the
same, because it holds of the meaning of every production of the grammar.
-/

namespace Wabun

open Token (Kind)

/-- What a source text says of its own. A module is named by a word or a text. -/
inductive Item where
  | name (text : String)
  | moduleName (text : String)
  | number (value : Float)
  | text (value : String)
  | truth (value : Bool)
  | operator (operator : Operator)

def Literal.item : Literal → Item
  | number value => .number value
  | text value => .text value
  | truth value => .truth value

mutual

/-- The items of a node in the order in which they are written. -/
@[simp]
def Node.items : Node → List Item
  | .program statements => Node.itemsOfAll statements
  | .function name params body => .name name :: params.map .name ++ Node.itemsOfAll body
  | .variableDeclaration _ name value => .name name :: value.items
  | .classDeclaration name parent body =>
    .name name :: parent.toList.map .name ++ Node.itemsOfAll body
  | .enumDeclaration name values => .name name :: values.map .name
  | .create className => [.name className]
  | .staticMethod className name body =>
    .name (className ++ "." ++ name) :: Node.itemsOfAll body
  | .alternative condition consequent alternate =>
    condition.items ++ Node.itemsOfAll consequent ++ Node.itemsOfBody? alternate
  | .distinguish subject cases => subject.items ++ PatternCase.itemsOfAll cases
  | .loop condition body => condition.items ++ Node.itemsOfAll body
  | .attempt body caught handler =>
    Node.itemsOfAll body ++ .name caught :: Node.itemsOfAll handler
  | .importing moduleName => [.moduleName moduleName]
  | .exporting name value => .name name :: value.items
  | .call callee args => Node.itemsOfAll args ++ [.name callee]
  | .giveBack value => value.items
  | .throwUp value => value.items
  | .inspectType value typeName => value.items ++ [.name typeName]
  | .binary operator left right => left.items ++ .operator operator :: right.items
  | .identifier name => [.name name]
  | .literal value => [value.item]

@[simp]
def Node.itemsOfAll : List Node → List Item
  | [] => []
  | node :: rest => node.items ++ Node.itemsOfAll rest

@[simp]
def Node.itemsOfBody? : Option (List Node) → List Item
  | none => []
  | some body => Node.itemsOfAll body

@[simp]
def Node.items? : Option Node → List Item
  | none => []
  | some node => node.items

@[simp]
def PatternCase.items : PatternCase → List Item
  | .mk pattern guard body => Node.items? pattern ++ Node.items? guard ++ Node.itemsOfAll body

@[simp]
def PatternCase.itemsOfAll : List PatternCase → List Item
  | [] => []
  | case :: rest => case.items ++ PatternCase.itemsOfAll rest

end

theorem Node.itemsOfAll_eq_flatMap (nodes : List Node) :
    itemsOfAll nodes = nodes.flatMap items := by
  induction nodes with
  | nil => rw [itemsOfAll, List.flatMap_nil]
  | cons node rest ih => rw [itemsOfAll, ih, List.flatMap_cons]

theorem Node.itemsOfAll_flatten (runs : List (List Node)) :
    itemsOfAll runs.flatten = (runs.map itemsOfAll).flatten := by
  induction runs with
  | nil => rw [List.flatten_nil, itemsOfAll, List.map_nil, List.flatten_nil]
  | cons run rest ih =>
      have happend : itemsOfAll (run ++ rest.flatten) =
          itemsOfAll run ++ itemsOfAll rest.flatten := by
        simp only [itemsOfAll_eq_flatMap, List.flatMap_append]
      rw [List.flatten_cons, happend, ih, List.map_cons, List.flatten_cons]

theorem PatternCase.itemsOfAll_eq_flatMap (cases : List PatternCase) :
    itemsOfAll cases = cases.flatMap items := by
  induction cases with
  | nil => rw [itemsOfAll, List.flatMap_nil]
  | cons case rest ih => rw [itemsOfAll, ih, List.flatMap_cons]

namespace Atom

def isImport : Atom → Bool
  | word w => w == Keyword.importing.text
  | _ => false

/-- The items of a leaf. Key words and punctuation have none, and behind `取込` stands
the name of a module. -/
def items (importing : Bool) : Atom → List Item
  | word w =>
    if Word.isName w then [if importing then .moduleName w else .name w]
    else ((Operator.ofSymbol? w).map .operator).toList
  | text s => [if importing then .moduleName s else .text s]
  | number x => [.number x]
  | truth b => [.truth b]

/-- The items of some leaves, where the leaf before them is `取込` or not. -/
def itemsOfAll (importing : Bool) : List Atom → List Item
  | [] => []
  | atom :: rest => atom.items importing ++ itemsOfAll atom.isImport rest

/-- These are the items of the leaves, whatever leaves follow. -/
def Spell (leaves : List Atom) (items : List Item) : Prop :=
  ∀ rest, itemsOfAll false (leaves ++ rest) = items ++ itemsOfAll false rest

namespace Spell

variable {leaves later : List Atom} {items more : List Item}

theorem nil : Spell [] [] := fun _ => rfl

theorem append (h : Spell leaves items) (h' : Spell later more) :
    Spell (leaves ++ later) (items ++ more) := by
  intro rest
  rw [List.append_assoc, h, h', List.append_assoc]

theorem of_single {atom : Atom} (h : atom.isImport = false) : Spell [atom] (atom.items false) := by
  intro rest
  rw [List.singleton_append, itemsOfAll, h]

theorem number (x : Float) : Spell [.number x] [.number x] := of_single rfl

theorem text (s : String) : Spell [.text s] [.text s] := of_single rfl

theorem truth (b : Bool) : Spell [.truth b] [.truth b] := of_single rfl

theorem isImport_name (n : Name) : (word n.text).isImport = false := by
  have hne := Word.ne_of_isName n.isName (Word.isName_keyword .importing)
  simp [isImport, hne]

theorem name (n : Name) : Spell [.word n.text] [.name n.text] := by
  have hname := of_single (isImport_name n)
  rwa [Atom.items, if_pos n.isName] at hname

theorem keyword {k : Keyword} (h : k ≠ .importing) : Spell [.word k.text] [] := by
  have himport : (word k.text).isImport = false := by simp [isImport, h]
  have hoperator : Operator.ofSymbol? k.text = none := by cases k <;> decide
  have hkeyword := of_single himport
  simpa [Atom.items, hoperator] using hkeyword

theorem isImport_symbol (sym : Symbol) : (word sym.text).isImport = false := by
  simp [isImport, Symbol.text_ne_keyword]

theorem symbol {sym : Symbol} (h : sym.IsPunctuation) : Spell [.word sym.text] [] := by
  have hoperator : Operator.ofSymbol? sym.text = none := by
    cases sym with
    | operator op => cases h
    | _ => decide
  have hsymbol := of_single (isImport_symbol sym)
  simpa [Atom.items, hoperator] using hsymbol

theorem operator (op : Operator) : Spell [.word op.symbol] [.operator op] := by
  have hsymbol := of_single (isImport_symbol (.operator op))
  have hname : Word.isName op.symbol = false := Word.isName_symbol (.operator op)
  simpa [Symbol.text, Atom.items, hname] using hsymbol

/-- A module is named by the leaf behind `取込`. -/
theorem importing {atom : Atom} (h : atom.isImport = false) :
    Spell [.word Keyword.importing.text, atom] (atom.items true) := by
  intro rest
  have hsilent : (word Keyword.importing.text).items false = [] := by
    have hoperator : Operator.ofSymbol? Keyword.importing.text = none := by decide
    simp [Atom.items, hoperator]
  have himport : (word Keyword.importing.text).isImport = true := by simp [isImport]
  simp only [List.cons_append, List.nil_append, itemsOfAll, hsilent, himport, h]

end Spell

end Atom

namespace Phrase

open Atom (Spell)

/-- The items of some phrases, each with its own. -/
abbrev SpellAll (phrases : List Phrase) (items : List (List Item)) : Prop :=
  List.Forall₂ (fun phrase items => Spell phrase.leaves items) phrases items

namespace SpellAll

theorem of_forall₂ {α β : Type} {holds : α → β → Prop} {phrase : α → Phrase}
    {items : β → List Item} {parts : List α} {results : List β}
    (h : List.Forall₂ holds parts results)
    (hspell : ∀ part ∈ parts, ∀ result, holds part result →
      Spell (phrase part).leaves (items result)) :
    SpellAll (parts.map phrase) (results.map items) := by
  induction h with
  | nil => exact .nil
  | cons hfirst _ ih =>
      refine .cons (hspell _ List.mem_cons_self _ hfirst) (ih ?_)
      exact fun part hmem => hspell part (List.mem_cons_of_mem _ hmem)

variable {phrases : List Phrase} {items : List (List Item)}

theorem flatMap (h : SpellAll phrases items) : Spell (phrases.flatMap leaves) items.flatten := by
  induction h with
  | nil => exact .nil
  | cons hfirst _ ih => exact hfirst.append ih

/-- Commas between the phrases make no difference. -/
theorem intersperse (h : SpellAll phrases items) :
    Spell ((phrases.intersperse (.word Symbol.comma.text)).flatMap leaves) items.flatten := by
  have hcomma : Spell (word Symbol.comma.text).leaves [] := by
    rw [leaves_word]
    exact .symbol trivial
  induction h with
  | nil => exact .nil
  | cons hfirst hrest ih =>
      cases hrest with
      | nil => simpa using hfirst
      | cons hsecond hlater =>
          rw [List.intersperse_cons_cons, List.flatMap_cons, List.flatMap_cons, List.flatten_cons]
          exact hfirst.append (hcomma.append ih)

theorem brackets (h : SpellAll phrases items) :
    Spell (Phrase.brackets phrases).leaves items.flatten := by
  have hopening : Spell [.word Symbol.leftParen.text] [] := .symbol trivial
  have hclosing : Spell [.word Symbol.rightParen.text] [] := .symbol trivial
  have hbrackets := (hopening.append h.intersperse).append hclosing
  simpa [Phrase.brackets] using hbrackets

theorem braces (h : SpellAll phrases items) :
    Spell (Phrase.braces phrases).leaves items.flatten := by
  have hopening : Spell [.word Symbol.leftBrace.text] [] := .symbol trivial
  have hclosing : Spell [.word Symbol.rightBrace.text] [] := .symbol trivial
  have hbraces := (hopening.append h.flatMap).append hclosing
  simpa [Phrase.braces] using hbraces

end SpellAll

end Phrase

namespace Meaning

variable {α β : Type}

theorem exists_of_bind {part : Meaning α} {next : α → Meaning β} {result : β}
    (h : (part >>= next) = .ok result) : ∃ value, part = .ok value ∧ next value = .ok result := by
  cases part with
  | error fault => cases h
  | ok value => exact ⟨value, rfl, h⟩

theorem forall₂_of_mapM {action : α → Meaning β} {items : List α} {results : List β}
    (h : items.mapM action = .ok results) :
    List.Forall₂ (fun item result => action item = .ok result) items results := by
  induction items generalizing results with
  | nil =>
      cases h
      exact .nil
  | cons item rest ih =>
      rw [List.mapM_cons] at h
      obtain ⟨first, hfirst, h⟩ := exists_of_bind h
      obtain ⟨others, hothers, h⟩ := exists_of_bind h
      cases h
      exact .cons hfirst (ih hothers)

theorem forall₂_of_gather {nodes : α → Meaning (List Node)} {parts : List α}
    {results : List Node} (h : gather nodes parts = .ok results) :
    ∃ runs, List.Forall₂ (fun part run => nodes part = .ok run) parts runs ∧
      results = runs.flatten := by
  induction parts generalizing results with
  | nil =>
      cases h
      exact ⟨[], .nil, rfl⟩
  | cons part rest ih =>
      obtain ⟨first, hfirst, h⟩ := exists_of_bind h
      obtain ⟨others, hothers, h⟩ := exists_of_bind h
      cases h
      obtain ⟨runs, hruns, rfl⟩ := ih hothers
      exact ⟨first :: runs, .cons hfirst hruns, rfl⟩

end Meaning

namespace Concrete

open Atom (Spell)
open Phrase (SpellAll)

/-- In each of the places where an expression can stand, its nodes have the items that
the leaves spell. -/
structure Readings.SpelledBy (readings : Readings) (leaves : List Atom) : Prop where
  node : ∀ node, readings.node = .ok node → Spell leaves node.items
  arguments : ∀ nodes, readings.arguments = .ok nodes → Spell leaves (Node.itemsOfAll nodes)
  statements : ∀ nodes, readings.statements = .ok nodes → Spell leaves (Node.itemsOfAll nodes)

namespace Readings.SpelledBy

theorem single {meaning : Meaning Node} {leaves : List Atom}
    (h : ∀ node, meaning = .ok node → Spell leaves node.items) :
    (Readings.single meaning).SpelledBy leaves := by
  have hlist : ∀ nodes, (do return [← meaning] : Meaning (List Node)) = .ok nodes →
      Spell leaves (Node.itemsOfAll nodes) := by
    intro nodes hnodes
    obtain ⟨node, hnode, hnodes⟩ := Meaning.exists_of_bind hnodes
    cases hnodes
    simpa using h node hnode
  exact ⟨h, hlist, hlist⟩

theorem literal {value : Literal} {leaves : List Atom} (h : Spell leaves [value.item]) :
    (Readings.single (.ok (.literal value))).SpelledBy leaves := by
  apply single
  rintro _ ⟨⟩
  rw [Node.items]
  exact h

end Readings.SpelledBy

/-- The statements of some parts, one after another. -/
theorem spellAll_of_gather {α : Type} {nodes : α → Meaning (List Node)} {phrase : α → Phrase}
    {parts : List α} {results : List Node}
    (hparts : ∀ part ∈ parts, ∀ run, nodes part = .ok run →
      Spell (phrase part).leaves (Node.itemsOfAll run))
    (h : Meaning.gather nodes parts = .ok results) :
    ∃ items, SpellAll (parts.map phrase) items ∧ Node.itemsOfAll results = items.flatten := by
  obtain ⟨runs, hruns, rfl⟩ := Meaning.forall₂_of_gather h
  exact ⟨runs.map Node.itemsOfAll, .of_forall₂ hruns hparts, Node.itemsOfAll_flatten runs⟩

namespace Expression

theorem spelledBy_brackets {items : List (Expression .chain)}
    (h : ∀ item ∈ items, item.readings.SpelledBy item.phrase.leaves) :
    (Readings.brackets (items.map readings)).SpelledBy
      (Phrase.brackets (items.map phrase)).leaves where
  node node hnode := by
    -- Where one value is needed, the brackets hold one.
    cases items with
    | nil => cases hnode
    | cons item rest =>
        cases rest with
        | cons _ _ => cases hnode
        | nil =>
            have hitem := (h item List.mem_cons_self).node node hnode
            have hspell : SpellAll [item.phrase] [node.items] := .cons hitem .nil
            simpa using hspell.brackets
  arguments nodes hnodes := by
    have hall := List.forall₂_map_left_iff.mp (Meaning.forall₂_of_mapM hnodes)
    have hspell : SpellAll (items.map phrase) (nodes.map Node.items) :=
      .of_forall₂ hall fun item hmem => (h item hmem).node
    rw [Node.itemsOfAll_eq_flatMap, List.flatMap_def]
    exact hspell.brackets
  statements nodes hnodes := by
    have hgather : Meaning.gather (fun item : Expression .chain => item.readings.statements) items =
        .ok nodes := by
      rw [← hnodes]
      exact (Meaning.gather_map fun _ _ => rfl).symm
    obtain ⟨spelled, hspell, hitems⟩ :=
      spellAll_of_gather (fun item hmem => (h item hmem).statements) hgather
    rw [hitems]
    exact hspell.brackets

/-- An expression has the items that its leaves spell. -/
theorem spelledBy {rank : Rank} (e : Expression rank) : e.readings.SpelledBy e.phrase.leaves := by
  induction e with
  | text value => exact .literal (.text value)
  | truth value => exact .literal (.truth value)
  | number value => exact .literal (.number value)
  | negative magnitude => exact .literal (.number (-magnitude))
  | named name =>
      apply Readings.SpelledBy.single
      rintro _ ⟨⟩
      rw [Node.items]
      exact .name name
  | creation className =>
      apply Readings.SpelledBy.single
      rintro _ ⟨⟩
      have hmarker : Spell [.word Keyword.create.text] [] := .keyword (by decide)
      simpa [phrase_creation] using hmarker.append (.name className)
  | bracketed items ih =>
      rw [phrase_bracketed, readings, readingsOfAll_eq_map]
      exact spelledBy_brackets ih
  | operand inner ih => exact ih
  | single level inner ih => exact ih
  | plain inner ih => exact ih
  | minus inner ih =>
      apply Readings.SpelledBy.single
      intro node hnode
      obtain ⟨operand, hoperand, hnode⟩ := Meaning.exists_of_bind hnode
      cases hnode
      have hminus := ((Spell.number 0).append (.operator .sub)).append (ih.node operand hoperand)
      simpa [Literal.item, phrase_minus] using hminus
  | joined level operator hlevel left right hleft hright =>
      apply Readings.SpelledBy.single
      intro node hnode
      obtain ⟨first, hfirst, hnode⟩ := Meaning.exists_of_bind hnode
      obtain ⟨second, hsecond, hnode⟩ := Meaning.exists_of_bind hnode
      cases hnode
      have hjoined := ((hleft.node first hfirst).append (.operator operator)).append
        (hright.node second hsecond)
      simpa [phrase_joined] using hjoined
  | call argument callee ih =>
      apply Readings.SpelledBy.single
      intro node hnode
      obtain ⟨args, hargs, hnode⟩ := Meaning.exists_of_bind hnode
      cases hnode
      have hobject : Spell [.word Keyword.object.text] [] := .keyword (by decide)
      have hcall := ((ih.arguments args hargs).append hobject).append (.name callee)
      simpa [phrase_call] using hcall

end Expression

/-- The items of what a clause contributes. -/
@[simp]
def Part.items : {part : Part} → part.Result → List Item
  | .statement, nodes => Node.itemsOfAll nodes
  | .sentence, nodes => Node.itemsOfAll nodes
  | .patternCase, case => case.items

theorem spell_names (names : List Name) :
    Spell (Phrase.brackets (names.map fun name => .word name.text)).leaves
      (names.map fun name => .name name.text) := by
  have hspell : SpellAll (names.map fun name => .word name.text)
      (names.map fun name => [.name name.text]) := by
    apply List.forall₂_map_left_iff.mpr
    apply List.forall₂_map_right_iff.mpr
    apply List.forall₂_same.mpr
    intro name _
    rw [Phrase.leaves_word]
    exact .name name
  have hnames := hspell.brackets
  rwa [← List.flatMap_def, ← List.map_eq_flatMap] at hnames

theorem spell_enumItems (items : List (Option Name)) :
    Spell ((items.map fun item => (enumItemTree item).phrase).flatMap Phrase.leaves)
      ((items.filterMap id).map fun name => .name name.text) := by
  induction items with
  | nil => exact .nil
  | cons item rest ih =>
      cases item with
      | none =>
          have hcomma : Spell [.word Symbol.comma.text] [] := .symbol trivial
          simpa [enumItemTree] using hcomma.append ih
      | some value => simpa [enumItemTree] using (Spell.name value).append ih

namespace Clause

/-- What a clause contributes has the items that its leaves spell. -/
def Spelled {part : Part} (clause : Clause part) : Prop :=
  ∀ result, clause.meaning = .ok result → Spell clause.phrase.leaves (Part.items result)

theorem spell_block {body : List Statement} (h : ∀ statement ∈ body, statement.Spelled)
    {nodes : List Node} (hbody : bodyMeaning body = .ok nodes) :
    Spell (Phrase.braces (body.map phrase)).leaves (Node.itemsOfAll nodes) := by
  rw [bodyMeaning_eq_gather] at hbody
  obtain ⟨items, hspell, hitems⟩ := spellAll_of_gather h hbody
  rw [hitems]
  exact hspell.braces

theorem spell_cases {cases : List (Clause .patternCase)} (h : ∀ case ∈ cases, case.Spelled)
    {results : List PatternCase} (hcases : casesMeaning cases = .ok results) :
    Spell (Phrase.braces (cases.map phrase)).leaves (PatternCase.itemsOfAll results) := by
  rw [casesMeaning_eq_mapM] at hcases
  have hspell : SpellAll (cases.map phrase) (results.map PatternCase.items) :=
    .of_forall₂ (Meaning.forall₂_of_mapM hcases) h
  rw [PatternCase.itemsOfAll_eq_flatMap, List.flatMap_def]
  exact hspell.braces

theorem spelled_function (name : Name) (params : List Name) {body : List Statement}
    (h : ∀ statement ∈ body, statement.Spelled) : (function name params body).Spelled := by
  intro result hresult
  obtain ⟨nodes, hnodes, hresult⟩ := Meaning.exists_of_bind hresult
  cases hresult
  have hmarker : Spell [.word Keyword.function.text] [] := .keyword (by decide)
  have hhead := (hmarker.append (.name name)).append (spell_names params)
  have hfunction := hhead.append (spell_block h hnodes)
  simpa [phrase_function, Function.comp_def] using hfunction

/-- A marker, a name, `は` and a value. -/
theorem spell_binding {marker : Keyword} (hmarker : marker ≠ .importing) (name : Name)
    {value : Expression .chain} {node : Node} (hvalue : value.node = .ok node) :
    Spell (Phrase.group [.keyword marker, .word name.text, .keyword .topic, value.phrase]).leaves
      (.name name.text :: node.items) := by
  have htopic : Spell [.word Keyword.topic.text] [] := .keyword (by decide)
  have hhead := ((Spell.keyword hmarker).append (.name name)).append htopic
  simpa using hhead.append (value.spelledBy.node node hvalue)

theorem spelled_declaration (kind : Declaration) (name : Name) (value : Expression .chain) :
    (declaration kind name value).Spelled := by
  intro result hresult
  obtain ⟨node, hnode, hresult⟩ := Meaning.exists_of_bind hresult
  cases hresult
  have hmarker : kind.keyword ≠ .importing := by cases kind <;> decide
  have hbinding := spell_binding hmarker name hnode
  simpa [phrase_declaration] using hbinding

theorem spelled_exporting (name : Name) (value : Expression .chain) :
    (exporting name value).Spelled := by
  intro result hresult
  obtain ⟨node, hnode, hresult⟩ := Meaning.exists_of_bind hresult
  cases hresult
  have hmarker : Keyword.exporting ≠ .importing := by decide
  have hbinding := spell_binding hmarker name hnode
  simpa [phrase_exporting] using hbinding

theorem spelled_classDeclaration (name : Name) (parent : Option Name) {body : List Statement}
    (h : ∀ statement ∈ body, statement.Spelled) :
    (classDeclaration name parent body).Spelled := by
  intro result hresult
  obtain ⟨nodes, hnodes, hresult⟩ := Meaning.exists_of_bind hresult
  cases hresult
  have hmarker : Spell [.word Keyword.classOf.text] [] := .keyword (by decide)
  have hparent : Spell (((parentTrees parent).map Tree.phrase).flatMap Phrase.leaves)
      (parent.toList.map fun parent => .name parent.text) := by
    cases parent with
    | none => exact .nil
    | some parent =>
        have hinherits : Spell [.word Keyword.inherits.text] [] := .keyword (by decide)
        simpa [parentTrees] using hinherits.append (.name parent)
  have hhead := (hmarker.append (.name name)).append hparent
  have hclass := hhead.append (spell_block h hnodes)
  have hnames : (parent.map Name.text).toList.map Item.name =
      parent.toList.map fun parent => .name parent.text := by cases parent <;> rfl
  simpa [phrase_classDeclaration, hnames] using hclass

theorem spelled_enumDeclaration (name : Name) (items : List (Option Name)) :
    (enumDeclaration name items).Spelled := by
  rintro _ ⟨⟩
  have hmarker : Spell [.word Keyword.enumerate.text] [] := .keyword (by decide)
  have hopening : Spell [.word Symbol.leftBrace.text] [] := .symbol trivial
  have hclosing : Spell [.word Symbol.rightBrace.text] [] := .symbol trivial
  have hitems := (hopening.append (spell_enumItems items)).append hclosing
  have henum := (hmarker.append (.name name)).append hitems
  simpa [phrase_enumDeclaration, Function.comp_def] using henum

theorem spelled_staticMethod (path : Name) {body : List Statement}
    (h : ∀ statement ∈ body, statement.Spelled) : (staticMethod path body).Spelled := by
  intro result hresult
  rw [meaning] at hresult
  cases hpath : Path.splitLast? path.text with
  | none =>
      rw [hpath] at hresult
      cases hresult
  | some parts =>
      rw [hpath] at hresult
      obtain ⟨nodes, hnodes, hresult⟩ := Meaning.exists_of_bind hresult
      cases hresult
      have hmarker : Spell [.word Keyword.static.text] [] := .keyword (by decide)
      have hstatic := (hmarker.append (.name path)).append (spell_block h hnodes)
      simpa [phrase_staticMethod,
        Path.append_of_splitLast? hpath] using hstatic

theorem spelled_attempt {body handler : List Statement} (caught : List Name)
    (hbody : ∀ statement ∈ body, statement.Spelled)
    (hhandler : ∀ statement ∈ handler, statement.Spelled) :
    (attempt body caught handler).Spelled := by
  intro result hresult
  -- One name is caught; brackets with another number of names have no meaning.
  cases caught with
  | nil => cases hresult
  | cons name rest =>
      cases rest with
      | cons _ _ => cases hresult
      | nil =>
          obtain ⟨nodes, hnodes, hresult⟩ := Meaning.exists_of_bind hresult
          obtain ⟨others, hothers, hresult⟩ := Meaning.exists_of_bind hresult
          cases hresult
          have hmarker : Spell [.word Keyword.attempt.text] [] := .keyword (by decide)
          have hrescue : Spell [.word Keyword.rescue.text] [] := .keyword (by decide)
          have hhead := (hmarker.append (spell_block hbody hnodes)).append hrescue
          have hattempt := (hhead.append (spell_names [name])).append (spell_block hhandler hothers)
          simpa [phrase_attempt] using hattempt

theorem spelled_importText (moduleName : String) : (importText moduleName).Spelled := by
  rintro _ ⟨⟩
  have himport : Spell [.word Keyword.importing.text, .text moduleName] [.moduleName moduleName] :=
    .importing rfl
  simpa [phrase_importText] using himport

theorem spelled_importName (moduleName : Name) : (importName moduleName).Spelled := by
  rintro _ ⟨⟩
  have hname : (Atom.word moduleName.text).isImport = false := Spell.isImport_name moduleName
  have himport := Spell.importing hname
  simpa [phrase_importName, Atom.items,
    moduleName.isName] using himport

theorem spelled_typeInspection (value : Expression .chain) (typeName : Name) :
    (typeInspection value typeName).Spelled := by
  intro result hresult
  obtain ⟨node, hnode, hresult⟩ := Meaning.exists_of_bind hresult
  cases hresult
  have hmarker : Spell [.word Keyword.inspectType.text] [] := .keyword (by decide)
  have htopic : Spell [.word Keyword.topic.text] [] := .keyword (by decide)
  have hvalue := hmarker.append (value.spelledBy.node node hnode)
  have hinspection := (hvalue.append htopic).append (.name typeName)
  simpa [phrase_typeInspection] using hinspection

/-- A value that is passed on through `を`, and what the key word behind it needs. -/
theorem spell_passedOn {value : Expression .chain} {node : Node} (hvalue : value.node = .ok node)
    {marker : Keyword} (hmarker : marker ≠ .importing) :
    Spell (value.phrase.leaves ++ [.word Keyword.object.text, .word marker.text]) node.items := by
  have hobject : Spell [.word Keyword.object.text] [] := .keyword (by decide)
  have hpassed := (value.spelledBy.node node hvalue).append (hobject.append (.keyword hmarker))
  simpa using hpassed

theorem spelled_giveBack (value : Expression .chain) : (giveBack value).Spelled := by
  intro result hresult
  obtain ⟨node, hnode, hresult⟩ := Meaning.exists_of_bind hresult
  cases hresult
  have hmarker : Keyword.giveBack ≠ .importing := by decide
  have hpassed := spell_passedOn hnode hmarker
  simpa [phrase_giveBack] using hpassed

theorem spelled_throwUp (value : Expression .chain) : (throwUp value).Spelled := by
  intro result hresult
  obtain ⟨node, hnode, hresult⟩ := Meaning.exists_of_bind hresult
  cases hresult
  have hmarker : Keyword.throwUp ≠ .importing := by decide
  have hpassed := spell_passedOn hnode hmarker
  simpa [phrase_throwUp] using hpassed

theorem spelled_distinction (subject : Expression .chain) {cases : List (Clause .patternCase)}
    (h : ∀ case ∈ cases, case.Spelled) : (distinction subject cases).Spelled := by
  intro result hresult
  obtain ⟨results, hresults, hresult⟩ := Meaning.exists_of_bind hresult
  obtain ⟨node, hnode, hresult⟩ := Meaning.exists_of_bind hresult
  cases hresult
  have hmarker : Keyword.distinguish ≠ .importing := by decide
  have hdistinction := (spell_passedOn hnode hmarker).append (spell_cases h hresults)
  simpa [phrase_distinction] using hdistinction

/-- A condition, a key word and a block. -/
theorem spell_conditional {condition : Expression .chain} {node : Node}
    (hcondition : condition.node = .ok node) {marker : Keyword} (hmarker : marker ≠ .importing)
    {body : List Statement} (h : ∀ statement ∈ body, statement.Spelled) {nodes : List Node}
    (hbody : bodyMeaning body = .ok nodes) :
    Spell (condition.phrase.leaves ++ .word marker.text :: (Phrase.braces (body.map phrase)).leaves)
      (node.items ++ Node.itemsOfAll nodes) := by
  have hblock := (Spell.keyword hmarker).append (spell_block h hbody)
  exact (condition.spelledBy.node node hcondition).append hblock

theorem spelled_loop (condition : Expression .chain) {body : List Statement}
    (h : ∀ statement ∈ body, statement.Spelled) : (loop condition body).Spelled := by
  intro result hresult
  obtain ⟨node, hnode, hresult⟩ := Meaning.exists_of_bind hresult
  obtain ⟨nodes, hnodes, hresult⟩ := Meaning.exists_of_bind hresult
  cases hresult
  have hmarker : Keyword.loop ≠ .importing := by decide
  have hloop := spell_conditional hnode hmarker h hnodes
  simpa [phrase_loop] using hloop

theorem spelled_alternative (condition : Expression .chain) {consequent : List Statement}
    (h : ∀ statement ∈ consequent, statement.Spelled) :
    (alternative condition consequent).Spelled := by
  intro result hresult
  obtain ⟨node, hnode, hresult⟩ := Meaning.exists_of_bind hresult
  obtain ⟨nodes, hnodes, hresult⟩ := Meaning.exists_of_bind hresult
  cases hresult
  have hmarker : Keyword.ifThen ≠ .importing := by decide
  have hconditional := spell_conditional hnode hmarker h hnodes
  simpa [phrase_alternative] using hconditional

theorem spelled_alternativeBlock (condition : Expression .chain)
    {consequent alternate : List Statement} (h : ∀ statement ∈ consequent, statement.Spelled)
    (halternate : ∀ statement ∈ alternate, statement.Spelled) :
    (alternativeBlock condition consequent alternate).Spelled := by
  intro result hresult
  obtain ⟨others, hothers, hresult⟩ := Meaning.exists_of_bind hresult
  obtain ⟨node, hnode, hresult⟩ := Meaning.exists_of_bind hresult
  obtain ⟨nodes, hnodes, hresult⟩ := Meaning.exists_of_bind hresult
  cases hresult
  have hmarker : Keyword.ifThen ≠ .importing := by decide
  have hotherwise : Spell [.word Keyword.otherwise.text] [] := .keyword (by decide)
  have hconditional := spell_conditional hnode hmarker h hnodes
  have hboth := hconditional.append (hotherwise.append (spell_block halternate hothers))
  simpa [phrase_alternativeBlock] using hboth

theorem spelled_alternativeSentence (condition : Expression .chain)
    {consequent : List Statement} {alternate : Clause .sentence}
    (h : ∀ statement ∈ consequent, statement.Spelled) (halternate : alternate.Spelled) :
    (alternativeSentence condition consequent alternate).Spelled := by
  intro result hresult
  obtain ⟨others, hothers, hresult⟩ := Meaning.exists_of_bind hresult
  obtain ⟨node, hnode, hresult⟩ := Meaning.exists_of_bind hresult
  obtain ⟨nodes, hnodes, hresult⟩ := Meaning.exists_of_bind hresult
  cases hresult
  have hmarker : Keyword.ifThen ≠ .importing := by decide
  have hotherwise : Spell [.word Keyword.otherwise.text] [] := .keyword (by decide)
  have hconditional := spell_conditional hnode hmarker h hnodes
  have hboth := hconditional.append (hotherwise.append (halternate others hothers))
  simpa [phrase_alternativeSentence] using hboth

theorem spelled_patternCase (pattern guard : Option (Expression .chain)) {body : List Statement}
    (h : ∀ statement ∈ body, statement.Spelled) : (patternCase pattern guard body).Spelled := by
  intro result hresult
  obtain ⟨first, hfirst, hresult⟩ := Meaning.exists_of_bind hresult
  obtain ⟨second, hsecond, hresult⟩ := Meaning.exists_of_bind hresult
  obtain ⟨nodes, hnodes, hresult⟩ := Meaning.exists_of_bind hresult
  cases hresult
  have hpattern : Spell (((patternTrees pattern).map Tree.phrase).flatMap Phrase.leaves)
      (Node.items? first) := by
    cases pattern with
    | none =>
        cases hfirst
        have hotherwise : Spell [.word Keyword.otherwise.text] [] := .keyword (by decide)
        simpa [patternTrees] using hotherwise
    | some pattern =>
        obtain ⟨node, hnode, hfirst⟩ := Meaning.exists_of_bind hfirst
        cases hfirst
        have hmarker : Spell [.word Keyword.caseOf.text] [] := .keyword (by decide)
        have hmarked := (pattern.spelledBy.node node hnode).append hmarker
        simpa [patternTrees, Expression.phrase] using hmarked
  have hguard : Spell (((guardTrees guard).map Tree.phrase).flatMap Phrase.leaves)
      (Node.items? second) := by
    cases guard with
    | none =>
        cases hsecond
        simpa [guardTrees] using Spell.nil
    | some guard =>
        obtain ⟨node, hnode, hsecond⟩ := Meaning.exists_of_bind hsecond
        cases hsecond
        have hmarker : Spell [.word Keyword.provided.text] [] := .keyword (by decide)
        have hmarked := hmarker.append (guard.spelledBy.node node hnode)
        simpa [guardTrees, Expression.phrase] using hmarked
  have hcase := (hpattern.append hguard).append (spell_block h hnodes)
  simpa [phrase_patternCase] using hcase

theorem spelled {part : Part} (clause : Clause part) : clause.Spelled := by
  induction clause with
  | function name params body ih => exact spelled_function name params ih
  | declaration kind name value => exact spelled_declaration kind name value
  | classDeclaration name parent body ih => exact spelled_classDeclaration name parent ih
  | enumDeclaration name items => exact spelled_enumDeclaration name items
  | staticMethod path body ih => exact spelled_staticMethod path ih
  | attempt body caught handler hbody hhandler => exact spelled_attempt caught hbody hhandler
  | importText moduleName => exact spelled_importText moduleName
  | importName moduleName => exact spelled_importName moduleName
  | exporting name value => exact spelled_exporting name value
  | typeInspection value typeName => exact spelled_typeInspection value typeName
  | sentence inner ih => exact ih
  | bare value => exact value.spelledBy.statements
  | giveBack value => exact spelled_giveBack value
  | throwUp value => exact spelled_throwUp value
  | distinction subject cases ih => exact spelled_distinction subject ih
  | loop condition body ih => exact spelled_loop condition ih
  | alternative condition consequent ih => exact spelled_alternative condition ih
  | alternativeBlock condition consequent alternate ih ih' =>
      exact spelled_alternativeBlock condition ih ih'
  | alternativeSentence condition consequent alternate ih ih' =>
      exact spelled_alternativeSentence condition ih ih'
  | patternCase pattern guard body ih => exact spelled_patternCase pattern guard ih

end Clause

end Concrete

/-- The items of a text: its names, literals and operators. -/
def Token.items (kinds : List Kind) : List Item :=
  Atom.itemsOfAll false (Token.leaves kinds)

namespace Node

open Concrete

theorem items_ofPhrase {kinds : List Kind} {phrase : Phrase} {node : Node}
    (hderives : Derives kinds phrase) (hnode : ofPhrase phrase = .ok node) :
    node.items = Atom.itemsOfAll false phrase.leaves := by
  obtain ⟨derivation, _, rfl⟩ := hderives
  rw [derivation.ofPhrase_phrase, Program.node] at hnode
  cases hmeaning : Meaning.gather Clause.meaning derivation with
  | error fault =>
      rw [hmeaning] at hnode
      cases hnode
  | ok nodes =>
      rw [hmeaning] at hnode
      cases hnode
      have hstatements : ∀ statement ∈ derivation, ∀ run, Clause.meaning statement = .ok run →
          Atom.Spell (Clause.phrase statement).leaves (itemsOfAll run) :=
        fun statement _ => Clause.spelled statement
      obtain ⟨items, hspell, hitems⟩ := spellAll_of_gather hstatements hmeaning
      have hspelled := hspell.flatMap []
      rw [Node.items, hitems, Program.phrase_eq, Phrase.leaves_group]
      simpa [Atom.itemsOfAll] using hspelled.symm

/-- The phrase of a text has its tokens for leaves, and the program has the items of
the text, each once and in the order of the text. -/
theorem program_keeps_content {stream rest : TokenStream} {phrase : Phrase} {node : Node}
    (hread : Parse.program stream = .ok phrase rest) (hnode : ofPhrase phrase = .ok node) :
    phrase.leaves = Token.leaves stream.kinds ∧ node.items = Token.items stream.kinds := by
  have hleaves := Parse.leaves_of_program hread
  have hitems := items_ofPhrase (Parse.derives_of_program hread) hnode
  refine ⟨hleaves, ?_⟩
  rw [hitems, hleaves, Token.items]

/-- The tokens of `取込 「本」  - 3 - x を f  - ( 2 - y ) を g`. -/
def minusSigns : List Kind :=
  [.keyword .importing, .text "本", .symbol (.operator .sub), .number 3, .symbol (.operator .sub),
    .word "x", .keyword .object, .word "f", .symbol (.operator .sub), .symbol .leftParen,
    .number 2, .symbol (.operator .sub), .word "y", .symbol .rightParen, .keyword .object,
    .word "g"]

theorem program_keeps_content_minusSigns :
    let stream : TokenStream :=
      { tokens := minusSigns.map fun kind => ⟨kind, ⟨1, 1⟩⟩, stop := ⟨1, 2⟩ }
    ∃ phrase rest node, Parse.program stream = .ok phrase rest ∧
      ofPhrase phrase = .ok node ∧
      node.items = [.moduleName "本", .number (-3), .operator .sub, .name "x", .name "f",
        .number 0, .operator .sub, .number 2, .operator .sub, .name "y", .name "g"] := by
  intro stream
  refine ⟨_, _, _, rfl, rfl, ?_⟩
  have hitems : Token.items stream.kinds = [.moduleName "本", .number (-3), .operator .sub,
      .name "x", .name "f", .number 0, .operator .sub, .number 2, .operator .sub, .name "y",
      .name "g"] := rfl
  rw [← hitems]
  exact (program_keeps_content rfl rfl).2

end Node

end Wabun
