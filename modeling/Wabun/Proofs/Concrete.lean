import Wabun.Node
import Wabun.Phrase.Construct
import Wabun.Token

/-!
The grammar as types. An expression is built for a rank, which says how
tightly it holds together, and a clause for the part it plays, so that a value
of these types is a derivation: one constructor for each production. It can be
read in two ways, as the tokens it is written with and as the tree that the
productions build from them. The tree remembers for every group which
production made it; what remains when these labels are dropped is a phrase.

Nothing here refers to the reader of token streams or to the recognition of
constructs by their key words.
-/

namespace Wabun

/-- A word that can name a binding. -/
structure Name where
  text : String
  isName : Word.isName text = true

def Token.Kind.keyword (k : Keyword) : Token.Kind := .word k.text

def Declaration.keyword : Declaration → Keyword
  | here => .declare
  | nearest => .define

/-- The productions of the grammar that make a group. -/
inductive Production where
  | importing
  | exporting
  | function
  | classDeclaration
  | enumDeclaration
  | creation
  | staticMethod
  | attempt
  | distinction
  | patternCase
  | alternative
  | loop
  | declaration
  | call
  | giveBack
  | throwUp
  | typeInspection
  | binary (operator : Operator)
  /-- a minus sign, which subtracts from zero -/
  | minus
  | program
  | statements
  | block
  | names
  | brackets
  | caseBlock
  | cases
  | otherwiseCase

/-- The construct that a production stands for. Groups that only hold other
phrases together stand for none. -/
def Production.construct? : Production → Option Construct
  | importing => some .importing
  | exporting => some .exporting
  | function => some .function
  | classDeclaration => some .classDeclaration
  | enumDeclaration => some .enumDeclaration
  | creation => some .create
  | staticMethod => some .staticMethod
  | attempt => some .attempt
  | distinction => some .distinguish
  | patternCase => some .strayCase
  | alternative => some .alternative
  | loop => some .loop
  | declaration => some .variableDeclaration
  | call => some .call
  | giveBack => some .giveBack
  | throwUp => some .throwUp
  | typeInspection => some .inspectType
  | binary _ | minus => some .binary
  | program | statements | block | names | brackets | caseBlock | cases | otherwiseCase => none

section Separated

variable {α β : Type}

theorem intersperse_cons (separator first : α) (rest : List α) :
    (first :: rest).intersperse separator =
      first :: (rest.map fun item => [separator, item]).flatten := by
  induction rest generalizing first with
  | nil => rfl
  | cons second rest ih =>
      rw [List.intersperse_cons_cons, ih]
      rfl

theorem intercalate_cons (separator : α) (first : List α) (rest : List (List α)) :
    List.intercalate [separator] (first :: rest) =
      first ++ (rest.map (separator :: ·)).flatten := by
  induction rest generalizing first with
  | nil => simp [List.intercalate]
  | cons second rest ih =>
      rw [List.intercalate, List.intersperse_cons_cons, List.flatten_cons, List.flatten_cons,
        ← List.intercalate, ih]
      simp

theorem map_intersperse (f : α → β) (separator : α) (items : List α) :
    (items.intersperse separator).map f = (items.map f).intersperse (f separator) := by
  cases items with
  | nil => rfl
  | cons first rest => simp [intersperse_cons, List.map_flatten, Function.comp_def]

theorem mem_intersperse_of_mem {separator item : α} {items : List α} (h : item ∈ items) :
    item ∈ items.intersperse separator := by
  cases items with
  | nil => exact absurd h List.not_mem_nil
  | cons first rest =>
      rw [intersperse_cons]
      rcases List.mem_cons.mp h with rfl | hrest
      · exact List.mem_cons_self
      · refine List.mem_cons_of_mem first (List.mem_flatten.mpr ⟨[separator, item], ?_, by simp⟩)
        exact List.mem_map_of_mem hrest

theorem mem_of_mem_intersperse {separator item : α} {items : List α}
    (h : item ∈ items.intersperse separator) : item = separator ∨ item ∈ items := by
  cases items with
  | nil => exact absurd h List.not_mem_nil
  | cons first rest =>
      rw [intersperse_cons] at h
      rcases List.mem_cons.mp h with rfl | h
      · exact .inr List.mem_cons_self
      · obtain ⟨row, hrow, hitem⟩ := List.mem_flatten.mp h
        obtain ⟨other, hother, rfl⟩ := List.mem_map.mp hrow
        rcases List.mem_cons.mp hitem with rfl | hitem
        · exact .inl rfl
        · rw [List.mem_singleton.mp hitem]
          exact .inr (List.mem_cons_of_mem first hother)

theorem filter_intersperse {keep : α → Bool} {separator : α} {items : List α}
    (hseparator : keep separator = false) (hitems : ∀ item ∈ items, keep item = true) :
    (items.intersperse separator).filter keep = items := by
  induction items with
  | nil => rfl
  | cons first rest ih =>
      have hfirst := hitems first List.mem_cons_self
      have hrest := ih fun item hmem => hitems item (List.mem_cons_of_mem first hmem)
      cases rest with
      | nil => simp [hfirst]
      | cons second rest =>
          rw [List.intersperse_cons_cons, List.filter_cons_of_pos hfirst,
            List.filter_cons_of_neg (by simp [hseparator]), hrest]

end Separated

namespace Phrase

/-- Phrases in round brackets, with commas between them. -/
def brackets (items : List Phrase) : Phrase :=
  .group (.word Symbol.leftParen.text :: items.intersperse (.word Symbol.comma.text) ++
    [.word Symbol.rightParen.text])

/-- A phrase that contains the group of these parts, at any depth. -/
inductive Contains (parts : List Phrase) : Phrase → Prop where
  | here : Contains parts (.group parts)
  | inside {siblings : List Phrase} {part : Phrase} :
      part ∈ siblings → Contains parts part → Contains parts (.group siblings)

/-- Phrases in braces, as a group of their own. -/
def braces (items : List Phrase) : Phrase :=
  .group [.word Symbol.leftBrace.text, .group items, .word Symbol.rightBrace.text]

end Phrase

/-- A phrase whose groups are labelled with the productions that made them. -/
inductive Tree where
  | leaf (atom : Atom)
  | group (production : Production) (parts : List Tree)

namespace Tree

def word (text : String) : Tree := .leaf (.word text)

def keyword (k : Keyword) : Tree := .word k.text

def symbol (s : Symbol) : Tree := .word s.text

mutual

/-- The phrase that is left when the labels are dropped. -/
def phrase : Tree → Phrase
  | .leaf atom => .leaf atom
  | .group _ parts => .group (phrases parts)

def phrases : List Tree → List Phrase
  | [] => []
  | part :: rest => phrase part :: phrases rest

end

theorem phrases_eq_map (parts : List Tree) : phrases parts = parts.map phrase := by
  induction parts with
  | nil => rfl
  | cons part rest ih => rw [phrases, ih, List.map_cons]

@[simp]
theorem phrase_leaf (atom : Atom) : (leaf atom).phrase = .leaf atom := rfl

@[simp]
theorem phrase_group (production : Production) (parts : List Tree) :
    (group production parts).phrase = .group (parts.map phrase) := by
  rw [phrase, phrases_eq_map]

@[simp]
theorem phrase_word (text : String) : (word text).phrase = .word text := rfl

@[simp]
theorem phrase_keyword (k : Keyword) : (keyword k).phrase = .keyword k := rfl

@[simp]
theorem phrase_symbol (s : Symbol) : (symbol s).phrase = .word s.text := rfl

/-- A labelled group that occurs in a tree, at any depth. -/
inductive Occurs (production : Production) (parts : List Tree) : Tree → Prop where
  | here : Occurs production parts (.group production parts)
  | inside {outer : Production} {siblings : List Tree} {part : Tree} :
      part ∈ siblings → Occurs production parts part →
      Occurs production parts (.group outer siblings)

/-- Every group of the phrase is a labelled group of the tree. -/
theorem occurs_of_contains {tree : Tree} {parts : List Phrase}
    (h : Phrase.Contains parts tree.phrase) :
    ∃ production children, Occurs production children tree ∧ children.map phrase = parts := by
  generalize htree : tree.phrase = whole at h
  induction h generalizing tree with
  | here =>
      cases tree with
      | leaf atom => cases htree
      | group production children =>
          rw [phrase_group] at htree
          exact ⟨production, children, .here, Phrase.group.inj htree⟩
  | inside hmem _ ih =>
      cases tree with
      | leaf atom => cases htree
      | group outer siblings =>
          rw [phrase_group] at htree
          obtain rfl := Phrase.group.inj htree
          obtain ⟨part, hpart, rfl⟩ := List.mem_map.mp hmem
          obtain ⟨production, children, hoccurs, hchildren⟩ := ih rfl
          exact ⟨production, children, .inside hpart hoccurs, hchildren⟩

def brackets (production : Production) (items : List Tree) : Tree :=
  .group production
    (.symbol .leftParen :: items.intersperse (.symbol .comma) ++ [.symbol .rightParen])

def names (names : List Name) : Tree :=
  .brackets .names (names.map fun name => .word name.text)

def braces (outer inner : Production) (items : List Tree) : Tree :=
  .group outer [.symbol .leftBrace, .group inner items, .symbol .rightBrace]

@[simp]
theorem phrase_brackets (production : Production) (items : List Tree) :
    (brackets production items).phrase = .brackets (items.map phrase) := by
  simp [brackets, Phrase.brackets, map_intersperse]

@[simp]
theorem phrase_braces (outer inner : Production) (items : List Tree) :
    (braces outer inner items).phrase = .braces (items.map phrase) := by
  simp [braces, Phrase.braces]

end Tree

namespace Concrete

open Token (Kind)

def bracketKinds (items : List (List Kind)) : List Kind :=
  .symbol .leftParen :: List.intercalate [.symbol .comma] items ++ [.symbol .rightParen]

def nameKinds (names : List Name) : List Kind :=
  bracketKinds (names.map fun name => [.word name.text])

def braceKinds (items : List (List Kind)) : List Kind :=
  .symbol .leftBrace :: items.flatten ++ [.symbol .rightBrace]

/-- How tightly an expression holds together, from a chain of calls down to a
single operand. A minus sign that stands before a number belongs to the
number, so an operand with no number at its head has a rank of its own. -/
inductive Rank where
  | chain
  | level (level : Operator.Level)
  | operand
  | unnumbered

/-- The rank of what the operators of a level stand between. -/
def Rank.below : Operator.Level → Rank
  | .comparison => .level .additive
  | .additive => .level .multiplicative
  | .multiplicative => .operand

inductive Expression : Rank → Type where
  | text (value : String) : Expression .unnumbered
  | truth (value : Bool) : Expression .unnumbered
  | named (name : Name) : Expression .unnumbered
  | creation (className : Name) : Expression .unnumbered
  | bracketed (items : List (Expression .chain)) : Expression .unnumbered
  | negative (magnitude : Float) : Expression .unnumbered
  | minus (inner : Expression .unnumbered) : Expression .unnumbered
  | number (value : Float) : Expression .operand
  | operand (inner : Expression .unnumbered) : Expression .operand
  | single (level : Operator.Level) (inner : Expression (Rank.below level)) :
      Expression (.level level)
  | joined (level : Operator.Level) (operator : Operator) (hlevel : operator.level = level)
      (left : Expression (.level level)) (right : Expression (Rank.below level)) :
      Expression (.level level)
  | plain (inner : Expression (.level .comparison)) : Expression .chain
  | call (argument : Expression .chain) (callee : Name) : Expression .chain

namespace Expression

mutual

/-- The tokens of an expression. -/
def kinds : {rank : Rank} → Expression rank → List Kind
  | _, .text value => [.text value]
  | _, .truth value => [.truth value]
  | _, .named name => [.word name.text]
  | _, .creation className => [.keyword .create, .word className.text]
  | _, .bracketed items => bracketKinds (kindsOfAll items)
  | _, .negative magnitude => [.symbol (.operator .sub), .number magnitude]
  | _, .minus inner => .symbol (.operator .sub) :: inner.kinds
  | _, .number value => [.number value]
  | _, .operand inner => inner.kinds
  | _, .single _ inner => inner.kinds
  | _, .joined _ operator _ left right => left.kinds ++ .symbol (.operator operator) :: right.kinds
  | _, .plain inner => inner.kinds
  | _, .call argument callee => argument.kinds ++ [.keyword .object, .word callee.text]

def kindsOfAll : List (Expression .chain) → List (List Kind)
  | [] => []
  | item :: rest => item.kinds :: kindsOfAll rest

end

mutual

/-- The tree that the productions build. -/
def tree : {rank : Rank} → Expression rank → Tree
  | _, .text value => .leaf (.text value)
  | _, .truth value => .leaf (.truth value)
  | _, .named name => .word name.text
  | _, .creation className => .group .creation [.keyword .create, .word className.text]
  | _, .bracketed items => .brackets .brackets (trees items)
  | _, .negative magnitude => .leaf (.number (-magnitude))
  | _, .minus inner =>
    .group .minus [.leaf (.number 0), .symbol (.operator .sub), inner.tree]
  | _, .number value => .leaf (.number value)
  | _, .operand inner => inner.tree
  | _, .single _ inner => inner.tree
  | _, .joined _ operator _ left right =>
    .group (.binary operator) [left.tree, .symbol (.operator operator), right.tree]
  | _, .plain inner => inner.tree
  | _, .call argument callee =>
    .group .call [argument.tree, .keyword .object, .word callee.text]

def trees : List (Expression .chain) → List Tree
  | [] => []
  | item :: rest => item.tree :: trees rest

end

def phrase {rank : Rank} (e : Expression rank) : Phrase := e.tree.phrase

@[simp]
theorem kindsOfAll_eq_map (items : List (Expression .chain)) :
    kindsOfAll items = items.map kinds := by
  induction items with
  | nil => rfl
  | cons item rest ih => rw [kindsOfAll, ih, List.map_cons]

@[simp]
theorem trees_eq_map (items : List (Expression .chain)) : trees items = items.map tree := by
  induction items with
  | nil => rfl
  | cons item rest ih => rw [trees, ih, List.map_cons]

/-- An operator of a level and what stands behind it. -/
structure Joint (level : Operator.Level) where
  operator : Operator
  hlevel : operator.level = level
  right : Expression (Rank.below level)

/-- A row of operands, grouped to the left. -/
def joinAll {level : Operator.Level} (first : Expression (.level level))
    (joints : List (Joint level)) : Expression (.level level) :=
  joints.foldl (fun left joint => .joined level joint.operator joint.hlevel left joint.right) first

/-- An argument that is passed to one function after another. -/
def callAll (first : Expression .chain) (callees : List Name) : Expression .chain :=
  callees.foldl (fun argument callee => .call argument callee) first

theorem kinds_joinAll {level : Operator.Level} (first : Expression (.level level))
    (joints : List (Joint level)) :
    (joinAll first joints).kinds = first.kinds ++ (joints.map fun joint =>
      .symbol (.operator joint.operator) :: joint.right.kinds).flatten := by
  induction joints generalizing first with
  | nil => simp [joinAll]
  | cons joint rest ih =>
      have hrest := ih (.joined level joint.operator joint.hlevel first joint.right)
      simp only [joinAll, List.foldl_cons] at hrest ⊢
      simp [hrest, kinds]

theorem phrase_joinAll {level : Operator.Level} (first : Expression (.level level))
    (joints : List (Joint level)) :
    (joinAll first joints).phrase =
      (joints.map fun joint => (joint.operator, joint.right.phrase)).foldl
        (fun left (op, right) => .group [left, .word op.symbol, right]) first.phrase := by
  induction joints generalizing first with
  | nil => rfl
  | cons joint rest ih => exact ih (.joined level joint.operator joint.hlevel first joint.right)

theorem kinds_callAll (first : Expression .chain) (callees : List Name) :
    (callAll first callees).kinds = first.kinds ++
      (callees.map fun callee => [.keyword .object, .word callee.text]).flatten := by
  induction callees generalizing first with
  | nil => simp [callAll]
  | cons callee rest ih =>
      have hrest := ih (.call first callee)
      simp only [callAll, List.foldl_cons] at hrest ⊢
      simp [hrest, kinds]

theorem phrase_callAll (first : Expression .chain) (callees : List Name) :
    (callAll first callees).phrase =
      (callees.map fun callee => Phrase.word callee.text).foldl
        (fun argument callee => .group [argument, .keyword .object, callee]) first.phrase := by
  induction callees generalizing first with
  | nil => rfl
  | cons callee rest ih => exact ih (.call first callee)

theorem phrase_bracketed (items : List (Expression .chain)) :
    (Expression.bracketed items).phrase = .brackets (items.map phrase) := by
  rw [phrase, tree, trees_eq_map, Tree.phrase_brackets, List.map_map]
  rfl

theorem phrase_creation (className : Name) :
    (creation className).phrase = .group [.keyword .create, .word className.text] := rfl

theorem phrase_minus (inner : Expression .unnumbered) :
    (minus inner).phrase =
      .group [.number 0, .word Operator.sub.symbol, inner.phrase] := rfl

theorem phrase_joined {level : Operator.Level} {operator : Operator}
    (hlevel : operator.level = level) (left : Expression (.level level))
    (right : Expression (Rank.below level)) :
    (joined level operator hlevel left right).phrase =
      .group [left.phrase, .word operator.symbol, right.phrase] := rfl

theorem phrase_call (argument : Expression .chain) (callee : Name) :
    (call argument callee).phrase =
      .group [argument.phrase, .keyword .object, .word callee.text] := rfl

/-- Induction over expressions of every rank at once. -/
@[elab_as_elim, induction_eliminator]
theorem induction {motive : {rank : Rank} → Expression rank → Prop}
    (text : ∀ value, motive (.text value))
    (truth : ∀ value, motive (.truth value))
    (named : ∀ name, motive (.named name))
    (creation : ∀ className, motive (.creation className))
    (bracketed : ∀ items : List (Expression .chain),
      (∀ item ∈ items, motive item) → motive (.bracketed items))
    (negative : ∀ magnitude, motive (.negative magnitude))
    (minus : ∀ inner, motive inner → motive (.minus inner))
    (number : ∀ value, motive (.number value))
    (operand : ∀ inner, motive inner → motive (.operand inner))
    (single : ∀ level inner, motive inner → motive (.single level inner))
    (joined : ∀ level operator hlevel left right, motive left → motive right →
      motive (.joined level operator hlevel left right))
    (plain : ∀ inner, motive inner → motive (.plain inner))
    (call : ∀ argument callee, motive argument → motive (.call argument callee))
    {rank : Rank} (e : Expression rank) : motive e :=
  @Expression.rec (fun _ e => motive e) (fun items => ∀ item ∈ items, motive item)
    text truth named creation bracketed negative minus number operand single joined plain call
    (fun _ h => absurd h List.not_mem_nil)
    (fun _ _ hfirst hrest => List.forall_mem_cons.mpr ⟨hfirst, hrest⟩) rank e

end Expression

/-- The part that a clause plays. A sentence is a statement that begins with
an expression; it can stand where a statement with a key word of its own at
the head cannot. -/
inductive Part where
  | statement
  | sentence
  | patternCase

inductive Clause : Part → Type where
  | function (name : Name) (params : List Name) (body : List (Clause .statement)) :
      Clause .statement
  | declaration (kind : Declaration) (name : Name) (value : Expression .chain) : Clause .statement
  | classDeclaration (name : Name) (parent : Option Name) (body : List (Clause .statement)) :
      Clause .statement
  /-- the values of an enumeration, with its commas as absent names -/
  | enumDeclaration (name : Name) (items : List (Option Name)) : Clause .statement
  | staticMethod (path : Name) (body : List (Clause .statement)) : Clause .statement
  | attempt (body : List (Clause .statement)) (caught : List Name)
      (handler : List (Clause .statement)) : Clause .statement
  | importText (moduleName : String) : Clause .statement
  | importName (moduleName : Name) : Clause .statement
  | exporting (name : Name) (value : Expression .chain) : Clause .statement
  | typeInspection (value : Expression .chain) (typeName : Name) : Clause .statement
  | sentence (inner : Clause .sentence) : Clause .statement
  | bare (value : Expression .chain) : Clause .sentence
  | giveBack (value : Expression .chain) : Clause .sentence
  | throwUp (value : Expression .chain) : Clause .sentence
  | distinction (subject : Expression .chain) (cases : List (Clause .patternCase)) :
      Clause .sentence
  | loop (condition : Expression .chain) (body : List (Clause .statement)) : Clause .sentence
  | alternative (condition : Expression .chain) (consequent : List (Clause .statement)) :
      Clause .sentence
  | alternativeBlock (condition : Expression .chain)
      (consequent alternate : List (Clause .statement)) : Clause .sentence
  | alternativeSentence (condition : Expression .chain) (consequent : List (Clause .statement))
      (alternate : Clause .sentence) : Clause .sentence
  /-- a case without a pattern is written with `他` -/
  | patternCase (pattern guard : Option (Expression .chain)) (body : List (Clause .statement)) :
      Clause .patternCase

abbrev Statement := Clause .statement

/-- The parts of a class behind its name and before its body. -/
def parentKinds : Option Name → List Kind
  | none => []
  | some parent => [.keyword .inherits, .word parent.text]

def parentTrees : Option Name → List Tree
  | none => []
  | some parent => [.keyword .inherits, .word parent.text]

def enumItemKind : Option Name → Kind
  | none => .symbol .comma
  | some value => .word value.text

def enumItemTree : Option Name → Tree
  | none => .symbol .comma
  | some value => .word value.text

def patternKinds : Option (Expression .chain) → List Kind
  | none => [.keyword .otherwise]
  | some pattern => pattern.kinds ++ [.keyword .caseOf]

def patternTrees : Option (Expression .chain) → List Tree
  | none => [.keyword .otherwise]
  | some pattern => [pattern.tree, .keyword .caseOf]

def guardKinds : Option (Expression .chain) → List Kind
  | none => []
  | some guard => .keyword .provided :: guard.kinds

def guardTrees : Option (Expression .chain) → List Tree
  | none => []
  | some guard => [.keyword .provided, guard.tree]

def caseProduction : Option (Expression .chain) → Production
  | none => .otherwiseCase
  | some _ => .patternCase

namespace Clause

mutual

/-- The tokens of a clause. -/
def kinds : {part : Part} → Clause part → List Kind
  | _, .function name params body =>
    .keyword .function :: .word name.text :: nameKinds params ++ braceKinds (statementKinds body)
  | _, .declaration kind name value =>
    .keyword kind.keyword :: .word name.text :: .keyword .topic :: value.kinds
  | _, .classDeclaration name parent body =>
    .keyword .classOf :: .word name.text :: parentKinds parent ++ braceKinds (statementKinds body)
  | _, .enumDeclaration name items =>
    .keyword .enumerate :: .word name.text :: .symbol .leftBrace :: items.map enumItemKind ++
      [.symbol .rightBrace]
  | _, .staticMethod path body =>
    .keyword .static :: .word path.text :: braceKinds (statementKinds body)
  | _, .attempt body caught handler =>
    .keyword .attempt :: braceKinds (statementKinds body) ++ .keyword .rescue ::
      nameKinds caught ++ braceKinds (statementKinds handler)
  | _, .importText moduleName => [.keyword .importing, .text moduleName]
  | _, .importName moduleName => [.keyword .importing, .word moduleName.text]
  | _, .exporting name value =>
    .keyword .exporting :: .word name.text :: .keyword .topic :: value.kinds
  | _, .typeInspection value typeName =>
    .keyword .inspectType :: value.kinds ++ [.keyword .topic, .word typeName.text]
  | _, .sentence inner => inner.kinds
  | _, .bare value => value.kinds
  | _, .giveBack value => value.kinds ++ [.keyword .object, .keyword .giveBack]
  | _, .throwUp value => value.kinds ++ [.keyword .object, .keyword .throwUp]
  | _, .distinction subject cases =>
    subject.kinds ++ .keyword .object :: .keyword .distinguish :: braceKinds (caseKinds cases)
  | _, .loop condition body =>
    condition.kinds ++ .keyword .loop :: braceKinds (statementKinds body)
  | _, .alternative condition consequent =>
    condition.kinds ++ .keyword .ifThen :: braceKinds (statementKinds consequent)
  | _, .alternativeBlock condition consequent alternate =>
    condition.kinds ++ .keyword .ifThen :: braceKinds (statementKinds consequent) ++
      .keyword .otherwise :: braceKinds (statementKinds alternate)
  | _, .alternativeSentence condition consequent alternate =>
    condition.kinds ++ .keyword .ifThen :: braceKinds (statementKinds consequent) ++
      .keyword .otherwise :: alternate.kinds
  | _, .patternCase pattern guard body =>
    patternKinds pattern ++ guardKinds guard ++ braceKinds (statementKinds body)

def statementKinds : List (Clause .statement) → List (List Kind)
  | [] => []
  | statement :: rest => statement.kinds :: statementKinds rest

def caseKinds : List (Clause .patternCase) → List (List Kind)
  | [] => []
  | case :: rest => case.kinds :: caseKinds rest

end

def blockTree (statements : List Tree) : Tree :=
  .braces .block .statements statements

mutual

/-- The tree that the productions build. -/
def tree : {part : Part} → Clause part → Tree
  | _, .function name params body =>
    .group .function
      [.keyword .function, .word name.text, .names params, blockTree (statementTrees body)]
  | _, .declaration kind name value =>
    .group .declaration
      [.keyword kind.keyword, .word name.text, .keyword .topic, value.tree]
  | _, .classDeclaration name parent body =>
    .group .classDeclaration (.keyword .classOf :: .word name.text :: parentTrees parent ++
      [blockTree (statementTrees body)])
  | _, .enumDeclaration name items =>
    .group .enumDeclaration
      [.keyword .enumerate, .word name.text,
        .group .names (.symbol .leftBrace :: items.map enumItemTree ++ [.symbol .rightBrace])]
  | _, .staticMethod path body =>
    .group .staticMethod [.keyword .static, .word path.text, blockTree (statementTrees body)]
  | _, .attempt body caught handler =>
    .group .attempt
      [.keyword .attempt, blockTree (statementTrees body), .keyword .rescue, .names caught,
        blockTree (statementTrees handler)]
  | _, .importText moduleName =>
    .group .importing [.keyword .importing, .leaf (.text moduleName)]
  | _, .importName moduleName =>
    .group .importing [.keyword .importing, .word moduleName.text]
  | _, .exporting name value =>
    .group .exporting [.keyword .exporting, .word name.text, .keyword .topic, value.tree]
  | _, .typeInspection value typeName =>
    .group .typeInspection
      [.keyword .inspectType, value.tree, .keyword .topic, .word typeName.text]
  | _, .sentence inner => inner.tree
  | _, .bare value => value.tree
  | _, .giveBack value => .group .giveBack [value.tree, .keyword .object, .keyword .giveBack]
  | _, .throwUp value => .group .throwUp [value.tree, .keyword .object, .keyword .throwUp]
  | _, .distinction subject cases =>
    .group .distinction
      [subject.tree, .keyword .object, .keyword .distinguish,
        .braces .caseBlock .cases (caseTrees cases)]
  | _, .loop condition body =>
    .group .loop [condition.tree, .keyword .loop, blockTree (statementTrees body)]
  | _, .alternative condition consequent =>
    .group .alternative
      [condition.tree, .keyword .ifThen, blockTree (statementTrees consequent)]
  | _, .alternativeBlock condition consequent alternate =>
    .group .alternative
      [condition.tree, .keyword .ifThen, blockTree (statementTrees consequent),
        .keyword .otherwise, blockTree (statementTrees alternate)]
  | _, .alternativeSentence condition consequent alternate =>
    .group .alternative
      [condition.tree, .keyword .ifThen, blockTree (statementTrees consequent),
        .keyword .otherwise, alternate.tree]
  | _, .patternCase pattern guard body =>
    .group (caseProduction pattern)
      (patternTrees pattern ++ guardTrees guard ++ [blockTree (statementTrees body)])

def statementTrees : List (Clause .statement) → List Tree
  | [] => []
  | statement :: rest => statement.tree :: statementTrees rest

def caseTrees : List (Clause .patternCase) → List Tree
  | [] => []
  | case :: rest => case.tree :: caseTrees rest

end

def phrase {part : Part} (clause : Clause part) : Phrase := clause.tree.phrase

@[simp]
theorem statementKinds_eq_map (body : List (Clause .statement)) :
    statementKinds body = body.map kinds := by
  induction body with
  | nil => rfl
  | cons statement rest ih => rw [statementKinds, ih, List.map_cons]

@[simp]
theorem caseKinds_eq_map (cases : List (Clause .patternCase)) :
    caseKinds cases = cases.map kinds := by
  induction cases with
  | nil => rfl
  | cons case rest ih => rw [caseKinds, ih, List.map_cons]

@[simp]
theorem statementTrees_eq_map (body : List (Clause .statement)) :
    statementTrees body = body.map tree := by
  induction body with
  | nil => rfl
  | cons statement rest ih => rw [statementTrees, ih, List.map_cons]

@[simp]
theorem caseTrees_eq_map (cases : List (Clause .patternCase)) :
    caseTrees cases = cases.map tree := by
  induction cases with
  | nil => rfl
  | cons case rest ih => rw [caseTrees, ih, List.map_cons]

@[simp]
theorem phrase_blockTree (body : List (Clause .statement)) :
    (blockTree (body.map tree)).phrase = .braces (body.map phrase) := by
  rw [blockTree, Tree.phrase_braces, List.map_map]
  rfl

@[simp]
theorem phrase_names (names : List Name) :
    (Tree.names names).phrase = .brackets (names.map fun name => .word name.text) := by
  rw [Tree.names, Tree.phrase_brackets, List.map_map]
  rfl

theorem phrase_declaration (kind : Declaration) (name : Name) (value : Expression .chain) :
    (declaration kind name value).phrase =
      .group [.keyword kind.keyword, .word name.text, .keyword .topic, value.phrase] := rfl

theorem phrase_exporting (name : Name) (value : Expression .chain) :
    (exporting name value).phrase =
      .group [.keyword .exporting, .word name.text, .keyword .topic, value.phrase] := rfl

theorem phrase_typeInspection (value : Expression .chain) (typeName : Name) :
    (typeInspection value typeName).phrase =
      .group [.keyword .inspectType, value.phrase, .keyword .topic, .word typeName.text] := rfl

theorem phrase_importText (moduleName : String) :
    (importText moduleName).phrase =
      .group [.keyword .importing, .leaf (.text moduleName)] := rfl

theorem phrase_importName (moduleName : Name) :
    (importName moduleName).phrase =
      .group [.keyword .importing, .word moduleName.text] := rfl

theorem phrase_giveBack (value : Expression .chain) :
    (giveBack value).phrase = .group [value.phrase, .keyword .object, .keyword .giveBack] := rfl

theorem phrase_throwUp (value : Expression .chain) :
    (throwUp value).phrase = .group [value.phrase, .keyword .object, .keyword .throwUp] := rfl

theorem phrase_enumDeclaration (name : Name) (items : List (Option Name)) :
    (enumDeclaration name items).phrase =
      .group [.keyword .enumerate, .word name.text,
        .group (.word Symbol.leftBrace.text :: (items.map fun item => (enumItemTree item).phrase) ++
          [.word Symbol.rightBrace.text])] := by
  simp [phrase, tree, Function.comp_def]

theorem phrase_function (name : Name) (params : List Name) (body : List (Clause .statement)) :
    (Clause.function name params body).phrase =
      .group [.keyword .function, .word name.text,
        .brackets (params.map fun param => .word param.text), .braces (body.map phrase)] := by
  simp [phrase, tree]

theorem phrase_classDeclaration (name : Name) (parent : Option Name)
    (body : List (Clause .statement)) :
    (Clause.classDeclaration name parent body).phrase =
      .group (.keyword .classOf :: .word name.text :: (parentTrees parent).map Tree.phrase ++
        [.braces (body.map phrase)]) := by
  simp [phrase, tree]

theorem phrase_staticMethod (path : Name) (body : List (Clause .statement)) :
    (Clause.staticMethod path body).phrase =
      .group [.keyword .static, .word path.text, .braces (body.map phrase)] := by
  simp [phrase, tree]

theorem phrase_attempt (body : List (Clause .statement)) (caught : List Name)
    (handler : List (Clause .statement)) :
    (Clause.attempt body caught handler).phrase =
      .group [.keyword .attempt, .braces (body.map phrase), .keyword .rescue,
        .brackets (caught.map fun name => .word name.text), .braces (handler.map phrase)] := by
  simp [phrase, tree]

theorem phrase_distinction (subject : Expression .chain) (cases : List (Clause .patternCase)) :
    (Clause.distinction subject cases).phrase =
      .group [subject.phrase, .keyword .object, .keyword .distinguish,
        .braces (cases.map phrase)] := by
  have hcases : (cases.map tree).map Tree.phrase = cases.map phrase := List.map_map
  simp only [phrase, tree, caseTrees_eq_map, Tree.phrase_group, List.map_cons, List.map_nil,
    Tree.phrase_keyword, Tree.phrase_braces, hcases]
  rfl

theorem phrase_loop (condition : Expression .chain) (body : List (Clause .statement)) :
    (Clause.loop condition body).phrase =
      .group [condition.phrase, .keyword .loop, .braces (body.map phrase)] := by
  simp [phrase, tree, Expression.phrase]

theorem phrase_alternative (condition : Expression .chain)
    (consequent : List (Clause .statement)) :
    (Clause.alternative condition consequent).phrase =
      .group [condition.phrase, .keyword .ifThen, .braces (consequent.map phrase)] := by
  simp [phrase, tree, Expression.phrase]

theorem phrase_alternativeBlock (condition : Expression .chain)
    (consequent alternate : List (Clause .statement)) :
    (Clause.alternativeBlock condition consequent alternate).phrase =
      .group [condition.phrase, .keyword .ifThen, .braces (consequent.map phrase),
        .keyword .otherwise, .braces (alternate.map phrase)] := by
  simp [phrase, tree, Expression.phrase]

theorem phrase_alternativeSentence (condition : Expression .chain)
    (consequent : List (Clause .statement)) (alternate : Clause .sentence) :
    (Clause.alternativeSentence condition consequent alternate).phrase =
      .group [condition.phrase, .keyword .ifThen, .braces (consequent.map phrase),
        .keyword .otherwise, alternate.phrase] := by
  simp [phrase, tree, Expression.phrase]

theorem phrase_patternCase (pattern guard : Option (Expression .chain))
    (body : List (Clause .statement)) :
    (Clause.patternCase pattern guard body).phrase =
      .group ((patternTrees pattern).map Tree.phrase ++ (guardTrees guard).map Tree.phrase ++
        [.braces (body.map phrase)]) := by
  simp [phrase, tree]

/-- Induction over clauses of every part at once. -/
@[elab_as_elim, induction_eliminator]
theorem induction {motive : {part : Part} → Clause part → Prop}
    (function : ∀ name params (body : List (Clause .statement)),
      (∀ statement ∈ body, motive statement) → motive (.function name params body))
    (declaration : ∀ kind name value, motive (.declaration kind name value))
    (classDeclaration : ∀ name parent (body : List (Clause .statement)),
      (∀ statement ∈ body, motive statement) → motive (.classDeclaration name parent body))
    (enumDeclaration : ∀ name items, motive (.enumDeclaration name items))
    (staticMethod : ∀ path (body : List (Clause .statement)),
      (∀ statement ∈ body, motive statement) → motive (.staticMethod path body))
    (attempt : ∀ (body : List (Clause .statement)) caught (handler : List (Clause .statement)),
      (∀ statement ∈ body, motive statement) → (∀ statement ∈ handler, motive statement) →
      motive (.attempt body caught handler))
    (importText : ∀ moduleName, motive (.importText moduleName))
    (importName : ∀ moduleName, motive (.importName moduleName))
    (exporting : ∀ name value, motive (.exporting name value))
    (typeInspection : ∀ value typeName, motive (.typeInspection value typeName))
    (sentence : ∀ inner, motive inner → motive (.sentence inner))
    (bare : ∀ value, motive (.bare value))
    (giveBack : ∀ value, motive (.giveBack value))
    (throwUp : ∀ value, motive (.throwUp value))
    (distinction : ∀ subject (cases : List (Clause .patternCase)),
      (∀ case ∈ cases, motive case) → motive (.distinction subject cases))
    (loop : ∀ condition (body : List (Clause .statement)),
      (∀ statement ∈ body, motive statement) → motive (.loop condition body))
    (alternative : ∀ condition (consequent : List (Clause .statement)),
      (∀ statement ∈ consequent, motive statement) → motive (.alternative condition consequent))
    (alternativeBlock : ∀ condition (consequent alternate : List (Clause .statement)),
      (∀ statement ∈ consequent, motive statement) →
      (∀ statement ∈ alternate, motive statement) →
      motive (.alternativeBlock condition consequent alternate))
    (alternativeSentence : ∀ condition (consequent : List (Clause .statement)) alternate,
      (∀ statement ∈ consequent, motive statement) → motive alternate →
      motive (.alternativeSentence condition consequent alternate))
    (patternCase : ∀ pattern guard (body : List (Clause .statement)),
      (∀ statement ∈ body, motive statement) → motive (.patternCase pattern guard body))
    {part : Part} (clause : Clause part) : motive clause :=
  @Clause.rec (fun _ clause => motive clause) (fun body => ∀ statement ∈ body, motive statement)
    (fun cases => ∀ case ∈ cases, motive case)
    function declaration classDeclaration enumDeclaration staticMethod attempt importText
    importName exporting typeInspection sentence bare giveBack throwUp distinction loop
    alternative alternativeBlock alternativeSentence patternCase
    (fun _ h => absurd h List.not_mem_nil)
    (fun _ _ hfirst hrest => List.forall_mem_cons.mpr ⟨hfirst, hrest⟩)
    (fun _ h => absurd h List.not_mem_nil)
    (fun _ _ hfirst hrest => List.forall_mem_cons.mpr ⟨hfirst, hrest⟩) part clause

def StartsWithMinus {part : Part} (clause : Clause part) : Prop :=
  clause.kinds.head? = some (.symbol (.operator .sub))

mutual

/-- No statement that begins with a minus sign stands directly behind another
statement of the same list, in any block of the clause. -/
def Apart : {part : Part} → Clause part → Prop
  | _, .function _ _ body => AllApart body
  | _, .classDeclaration _ _ body => AllApart body
  | _, .staticMethod _ body => AllApart body
  | _, .attempt body _ handler => AllApart body ∧ AllApart handler
  | _, .sentence inner => inner.Apart
  | _, .distinction _ cases => CasesApart cases
  | _, .loop _ body => AllApart body
  | _, .alternative _ consequent => AllApart consequent
  | _, .alternativeBlock _ consequent alternate => AllApart consequent ∧ AllApart alternate
  | _, .alternativeSentence _ consequent alternate => AllApart consequent ∧ alternate.Apart
  | _, .patternCase _ _ body => AllApart body
  | _, .declaration .. | _, .enumDeclaration .. | _, .importText _ | _, .importName _
  | _, .exporting .. | _, .typeInspection .. | _, .bare _ | _, .giveBack _ | _, .throwUp _ => True

def AllApart : List (Clause .statement) → Prop
  | [] => True
  | statement :: rest =>
    statement.Apart ∧ (∀ next ∈ rest.head?, ¬ next.StartsWithMinus) ∧ AllApart rest

def CasesApart : List (Clause .patternCase) → Prop
  | [] => True
  | case :: rest => case.Apart ∧ CasesApart rest

end

end Clause

/-- A program is a list of statements. -/
abbrev Program := List Statement

namespace Program

def kinds (program : Program) : List Kind := (program.map Clause.kinds).flatten

def tree (program : Program) : Tree := .group .program (program.map Clause.tree)

def phrase (program : Program) : Phrase := program.tree.phrase

theorem phrase_eq (program : Program) : program.phrase = .group (program.map Clause.phrase) := by
  rw [phrase, tree, Tree.phrase_group, List.map_map]
  rfl

end Program

/-- The grammar derives a phrase from a list of tokens. -/
def Derives (kinds : List Kind) (phrase : Phrase) : Prop :=
  ∃ program : Program, program.kinds = kinds ∧ program.phrase = phrase

/-- A derivation in which no statement that begins with a minus sign stands
directly behind another one. -/
def DerivesApart (kinds : List Kind) (phrase : Phrase) : Prop :=
  ∃ program : Program, Clause.AllApart program ∧ program.kinds = kinds ∧ program.phrase = phrase

end Concrete

end Wabun
