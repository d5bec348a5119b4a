import Wabun.Proofs.Negation
import Wabun.Proofs.Recognition
import Wabun.Proofs.Rendering

/-!
Writing a program down and reading it back gives the same program. Whatever is
written for a syntax tree of the source language is derived by the grammar, in
a derivation that means the tree and in which no statement begins with a minus
sign.
-/

namespace Wabun

open Token (Kind)

/-- A word with a dot in it is a name: the language keeps none of them. -/
theorem Word.isName_of_dot {word : String} (h : '.' ∈ word.toList) : Word.isName word = true := by
  have hne {other : String} (hother : '.' ∉ other.toList) : word ≠ other := by
    rintro rfl
    exact hother h
  have hkeyword : Word.isKeyword word = false := by
    rw [Word.isKeyword, List.any_eq_false]
    intro k hk
    have hdot : ∀ k ∈ Keyword.all, '.' ∉ k.text.toList := by decide
    simpa using (hne (hdot k hk)).symm
  have hpunctuation : Word.isPunctuation word = false := by
    have hdot : ∀ sign ∈ Word.punctuation, '.' ∉ sign.toList := by decide
    rw [Word.isPunctuation, List.contains_eq_mem, decide_eq_false_iff_not]
    exact fun hmem => hdot word hmem h
  have hoperator : Word.isOperator word = false := by
    have hdot : ∀ symbol ∈ Word.operators, '.' ∉ symbol.toList := by decide
    rw [Word.isOperator, List.contains_eq_mem, decide_eq_false_iff_not]
    exact fun hmem => hdot word hmem h
  have hempty : word ≠ "" := hne (by decide)
  simp [Word.isName, hkeyword, hpunctuation, hoperator, hempty]

theorem Path.splitLast?_dot (owner : String) {last : String} (h : '.' ∉ last.toList) :
    Path.splitLast? (owner ++ "." ++ last) = some (owner, last) := by
  have hlast : ∀ c ∈ last.toList.reverse, (c != '.') = true := by
    intro c hc
    rw [bne_iff_ne]
    rintro rfl
    exact h (List.mem_reverse.mp hc)
  have hdrop : (last.toList.reverse ++ '.' :: owner.toList.reverse).dropWhile (· != '.') =
      '.' :: owner.toList.reverse := by
    rw [List.dropWhile_append_of_pos hlast]
    rfl
  have htake : (last.toList.reverse ++ '.' :: owner.toList.reverse).takeWhile (· != '.') =
      last.toList.reverse := by
    rw [List.takeWhile_append_of_pos hlast]
    simp
  simp [Path.splitLast?, hdrop, htake]

namespace Concrete

namespace Expression

/-- The expression is written with these tokens and means the node, where one
value is needed as well as in a list of statements. -/
structure Writes {rank : Rank} (e : Expression rank) (kinds : List Kind) (node : Node) :
    Prop where
  tokens : e.kinds = kinds
  value : e.node = .ok node
  statements : e.readings.statements = .ok [node]

def ofOperand (operand : Expression .operand) : Expression .chain :=
  .plain (.single .comparison (.single .additive (.single .multiplicative operand)))

/-- Two operands with an operator between them. -/
def between (left right : Expression .operand) (operator : Operator) : Expression .chain :=
  match h : operator.level with
  | .multiplicative =>
    .plain (.single .comparison (.single .additive
      (.joined .multiplicative operator h (.single .multiplicative left) right)))
  | .additive =>
    .plain (.single .comparison (.joined .additive operator h
      (.single .additive (.single .multiplicative left)) (.single .multiplicative right)))
  | .comparison =>
    .plain (.joined .comparison operator h
      (.single .comparison (.single .additive (.single .multiplicative left)))
      (.single .additive (.single .multiplicative right)))

theorem kinds_between (left right : Expression .operand) (operator : Operator) :
    (between left right operator).kinds =
      left.kinds ++ .symbol (.operator operator) :: right.kinds := by
  unfold between
  split <;> rfl

theorem readings_between (left right : Expression .operand) (operator : Operator) :
    (between left right operator).readings =
      .single do return .binary operator (← left.node) (← right.node) := by
  unfold between
  split <;> rfl

namespace Writes

variable {rank : Rank} {kinds : List Kind} {node : Node}

theorem of_single {e : Expression rank} (hkinds : e.kinds = kinds)
    (hreadings : e.readings = .single (.ok node)) : e.Writes kinds node where
  tokens := hkinds
  value := by rw [Expression.node, hreadings]; rfl
  statements := by rw [hreadings]; rfl

theorem operand {e : Expression .unnumbered} (h : e.Writes kinds node) :
    (Expression.operand e).Writes kinds node :=
  ⟨h.tokens, h.value, h.statements⟩

theorem ofOperand {e : Expression .operand} (h : e.Writes kinds node) :
    (Expression.ofOperand e).Writes kinds node :=
  ⟨h.tokens, h.value, h.statements⟩

/-- Brackets around one expression mean what it means. -/
theorem bracketed {e : Expression .chain} (h : e.Writes kinds node) :
    (Expression.bracketed [e]).Writes (bracketKinds [kinds]) node where
  tokens := by rw [Expression.kinds, kindsOfAll, kindsOfAll, h.tokens]
  value := h.value
  statements := by
    have hgather : Meaning.gather Readings.statements [e.readings] = .ok [node] := by
      rw [Meaning.gather, h.statements]
      rfl
    exact hgather

theorem between {l r : Expression .operand} {left right : Node} {leftKinds rightKinds : List Kind}
    (hl : l.Writes leftKinds left) (hr : r.Writes rightKinds right) (operator : Operator) :
    (Expression.between l r operator).Writes
      (leftKinds ++ .symbol (.operator operator) :: rightKinds)
      (.binary operator left right) := by
  apply of_single
  · rw [kinds_between, hl.tokens, hr.tokens]
  · rw [readings_between, hl.value, hr.value]
    rfl

end Writes

/-- A call with its arguments in brackets, each as an operand. -/
def callOf (args : List (Expression .operand)) (callee : Name) : Expression .chain :=
  .call (ofOperand (.operand (.bracketed (args.map ofOperand)))) callee

/-- The arguments of a call are written with these tokens and mean the nodes. -/
def WriteAll (args : List (Expression .operand)) (kinds : List (List Kind)) (nodes : List Node) :
    Prop :=
  args.map Expression.kinds = kinds ∧ args.mapM Expression.node = .ok nodes

theorem WriteAll.callOf {args : List (Expression .operand)} {kinds : List (List Kind)}
    {nodes : List Node} (h : WriteAll args kinds nodes) (callee : Name) :
    (Expression.callOf args callee).Writes
      (bracketKinds kinds ++ [.keyword .object, .word callee.text]) (.call callee.text nodes) := by
  have harguments : ((args.map ofOperand).map readings).mapM Readings.node = .ok nodes := by
    rw [List.map_map, List.mapM_map]
    exact h.2
  apply Writes.of_single
  · rw [Expression.callOf, Expression.kinds]
    change bracketKinds (kindsOfAll (args.map ofOperand)) ++ _ = _
    rw [kindsOfAll_eq_map, List.map_map, ← h.1]
    rfl
  · rw [Expression.callOf, readings]
    change Readings.single (do
      return .call callee.text
        (← (readingsOfAll (args.map ofOperand)).mapM Readings.node)) = _
    rw [readingsOfAll_eq_map, harguments]
    rfl

end Expression

namespace Clause

/-- The clause is written with these tokens and has this meaning, and no
statement inside it continues the one before. -/
structure Writes {part : Part} (clause : Clause part) (kinds : List Kind) (result : part.Result) :
    Prop where
  tokens : clause.kinds = kinds
  meaning : clause.meaning = .ok result
  apart : clause.Apart

/-- The statements are written with these tokens and mean these nodes, and none
of them continues the one before. Nor does the first continue a statement that
stands before it. -/
structure WriteAll (statements : List Statement) (kinds : List Kind) (nodes : List Node) :
    Prop where
  tokens : (statements.map Clause.kinds).flatten = kinds
  meaning : Meaning.gather Clause.meaning statements = .ok nodes
  apart : AllApart statements
  first : ∀ statement ∈ statements.head?, ¬ statement.StartsWithMinus

structure WriteCases (cases : List (Clause .patternCase)) (kinds : List Kind)
    (result : List PatternCase) : Prop where
  tokens : (cases.map Clause.kinds).flatten = kinds
  meaning : cases.mapM Clause.meaning = .ok result
  apart : CasesApart cases

theorem WriteAll.braces {statements : List Statement} {kinds : List Kind} {nodes : List Node}
    (h : WriteAll statements kinds nodes) :
    braceKinds (statementKinds statements) = Node.inBraces kinds := by
  rw [braceKinds, statementKinds_eq_map, h.tokens, Node.inBraces]

theorem WriteAll.bodyMeaning {statements : List Statement} {kinds : List Kind}
    {nodes : List Node} (h : WriteAll statements kinds nodes) :
    Clause.bodyMeaning statements = .ok nodes := by
  rw [bodyMeaning_eq_gather, h.meaning]

end Clause

end Concrete

namespace Node

open Concrete

theorem exists_operands {args : List Node}
    (hargs : ∀ node ∈ args, node.IsExpression →
      ∃ e : Expression .operand, e.Writes node.operandKinds node)
    (h : AreExpressions args) :
    ∃ operands, Expression.WriteAll operands (operandKindsOfAll args) args := by
  induction args with
  | nil => exact ⟨[], rfl, rfl⟩
  | cons node rest ih =>
      obtain ⟨e, he⟩ := hargs node List.mem_cons_self h.1
      obtain ⟨operands, htokens, hvalues⟩ :=
        ih (fun other hmem => hargs other (List.mem_cons_of_mem node hmem)) h.2
      refine ⟨e :: operands, ?_, ?_⟩
      · rw [List.map_cons, he.tokens, htokens, operandKindsOfAll]
      · rw [List.mapM_cons, he.value, hvalues]
        rfl

theorem exists_operand (node : Node) (h : node.IsExpression) :
    ∃ e : Expression .operand, e.Writes node.operandKinds node := by
  induction node using inner_induction with
  | step node ih =>
      cases node with
      | literal value =>
          cases value with
          | number x =>
              rw [operandKinds]
              -- The minus sign is read together with the number behind it.
              split
              · refine ⟨_, .operand (.bracketed (.ofOperand (.operand
                  (.of_single (e := .negative (-x)) rfl ?_))))⟩
                rw [Expression.readings, Negation.neg_neg]
              · exact ⟨.number x, .of_single rfl rfl⟩
          | text value => exact ⟨.operand (.text value), .of_single rfl rfl⟩
          | truth value => exact ⟨.operand (.truth value), .of_single rfl rfl⟩
      | identifier name => exact ⟨.operand (.named ⟨name, h⟩), .of_single rfl rfl⟩
      | create className => exact ⟨.operand (.creation ⟨className, h⟩), .of_single rfl rfl⟩
      | binary operator left right =>
          obtain ⟨l, hl⟩ := ih left List.mem_cons_self h.1
          obtain ⟨r, hr⟩ := ih right (List.mem_cons_of_mem left List.mem_cons_self) h.2
          exact ⟨_, .operand (.bracketed (hl.between hr operator))⟩
      | call callee args =>
          obtain ⟨operands, hoperands⟩ := exists_operands ih h.2
          exact ⟨_, .operand (.bracketed (hoperands.callOf ⟨callee, h.1⟩))⟩
      | _ => exact absurd h id

/-- An expression in a place of its own. -/
theorem exists_slot (node : Node) (h : node.IsExpression) :
    ∃ e : Expression .chain, e.Writes node.slotKinds node := by
  have hoperand : ∃ e : Expression .chain, e.Writes node.operandKinds node := by
    obtain ⟨e, he⟩ := exists_operand node h
    exact ⟨_, he.ofOperand⟩
  cases node with
  | call callee args =>
      obtain ⟨operands, hoperands⟩ :=
        exists_operands (fun arg _ harg => exists_operand arg harg) h.2
      exact ⟨_, hoperands.callOf ⟨callee, h.1⟩⟩
  | _ => exact hoperand

theorem slotKinds_first {node : Node} (h : node.IsExpression) :
    ∃ first rest, node.slotKinds = first :: rest ∧ first ≠ .symbol (.operator .sub) := by
  cases node with
  | literal value =>
      cases value with
      | number x =>
          simp only [slotKinds, operandKinds]
          split
          · exact ⟨_, _, rfl, by simp⟩
          · exact ⟨_, _, rfl, by simp⟩
      | text value => exact ⟨_, _, rfl, by simp⟩
      | truth value => exact ⟨_, _, rfl, by simp⟩
  | identifier name => exact ⟨_, _, rfl, by simp⟩
  | create className => exact ⟨_, _, rfl, by simp [Kind.keyword]⟩
  | binary operator left right => exact ⟨_, _, rfl, by simp⟩
  | call callee args => exact ⟨_, _, rfl, by simp⟩
  | _ => exact absurd h id

theorem slotKinds_head {node : Node} (h : node.IsExpression) (rest : List Kind) :
    (node.slotKinds ++ rest).head? ≠ some (.symbol (.operator .sub)) := by
  obtain ⟨first, others, hslot, hfirst⟩ := slotKinds_first h
  rw [hslot]
  exact fun hhead => hfirst (Option.some.inj hhead)

theorem renders_head {node : Node} {kinds : List Kind} (h : node.IsStatement)
    (hrenders : node.Renders kinds) : kinds.head? ≠ some (.symbol (.operator .sub)) := by
  have hkeyword (k : Keyword) (rest : List Kind) :
      (Kind.keyword k :: rest).head? ≠ some (.symbol (.operator .sub)) := by
    simp [Kind.keyword]
  have hslot {value : Node} (hvalue : value.IsExpression) :
      value.slotKinds.head? ≠ some (.symbol (.operator .sub)) := by
    rw [← List.append_nil value.slotKinds]
    exact slotKinds_head hvalue []
  cases node with
  | program body => exact absurd h id
  | function name params body =>
      obtain ⟨inner, _, rfl⟩ := hrenders
      exact hkeyword _ _
  | classDeclaration name parent body =>
      obtain ⟨inner, _, rfl⟩ := hrenders
      exact hkeyword _ _
  | staticMethod className method body =>
      obtain ⟨inner, _, rfl⟩ := hrenders
      exact hkeyword _ _
  | attempt body caught handler =>
      obtain ⟨inner, other, _, _, rfl⟩ := hrenders
      exact hkeyword _ _
  | alternative condition consequent alternate =>
      cases alternate with
      | none =>
          obtain ⟨inner, _, rfl⟩ := hrenders
          exact slotKinds_head h.1 _
      | some body =>
          obtain ⟨inner, other, written, _, _, _, rfl⟩ := hrenders
          rw [List.append_assoc]
          exact slotKinds_head h.1 _
  | distinguish subject cases =>
      obtain ⟨inner, _, rfl⟩ := hrenders
      exact slotKinds_head h.1 _
  | loop condition body =>
      obtain ⟨inner, _, rfl⟩ := hrenders
      exact slotKinds_head h.1 _
  | giveBack value | throwUp value =>
      obtain rfl := hrenders
      exact slotKinds_head h _
  | call _ _ | create _ | binary _ _ _ | identifier _ | literal _ =>
      obtain rfl := hrenders
      exact hslot h
  | _ =>
      obtain rfl := hrenders
      exact hkeyword _ _

/-- The statement is derived by a clause for every way to write it. A sentence
can then stand as an alternate without braces. -/
def Derivable (node : Node) : Prop :=
  node.IsStatement → ∀ kinds, node.Renders kinds →
    (∃ clause : Statement, clause.Writes kinds [node]) ∧
    (node.isSentence = true → ∃ clause : Clause .sentence, clause.Writes kinds [node])

theorem Derivable.of_statement {node : Node} (hstatement : node.isSentence = false)
    (h : node.IsStatement → ∀ kinds, node.Renders kinds →
      ∃ clause : Statement, clause.Writes kinds [node]) : node.Derivable := by
  intro hnode kinds hrenders
  refine ⟨h hnode kinds hrenders, ?_⟩
  rw [hstatement]
  exact fun hsentence => absurd hsentence Bool.false_ne_true

theorem Derivable.of_sentence {node : Node}
    (h : node.IsStatement → ∀ kinds, node.Renders kinds →
      ∃ clause : Clause .sentence, clause.Writes kinds [node]) : node.Derivable := by
  intro hnode kinds hrenders
  obtain ⟨clause, hclause⟩ := h hnode kinds hrenders
  exact ⟨⟨.sentence clause, hclause.tokens, hclause.meaning, hclause.apart⟩,
    fun _ => ⟨clause, hclause⟩⟩

theorem exists_names {words : List String} (h : AreNames words) :
    ∃ names : List Name, words = names.map Name.text := by
  refine ⟨words.attach.map fun word => ⟨word.1, h word.1 word.2⟩, ?_⟩
  rw [List.map_map]
  exact List.attach_map_subtype_val words |>.symm

theorem wordKinds_names (names : List Name) :
    wordKinds (names.map Name.text) = nameKinds names := by
  rw [wordKinds, List.map_map]
  rfl

theorem filterMap_intersperse_none (names : List Name) :
    ((names.map some).intersperse none).filterMap id = names := by
  induction names with
  | nil => rfl
  | cons first rest ih =>
      cases rest with
      | nil => rfl
      | cons second rest =>
          rw [List.map_cons, List.map_cons, List.intersperse_cons_cons, ← List.map_cons]
          exact congrArg (first :: ·) ih

theorem exists_statements {body : List Node} {kinds : List Kind}
    (hbody : ∀ node ∈ body, node.Derivable) (h : AreStatements body)
    (hrenders : RendersAll body kinds) :
    ∃ statements, Clause.WriteAll statements kinds body := by
  induction body generalizing kinds with
  | nil =>
      obtain rfl := hrenders
      exact ⟨[], rfl, rfl, trivial, by simp⟩
  | cons node rest ih =>
      obtain ⟨first, others, hfirst, hothers, rfl⟩ := hrenders
      obtain ⟨⟨clause, hclause⟩, _⟩ := hbody node List.mem_cons_self h.1 first hfirst
      obtain ⟨statements, hstatements⟩ :=
        ih (fun other hmem => hbody other (List.mem_cons_of_mem node hmem)) h.2 hothers
      refine ⟨clause :: statements, ?_, ?_, ⟨hclause.apart, hstatements.first, hstatements.apart⟩,
        ?_⟩
      · rw [List.map_cons, List.flatten_cons, hclause.tokens, hstatements.tokens]
      · rw [Meaning.gather, hclause.meaning, hstatements.meaning]
        rfl
      · rintro _ ⟨⟩
        rw [Clause.StartsWithMinus, hclause.tokens]
        exact renders_head h.1 hfirst

/-- The pattern or the condition of a case, which can be absent. -/
theorem exists_optional {slot : Option Node} (h : IsSlot slot) :
    ∃ e : Option (Expression .chain), e.mapM Expression.node = .ok slot ∧
      Concrete.patternKinds e = patternKinds slot ∧ Concrete.guardKinds e = guardKinds slot := by
  cases slot with
  | none => exact ⟨none, rfl, rfl, rfl⟩
  | some node =>
      obtain ⟨e, he⟩ := exists_slot node h
      refine ⟨some e, ?_, ?_, ?_⟩
      · rw [Option.mapM_some, he.value]
        rfl
      · rw [Concrete.patternKinds, he.tokens, patternKinds]
      · rw [Concrete.guardKinds, he.tokens, guardKinds]

theorem exists_cases {cases : List PatternCase} {kinds : List Kind}
    (hcases : ∀ node ∈ cases.flatMap PatternCase.body, node.Derivable) (h : AreCases cases)
    (hrenders : RendersCases cases kinds) :
    ∃ clauses, Clause.WriteCases clauses kinds cases := by
  induction cases generalizing kinds with
  | nil =>
      obtain rfl := hrenders
      exact ⟨[], rfl, rfl, trivial⟩
  | cons case rest ih =>
      obtain ⟨pattern, guard, body⟩ := case
      obtain ⟨_, others, ⟨inner, hinner, rfl⟩, hothers, rfl⟩ := hrenders
      obtain ⟨⟨hpattern, hguard, hbody⟩, hrest⟩ := h
      simp only [List.flatMap_cons, List.mem_append] at hcases
      obtain ⟨clauses, hclauses⟩ := ih (fun node hmem => hcases node (.inr hmem)) hrest hothers
      obtain ⟨statements, hstatements⟩ :=
        exists_statements (fun node hmem => hcases node (.inl hmem)) hbody hinner
      obtain ⟨p, hpnode, hpkinds, _⟩ := exists_optional hpattern
      obtain ⟨g, hgnode, _, hgkinds⟩ := exists_optional hguard
      refine ⟨.patternCase p g statements :: clauses, ?_, ?_, hstatements.apart, hclauses.apart⟩
      · rw [List.map_cons, List.flatten_cons, hclauses.tokens, Clause.kinds, hpkinds, hgkinds,
          hstatements.braces]
      · rw [List.mapM_cons, hclauses.meaning, Clause.meaning, hpnode, hgnode,
          hstatements.bodyMeaning]
        rfl

theorem derivable_function (name : String) (params : List String) {body : List Node}
    (hbody : ∀ node ∈ body, node.Derivable) : (function name params body).Derivable := by
  apply Derivable.of_statement rfl
  rintro ⟨hname, hparams, hstatements⟩ _ ⟨inner, hinner, rfl⟩
  obtain ⟨names, rfl⟩ := exists_names hparams
  obtain ⟨statements, hwrite⟩ := exists_statements hbody hstatements hinner
  refine ⟨.function ⟨name, hname⟩ names statements, ?_, ?_, hwrite.apart⟩
  · rw [Clause.kinds, hwrite.braces, wordKinds_names]
  · rw [Clause.meaning, hwrite.bodyMeaning]
    rfl

theorem derivable_classDeclaration (name : String) (parent : Option String) {body : List Node}
    (hbody : ∀ node ∈ body, node.Derivable) :
    (classDeclaration name parent body).Derivable := by
  apply Derivable.of_statement rfl
  rintro ⟨hname, hparent, hstatements⟩ _ ⟨inner, hinner, rfl⟩
  obtain ⟨statements, hwrite⟩ := exists_statements hbody hstatements hinner
  cases parent with
  | none =>
      refine ⟨.classDeclaration ⟨name, hname⟩ none statements, ?_, ?_, hwrite.apart⟩
      · rw [Clause.kinds, hwrite.braces]
        rfl
      · rw [Clause.meaning, hwrite.bodyMeaning]
        rfl
  | some parent =>
      have hparent : Word.isName parent = true := hparent parent (by simp)
      refine ⟨.classDeclaration ⟨name, hname⟩ (some ⟨parent, hparent⟩) statements, ?_, ?_,
        hwrite.apart⟩
      · rw [Clause.kinds, hwrite.braces]
        rfl
      · rw [Clause.meaning, hwrite.bodyMeaning]
        rfl

theorem derivable_enumDeclaration (name : String) (values : List String) :
    (enumDeclaration name values).Derivable := by
  apply Derivable.of_statement rfl
  rintro ⟨hname, hvalues⟩ _ rfl
  obtain ⟨names, rfl⟩ := exists_names hvalues
  refine ⟨.enumDeclaration ⟨name, hname⟩ ((names.map some).intersperse none), ?_, ?_, trivial⟩
  · rw [Clause.kinds, map_intersperse, List.map_map, List.map_map]
    rfl
  · rw [Clause.meaning, filterMap_intersperse_none]

theorem derivable_staticMethod (className method : String) {body : List Node}
    (hbody : ∀ node ∈ body, node.Derivable) : (staticMethod className method body).Derivable := by
  apply Derivable.of_statement rfl
  rintro ⟨_, _, hdot, hstatements⟩ _ ⟨inner, hinner, rfl⟩
  obtain ⟨statements, hwrite⟩ := exists_statements hbody hstatements hinner
  have hpath : Word.isName (className ++ "." ++ method) = true :=
    Word.isName_of_dot (by simp)
  refine ⟨.staticMethod ⟨_, hpath⟩ statements, ?_, ?_, hwrite.apart⟩
  · rw [Clause.kinds, hwrite.braces]
  · rw [Clause.meaning, Path.splitLast?_dot className hdot]
    simp only [hwrite.bodyMeaning]
    rfl

theorem derivable_attempt (caught : String) {body handler : List Node}
    (hbody : ∀ node ∈ body, node.Derivable) (hhandler : ∀ node ∈ handler, node.Derivable) :
    (attempt body caught handler).Derivable := by
  apply Derivable.of_statement rfl
  rintro ⟨hstatements, hcaught, hothers⟩ _ ⟨inner, other, hinner, hother, rfl⟩
  obtain ⟨statements, hwrite⟩ := exists_statements hbody hstatements hinner
  obtain ⟨rescue, hrescue⟩ := exists_statements hhandler hothers hother
  refine ⟨.attempt statements [⟨caught, hcaught⟩] rescue, ?_, ?_, hwrite.apart, hrescue.apart⟩
  · rw [Clause.kinds, hwrite.braces, hrescue.braces]
    rfl
  · rw [Clause.meaning]
    simp only [hwrite.bodyMeaning, hrescue.bodyMeaning]
    rfl

theorem derivable_variableDeclaration (kind : Declaration) (name : String) (value : Node) :
    (variableDeclaration kind name value).Derivable := by
  apply Derivable.of_statement rfl
  rintro ⟨hname, hvalue⟩ _ rfl
  obtain ⟨e, he⟩ := exists_slot value hvalue
  refine ⟨.declaration kind ⟨name, hname⟩ e, ?_, ?_, trivial⟩
  · rw [Clause.kinds, he.tokens]
  · rw [Clause.meaning, he.value]
    rfl

theorem derivable_exporting (name : String) (value : Node) :
    (exporting name value).Derivable := by
  apply Derivable.of_statement rfl
  rintro ⟨hname, hvalue⟩ _ rfl
  obtain ⟨e, he⟩ := exists_slot value hvalue
  refine ⟨.exporting ⟨name, hname⟩ e, ?_, ?_, trivial⟩
  · rw [Clause.kinds, he.tokens]
  · rw [Clause.meaning, he.value]
    rfl

theorem derivable_inspectType (value : Node) (typeName : String) :
    (inspectType value typeName).Derivable := by
  apply Derivable.of_statement rfl
  rintro ⟨hvalue, hname⟩ _ rfl
  obtain ⟨e, he⟩ := exists_slot value hvalue
  refine ⟨.typeInspection e ⟨typeName, hname⟩, ?_, ?_, trivial⟩
  · rw [Clause.kinds, he.tokens]
  · rw [Clause.meaning, he.value]
    rfl

theorem derivable_importing (moduleName : String) : (importing moduleName).Derivable := by
  apply Derivable.of_statement rfl
  rintro _ _ rfl
  exact ⟨.importText moduleName, rfl, rfl, trivial⟩

theorem derivable_giveBack (value : Node) : (giveBack value).Derivable := by
  apply Derivable.of_sentence
  rintro hvalue _ rfl
  obtain ⟨e, he⟩ := exists_slot value hvalue
  refine ⟨.giveBack e, ?_, ?_, trivial⟩
  · rw [Clause.kinds, he.tokens]
  · rw [Clause.meaning, he.value]
    rfl

theorem derivable_throwUp (value : Node) : (throwUp value).Derivable := by
  apply Derivable.of_sentence
  rintro hvalue _ rfl
  obtain ⟨e, he⟩ := exists_slot value hvalue
  refine ⟨.throwUp e, ?_, ?_, trivial⟩
  · rw [Clause.kinds, he.tokens]
  · rw [Clause.meaning, he.value]
    rfl

theorem derivable_loop (condition : Node) {body : List Node}
    (hbody : ∀ node ∈ body, node.Derivable) : (loop condition body).Derivable := by
  apply Derivable.of_sentence
  rintro ⟨hcondition, hstatements⟩ _ ⟨inner, hinner, rfl⟩
  obtain ⟨e, he⟩ := exists_slot condition hcondition
  obtain ⟨statements, hwrite⟩ := exists_statements hbody hstatements hinner
  refine ⟨.loop e statements, ?_, ?_, hwrite.apart⟩
  · rw [Clause.kinds, he.tokens, hwrite.braces]
  · rw [Clause.meaning, he.value, hwrite.bodyMeaning]
    rfl

theorem derivable_distinguish (subject : Node) {cases : List PatternCase}
    (hcases : ∀ node ∈ cases.flatMap PatternCase.body, node.Derivable) :
    (distinguish subject cases).Derivable := by
  apply Derivable.of_sentence
  rintro ⟨hsubject, hall⟩ _ ⟨inner, hinner, rfl⟩
  obtain ⟨e, he⟩ := exists_slot subject hsubject
  obtain ⟨clauses, hwrite⟩ := exists_cases hcases hall hinner
  refine ⟨.distinction e clauses, ?_, ?_, hwrite.apart⟩
  · rw [Clause.kinds, he.tokens, braceKinds, Clause.caseKinds_eq_map, hwrite.tokens, inBraces]
  · rw [Clause.meaning, Clause.casesMeaning_eq_mapM, hwrite.meaning, he.value]
    rfl

theorem derivable_alternative (condition : Node) {consequent : List Node}
    (hconsequent : ∀ node ∈ consequent, node.Derivable) :
    (alternative condition consequent none).Derivable := by
  apply Derivable.of_sentence
  rintro ⟨hcondition, hstatements, _⟩ _ ⟨inner, hinner, rfl⟩
  obtain ⟨e, he⟩ := exists_slot condition hcondition
  obtain ⟨statements, hwrite⟩ := exists_statements hconsequent hstatements hinner
  refine ⟨.alternative e statements, ?_, ?_, hwrite.apart⟩
  · rw [Clause.kinds, he.tokens, hwrite.braces]
  · rw [Clause.meaning, he.value, hwrite.bodyMeaning]
    rfl

/-- The tokens of a list of one statement are those of the statement. -/
theorem renders_of_rendersAll_singleton {node : Node} {kinds : List Kind}
    (h : RendersAll [node] kinds) : node.Renders kinds := by
  obtain ⟨first, _, hfirst, rfl, rfl⟩ := h
  rwa [List.append_nil]

theorem derivable_alternative_otherwise (condition : Node) {consequent alternate : List Node}
    (hconsequent : ∀ node ∈ consequent, node.Derivable)
    (halternate : ∀ node ∈ alternate, node.Derivable) :
    (alternative condition consequent (some alternate)).Derivable := by
  apply Derivable.of_sentence
  rintro ⟨hcondition, hstatements, hothers⟩ _
    ⟨inner, other, written, hinner, hother, hwritten, rfl⟩
  obtain ⟨e, he⟩ := exists_slot condition hcondition
  obtain ⟨statements, hwrite⟩ := exists_statements hconsequent hstatements hinner
  rcases hwritten with rfl | ⟨hsentence, rfl⟩
  · obtain ⟨others, hotherwise⟩ := exists_statements halternate hothers hother
    refine ⟨.alternativeBlock e statements others, ?_, ?_, hwrite.apart, hotherwise.apart⟩
    · rw [Clause.kinds, he.tokens, hwrite.braces, hotherwise.braces]
    · rw [Clause.meaning, he.value, hwrite.bodyMeaning, hotherwise.bodyMeaning]
      rfl
  · obtain ⟨node, rfl, hnode⟩ := List.map_eq_singleton_iff.mp hsentence
    have hrenders := renders_of_rendersAll_singleton hother
    obtain ⟨_, hclause⟩ := halternate node List.mem_cons_self hothers.1 written hrenders
    obtain ⟨clause, hotherwise⟩ := hclause hnode
    refine ⟨.alternativeSentence e statements clause, ?_, ?_, hwrite.apart, hotherwise.apart⟩
    · rw [Clause.kinds, he.tokens, hwrite.braces, hotherwise.tokens]
    · rw [Clause.meaning, he.value, hwrite.bodyMeaning, hotherwise.meaning]
      rfl

theorem derivable_bare {node : Node} (hnode : node.IsStatement → node.IsExpression)
    (hrenders : ∀ kinds, node.Renders kinds → kinds = node.slotKinds) : node.Derivable := by
  apply Derivable.of_sentence
  intro h kinds hkinds
  obtain ⟨e, he⟩ := exists_slot node (hnode h)
  refine ⟨.bare e, ?_, he.statements, trivial⟩
  rw [Clause.kinds, he.tokens, hrenders kinds hkinds]

theorem derivable (node : Node) : node.Derivable := by
  induction node using inner_induction with
  | step node ih =>
      cases node with
      | program body => exact fun h => absurd h id
      | function name params body => exact derivable_function name params ih
      | variableDeclaration kind name value => exact derivable_variableDeclaration kind name value
      | classDeclaration name parent body => exact derivable_classDeclaration name parent ih
      | enumDeclaration name values => exact derivable_enumDeclaration name values
      | staticMethod className method body => exact derivable_staticMethod className method ih
      | alternative condition consequent alternate =>
          simp only [Node.inner, List.mem_append] at ih
          have hconsequent : ∀ node ∈ consequent, node.Derivable :=
            fun node hmem => ih node (.inl hmem)
          cases alternate with
          | none => exact derivable_alternative condition hconsequent
          | some body =>
              exact derivable_alternative_otherwise condition hconsequent
                fun node hmem => ih node (.inr hmem)
      | distinguish subject cases => exact derivable_distinguish subject ih
      | loop condition body => exact derivable_loop condition ih
      | attempt body caught handler =>
          simp only [Node.inner, List.mem_append] at ih
          exact derivable_attempt caught (fun node hmem => ih node (.inl hmem))
            fun node hmem => ih node (.inr hmem)
      | importing moduleName => exact derivable_importing moduleName
      | exporting name value => exact derivable_exporting name value
      | giveBack value => exact derivable_giveBack value
      | throwUp value => exact derivable_throwUp value
      | inspectType value typeName => exact derivable_inspectType value typeName
      | call _ _ | create _ | binary _ _ _ | identifier _ | literal _ =>
          exact derivable_bare id fun _ h => h

/-- Every program can be written down, and each way to write it is read back
and lowered to the same statements. -/
theorem ofPhrase_program_render {statements : List Node} (h : AreStatements statements) :
    (∃ kinds, RendersAll statements kinds) ∧
    ∀ stream : TokenStream, RendersAll statements stream.kinds →
      ∃ phrase rest, Parse.program stream = .ok phrase rest ∧
        Node.ofPhrase phrase = .ok (.program statements) := by
  refine ⟨exists_rendersAll (fun node _ => exists_renders node) h, ?_⟩
  intro stream hrenders
  obtain ⟨program, hwrite⟩ := exists_statements (fun node _ => derivable node) h hrenders
  obtain ⟨rest, hrest⟩ := Parse.program_accepts hwrite.apart hwrite.tokens.symm
  refine ⟨Program.phrase program, rest, hrest, ?_⟩
  rw [Program.ofPhrase_phrase, Program.node, hwrite.meaning]

/-- A comparison with a negative number, a call that is given back, and an
alternate of one sentence. -/
def comparedAndCalled : List Node :=
  [.alternative (.binary .lt (.identifier "x") (.literal (.number (-1))))
    [.giveBack (.call "f" [.identifier "x"])] (some [.identifier "x"])]

/-- The tokens of `(x < (- 1)) なら { (x) を f を 返却 } 他 x`. -/
def comparedAndCalledStream : TokenStream where
  tokens :=
    [⟨.symbol .leftParen, ⟨1, 1⟩⟩, ⟨.word "x", ⟨1, 2⟩⟩, ⟨.symbol (.operator .lt), ⟨1, 4⟩⟩,
      ⟨.symbol .leftParen, ⟨1, 6⟩⟩, ⟨.symbol (.operator .sub), ⟨1, 7⟩⟩, ⟨.number 1, ⟨1, 9⟩⟩,
      ⟨.symbol .rightParen, ⟨1, 10⟩⟩, ⟨.symbol .rightParen, ⟨1, 11⟩⟩, ⟨.keyword .ifThen, ⟨1, 13⟩⟩,
      ⟨.symbol .leftBrace, ⟨1, 16⟩⟩, ⟨.symbol .leftParen, ⟨1, 18⟩⟩, ⟨.word "x", ⟨1, 19⟩⟩,
      ⟨.symbol .rightParen, ⟨1, 20⟩⟩, ⟨.keyword .object, ⟨1, 22⟩⟩, ⟨.word "f", ⟨1, 24⟩⟩,
      ⟨.keyword .object, ⟨1, 26⟩⟩, ⟨.keyword .giveBack, ⟨1, 28⟩⟩, ⟨.symbol .rightBrace, ⟨1, 31⟩⟩,
      ⟨.keyword .otherwise, ⟨1, 33⟩⟩, ⟨.word "x", ⟨1, 35⟩⟩]
  stop := ⟨1, 36⟩

theorem ofPhrase_program_render_comparedAndCalled :
    AreStatements comparedAndCalled ∧
    RendersAll comparedAndCalled comparedAndCalledStream.kinds ∧
    ∃ phrase rest, Parse.program comparedAndCalledStream = .ok phrase rest ∧
      Node.ofPhrase phrase = .ok (.program comparedAndCalled) := by
  have hx : Word.isName "x" = true := by decide
  have hf : Word.isName "f" = true := by decide
  have hstatements : AreStatements comparedAndCalled :=
    ⟨⟨⟨hx, trivial⟩, ⟨⟨hf, hx, trivial⟩, trivial⟩, hx, trivial⟩, trivial⟩
  have hnumber : operandKinds (.literal (.number (-1))) =
      bracketKinds [[.symbol (.operator .sub), .number 1]] := by
    have hsigned : signed (-1) = true := by decide +kernel
    rw [operandKinds, if_pos hsigned, Negation.neg_neg]
  have hcondition : slotKinds (.binary .lt (.identifier "x") (.literal (.number (-1)))) =
      bracketKinds [.word "x" :: .symbol (.operator .lt) ::
        bracketKinds [[.symbol (.operator .sub), .number 1]]] := by
    rw [← hnumber]
    rfl
  have hrenders : RendersAll comparedAndCalled comparedAndCalledStream.kinds := by
    refine ⟨_, [], ⟨_, _, _, ⟨_, [], rfl, rfl, rfl⟩, ⟨_, [], rfl, rfl, rfl⟩, .inr ⟨rfl, rfl⟩, rfl⟩,
      rfl, ?_⟩
    rw [hcondition]
    rfl
  obtain ⟨_, hread⟩ := ofPhrase_program_render hstatements
  exact ⟨hstatements, hrenders, hread comparedAndCalledStream hrenders⟩

end Node

end Wabun
