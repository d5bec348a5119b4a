import Wabun.Proofs.Concrete

/-!
The syntax trees of the source language and the ways to write them down. Every
expression is written with all its brackets, so there is one way to write it.
A statement can be written in several ways, because an alternate of one
sentence may do without its braces, in each place anew.
-/

namespace Wabun.Node

open Token (Kind)
open Concrete (bracketKinds)

mutual

/-- The expressions of the source language. -/
def IsExpression : Node → Prop
  | .literal _ => True
  | .identifier name => Word.isName name = true
  | .create className => Word.isName className = true
  | .binary _ left right => left.IsExpression ∧ right.IsExpression
  | .call callee args => Word.isName callee = true ∧ AreExpressions args
  | _ => False

def AreExpressions : List Node → Prop
  | [] => True
  | node :: rest => node.IsExpression ∧ AreExpressions rest

end

def IsSlot : Option Node → Prop
  | none => True
  | some node => node.IsExpression

def AreNames (names : List String) : Prop :=
  ∀ name ∈ names, Word.isName name = true

mutual

/-- The statements of the source language. The name of a static method is what
stands behind the last dot of its path. -/
def IsStatement : Node → Prop
  | .program _ => False
  | .function name params body =>
    Word.isName name = true ∧ AreNames params ∧ AreStatements body
  | .variableDeclaration _ name value => Word.isName name = true ∧ value.IsExpression
  | .classDeclaration name parent body =>
    Word.isName name = true ∧ AreNames parent.toList ∧ AreStatements body
  | .enumDeclaration name values => Word.isName name = true ∧ AreNames values
  | .staticMethod className method body =>
    Word.isName className = true ∧ Word.isName method = true ∧ '.' ∉ method.toList ∧
      AreStatements body
  | .alternative condition consequent alternate =>
    condition.IsExpression ∧ AreStatements consequent ∧ IsAlternate alternate
  | .distinguish subject cases => subject.IsExpression ∧ AreCases cases
  | .loop condition body => condition.IsExpression ∧ AreStatements body
  | .attempt body caught handler =>
    AreStatements body ∧ Word.isName caught = true ∧ AreStatements handler
  | .importing _ => True
  | .exporting name value => Word.isName name = true ∧ value.IsExpression
  | .giveBack value => value.IsExpression
  | .throwUp value => value.IsExpression
  | .inspectType value typeName => value.IsExpression ∧ Word.isName typeName = true
  | .call callee args => (Node.call callee args).IsExpression
  | .create className => (Node.create className).IsExpression
  | .binary operator left right => (Node.binary operator left right).IsExpression
  | .identifier name => (Node.identifier name).IsExpression
  | .literal value => (Node.literal value).IsExpression

def AreStatements : List Node → Prop
  | [] => True
  | node :: rest => node.IsStatement ∧ AreStatements rest

def IsAlternate : Option (List Node) → Prop
  | none => True
  | some body => AreStatements body

def IsCase : PatternCase → Prop
  | .mk pattern guard body => IsSlot pattern ∧ IsSlot guard ∧ AreStatements body

def AreCases : List PatternCase → Prop
  | [] => True
  | case :: rest => IsCase case ∧ AreCases rest

end

/-- Whether the first bit of a number is its sign. -/
def signed (x : Float) : Bool :=
  x.toBits >>> 63 == 1

mutual

/-- An expression as an operand or as an argument. -/
def operandKinds : Node → List Kind
  | .literal (.number x) =>
    if signed x then
      bracketKinds [[.symbol (.operator .sub), .number (-x)]]
    else
      [.number x]
  | .literal (.text value) => [.text value]
  | .literal (.truth value) => [.truth value]
  | .identifier name => [.word name]
  | .create className => [.keyword .create, .word className]
  | .binary operator left right =>
    bracketKinds [left.operandKinds ++ .symbol (.operator operator) :: right.operandKinds]
  | .call callee args =>
    bracketKinds [bracketKinds (operandKindsOfAll args) ++ [.keyword .object, .word callee]]
  | _ => []

def operandKindsOfAll : List Node → List (List Kind)
  | [] => []
  | node :: rest => node.operandKinds :: operandKindsOfAll rest

end

/-- An expression in a place of its own, where a call needs no brackets. -/
def slotKinds : Node → List Kind
  | .call callee args =>
    bracketKinds (operandKindsOfAll args) ++ [.keyword .object, .word callee]
  | node => node.operandKinds

def inBraces (inner : List Kind) : List Kind :=
  .symbol .leftBrace :: inner ++ [.symbol .rightBrace]

def wordKinds (words : List String) : List Kind :=
  bracketKinds (words.map fun word => [.word word])

def parentKinds : Option String → List Kind
  | none => []
  | some parent => [.keyword .inherits, .word parent]

def patternKinds : Option Node → List Kind
  | none => [.keyword .otherwise]
  | some pattern => pattern.slotKinds ++ [.keyword .caseOf]

def guardKinds : Option Node → List Kind
  | none => []
  | some guard => .keyword .provided :: guard.slotKinds

/-- Whether a statement is written with an expression at its head. -/
def isSentence : Node → Bool
  | .alternative .. | .distinguish .. | .loop .. | .giveBack _ | .throwUp _ | .call .. | .create _
  | .binary .. | .identifier _ | .literal _ => true
  | _ => false

mutual

/-- The tokens write down the statement. -/
def Renders : Node → List Kind → Prop
  | .program _, _ => False
  | .function name params body, kinds => ∃ inner, RendersAll body inner ∧
    kinds = .keyword .function :: .word name :: wordKinds params ++ inBraces inner
  | .variableDeclaration kind name value, kinds =>
    kinds = .keyword kind.keyword :: .word name :: .keyword .topic :: value.slotKinds
  | .classDeclaration name parent body, kinds => ∃ inner, RendersAll body inner ∧
    kinds = .keyword .classOf :: .word name :: parentKinds parent ++ inBraces inner
  | .enumDeclaration name values, kinds =>
    kinds = .keyword .enumerate :: .word name ::
      inBraces (List.intersperse (.symbol .comma) (values.map .word))
  | .staticMethod className method body, kinds => ∃ inner, RendersAll body inner ∧
    kinds = .keyword .static :: .word (className ++ "." ++ method) :: inBraces inner
  | .alternative condition consequent none, kinds => ∃ inner, RendersAll consequent inner ∧
    kinds = condition.slotKinds ++ .keyword .ifThen :: inBraces inner
  | .alternative condition consequent (some alternate), kinds =>
    ∃ inner other written, RendersAll consequent inner ∧ RendersAll alternate other ∧
      (written = inBraces other ∨ alternate.map isSentence = [true] ∧ written = other) ∧
      kinds = condition.slotKinds ++ .keyword .ifThen :: inBraces inner ++
        .keyword .otherwise :: written
  | .distinguish subject cases, kinds => ∃ inner, RendersCases cases inner ∧
    kinds = subject.slotKinds ++ .keyword .object :: .keyword .distinguish :: inBraces inner
  | .loop condition body, kinds => ∃ inner, RendersAll body inner ∧
    kinds = condition.slotKinds ++ .keyword .loop :: inBraces inner
  | .attempt body caught handler, kinds =>
    ∃ inner other, RendersAll body inner ∧ RendersAll handler other ∧
      kinds = .keyword .attempt :: inBraces inner ++ .keyword .rescue :: wordKinds [caught] ++
        inBraces other
  | .importing moduleName, kinds => kinds = [.keyword .importing, .text moduleName]
  | .exporting name value, kinds =>
    kinds = .keyword .exporting :: .word name :: .keyword .topic :: value.slotKinds
  | .giveBack value, kinds => kinds = value.slotKinds ++ [.keyword .object, .keyword .giveBack]
  | .throwUp value, kinds => kinds = value.slotKinds ++ [.keyword .object, .keyword .throwUp]
  | .inspectType value typeName, kinds =>
    kinds = .keyword .inspectType :: value.slotKinds ++ [.keyword .topic, .word typeName]
  | .call callee args, kinds => kinds = (Node.call callee args).slotKinds
  | .create className, kinds => kinds = (Node.create className).slotKinds
  | .binary operator left right, kinds => kinds = (Node.binary operator left right).slotKinds
  | .identifier name, kinds => kinds = (Node.identifier name).slotKinds
  | .literal value, kinds => kinds = (Node.literal value).slotKinds

/-- The tokens write down the statements one after another. -/
def RendersAll : List Node → List Kind → Prop
  | [], kinds => kinds = []
  | node :: rest, kinds =>
    ∃ first others, node.Renders first ∧ RendersAll rest others ∧ kinds = first ++ others

def RendersCase : PatternCase → List Kind → Prop
  | .mk pattern guard body, kinds => ∃ inner, RendersAll body inner ∧
    kinds = patternKinds pattern ++ guardKinds guard ++ inBraces inner

def RendersCases : List PatternCase → List Kind → Prop
  | [], kinds => kinds = []
  | case :: rest, kinds =>
    ∃ first others, RendersCase case first ∧ RendersCases rest others ∧ kinds = first ++ others

end

/-- The operands of an expression and the statements in the bodies of a
statement: what a node has of its own sort. -/
def inner : Node → List Node
  | .program body => body
  | .function _ _ body | .classDeclaration _ _ body | .staticMethod _ _ body | .loop _ body => body
  | .alternative _ consequent alternate => consequent ++ alternate.getD []
  | .distinguish _ cases => cases.flatMap PatternCase.body
  | .attempt body _ handler => body ++ handler
  | .call _ args => args
  | .binary _ left right => [left, right]
  | _ => []

theorem sizeOf_body_lt (case : PatternCase) : sizeOf case.body < sizeOf case := by
  cases case with
  | mk pattern guard body =>
      simp only [PatternCase.body, PatternCase.mk.sizeOf_spec]
      omega

theorem sizeOf_lt_of_mem_inner {node child : Node} (h : child ∈ node.inner) :
    sizeOf child < sizeOf node := by
  cases node with
  | program body =>
      have hlt : sizeOf child < sizeOf body := List.sizeOf_lt_of_mem h
      simp only [program.sizeOf_spec]
      omega
  | function name other body | classDeclaration name other body | staticMethod name other body =>
      have hlt : sizeOf child < sizeOf body := List.sizeOf_lt_of_mem h
      simp only [function.sizeOf_spec, classDeclaration.sizeOf_spec, staticMethod.sizeOf_spec]
      omega
  | loop condition body =>
      have hlt : sizeOf child < sizeOf body := List.sizeOf_lt_of_mem h
      simp only [loop.sizeOf_spec]
      omega
  | call callee args =>
      have hlt : sizeOf child < sizeOf args := List.sizeOf_lt_of_mem h
      simp only [call.sizeOf_spec]
      omega
  | alternative condition consequent alternate =>
      simp only [alternative.sizeOf_spec]
      rcases List.mem_append.mp h with hmem | hmem
      · have hlt := List.sizeOf_lt_of_mem hmem
        omega
      · cases alternate with
        | none => exact absurd hmem List.not_mem_nil
        | some body =>
            have hlt : sizeOf child < sizeOf body := List.sizeOf_lt_of_mem hmem
            simp only [Option.some.sizeOf_spec]
            omega
  | distinguish subject cases =>
      obtain ⟨case, hcase, hmem⟩ := List.mem_flatMap.mp h
      have hchild := List.sizeOf_lt_of_mem hmem
      have hbody := sizeOf_body_lt case
      have hcases := List.sizeOf_lt_of_mem hcase
      simp only [distinguish.sizeOf_spec]
      omega
  | attempt body caught handler =>
      simp only [attempt.sizeOf_spec]
      rcases List.mem_append.mp h with hmem | hmem
      · have hlt := List.sizeOf_lt_of_mem hmem
        omega
      · have hlt := List.sizeOf_lt_of_mem hmem
        omega
  | binary operator left right =>
      have hside : child = left ∨ child = right := by simpa [inner] using h
      simp only [binary.sizeOf_spec]
      rcases hside with rfl | rfl
      · omega
      · omega
  | _ => exact absurd h List.not_mem_nil

/-- What holds of a node once it holds of its operands and of the statements in
its bodies holds of every node. -/
theorem inner_induction {motive : Node → Prop}
    (step : ∀ node, (∀ child ∈ node.inner, motive child) → motive node) (node : Node) :
    motive node :=
  step node fun child _ => inner_induction step child
termination_by sizeOf node
decreasing_by exact sizeOf_lt_of_mem_inner ‹_›

theorem exists_rendersAll {body : List Node}
    (hbody : ∀ node ∈ body, node.IsStatement → ∃ kinds, node.Renders kinds)
    (h : AreStatements body) : ∃ kinds, RendersAll body kinds := by
  induction body with
  | nil => exact ⟨[], rfl⟩
  | cons node rest ih =>
      obtain ⟨first, hfirst⟩ := hbody node List.mem_cons_self h.1
      obtain ⟨others, hothers⟩ :=
        ih (fun other hmem => hbody other (List.mem_cons_of_mem node hmem)) h.2
      exact ⟨first ++ others, first, others, hfirst, hothers, rfl⟩

theorem exists_rendersCases {cases : List PatternCase}
    (hcases : ∀ node ∈ cases.flatMap PatternCase.body, node.IsStatement →
      ∃ kinds, node.Renders kinds)
    (h : AreCases cases) : ∃ kinds, RendersCases cases kinds := by
  induction cases with
  | nil => exact ⟨[], rfl⟩
  | cons case rest ih =>
      obtain ⟨pattern, guard, body⟩ := case
      simp only [List.flatMap_cons, List.mem_append] at hcases
      obtain ⟨inner, hinner⟩ :=
        exists_rendersAll (fun node hmem => hcases node (.inl hmem)) h.1.2.2
      obtain ⟨others, hothers⟩ := ih (fun node hmem => hcases node (.inr hmem)) h.2
      exact ⟨_, _, others, ⟨inner, hinner, rfl⟩, hothers, rfl⟩

/-- Every statement can be written down. -/
theorem exists_renders (node : Node) (h : node.IsStatement) : ∃ kinds, node.Renders kinds := by
  induction node using inner_induction with
  | step node ih =>
      cases node with
      | program body => exact absurd h id
      | function name params body =>
          obtain ⟨inner, hinner⟩ := exists_rendersAll ih h.2.2
          exact ⟨_, inner, hinner, rfl⟩
      | classDeclaration name parent body =>
          obtain ⟨inner, hinner⟩ := exists_rendersAll ih h.2.2
          exact ⟨_, inner, hinner, rfl⟩
      | staticMethod className method body =>
          obtain ⟨inner, hinner⟩ := exists_rendersAll ih h.2.2.2
          exact ⟨_, inner, hinner, rfl⟩
      | loop condition body =>
          obtain ⟨inner, hinner⟩ := exists_rendersAll ih h.2
          exact ⟨_, inner, hinner, rfl⟩
      | alternative condition consequent alternate =>
          simp only [Node.inner, List.mem_append] at ih
          obtain ⟨inner, hinner⟩ := exists_rendersAll (fun node hmem => ih node (.inl hmem)) h.2.1
          cases alternate with
          | none => exact ⟨_, inner, hinner, rfl⟩
          | some body =>
              obtain ⟨other, hother⟩ :=
                exists_rendersAll (fun node hmem => ih node (.inr hmem)) h.2.2
              exact ⟨_, inner, other, inBraces other, hinner, hother, .inl rfl, rfl⟩
      | distinguish subject cases =>
          obtain ⟨inner, hinner⟩ := exists_rendersCases ih h.2
          exact ⟨_, inner, hinner, rfl⟩
      | attempt body caught handler =>
          simp only [Node.inner, List.mem_append] at ih
          obtain ⟨inner, hinner⟩ := exists_rendersAll (fun node hmem => ih node (.inl hmem)) h.1
          obtain ⟨other, hother⟩ := exists_rendersAll (fun node hmem => ih node (.inr hmem)) h.2.2
          exact ⟨_, inner, other, hinner, hother, rfl⟩
      | _ => exact ⟨_, rfl⟩

end Wabun.Node
