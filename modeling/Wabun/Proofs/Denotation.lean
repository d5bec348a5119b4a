import Wabun.Node.Lowering
import Wabun.Proofs.Concrete

/-!
What a derivation means, production by production. Nothing is recognized here:
each constructor of the grammar has its nodes, made from what its parts mean.
The faults that remain are those of the meaning itself, such as brackets with
several values where one is needed, and they come up in the order in which the
parts of each construct are read.
-/

namespace Wabun

namespace Meaning

/-- The nodes of some parts, one after another. -/
def gather {α : Type} (nodes : α → Meaning (List Node)) : List α → Meaning (List Node)
  | [] => .ok []
  | part :: rest => do
    let first ← nodes part
    let others ← gather nodes rest
    return first ++ others

end Meaning

namespace Concrete

/-- What an expression means in each of the places where it can stand. -/
structure Readings where
  /-- where one value is needed -/
  node : Meaning Node
  /-- before the name of a function -/
  arguments : Meaning (List Node)
  /-- in a list of statements -/
  statements : Meaning (List Node)

namespace Readings

/-- Outside of brackets an expression is one node wherever it stands. -/
def single (meaning : Meaning Node) : Readings where
  node := meaning
  arguments := do return [← meaning]
  statements := do return [← meaning]

/-- Brackets are one value if they hold one, the arguments if they stand before
a function, and a run of statements in a body. -/
def brackets (items : List Readings) : Readings where
  node :=
    match items with
    | [item] => item.node
    | _ => .error (.bracketed items.length)
  arguments := items.mapM node
  statements := Meaning.gather statements items

end Readings

namespace Expression

mutual

def readings : {rank : Rank} → Expression rank → Readings
  | _, .text value => .single (.ok (.literal (.text value)))
  | _, .truth value => .single (.ok (.literal (.truth value)))
  | _, .named name => .single (.ok (.identifier name.text))
  | _, .creation className => .single (.ok (.create className.text))
  | _, .bracketed items => .brackets (readingsOfAll items)
  | _, .negative magnitude => .single (.ok (.literal (.number (-magnitude))))
  | _, .minus inner =>
    .single do return .binary .sub (.literal (.number 0)) (← inner.readings.node)
  | _, .number value => .single (.ok (.literal (.number value)))
  | _, .operand inner => inner.readings
  | _, .single _ inner => inner.readings
  | _, .joined _ operator _ left right =>
    .single do return .binary operator (← left.readings.node) (← right.readings.node)
  | _, .plain inner => inner.readings
  | _, .call argument callee =>
    .single do return .call callee.text (← argument.readings.arguments)

def readingsOfAll : List (Expression .chain) → List Readings
  | [] => []
  | item :: rest => item.readings :: readingsOfAll rest

end

@[simp]
theorem readingsOfAll_eq_map (items : List (Expression .chain)) :
    readingsOfAll items = items.map readings := by
  induction items with
  | nil => rfl
  | cons item rest ih => rw [readingsOfAll, ih, List.map_cons]

/-- An expression where one value is needed. -/
def node {rank : Rank} (e : Expression rank) : Meaning Node := e.readings.node

end Expression

/-- What a clause of each part contributes to the tree. -/
abbrev Part.Result : Part → Type
  | .statement => List Node
  | .sentence => List Node
  | .patternCase => PatternCase

namespace Clause

mutual

def meaning : {part : Part} → Clause part → Meaning part.Result
  | _, .function name params body => do
    let body ← bodyMeaning body
    return [.function name.text (params.map Name.text) body]
  | _, .declaration kind name value => do
    let value ← value.node
    return [.variableDeclaration kind name.text value]
  | _, .classDeclaration name parent body => do
    let body ← bodyMeaning body
    return [.classDeclaration name.text (parent.map Name.text) body]
  | _, .enumDeclaration name items =>
    .ok [.enumDeclaration name.text ((items.filterMap id).map Name.text)]
  | _, .staticMethod path body =>
    match Path.splitLast? path.text with
    | some (className, method) => do
      let body ← bodyMeaning body
      return [.staticMethod className method body]
    | none => .error (.staticPath path.text)
  | _, .attempt body caught handler =>
    match caught with
    | [caught] => do
      let body ← bodyMeaning body
      let handler ← bodyMeaning handler
      return [.attempt body caught.text handler]
    | _ => .error (.caughtNames caught.length)
  | _, .importText moduleName => .ok [.importing moduleName]
  | _, .importName moduleName => .ok [.importing moduleName.text]
  | _, .exporting name value => do
    let value ← value.node
    return [.exporting name.text value]
  | _, .typeInspection value typeName => do
    let value ← value.node
    return [.inspectType value typeName.text]
  | _, .sentence inner => inner.meaning
  | _, .bare value => value.readings.statements
  | _, .giveBack value => do
    let value ← value.node
    return [.giveBack value]
  | _, .throwUp value => do
    let value ← value.node
    return [.throwUp value]
  | _, .distinction subject cases => do
    let cases ← casesMeaning cases
    let subject ← subject.node
    return [.distinguish subject cases]
  | _, .loop condition body => do
    let condition ← condition.node
    let body ← bodyMeaning body
    return [.loop condition body]
  | _, .alternative condition consequent => do
    let condition ← condition.node
    let consequent ← bodyMeaning consequent
    return [.alternative condition consequent none]
  | _, .alternativeBlock condition consequent alternate => do
    let alternate ← bodyMeaning alternate
    let condition ← condition.node
    let consequent ← bodyMeaning consequent
    return [.alternative condition consequent (some alternate)]
  | _, .alternativeSentence condition consequent alternate => do
    let alternate ← alternate.meaning
    let condition ← condition.node
    let consequent ← bodyMeaning consequent
    return [.alternative condition consequent (some alternate)]
  | _, .patternCase pattern guard body => do
    let pattern ← pattern.mapM Expression.node
    let guard ← guard.mapM Expression.node
    let body ← bodyMeaning body
    return .mk pattern guard body

def bodyMeaning : List (Clause .statement) → Meaning (List Node)
  | [] => .ok []
  | statement :: rest => do
    let first ← statement.meaning
    let others ← bodyMeaning rest
    return first ++ others

def casesMeaning : List (Clause .patternCase) → Meaning (List PatternCase)
  | [] => .ok []
  | case :: rest => do
    let first ← case.meaning
    let others ← casesMeaning rest
    return first :: others

end

@[simp]
theorem bodyMeaning_eq_gather (body : List (Clause .statement)) :
    bodyMeaning body = Meaning.gather meaning body := by
  induction body with
  | nil => rfl
  | cons statement rest ih => rw [bodyMeaning, ih, Meaning.gather]

@[simp]
theorem casesMeaning_eq_mapM (cases : List (Clause .patternCase)) :
    casesMeaning cases = cases.mapM meaning := by
  induction cases with
  | nil => rfl
  | cons case rest ih => rw [casesMeaning, ih, List.mapM_cons]

end Clause

/-- The program that a derivation means. -/
def Program.node (program : Program) : Except Diagnostic Node :=
  match Meaning.gather Clause.meaning program with
  | .ok statements => .ok (.program statements)
  | .error fault => .error (.ofMeaning fault.message)

end Concrete

end Wabun
