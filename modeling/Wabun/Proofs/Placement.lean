import Wabun.Proofs.Calculus
import Wabun.Proofs.Content

/-!
Where nodes stand in the program of a text. Nodes have places for expressions and places
for statements, and the type of nodes does not keep them apart. The grammar does: it has
no production by which a statement comes to stand where a value is needed, nor one for a
program inside of a program. So what holds of the meaning of every production holds of
every text that has a program.
-/

namespace Wabun

namespace Node

/-- A node is part of another one if it is that node itself, or part of what stands in one
of its places or as a statement in one of its bodies. -/
inductive Within : Node → Node → Prop
  | refl (node : Node) : Within node node
  | slot {inner part outer : Node} : Within inner part → part ∈ outer.slots → Within inner outer
  | body {inner part outer : Node} {body : List Node} : Within inner part → part ∈ body →
    body ∈ outer.bodies → Within inner outer

/-- In a node and all its parts, what stands where a value is needed is an expression, and
nothing is a program. -/
structure IsPlaced (node : Node) : Prop where
  slots : ∀ inner : Node, inner.Within node → ∀ slot ∈ inner.slots, Run.isExpression slot = true
  noProgram : ∀ inner : Node, inner.Within node → ∀ statements, inner ≠ .program statements

/-- Every statement of a body is placed. -/
def AllPlaced (body : List Node) : Prop :=
  ∀ node ∈ body, node.IsPlaced

/-- An expression in which all is placed. -/
structure IsOperand (node : Node) : Prop where
  isExpression : Run.isExpression node = true
  isPlaced : node.IsPlaced

section Parts

variable {node : Node}

theorem IsPlaced.operand (h : node.IsPlaced) {slot : Node} (hslot : slot ∈ node.slots) :
    slot.IsOperand where
  isExpression := h.slots node (.refl node) slot hslot
  isPlaced := by
    constructor
    · exact fun inner hinner => h.slots inner (.slot hinner hslot)
    · exact fun inner hinner => h.noProgram inner (.slot hinner hslot)

theorem IsPlaced.body (h : node.IsPlaced) {body : List Node} (hbody : body ∈ node.bodies) :
    AllPlaced body := by
  intro part hpart
  constructor
  · exact fun inner hinner => h.slots inner (.body hinner hpart hbody)
  · exact fun inner hinner => h.noProgram inner (.body hinner hpart hbody)

/-- A node is placed if its parts are. -/
theorem IsPlaced.of_parts (hslots : ∀ slot ∈ node.slots, slot.IsOperand)
    (hbodies : ∀ body ∈ node.bodies, AllPlaced body)
    (hprogram : ∀ statements, node ≠ .program statements) : node.IsPlaced := by
  constructor
  · intro inner hinner
    cases hinner with
    | refl => exact fun slot hslot => (hslots slot hslot).isExpression
    | slot hpart hslot => exact (hslots _ hslot).isPlaced.slots inner hpart
    | body hpart hmem hbody => exact (hbodies _ hbody _ hmem).slots inner hpart
  · intro inner hinner
    cases hinner with
    | refl => exact hprogram
    | slot hpart hslot => exact (hslots _ hslot).isPlaced.noProgram inner hpart
    | body hpart hmem hbody => exact (hbodies _ hbody _ hmem).noProgram inner hpart

theorem IsPlaced.of_slots (hslots : ∀ slot ∈ node.slots, slot.IsOperand)
    (hbodies : node.bodies = []) (hprogram : ∀ statements, node ≠ .program statements) :
    node.IsPlaced := by
  apply of_parts hslots _ hprogram
  rw [hbodies]
  exact fun _ hbody => absurd hbody List.not_mem_nil

theorem IsPlaced.of_bodies (hbodies : ∀ body ∈ node.bodies, AllPlaced body)
    (hslots : node.slots = []) (hprogram : ∀ statements, node ≠ .program statements) :
    node.IsPlaced := by
  apply of_parts _ hbodies hprogram
  rw [hslots]
  exact fun _ hslot => absurd hslot List.not_mem_nil

theorem allPlaced_singleton (h : node.IsPlaced) : AllPlaced [node] := by
  simpa [AllPlaced] using h

theorem isOperand_literal (value : Literal) : (literal value).IsOperand :=
  ⟨rfl, .of_slots (by simp [slots]) rfl (by simp)⟩

theorem isOperand_binary (operator : Operator) {left right : Node} (hleft : left.IsOperand)
    (hright : right.IsOperand) : (binary operator left right).IsOperand :=
  ⟨rfl, .of_slots (by simp [slots, hleft, hright]) rfl (by simp)⟩

theorem isOperand_call (callee : String) {args : List Node} (h : ∀ arg ∈ args, arg.IsOperand) :
    (call callee args).IsOperand :=
  ⟨rfl, .of_slots h rfl (by simp)⟩

end Parts

end Node

namespace Meaning

variable {α β : Type}

theorem forall_of_mapM {action : α → Meaning β} {holds : β → Prop} {items : List α}
    {results : List β} (h : items.mapM action = .ok results)
    (hitems : ∀ item ∈ items, ∀ result, action item = .ok result → holds result) :
    ∀ result ∈ results, holds result := by
  induction items generalizing results with
  | nil =>
      cases h
      exact fun _ hmem => absurd hmem List.not_mem_nil
  | cons item rest ih =>
      rw [List.mapM_cons] at h
      obtain ⟨first, hfirst, h⟩ := exists_of_bind h
      obtain ⟨others, hothers, h⟩ := exists_of_bind h
      cases h
      rw [List.forall_mem_cons]
      constructor
      · exact hitems item List.mem_cons_self first hfirst
      · exact ih hothers fun other hmem => hitems other (List.mem_cons_of_mem item hmem)

theorem forall_of_gather {nodes : α → Meaning (List Node)} {holds : Node → Prop}
    {parts : List α} {results : List Node} (h : gather nodes parts = .ok results)
    (hparts : ∀ part ∈ parts, ∀ run, nodes part = .ok run → ∀ node ∈ run, holds node) :
    ∀ node ∈ results, holds node := by
  induction parts generalizing results with
  | nil =>
      cases h
      exact fun _ hmem => absurd hmem List.not_mem_nil
  | cons part rest ih =>
      obtain ⟨first, hfirst, h⟩ := exists_of_bind h
      obtain ⟨others, hothers, h⟩ := exists_of_bind h
      cases h
      rw [List.forall_mem_append]
      constructor
      · exact hparts part List.mem_cons_self first hfirst
      · exact ih hothers fun other hmem => hparts other (List.mem_cons_of_mem part hmem)

end Meaning

namespace Concrete

open Node (IsPlaced IsOperand AllPlaced)

/-- In each of the places where an expression can stand, its nodes are operands. -/
structure Readings.Placed (readings : Readings) : Prop where
  node : ∀ node, readings.node = .ok node → node.IsOperand
  arguments : ∀ nodes, readings.arguments = .ok nodes → ∀ node ∈ nodes, node.IsOperand
  statements : ∀ nodes, readings.statements = .ok nodes → ∀ node ∈ nodes, node.IsOperand

namespace Readings.Placed

theorem single {meaning : Meaning Node} (h : ∀ node, meaning = .ok node → node.IsOperand) :
    (Readings.single meaning).Placed := by
  have hlist : ∀ nodes, (do return [← meaning] : Meaning (List Node)) = .ok nodes →
      ∀ node ∈ nodes, node.IsOperand := by
    intro nodes hnodes
    obtain ⟨node, hnode, hnodes⟩ := Meaning.exists_of_bind hnodes
    cases hnodes
    simpa using h node hnode
  exact ⟨h, hlist, hlist⟩

theorem of_ok {node : Node} (h : node.IsOperand) : (Readings.single (.ok node)).Placed := by
  apply single
  rintro _ ⟨⟩
  exact h

end Readings.Placed

namespace Expression

theorem placed_brackets {items : List (Expression .chain)}
    (h : ∀ item ∈ items, item.readings.Placed) :
    (Readings.brackets (items.map readings)).Placed where
  node node hnode := by
    cases items with
    | nil => cases hnode
    | cons item rest =>
        cases rest with
        | cons _ _ => cases hnode
        | nil => exact (h item List.mem_cons_self).node node hnode
  arguments nodes hnodes := by
    refine Meaning.forall_of_mapM hnodes ?_
    intro readings hmem
    obtain ⟨item, hitem, rfl⟩ := List.mem_map.mp hmem
    exact (h item hitem).node
  statements nodes hnodes := by
    refine Meaning.forall_of_gather hnodes ?_
    intro readings hmem
    obtain ⟨item, hitem, rfl⟩ := List.mem_map.mp hmem
    exact (h item hitem).statements

/-- An expression means operands only. -/
theorem placed {rank : Rank} (e : Expression rank) : e.readings.Placed := by
  induction e with
  | text value | truth value | number value | negative magnitude =>
      exact .of_ok (Node.isOperand_literal _)
  | named name | creation className =>
      exact .of_ok ⟨rfl, .of_slots (by simp [Node.slots]) rfl (by simp)⟩
  | bracketed items ih =>
      rw [readings, readingsOfAll_eq_map]
      exact placed_brackets ih
  | operand inner ih | single level inner ih | plain inner ih => exact ih
  | minus inner ih =>
      apply Readings.Placed.single
      intro node hnode
      obtain ⟨operand, hoperand, hnode⟩ := Meaning.exists_of_bind hnode
      cases hnode
      exact Node.isOperand_binary .sub (Node.isOperand_literal _) (ih.node operand hoperand)
  | joined level operator hlevel left right hleft hright =>
      apply Readings.Placed.single
      intro node hnode
      obtain ⟨first, hfirst, hnode⟩ := Meaning.exists_of_bind hnode
      obtain ⟨second, hsecond, hnode⟩ := Meaning.exists_of_bind hnode
      cases hnode
      exact Node.isOperand_binary operator (hleft.node first hfirst) (hright.node second hsecond)
  | call argument callee ih =>
      apply Readings.Placed.single
      intro node hnode
      obtain ⟨args, hargs, hnode⟩ := Meaning.exists_of_bind hnode
      cases hnode
      exact Node.isOperand_call callee.text (ih.arguments args hargs)

end Expression

/-- What a clause contributes is placed, whatever part it plays. -/
def Part.Placed : {part : Part} → part.Result → Prop
  | .statement, nodes => AllPlaced nodes
  | .sentence, nodes => AllPlaced nodes
  | .patternCase, candidate =>
    (∀ slot ∈ candidate.slots, slot.IsOperand) ∧ AllPlaced candidate.body

namespace Clause

def Placed {part : Part} (clause : Clause part) : Prop :=
  ∀ result, clause.meaning = .ok result → Part.Placed result

theorem placed_body {body : List Statement} (h : ∀ statement ∈ body, statement.Placed)
    {nodes : List Node} (hbody : bodyMeaning body = .ok nodes) : AllPlaced nodes := by
  rw [bodyMeaning_eq_gather] at hbody
  exact Meaning.forall_of_gather hbody h

section Productions

variable {value : Expression .chain} {body : List Statement} {nodes : List Node}

/-- A production with one value, which stands in the only place of its node. -/
theorem placed_value {make : Node → Node} (hslots : ∀ node, (make node).slots = [node])
    (hbodies : ∀ node, (make node).bodies = [])
    (hprogram : ∀ node statements, make node ≠ .program statements)
    (h : (value.node >>= fun node => pure [make node]) = .ok nodes) : AllPlaced nodes := by
  obtain ⟨node, hnode, h⟩ := Meaning.exists_of_bind h
  cases h
  have hvalue := value.placed.node node hnode
  apply Node.allPlaced_singleton
  apply IsPlaced.of_slots _ (hbodies node) (hprogram node)
  rw [hslots]
  simpa using hvalue

/-- A production with one block, which is the only body of its node. -/
theorem placed_block {make : List Node → Node} (hslots : ∀ body, (make body).slots = [])
    (hbodies : ∀ body, (make body).bodies = [body])
    (hprogram : ∀ body statements, make body ≠ .program statements)
    (hbody : ∀ statement ∈ body, statement.Placed)
    (h : (bodyMeaning body >>= fun body => pure [make body]) = .ok nodes) : AllPlaced nodes := by
  obtain ⟨inner, hinner, h⟩ := Meaning.exists_of_bind h
  cases h
  have hplaced := placed_body hbody hinner
  apply Node.allPlaced_singleton
  apply IsPlaced.of_bodies _ (hslots inner) (hprogram inner)
  rw [hbodies]
  simpa using hplaced

theorem placed_staticMethod (path : Name) (h : ∀ statement ∈ body, statement.Placed) :
    (staticMethod path body).Placed := by
  intro result hresult
  rw [meaning] at hresult
  cases hpath : Path.splitLast? path.text with
  | none =>
      rw [hpath] at hresult
      cases hresult
  | some parts =>
      rw [hpath] at hresult
      exact placed_block (fun _ => rfl) (fun _ => rfl) (by simp) h hresult

theorem placed_attempt {handler : List Statement} (caught : List Name)
    (hbody : ∀ statement ∈ body, statement.Placed)
    (hhandler : ∀ statement ∈ handler, statement.Placed) :
    (attempt body caught handler).Placed := by
  intro result hresult
  cases caught with
  | nil => cases hresult
  | cons name rest =>
      cases rest with
      | cons _ _ => cases hresult
      | nil =>
          obtain ⟨first, hfirst, hresult⟩ := Meaning.exists_of_bind hresult
          obtain ⟨second, hsecond, hresult⟩ := Meaning.exists_of_bind hresult
          cases hresult
          have hplaced := placed_body hbody hfirst
          have hplaced' := placed_body hhandler hsecond
          apply Node.allPlaced_singleton
          exact .of_bodies (by simp [Node.bodies, hplaced, hplaced']) rfl (by simp)

/-- A condition and what is run under it. -/
theorem placed_conditional {condition : Expression .chain} {node : Node} {make : Node}
    (hcondition : condition.node = .ok node) (hslots : make.slots = [node])
    (hbodies : ∀ body ∈ make.bodies, AllPlaced body)
    (hprogram : ∀ statements, make ≠ .program statements) : AllPlaced [make] := by
  have hvalue := condition.placed.node node hcondition
  apply Node.allPlaced_singleton
  apply IsPlaced.of_parts _ hbodies hprogram
  rw [hslots]
  simpa using hvalue

theorem placed_loop (condition : Expression .chain) (h : ∀ statement ∈ body, statement.Placed) :
    (loop condition body).Placed := by
  intro result hresult
  obtain ⟨node, hnode, hresult⟩ := Meaning.exists_of_bind hresult
  obtain ⟨inner, hinner, hresult⟩ := Meaning.exists_of_bind hresult
  cases hresult
  have hplaced := placed_body h hinner
  exact placed_conditional hnode rfl (by simp [Node.bodies, hplaced]) (by simp)

theorem placed_alternative (condition : Expression .chain)
    (h : ∀ statement ∈ body, statement.Placed) : (alternative condition body).Placed := by
  intro result hresult
  obtain ⟨node, hnode, hresult⟩ := Meaning.exists_of_bind hresult
  obtain ⟨inner, hinner, hresult⟩ := Meaning.exists_of_bind hresult
  cases hresult
  have hplaced := placed_body h hinner
  exact placed_conditional hnode rfl (by simp [Node.bodies, hplaced]) (by simp)

/-- An alternative whose other branch is placed, be it a block or a sentence. -/
theorem placed_otherwise {condition : Expression .chain} {otherwise : Meaning (List Node)}
    (h : ∀ statement ∈ body, statement.Placed)
    (hotherwise : ∀ others, otherwise = .ok others → AllPlaced others)
    (hresult : (do
      let alternate ← otherwise
      let condition ← condition.node
      let consequent ← bodyMeaning body
      return [Node.alternative condition consequent (some alternate)]) = .ok nodes) :
    AllPlaced nodes := by
  obtain ⟨others, hothers, hresult⟩ := Meaning.exists_of_bind hresult
  obtain ⟨node, hnode, hresult⟩ := Meaning.exists_of_bind hresult
  obtain ⟨inner, hinner, hresult⟩ := Meaning.exists_of_bind hresult
  cases hresult
  have hplaced := placed_body h hinner
  have hplaced' := hotherwise others hothers
  exact placed_conditional hnode rfl (by simp [Node.bodies, hplaced, hplaced']) (by simp)

theorem placed_distinction (subject : Expression .chain) {cases : List (Clause .patternCase)}
    (h : ∀ case ∈ cases, case.Placed) : (distinction subject cases).Placed := by
  intro result hresult
  obtain ⟨candidates, hcandidates, hresult⟩ := Meaning.exists_of_bind hresult
  obtain ⟨node, hnode, hresult⟩ := Meaning.exists_of_bind hresult
  cases hresult
  rw [casesMeaning_eq_mapM] at hcandidates
  have hplaced := Meaning.forall_of_mapM hcandidates h
  have hsubject := subject.placed.node node hnode
  apply Node.allPlaced_singleton
  refine .of_parts (List.forall_mem_cons.mpr ⟨hsubject, fun slot hslot => ?_⟩)
    (fun inner hinner => ?_) (by simp)
  · obtain ⟨candidate, hcandidate, hslot⟩ := List.mem_flatMap.mp hslot
    exact (hplaced candidate hcandidate).1 slot hslot
  · obtain ⟨candidate, hcandidate, rfl⟩ := List.mem_map.mp hinner
    exact (hplaced candidate hcandidate).2

/-- What stands in a place that may be empty. -/
theorem placed_optional {value : Option (Expression .chain)} {result : Option Node}
    (h : value.mapM Expression.node = .ok result) : ∀ node ∈ result.toList, node.IsOperand := by
  cases value with
  | none =>
      cases h
      exact fun _ hmem => absurd hmem List.not_mem_nil
  | some value =>
      obtain ⟨node, hnode, h⟩ := Meaning.exists_of_bind h
      cases h
      simpa using value.placed.node node hnode

theorem placed_patternCase (pattern guard : Option (Expression .chain))
    (h : ∀ statement ∈ body, statement.Placed) : (patternCase pattern guard body).Placed := by
  intro result hresult
  obtain ⟨first, hfirst, hresult⟩ := Meaning.exists_of_bind hresult
  obtain ⟨second, hsecond, hresult⟩ := Meaning.exists_of_bind hresult
  obtain ⟨inner, hinner, hresult⟩ := Meaning.exists_of_bind hresult
  cases hresult
  constructor
  · exact List.forall_mem_append.mpr ⟨placed_optional hfirst, placed_optional hsecond⟩
  · exact placed_body h hinner

end Productions

/-- Every production means nodes that are placed. -/
theorem placed {part : Part} (clause : Clause part) : clause.Placed := by
  induction clause with
  | function name params body ih | classDeclaration name parent body ih =>
      exact fun _ h => placed_block (fun _ => rfl) (fun _ => rfl) (by simp) ih h
  | declaration kind name value | exporting name value | typeInspection value typeName
  | giveBack value | throwUp value =>
      exact fun _ h => placed_value (fun _ => rfl) (fun _ => rfl) (by simp) h
  | enumDeclaration name items | importText moduleName | importName moduleName =>
      rintro _ ⟨⟩
      exact Node.allPlaced_singleton (.of_slots (by simp [Node.slots]) rfl (by simp))
  | staticMethod path body ih => exact placed_staticMethod path ih
  | attempt body caught handler hbody hhandler => exact placed_attempt caught hbody hhandler
  | sentence inner ih => exact ih
  | bare value =>
      intro nodes hnodes node hmem
      exact (value.placed.statements nodes hnodes node hmem).isPlaced
  | distinction subject cases ih => exact placed_distinction subject ih
  | loop condition body ih => exact placed_loop condition ih
  | alternative condition consequent ih => exact placed_alternative condition ih
  | alternativeBlock condition consequent alternate ih ih' =>
      exact fun _ h => placed_otherwise ih (fun _ hothers => placed_body ih' hothers) h
  | alternativeSentence condition consequent alternate ih ih' =>
      exact fun _ h => placed_otherwise ih ih' h
  | patternCase pattern guard body ih => exact placed_patternCase pattern guard ih

end Clause

end Concrete

namespace Node

/-- The program of a text is a program at its root only, and all in it is placed. -/
theorem exists_allPlaced_of_ofText {source : String} {node : Node}
    (h : ofText source = .ok node) : ∃ statements, node = .program statements ∧
      AllPlaced statements := by
  obtain ⟨phrase, hphrase, hnode⟩ : ∃ phrase, Phrase.ofText source = .ok phrase ∧
      ofPhrase phrase = .ok node := by
    rw [ofText] at h
    cases hphrase : Phrase.ofText source with
    | error diagnostic =>
        rw [hphrase] at h
        cases h
    | ok phrase =>
        rw [hphrase] at h
        exact ⟨phrase, rfl, h⟩
  obtain ⟨_, _, derivation, _, rfl⟩ := Parse.derives_of_ofText hphrase
  rw [derivation.ofPhrase_phrase, Concrete.Program.node] at hnode
  cases hmeaning : Meaning.gather Concrete.Clause.meaning derivation with
  | error fault =>
      rw [hmeaning] at hnode
      cases hnode
  | ok statements =>
      rw [hmeaning] at hnode
      cases hnode
      refine ⟨statements, rfl, ?_⟩
      exact Meaning.forall_of_gather hmeaning fun statement _ => Concrete.Clause.placed statement

end Node

end Wabun
