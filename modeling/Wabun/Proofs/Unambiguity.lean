import Mathlib
import Wabun.Proofs.Content
import Wabun.Proofs.Legibility

/-!
The text of a syntax tree stands for that tree only. A node's JSON begins with the name of its
kind, which no other kind has, and each part has a member of its own. What is absent is written
as `null`, or as an object of a kind that no node is of.
-/

namespace Wabun

section Parts

/-- The nodes directly inside of a case. -/
def PatternCase.parts : PatternCase → List Node
  | .mk pattern guard body => pattern.toList ++ guard.toList ++ body

/-- The nodes directly inside of a node. -/
def Node.parts : Node → List Node
  | .program body | .function _ _ body | .classDeclaration _ _ body => body
  | .staticMethod _ _ body | .call _ body => body
  | .variableDeclaration _ _ value | .exporting _ value => [value]
  | .giveBack value | .throwUp value | .inspectType value _ => [value]
  | .alternative condition consequent alternate => condition :: consequent ++ alternate.getD []
  | .distinguish subject cases => subject :: cases.flatMap PatternCase.parts
  | .loop condition body => condition :: body
  | .attempt body _ handler => body ++ handler
  | .binary _ left right => [left, right]
  | _ => []

variable {node part : Node} {candidate : PatternCase}

theorem PatternCase.mem_parts {pattern guard : Option Node} {body : List Node} :
    part ∈ (PatternCase.mk pattern guard body).parts ↔
      pattern = some part ∨ guard = some part ∨ part ∈ body := by
  simp [parts]

theorem PatternCase.sizeOf_lt_of_mem_parts (h : part ∈ candidate.parts) :
    sizeOf part < sizeOf candidate := by
  obtain ⟨pattern, guard, body⟩ := candidate
  rw [mk.sizeOf_spec]
  obtain rfl | rfl | hbody := mem_parts.mp h
  · rw [Option.some.sizeOf_spec]
    omega
  · rw [Option.some.sizeOf_spec]
    omega
  · have hsize := List.sizeOf_lt_of_mem hbody
    omega

theorem Node.sizeOf_lt_of_mem_parts (h : part ∈ node.parts) : sizeOf part < sizeOf node := by
  have hlist {nodes : List Node} (hmem : part ∈ nodes) : sizeOf part < sizeOf nodes :=
    List.sizeOf_lt_of_mem hmem
  cases node with
  | distinguish subject cases =>
      rw [distinguish.sizeOf_spec]
      obtain rfl | hcases := List.mem_cons.mp h
      · omega
      · obtain ⟨candidate, hmem, hpart⟩ := List.mem_flatMap.mp hcases
        have hcandidate := PatternCase.sizeOf_lt_of_mem_parts hpart
        have hsize := List.sizeOf_lt_of_mem hmem
        omega
  | alternative condition consequent alternate =>
      cases alternate <;> simp [parts] at h ⊢ <;> grind
  | _ => simp [parts] at h ⊢ <;> grind

/-- What holds of a node if it holds of its parts, holds of every node. -/
theorem Node.induction_parts {holds : Node → Prop}
    (step : ∀ node : Node, (∀ part ∈ node.parts, holds part) → holds node) (node : Node) :
    holds node :=
  step node fun part _ => induction_parts step part
termination_by sizeOf node
decreasing_by exact sizeOf_lt_of_mem_parts ‹_›

end Parts

theorem Declaration.text_injective {a b : Declaration} (h : a.text = b.text) : a = b := by
  cases a <;> cases b <;> simp [text] at h ⊢

theorem Operator.symbol_injective {a b : Operator} (h : a.symbol = b.symbol) : a = b := by
  cases a <;> cases b <;> simp [symbol] at h ⊢

theorem Literal.toJson_injective {a b : Literal} (h : a.toJson = b.toJson) : a = b := by
  cases a <;> cases b <;> simp only [toJson, reduceCtorEq, Json.number.injEq, Json.string.injEq,
    Json.bool.injEq] at h <;> rw [h]

namespace Node

section Injectivity

/-- The kind that a JSON object tells of itself. -/
def jsonKind : Json → Option String
  | .object (("type", .string kind) :: _) => some kind
  | _ => none

theorem jsonKind_toJson (node : Node) : jsonKind node.toJson = some node.kind := by
  cases node <;> rw [toJson] <;> rfl

theorem kind_eq_of_toJson_eq {m n : Node} (h : m.toJson = n.toJson) : m.kind = n.kind := by
  have hkind := congrArg jsonKind h
  rw [jsonKind_toJson, jsonKind_toJson] at hkind
  exact Option.some.inj hkind

/-- No other node has the JSON of the node. -/
def IsTold (m : Node) : Prop := ∀ n : Node, m.toJson = n.toJson → m = n

theorem listJson_eq_map (nodes : List Node) : listJson nodes = nodes.map toJson := by
  induction nodes with
  | nil => rw [listJson, List.map_nil]
  | cons node rest ih => rw [listJson, ih, List.map_cons]

theorem casesJson_eq_map (cases : List PatternCase) : casesJson cases = cases.map caseJson := by
  induction cases with
  | nil => rw [casesJson, List.map_nil]
  | cons candidate rest ih => rw [casesJson, ih, List.map_cons]

theorem eq_of_map_eq {α β : Type} {f : α → β} {items items' : List α}
    (heq : items.map f = items'.map f) (h : ∀ a ∈ items, ∀ b, f a = f b → a = b) :
    items = items' := by
  induction items generalizing items' with
  | nil => exact (List.map_eq_nil_iff.mp heq.symm).symm
  | cons a items ih =>
      cases items' with
      | nil => cases heq
      | cons b items' =>
          obtain ⟨hfirst, hrest⟩ := List.cons.inj heq
          rw [h a List.mem_cons_self b hfirst,
            ih hrest fun a ha => h a (List.mem_cons_of_mem _ ha)]

theorem strings_injective {names names' : List String}
    (h : names.map Json.string = names'.map Json.string) : names = names' :=
  eq_of_map_eq h fun _ _ _ => Json.string.inj

theorem parentJson_injective {parent parent' : Option String}
    (h : (parent.map Json.string).getD .null = (parent'.map Json.string).getD .null) :
    parent = parent' := by
  cases parent <;> cases parent' <;> simp at h
  · rfl
  · rw [h]

theorem listJson_injective {body body' : List Node} (heq : listJson body = listJson body')
    (h : ∀ node ∈ body, node.IsTold) : body = body' := by
  rw [listJson_eq_map, listJson_eq_map] at heq
  exact eq_of_map_eq heq h

theorem blockJson_injective {block block' : Option (List Node)}
    (heq : blockJson block = blockJson block')
    (h : ∀ body ∈ block, ∀ node ∈ body, node.IsTold) : block = block' := by
  cases block <;> cases block' <;> simp only [blockJson, reduceCtorEq, Json.array.injEq] at heq
  · rfl
  · rw [listJson_injective heq (h _ rfl)]

/-- A node is written as an object, so it is not mistaken for an absent one. -/
theorem toJson_ne_null (node : Node) : node.toJson ≠ .null := by
  intro hnull
  have hkind := jsonKind_toJson node
  rw [hnull] at hkind
  cases hkind

/-- No node is of the kind that stands for an absent pattern. -/
theorem toJson_ne_default (node : Node) : node.toJson ≠ tagged "DefaultCase" [] := by
  intro hdefault
  have hkind := jsonKind_toJson node
  rw [hdefault] at hkind
  cases node <;> simp [jsonKind, tagged, kind] at hkind

theorem guardJson_injective {guard guard' : Option Node}
    (heq : guardJson guard = guardJson guard') (h : ∀ node ∈ guard, node.IsTold) :
    guard = guard' := by
  cases guard <;> cases guard' <;> simp only [guardJson] at heq
  · rfl
  · exact absurd heq.symm (toJson_ne_null _)
  · exact absurd heq (toJson_ne_null _)
  · rw [h _ rfl _ heq]

theorem patternJson_injective {pattern pattern' : Option Node}
    (heq : patternJson pattern = patternJson pattern') (h : ∀ node ∈ pattern, node.IsTold) :
    pattern = pattern' := by
  cases pattern <;> cases pattern' <;> simp only [patternJson] at heq
  · rfl
  · exact absurd heq.symm (toJson_ne_default _)
  · exact absurd heq (toJson_ne_default _)
  · rw [h _ rfl _ heq]

theorem caseJson_injective {candidate candidate' : PatternCase}
    (heq : caseJson candidate = caseJson candidate')
    (h : ∀ part ∈ candidate.parts, part.IsTold) : candidate = candidate' := by
  obtain ⟨pattern, guard, body⟩ := candidate
  obtain ⟨pattern', guard', body'⟩ := candidate'
  obtain ⟨hpattern, hguard, hbody⟩ : patternJson pattern = patternJson pattern' ∧
      guardJson guard = guardJson guard' ∧ listJson body = listJson body' := by
    simpa [caseJson] using heq
  simp only [PatternCase.mem_parts] at h
  rw [patternJson_injective hpattern fun node hnode => h node (.inl hnode),
    guardJson_injective hguard fun node hnode => h node (.inr (.inl hnode)),
    listJson_injective hbody fun node hnode => h node (.inr (.inr hnode))]

theorem casesJson_injective {cases cases' : List PatternCase}
    (heq : casesJson cases = casesJson cases')
    (h : ∀ part ∈ cases.flatMap PatternCase.parts, part.IsTold) : cases = cases' := by
  rw [casesJson_eq_map, casesJson_eq_map] at heq
  refine eq_of_map_eq heq fun candidate hmem candidate' hcase => ?_
  exact caseJson_injective hcase fun part hpart =>
    h part (List.mem_flatMap.mpr ⟨candidate, hmem, hpart⟩)

/-- No other tree has the JSON of a tree. -/
theorem isTold (m : Node) : m.IsTold := by
  induction m using induction_parts with | step m ih =>
  intro n h
  have hkind := kind_eq_of_toJson_eq h
  cases m with
  | program statements =>
      cases n with
      | program statements' =>
          obtain hstatements : listJson statements = listJson statements' := by
            simpa [toJson, tagged] using h
          rw [listJson_injective hstatements ih]
      | _ => simp [kind] at hkind
  | function name params body =>
      cases n with
      | function name' params' body' =>
          obtain ⟨rfl, hparams, hbody⟩ : name = name' ∧
              params.map Json.string = params'.map Json.string ∧
              listJson body = listJson body' := by
            simpa [toJson, tagged] using h
          rw [strings_injective hparams, listJson_injective hbody ih]
      | _ => simp [kind] at hkind
  | variableDeclaration declaration name value =>
      cases n with
      | variableDeclaration declaration' name' value' =>
          obtain ⟨hdeclaration, rfl, hvalue⟩ : declaration.text = declaration'.text ∧
              name = name' ∧ value.toJson = value'.toJson := by
            simpa [toJson, tagged] using h
          rw [Declaration.text_injective hdeclaration, ih value List.mem_cons_self _ hvalue]
      | _ => simp [kind] at hkind
  | classDeclaration name parent body =>
      cases n with
      | classDeclaration name' parent' body' =>
          obtain ⟨rfl, hparent, hbody⟩ : name = name' ∧
              (parent.map Json.string).getD .null = (parent'.map Json.string).getD .null ∧
              listJson body = listJson body' := by
            simpa [toJson, tagged] using h
          rw [parentJson_injective hparent, listJson_injective hbody ih]
      | _ => simp [kind] at hkind
  | enumDeclaration name values =>
      cases n with
      | enumDeclaration name' values' =>
          obtain ⟨rfl, hvalues⟩ : name = name' ∧
              values.map Json.string = values'.map Json.string := by
            simpa [toJson, tagged] using h
          rw [strings_injective hvalues]
      | _ => simp [kind] at hkind
  | create className =>
      cases n with
      | create className' =>
          obtain rfl : className = className' := by
            simpa [toJson, tagged] using h
          rfl
      | _ => simp [kind] at hkind
  | staticMethod className name body =>
      cases n with
      | staticMethod className' name' body' =>
          obtain ⟨rfl, rfl, hbody⟩ : className = className' ∧ name = name' ∧
              listJson body = listJson body' := by
            simpa [toJson, tagged] using h
          rw [listJson_injective hbody ih]
      | _ => simp [kind] at hkind
  | alternative condition consequent alternate =>
      cases n with
      | alternative condition' consequent' alternate' =>
          obtain ⟨hcondition, hconsequent, halternate⟩ : condition.toJson = condition'.toJson ∧
              listJson consequent = listJson consequent' ∧
              blockJson alternate = blockJson alternate' := by
            simpa [toJson, tagged] using h
          rw [ih condition List.mem_cons_self _ hcondition,
            listJson_injective hconsequent fun node hnode => ih node (by simp [parts, hnode]),
            blockJson_injective halternate fun body hbody node hnode =>
              ih node (by simp_all [parts])]
      | _ => simp [kind] at hkind
  | distinguish subject cases =>
      cases n with
      | distinguish subject' cases' =>
          obtain ⟨hsubject, hcases⟩ : subject.toJson = subject'.toJson ∧
              casesJson cases = casesJson cases' := by
            simpa [toJson, tagged] using h
          rw [ih subject List.mem_cons_self _ hsubject,
            casesJson_injective hcases fun part hpart => ih part (List.mem_cons_of_mem _ hpart)]
      | _ => simp [kind] at hkind
  | loop condition body =>
      cases n with
      | loop condition' body' =>
          obtain ⟨hcondition, hbody⟩ : condition.toJson = condition'.toJson ∧
              listJson body = listJson body' := by
            simpa [toJson, tagged] using h
          rw [ih condition List.mem_cons_self _ hcondition,
            listJson_injective hbody fun node hnode => ih node (List.mem_cons_of_mem _ hnode)]
      | _ => simp [kind] at hkind
  | attempt body caught handler =>
      cases n with
      | attempt body' caught' handler' =>
          obtain ⟨hbody, rfl, hhandler⟩ : listJson body = listJson body' ∧ caught = caught' ∧
              listJson handler = listJson handler' := by
            simpa [toJson, tagged] using h
          rw [listJson_injective hbody fun node hnode => ih node (List.mem_append_left _ hnode),
            listJson_injective hhandler fun node hnode => ih node (List.mem_append_right _ hnode)]
      | _ => simp [kind] at hkind
  | importing moduleName =>
      cases n with
      | importing moduleName' =>
          obtain rfl : moduleName = moduleName' := by
            simpa [toJson, tagged] using h
          rfl
      | _ => simp [kind] at hkind
  | exporting name value =>
      cases n with
      | exporting name' value' =>
          obtain ⟨rfl, hvalue⟩ : name = name' ∧ value.toJson = value'.toJson := by
            simpa [toJson, tagged] using h
          rw [ih value List.mem_cons_self _ hvalue]
      | _ => simp [kind] at hkind
  | call callee args =>
      cases n with
      | call callee' args' =>
          obtain ⟨rfl, hargs⟩ : callee = callee' ∧ listJson args = listJson args' := by
            simpa [toJson, tagged] using h
          rw [listJson_injective hargs ih]
      | _ => simp [kind] at hkind
  | giveBack value =>
      cases n with
      | giveBack value' =>
          obtain hvalue : value.toJson = value'.toJson := by
            simpa [toJson, tagged] using h
          rw [ih value List.mem_cons_self _ hvalue]
      | _ => simp [kind] at hkind
  | throwUp value =>
      cases n with
      | throwUp value' =>
          obtain hvalue : value.toJson = value'.toJson := by
            simpa [toJson, tagged] using h
          rw [ih value List.mem_cons_self _ hvalue]
      | _ => simp [kind] at hkind
  | inspectType value typeName =>
      cases n with
      | inspectType value' typeName' =>
          obtain ⟨hvalue, rfl⟩ : value.toJson = value'.toJson ∧ typeName = typeName' := by
            simpa [toJson, tagged] using h
          rw [ih value List.mem_cons_self _ hvalue]
      | _ => simp [kind] at hkind
  | binary operator left right =>
      cases n with
      | binary operator' left' right' =>
          obtain ⟨hoperator, hleft, hright⟩ : operator.symbol = operator'.symbol ∧
              left.toJson = left'.toJson ∧ right.toJson = right'.toJson := by
            simpa [toJson, tagged] using h
          rw [Operator.symbol_injective hoperator, ih left List.mem_cons_self _ hleft,
            ih right (by simp [parts]) _ hright]
      | _ => simp [kind] at hkind
  | identifier name =>
      cases n with
      | identifier name' =>
          obtain rfl : name = name' := by
            simpa [toJson, tagged] using h
          rfl
      | _ => simp [kind] at hkind
  | literal value =>
      cases n with
      | literal value' =>
          obtain hvalue : value.toJson = value'.toJson := by
            simpa [toJson, tagged] using h
          rw [Literal.toJson_injective hvalue]
      | _ => simp [kind] at hkind

end Injectivity

section Finiteness

/-- All numbers of a tree are finite. -/
def HasFiniteNumbers (node : Node) : Prop :=
  ∀ x : Float, Item.number x ∈ node.items → x.isFinite = true

variable {node part : Node}

theorem mem_items_of_mem_parts {item : Item} (h : part ∈ node.parts) (hitem : item ∈ part.items) :
    item ∈ node.items := by
  have hall {nodes : List Node} (hmem : part ∈ nodes) : item ∈ itemsOfAll nodes := by
    rw [itemsOfAll_eq_flatMap]
    exact List.mem_flatMap.mpr ⟨part, hmem, hitem⟩
  cases node with
  | distinguish subject cases =>
      rw [items, List.mem_append, PatternCase.itemsOfAll_eq_flatMap, List.mem_flatMap]
      obtain rfl | hcases := List.mem_cons.mp h
      · exact .inl hitem
      · obtain ⟨⟨pattern, guard, body⟩, hmem, hpart⟩ := List.mem_flatMap.mp hcases
        refine .inr ⟨_, hmem, ?_⟩
        obtain rfl | rfl | hbody := PatternCase.mem_parts.mp hpart
        · simp [hitem]
        · simp [hitem]
        · simp [hall hbody]
  | alternative condition consequent alternate =>
      cases alternate <;> simp [parts] at h ⊢ <;> grind
  | _ => simp [parts] at h ⊢ <;> grind

theorem HasFiniteNumbers.of_mem_parts (h : node.HasFiniteNumbers) (hpart : part ∈ node.parts) :
    part.HasFiniteNumbers :=
  fun x hx => h x (mem_items_of_mem_parts hpart hx)

theorem isFinite_tagged {kind : String} {members : List (String × Json)} :
    (tagged kind members).IsFinite ↔ ∀ member ∈ members, member.2.IsFinite := by
  constructor
  · intro h
    cases h with | object h => exact fun member hmember => h member (List.mem_cons_of_mem _ hmember)
  · intro h
    exact .object (List.forall_mem_cons.mpr ⟨.string kind, h⟩)

theorem isFinite_listJson {body : List Node} :
    (Json.array (listJson body)).IsFinite ↔ ∀ node ∈ body, node.toJson.IsFinite := by
  rw [listJson_eq_map]
  constructor
  · intro h
    cases h with | array h => exact fun node hnode => h _ (List.mem_map_of_mem hnode)
  · intro h
    refine .array fun item hitem => ?_
    obtain ⟨node, hnode, rfl⟩ := List.mem_map.mp hitem
    exact h node hnode

theorem isFinite_strings (names : List String) :
    (Json.array (names.map .string)).IsFinite := by
  refine .array fun item hitem => ?_
  obtain ⟨name, _, rfl⟩ := List.mem_map.mp hitem
  exact .string name

theorem isFinite_parentJson (parent : Option String) :
    ((parent.map Json.string).getD .null).IsFinite := by
  cases parent with
  | none => exact .null
  | some name => exact .string name

theorem isFinite_blockJson {block : Option (List Node)}
    (h : ∀ body ∈ block, ∀ node ∈ body, node.toJson.IsFinite) : (blockJson block).IsFinite := by
  cases block with
  | none => exact .null
  | some body => exact isFinite_listJson.mpr (h body rfl)

theorem isFinite_guardJson {guard : Option Node} (h : ∀ node ∈ guard, node.toJson.IsFinite) :
    (guardJson guard).IsFinite := by
  cases guard with
  | none => exact .null
  | some node => exact h node rfl

theorem isFinite_patternJson {pattern : Option Node} (h : ∀ node ∈ pattern, node.toJson.IsFinite) :
    (patternJson pattern).IsFinite := by
  cases pattern with
  | none => exact isFinite_tagged.mpr (List.forall_mem_nil _)
  | some node => exact h node rfl

theorem isFinite_caseJson {candidate : PatternCase}
    (h : ∀ part ∈ candidate.parts, part.toJson.IsFinite) : (caseJson candidate).IsFinite := by
  obtain ⟨pattern, guard, body⟩ := candidate
  simp only [PatternCase.mem_parts] at h
  have hpattern : (patternJson pattern).IsFinite :=
    isFinite_patternJson fun node hnode => h node (.inl hnode)
  have hguard : (guardJson guard).IsFinite :=
    isFinite_guardJson fun node hnode => h node (.inr (.inl hnode))
  have hbody : (Json.array (listJson body)).IsFinite :=
    isFinite_listJson.mpr fun node hnode => h node (.inr (.inr hnode))
  rw [caseJson]
  exact .object (by simp [hpattern, hguard, hbody])

theorem isFinite_casesJson {cases : List PatternCase}
    (h : ∀ part ∈ cases.flatMap PatternCase.parts, part.toJson.IsFinite) :
    (Json.array (casesJson cases)).IsFinite := by
  rw [casesJson_eq_map]
  refine .array fun item hitem => ?_
  obtain ⟨candidate, hmem, rfl⟩ := List.mem_map.mp hitem
  exact isFinite_caseJson fun part hpart => h part (List.mem_flatMap.mpr ⟨candidate, hmem, hpart⟩)

theorem isFinite_literal {value : Literal} (h : (literal value).HasFiniteNumbers) :
    value.toJson.IsFinite := by
  cases value with
  | number x => exact .number (h x (by simp [Literal.item]))
  | text s => exact .string s
  | truth b => exact .bool b

/-- The numbers of a tree are the numbers of its JSON. -/
theorem isFinite_toJson (h : node.HasFiniteNumbers) : node.toJson.IsFinite := by
  induction node using induction_parts with | step node ih =>
  have hparts : ∀ part ∈ node.parts, part.toJson.IsFinite :=
    fun part hpart => ih part hpart (h.of_mem_parts hpart)
  cases node with
  | distinguish subject cases =>
      obtain ⟨hsubject, hcases⟩ := List.forall_mem_cons.mp hparts
      simp [toJson, isFinite_tagged, hsubject, isFinite_casesJson hcases]
  | alternative condition consequent alternate =>
      obtain ⟨hheads, halternate⟩ := List.forall_mem_append.mp hparts
      obtain ⟨hcondition, hconsequent⟩ := List.forall_mem_cons.mp hheads
      have hblock : (blockJson alternate).IsFinite :=
        isFinite_blockJson fun body hbody => by simpa [Option.mem_def.mp hbody] using halternate
      simp [toJson, isFinite_tagged, hcondition, isFinite_listJson.mpr hconsequent, hblock]
  | literal value => simp [toJson, isFinite_tagged, isFinite_literal h]
  | enumDeclaration | create | importing | identifier =>
      simp [toJson, isFinite_tagged, isFinite_strings, Json.IsFinite.string]
  | _ =>
      simpa [toJson, isFinite_tagged, isFinite_listJson, isFinite_strings, isFinite_parentJson,
        Json.IsFinite.string, parts, or_imp, forall_and] using hparts

end Finiteness

section Sameness

theorem sameAll_self {body : List Node} :
    sameAll body body = true ↔ ∀ node ∈ body, node.same node = true := by
  induction body with
  | nil => simp [sameAll]
  | cons node rest ih => simp [sameAll, ih]

theorem sameSlot_self {slot : Option Node} :
    sameSlot slot slot = true ↔ ∀ node ∈ slot, node.same node = true := by
  cases slot <;> simp [sameSlot]

theorem sameCases_self {cases : List PatternCase} :
    sameCases cases cases = true ↔
      ∀ part ∈ cases.flatMap PatternCase.parts, part.same part = true := by
  induction cases with
  | nil => simp [sameCases]
  | cons candidate rest ih =>
      obtain ⟨pattern, guard, body⟩ := candidate
      rw [sameCases, sameCase, Bool.and_eq_true, ih, List.flatMap_cons, List.forall_mem_append]
      simp [PatternCase.mem_parts, sameAll_self, sameSlot_self, or_imp, forall_and, and_assoc]

/-- Only what is not a number can make a tree differ from itself. -/
theorem same_self {node : Node} (h : node.HasFiniteNumbers) : node.same node = true := by
  induction node using induction_parts with | step node ih =>
  have hparts : ∀ part ∈ node.parts, part.same part = true :=
    fun part hpart => ih part hpart (h.of_mem_parts hpart)
  cases node with
  | literal value =>
      rw [same]
      cases value with
      | number x =>
          obtain ⟨hnumber, _⟩ := Decimal.not_isNaN_of_isFinite (h x (by simp [Literal.item]))
          rw [Float.isNaN_eq_decide_eq_nan, decide_eq_false_iff_not] at hnumber
          exact Float.beq_self_iff.mpr hnumber
      | text s => exact beq_self_eq_true s
      | truth b => exact beq_self_eq_true b
  | alternative condition consequent alternate =>
      cases alternate <;>
        simpa [same, sameBlock, sameAll_self, parts, or_imp, forall_and, and_assoc] using hparts
  | enumDeclaration | create | importing | identifier => simp [same]
  | _ => simpa [same, sameAll_self, sameCases_self, parts, or_imp, forall_and] using hparts

end Sameness

theorem text_injective {m n : Node} (hm : m.HasFiniteNumbers) (hn : n.HasFiniteNumbers)
    (h : m.toJson.pretty = n.toJson.pretty) : m = n :=
  isTold m n (Json.pretty_injective (isFinite_toJson hm) (isFinite_toJson hn) h)

/-- Two trees of finite numbers with one text are one tree. An absent pattern, guard, block or
parent is not mistaken for one that is there, nor a number, a text or a truth value for a literal
of another sort. -/
theorem json_is_unambiguous {m n : Node} (hm : m.HasFiniteNumbers) (hn : n.HasFiniteNumbers) :
    (m.toJson.pretty = n.toJson.pretty → m = n ∧ m.same n = true) ∧
    (patternJson none).pretty ≠ (patternJson (some m)).pretty ∧
    (guardJson none).pretty ≠ (guardJson (some m)).pretty ∧
    (∀ body : List Node, (∀ node ∈ body, node.HasFiniteNumbers) →
      (blockJson none).pretty ≠ (blockJson (some body)).pretty) ∧
    (∀ name name' parent : String, ∀ body body' : List Node,
      (classDeclaration name none body).HasFiniteNumbers →
      (classDeclaration name' (some parent) body').HasFiniteNumbers →
      (classDeclaration name none body).toJson.pretty ≠
        (classDeclaration name' (some parent) body').toJson.pretty) ∧
    (∀ a b : Literal, (literal a).HasFiniteNumbers → (literal b).HasFiniteNumbers →
      a.toJson.pretty = b.toJson.pretty → a = b) := by
  have hjson := isFinite_toJson hm
  refine ⟨fun h => ?_, fun h => ?_, fun h => ?_, fun body hbody h => ?_,
    fun name name' parent body body' hclass hclass' h => ?_, fun a b ha hb h => ?_⟩
  · obtain rfl := text_injective hm hn h
    exact ⟨rfl, same_self hm⟩
  · have heq := Json.pretty_injective (isFinite_patternJson (by simp))
      (isFinite_patternJson (by simp [hjson])) h
    simp only [patternJson] at heq
    exact toJson_ne_default m heq.symm
  · have heq := Json.pretty_injective (isFinite_guardJson (by simp))
      (isFinite_guardJson (by simp [hjson])) h
    simp only [guardJson] at heq
    exact toJson_ne_null m heq.symm
  · have hblock : ∀ block ∈ some body, ∀ node ∈ block, node.toJson.IsFinite := by
      intro block hsome node hnode
      obtain rfl := Option.some.inj hsome
      exact isFinite_toJson (hbody node hnode)
    have heq := Json.pretty_injective (isFinite_blockJson (by simp)) (isFinite_blockJson hblock) h
    simp only [blockJson, reduceCtorEq] at heq
  · have heq := text_injective hclass hclass' h
    simp only [classDeclaration.injEq, reduceCtorEq, false_and, and_false] at heq
  · exact Literal.toJson_injective
      (Json.pretty_injective (isFinite_literal ha) (isFinite_literal hb) h)

/-- A distinction of one case. -/
def singleCase (pattern : Option Node) : Node :=
  distinguish (identifier "x") [.mk pattern none [giveBack (literal (.number 0.1))]]

theorem json_is_unambiguous_singleCase :
    (singleCase none).HasFiniteNumbers ∧
    (singleCase (some (identifier "DefaultCase"))).HasFiniteNumbers ∧
    (singleCase none).toJson.pretty ≠
      (singleCase (some (identifier "DefaultCase"))).toJson.pretty := by
  have hnumber : (0.1 : Float).isFinite = true := by decide
  have hnone : (singleCase none).HasFiniteNumbers := by
    intro x hx
    obtain rfl : x = 0.1 := by simpa [singleCase, Literal.item] using hx
    exact hnumber
  have hsome : (singleCase (some (identifier "DefaultCase"))).HasFiniteNumbers := by
    intro x hx
    obtain rfl : x = 0.1 := by simpa [singleCase, Literal.item] using hx
    exact hnumber
  refine ⟨hnone, hsome, fun h => ?_⟩
  have hsame := ((json_is_unambiguous hnone hsome).1 h).1
  simp [singleCase] at hsame

end Node

end Wabun
