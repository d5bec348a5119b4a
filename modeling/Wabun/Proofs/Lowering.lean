import Wabun.Proofs.Classification
import Wabun.Proofs.Denotation

/-!
Lowering, which recognizes the construct of each group from its key words,
gives what the productions of the grammar mean. The two agree on the nodes and
on the fault, if there is one.
-/

namespace Wabun

namespace Phrase

theorem height_group (parts : List Phrase) : (group parts).height = heightAll parts + 1 := rfl

theorem height_le_heightAll {part : Phrase} {parts : List Phrase} (h : part ∈ parts) :
    part.height ≤ heightAll parts := by
  induction parts with
  | nil => exact absurd h List.not_mem_nil
  | cons first rest ih =>
      rw [heightAll]
      rcases List.mem_cons.mp h with rfl | hrest
      · exact Nat.le_max_left _ _
      · exact Nat.le_trans (ih hrest) (Nat.le_max_right _ _)

theorem height_lt_of_mem {part : Phrase} {parts : List Phrase} {bound : Nat}
    (h : (group parts).height < bound + 1) (hmem : part ∈ parts) : part.height < bound := by
  have hpart := height_le_heightAll hmem
  rw [height_group] at h
  omega

theorem bracketed?_brackets {items : List Phrase} (hitems : ∀ item ∈ items, item.Plain) :
    (brackets items).bracketed? = some items := by
  have henclosed : (brackets items).enclosed? .leftParen .rightParen =
      some (items.intersperse (.word Symbol.comma.text)) := by
    simp [brackets, enclosed?, isWord]
  rw [bracketed?, henclosed, Option.map_some, filter_intersperse]
  · decide
  · intro item hmem
    rw [(hitems item hmem).isComma]
    rfl

theorem braced?_braces (items : List Phrase) : (braces items).braced? = some [.group items] := by
  simp [braces, braced?, enclosed?, isWord]

/-- Only what begins with the opening symbol is enclosed. -/
theorem enclosed?_eq_none {opening closing : Symbol} {first : Phrase} {rest : List Phrase}
    (h : first.isWord opening.text = false) :
    (group (first :: rest)).enclosed? opening closing = none := by
  rw [enclosed?]
  cases rest.getLast? with
  | none => rfl
  | some last => simp [h]

theorem name_word (role : String) (name : Name) :
    (word name.text).name role = .ok name.text := by
  simp [Phrase.name, name.isName]

theorem operator_symbol (op : Operator) : (word op.symbol).operator = .ok op := by
  cases op <;> rfl

/-- The names of a group are read past its symbols. -/
theorem names_group {parts : List Phrase} {names : List Name}
    (h : parts.filter (fun part => !part.word?.any Word.isPunctuation) =
      names.map fun name => .word name.text) :
    (group parts).names = .ok (names.map Name.text) := by
  change (parts.filter fun part => !part.word?.any Word.isPunctuation).mapM
    (Phrase.name "a name") = _
  rw [h]
  clear h
  induction names with
  | nil => rfl
  | cons first rest ih =>
      rw [List.map_cons, List.mapM_cons, ih, name_word]
      rfl

theorem names_brackets (names : List Name) :
    (brackets (names.map fun name => .word name.text)).names = .ok (names.map Name.text) := by
  apply names_group
  have hkept : ∀ item ∈ names.map fun name => word name.text,
      (!item.word?.any Word.isPunctuation) = true := by
    simp only [List.forall_mem_map]
    intro name _
    simp [name.isName]
  rw [List.cons_append, List.filter_cons_of_neg (by decide), List.filter_append,
    filter_intersperse (by decide) hkept]
  simp [Symbol.text, Word.isPunctuation, Word.punctuation]

end Phrase

namespace Meaning

theorem ok_bind {α β : Type} (value : α) (f : α → Meaning β) :
    (Except.ok value >>= f) = f value := rfl

theorem mapM_map {α β γ : Type} {f : β → Meaning γ} {g : α → β} {h : α → Meaning γ}
    {items : List α} (heq : ∀ item ∈ items, f (g item) = h item) :
    (items.map g).mapM f = items.mapM h := by
  induction items with
  | nil => rfl
  | cons first rest ih =>
      rw [List.map_cons, List.mapM_cons, List.mapM_cons, heq first List.mem_cons_self,
        ih fun item hmem => heq item (List.mem_cons_of_mem first hmem)]

theorem gather_map {α β : Type} {f : β → Meaning (List Node)} {g : α → β}
    {h : α → Meaning (List Node)} {items : List α} (heq : ∀ item ∈ items, f (g item) = h item) :
    gather f (items.map g) = gather h items := by
  induction items with
  | nil => rfl
  | cons first rest ih =>
      rw [List.map_cons, gather, gather, heq first List.mem_cons_self,
        ih fun item hmem => heq item (List.mem_cons_of_mem first hmem)]

/-- A part without nodes of its own. -/
theorem gather_cons_silent {α : Type} {f : α → Meaning (List Node)} {part : α} {rest : List α}
    (h : f part = .ok []) : gather f (part :: rest) = gather f rest := by
  rw [gather, h]
  cases hrest : gather f rest <;> rfl

theorem gather_append_silent {α : Type} {f : α → Meaning (List Node)} {parts : List α} {last : α}
    (h : f last = .ok []) : gather f (parts ++ [last]) = gather f parts := by
  induction parts with
  | nil => rw [List.nil_append, gather_cons_silent h]
  | cons first rest ih => rw [List.cons_append, gather, gather, ih]

theorem gather_intersperse {α : Type} {f : α → Meaning (List Node)} {separator : α}
    {items : List α} (h : f separator = .ok []) :
    gather f (items.intersperse separator) = gather f items := by
  induction items with
  | nil => rfl
  | cons first rest ih =>
      cases rest with
      | nil => rfl
      | cons second rest =>
          rw [List.intersperse_cons_cons, gather, gather_cons_silent h, ih, ← gather]

end Meaning

namespace Lowering

theorem statements_leaf (bound : Nat) (atom : Atom) :
    (ofHeight (bound + 1)).statements (.leaf atom) = .ok atom.toNode?.toList := by
  have htransform : (ofHeight (bound + 1)).transform (.leaf atom) =
      .ok (atom.toNode?.map Lowered.node) := rfl
  rw [statements, htransform]
  cases atom.toNode? <;> rfl

theorem statements_construct {bound : Nat} {parts : List Phrase} {construct : Construct}
    (h : Construct.of? parts = some construct) :
    (ofHeight (bound + 1)).statements (.group parts) =
      (do return [← (ofHeight bound).construct construct parts] : Meaning (List Node)) := by
  unfold statements
  change ((ofHeight bound).transformStep (.group parts) >>= _) = _
  rw [transformStep, h]
  dsimp only
  cases (ofHeight bound).construct construct parts <;> rfl

theorem statements_run {bound : Nat} {parts : List Phrase} (h : Construct.of? parts = none) :
    (ofHeight (bound + 1)).statements (.group parts) =
      Meaning.gather (ofHeight bound).statements parts := by
  have hgather : (do
      let items ← parts.mapM (ofHeight bound).transform
      return Lowered.flattenAll (items.filterMap id) : Meaning (List Node)) =
        Meaning.gather (ofHeight bound).statements parts := by
    clear h
    induction parts with
    | nil => rfl
    | cons first rest ih =>
        rw [Meaning.gather, ← ih, List.mapM_cons, statements]
        cases (ofHeight bound).transform first with
        | error fault => rfl
        | ok lowered =>
            cases rest.mapM (ofHeight bound).transform with
            | error fault => cases lowered <;> rfl
            | ok others => cases lowered <;> rfl
  rw [← hgather]
  unfold statements
  change ((ofHeight bound).transformStep (.group parts) >>= _) = _
  rw [transformStep, h]
  cases parts.mapM (ofHeight bound).transform <;> rfl

theorem block_braces {bound : Nat} {items : List Phrase} (h : Construct.of? items = none) :
    (ofHeight (bound + 1)).block (.braces items) =
      Meaning.gather (ofHeight bound).statements items := by
  rw [block, Phrase.braced?_braces, ← statements_run h]
  cases hstatements : (ofHeight (bound + 1)).statements (.group items) <;>
    simp [hstatements]

theorem patternCase_otherwise (lowering : Lowering) (rest : List Phrase) :
    lowering.patternCase (.keyword .otherwise :: rest) = lowering.patternBody none rest := by
  simp [patternCase]

theorem patternCase_pattern {lowering : Lowering} {pattern : Phrase}
    (h : pattern.isKeyword .otherwise = false) (rest : List Phrase) :
    lowering.patternCase (pattern :: .keyword .caseOf :: rest) =
      (do
        let node ← lowering.expression pattern
        lowering.patternBody (some node) rest) := by
  simp [patternCase, h]

/-- Outside of brackets an expression is the only node of its phrase. -/
theorem expression_single {bound : Nat} {phrase : Phrase} {meaning : Meaning Node}
    (hbrackets : phrase.bracketed? = none)
    (h : (ofHeight (bound + 1)).statements phrase =
      (do return [← meaning] : Meaning (List Node))) :
    (ofHeight (bound + 1)).expression phrase = meaning := by
  change (ofHeight bound).expressionStep phrase = meaning
  have hnodes := h
  unfold statements at hnodes
  have hstep : (ofHeight (bound + 1)).transform phrase =
      (ofHeight bound).transformStep phrase := rfl
  rw [hstep] at hnodes
  rw [expressionStep, hbrackets]
  dsimp only
  cases htransform : (ofHeight bound).transformStep phrase with
  | error fault =>
      rw [htransform] at hnodes
      cases meaning with
      | error other =>
          cases hnodes
          rfl
      | ok node => cases hnodes
  | ok lowered =>
      rw [htransform] at hnodes
      cases meaning with
      | error fault => cases lowered <;> cases hnodes
      | ok node =>
          cases lowered with
          | none => cases hnodes
          | some lowered =>
              have hflatten : lowered.flatten = [node] := Except.ok.inj hnodes
              rw [Meaning.ok_bind, Option.map_some, hflatten]
              rfl

/-- The three readings of a phrase. -/
structure Agrees (lowering : Lowering) (phrase : Phrase) (readings : Concrete.Readings) : Prop where
  node : lowering.expression phrase = readings.node
  arguments : lowering.arguments phrase = readings.arguments
  statements : lowering.statements phrase = readings.statements

theorem agrees_single {bound : Nat} {phrase : Phrase} {meaning : Meaning Node}
    (hbrackets : phrase.bracketed? = none)
    (h : (ofHeight (bound + 1)).statements phrase =
      (do return [← meaning] : Meaning (List Node))) :
    Agrees (ofHeight (bound + 1)) phrase (.single meaning) := by
  have hnode := expression_single hbrackets h
  refine ⟨hnode, ?_, h⟩
  rw [arguments, hbrackets]
  dsimp only
  rw [hnode]
  rfl

theorem agrees_leaf {bound : Nat} {atom : Atom} {node : Node} (h : atom.toNode? = some node) :
    Agrees (ofHeight (bound + 1)) (.leaf atom) (.single (.ok node)) := by
  apply agrees_single rfl
  rw [statements_leaf, h]
  rfl

/-- A group that begins with no bracket and forms a construct. -/
theorem agrees_construct {bound : Nat} {first : Phrase} {rest : List Phrase}
    {construct : Construct} {meaning : Meaning Node}
    (hfirst : first.isWord Symbol.leftParen.text = false)
    (hconstruct : Construct.of? (first :: rest) = some construct)
    (h : (ofHeight bound).construct construct (first :: rest) = meaning) :
    Agrees (ofHeight (bound + 1)) (.group (first :: rest)) (.single meaning) := by
  apply agrees_single
  · rw [Phrase.bracketed?, Phrase.enclosed?_eq_none hfirst]
    rfl
  · rw [statements_construct hconstruct, h]

theorem statements_symbol {bound : Nat} (s : Symbol) :
    (ofHeight (bound + 1)).statements (.word s.text) = .ok [] := by
  rw [Phrase.word, statements_leaf, Atom.toNode?, Word.isName_symbol]
  rfl

theorem agrees_brackets {α : Type} {phrase : α → Phrase} {readings : α → Concrete.Readings}
    {items : List α} {bound : Nat}
    (hbound : (Phrase.brackets (items.map phrase)).height < bound)
    (hplain : ∀ item ∈ items, (phrase item).Plain)
    (hitems : ∀ item ∈ items, ∀ {bound}, (phrase item).height < bound →
      Agrees (ofHeight bound) (phrase item) (readings item)) :
    Agrees (ofHeight bound) (.brackets (items.map phrase)) (.brackets (items.map readings)) := by
  obtain ⟨bound, rfl⟩ := Nat.exists_eq_succ_of_ne_zero (Nat.ne_zero_of_lt hbound)
  have hbracketed : (Phrase.brackets (items.map phrase)).bracketed? = some (items.map phrase) :=
    Phrase.bracketed?_brackets (by simpa using hplain)
  have hheight : ∀ item ∈ items, (phrase item).height < bound := by
    intro item hmem
    have hrow : phrase item ∈ (items.map phrase).intersperse (.word Symbol.comma.text) :=
      mem_intersperse_of_mem (List.mem_map_of_mem hmem)
    exact Phrase.height_lt_of_mem hbound
      (List.mem_cons_of_mem _ (List.mem_append_left _ hrow))
  constructor
  · change (ofHeight bound).expressionStep _ = _
    rw [expressionStep, hbracketed]
    cases items with
    | nil => rfl
    | cons item rest =>
        cases rest with
        | nil => exact (hitems item (by simp) (hheight item (by simp))).node
        | cons second rest => simp [Concrete.Readings.brackets]
  · rw [arguments, hbracketed]
    change (items.map phrase).mapM (ofHeight (bound + 1)).expression =
      (items.map readings).mapM Concrete.Readings.node
    rw [Meaning.mapM_map (h := fun item => (readings item).node), Meaning.mapM_map]
    · exact fun _ _ => rfl
    · intro item hmem
      exact (hitems item hmem (Nat.lt_succ_of_lt (hheight item hmem))).node
  · have hpositive : 0 < bound := Nat.lt_of_le_of_lt (Nat.zero_le _)
      (Phrase.height_lt_of_mem hbound List.mem_cons_self)
    obtain ⟨bound, rfl⟩ := Nat.exists_eq_succ_of_ne_zero (Nat.ne_zero_of_lt hpositive)
    change _ = Meaning.gather Concrete.Readings.statements (items.map readings)
    rw [Phrase.brackets, statements_run (Construct.of?_brackets (by simpa using hplain)),
      List.cons_append, Meaning.gather_cons_silent (statements_symbol _),
      Meaning.gather_append_silent (statements_symbol _),
      Meaning.gather_intersperse (statements_symbol _),
      Meaning.gather_map (h := fun item => (readings item).statements), Meaning.gather_map]
    · exact fun _ _ => rfl
    · intro item hmem
      exact (hitems item hmem (hheight item hmem)).statements

end Lowering

namespace Concrete

open Lowering

/-- Lowering an expression gives what its productions mean. -/
theorem Expression.agrees {rank : Rank} (e : Expression rank) {bound : Nat}
    (hbound : e.phrase.height < bound) : Agrees (ofHeight bound) e.phrase e.readings := by
  induction e generalizing bound with
  | text value =>
      obtain ⟨bound, rfl⟩ := Nat.exists_eq_add_of_lt hbound
      exact agrees_leaf rfl
  | truth value =>
      obtain ⟨bound, rfl⟩ := Nat.exists_eq_add_of_lt hbound
      exact agrees_leaf rfl
  | number value =>
      obtain ⟨bound, rfl⟩ := Nat.exists_eq_add_of_lt hbound
      exact agrees_leaf rfl
  | negative magnitude =>
      obtain ⟨bound, rfl⟩ := Nat.exists_eq_add_of_lt hbound
      exact agrees_leaf rfl
  | named name =>
      obtain ⟨bound, rfl⟩ := Nat.exists_eq_add_of_lt hbound
      exact agrees_leaf (by rw [Atom.toNode?, if_pos name.isName])
  | creation className =>
      rw [phrase_creation] at hbound ⊢
      obtain ⟨bound, rfl⟩ := Nat.exists_eq_add_of_lt hbound
      refine agrees_construct (by decide) ((creation className).classified _ _ .here) ?_
      rw [Lowering.construct, Lowering.create, Phrase.name_word]
      rfl
  | bracketed items ih =>
      rw [phrase_bracketed] at hbound ⊢
      rw [readings, readingsOfAll_eq_map]
      exact agrees_brackets hbound (fun item _ => item.plain_phrase) ih
  | minus inner ih =>
      rw [phrase_minus] at hbound ⊢
      obtain ⟨bound, rfl⟩ := Nat.exists_eq_succ_of_ne_zero (Nat.ne_zero_of_lt hbound)
      have hright := (ih (Phrase.height_lt_of_mem hbound (by simp))).node
      have hzero : (ofHeight bound).expression (.number 0) = .ok (.literal (.number 0)) := by
        have hpositive := Phrase.height_lt_of_mem hbound List.mem_cons_self
        obtain ⟨bound, rfl⟩ := Nat.exists_eq_succ_of_ne_zero (Nat.ne_zero_of_lt hpositive)
        exact (agrees_leaf rfl).node
      refine agrees_construct rfl ((minus inner).classified _ _ .here) ?_
      rw [Lowering.construct, Lowering.binary, Phrase.operator_symbol .sub, hzero, hright]
      rfl
  | operand inner ih => exact ih hbound
  | single level inner ih => exact ih hbound
  | joined level operator hlevel left right ihl ihr =>
      rw [phrase_joined] at hbound ⊢
      obtain ⟨bound, rfl⟩ := Nat.exists_eq_succ_of_ne_zero (Nat.ne_zero_of_lt hbound)
      have hleft := (ihl (Phrase.height_lt_of_mem hbound (by simp))).node
      have hright := (ihr (Phrase.height_lt_of_mem hbound (by simp))).node
      refine agrees_construct (left.plain_phrase.isWord (by decide))
        ((joined level operator hlevel left right).classified _ _ .here) ?_
      rw [Lowering.construct, Lowering.binary, Phrase.operator_symbol operator, hleft, hright]
      rfl
  | plain inner ih => exact ih hbound
  | call argument callee ih =>
      rw [phrase_call] at hbound ⊢
      obtain ⟨bound, rfl⟩ := Nat.exists_eq_succ_of_ne_zero (Nat.ne_zero_of_lt hbound)
      have hargument := (ih (Phrase.height_lt_of_mem hbound (by simp))).arguments
      refine agrees_construct (argument.plain_phrase.isWord (by decide))
        ((call argument callee).classified _ _ .here) ?_
      rw [Lowering.construct, Lowering.call, Phrase.name_word, hargument]
      rfl

theorem Expression.braced?_phrase {rank : Rank} (e : Expression rank) :
    e.phrase.braced? = none := by
  induction e with
  | text | truth | named | negative | number => rfl
  | creation className => exact Phrase.enclosed?_eq_none (by decide)
  | bracketed items ih =>
      rw [phrase_bracketed]
      exact Phrase.enclosed?_eq_none (by decide)
  | minus inner ih => exact Phrase.enclosed?_eq_none rfl
  | operand inner ih => exact ih
  | single level inner ih => exact ih
  | joined level operator hlevel left right ihl ihr =>
      exact Phrase.enclosed?_eq_none (left.plain_phrase.isWord (by decide))
  | plain inner ih => exact ih
  | call argument callee ih =>
      exact Phrase.enclosed?_eq_none (argument.plain_phrase.isWord (by decide))

namespace Clause

variable {bound : Nat}

/-- The parts of a case. -/
def caseParts : Clause .patternCase → List Phrase
  | .patternCase pattern guard body =>
    (patternTrees pattern).map Tree.phrase ++ (guardTrees guard).map Tree.phrase ++
      [.braces (body.map phrase)]

theorem phrase_eq_caseParts (case : Clause .patternCase) :
    case.phrase = .group case.caseParts := by
  cases case with
  | patternCase pattern guard body => exact phrase_patternCase pattern guard body

theorem caseParts_braces (cases : List (Clause .patternCase)) :
    (Phrase.braces (cases.map phrase)).caseParts = .ok (cases.map caseParts) := by
  have hcases (f : Phrase → Meaning (List Phrase)) (hf : ∀ parts, f (.group parts) = .ok parts) :
      (cases.map phrase).mapM f = .ok (cases.map caseParts) := by
    induction cases with
    | nil => rfl
    | cons case rest ih =>
        rw [List.map_cons, List.mapM_cons, ih, phrase_eq_caseParts, hf]
        rfl
  rw [Phrase.caseParts, Phrase.braced?_braces]
  dsimp only
  rw [List.mapM_cons, Phrase.parts?]
  dsimp only
  rw [hcases _ fun _ => rfl]
  simp [pure, Except.pure, bind, Except.bind]

/-- Lowering a clause gives what it means: a statement as part of a body, a case
through the parts of its group. -/
def Lowers : {part : Part} → Clause part → Prop
  | .statement, clause =>
    ∀ {bound}, clause.phrase.height < bound →
      (ofHeight bound).statements clause.phrase = clause.meaning
  | .sentence, clause =>
    ∀ {bound}, clause.phrase.height < bound →
      (ofHeight bound).statements clause.phrase = clause.meaning
  | .patternCase, clause =>
    ∀ {bound}, clause.phrase.height < bound + 1 →
      (ofHeight bound).patternCase clause.caseParts = clause.meaning

theorem of?_statements (body : List Statement) : Construct.of? (body.map phrase) = none := by
  apply Construct.of?_eq_none
  · simp only [List.forall_mem_map]
    intro statement _
    exact statement.plain_phrase.isKeyword
  · simp only [List.forall_mem_map]
    intro statement _
    exact statement.plain_phrase.isOperator

theorem block_body {body : List Statement} (hbody : ∀ statement ∈ body, Lowers statement)
    (h : (Phrase.braces (body.map phrase)).height < bound) :
    (ofHeight bound).block (.braces (body.map phrase)) = bodyMeaning body := by
  obtain ⟨bound, rfl⟩ := Nat.exists_eq_succ_of_ne_zero (Nat.ne_zero_of_lt h)
  have hgroup : (Phrase.group (body.map phrase)).height < bound :=
    Phrase.height_lt_of_mem h (by simp)
  rw [block_braces (of?_statements body), bodyMeaning_eq_gather]
  apply Meaning.gather_map
  intro statement hmem
  apply hbody statement hmem
  exact Phrase.height_lt_of_mem (Nat.lt_succ_of_lt hgroup) (List.mem_map_of_mem hmem)

/-- The commas between the values of an enumeration are passed over. -/
theorem enumNames (items : List (Option Name)) :
    (Phrase.group (.word Symbol.leftBrace.text :: (items.map fun item => (enumItemTree item).phrase)
      ++ [.word Symbol.rightBrace.text])).names =
        .ok ((items.filterMap id).map Name.text) := by
  have hkept : (items.map fun item => (enumItemTree item).phrase).filter
      (fun part => !part.word?.any Word.isPunctuation) =
        (items.filterMap id).map fun name => .word name.text := by
    induction items with
    | nil => rfl
    | cons item rest ih =>
        cases item with
        | none =>
            rw [List.map_cons, List.filter_cons_of_neg (by decide), ih]
            rfl
        | some name =>
            rw [List.map_cons, List.filter_cons_of_pos (by simp [enumItemTree, name.isName]), ih]
            rfl
  apply Phrase.names_group
  rw [List.cons_append, List.filter_cons_of_neg (by decide), List.filter_append, hkept]
  simp [Symbol.text, Word.isPunctuation, Word.punctuation]

/-- A sentence begins with an expression and not with a brace. -/
theorem braced?_sentence (sentence : Clause .sentence) : sentence.phrase.braced? = none := by
  have hfirst (first : Expression .chain) (rest : List Phrase) :
      (Phrase.group (first.phrase :: rest)).braced? = none :=
    Phrase.enclosed?_eq_none (first.plain_phrase.isWord (by decide))
  cases sentence with
  | bare value => exact value.braced?_phrase
  | giveBack value => exact hfirst value _
  | throwUp value => exact hfirst value _
  | distinction subject cases => exact hfirst subject _
  | loop condition body => exact hfirst condition _
  | alternative condition consequent => exact hfirst condition _
  | alternativeBlock condition consequent alternate => exact hfirst condition _
  | alternativeSentence condition consequent alternate => exact hfirst condition _

/-- A statement that forms a construct is the node of that construct. -/
theorem statements_of_phrase {part : Part} {statement : Clause part} {parts : List Phrase}
    {construct : Construct} {meaning : Meaning (List Node)}
    (hbound : statement.phrase.height < bound) (hphrase : statement.phrase = .group parts)
    (hconstruct : Construct.of? parts = some construct)
    (h : ∀ bound, (∀ part ∈ parts, part.height < bound) →
      (do return [← (ofHeight bound).construct construct parts] : Meaning (List Node)) = meaning) :
    (ofHeight bound).statements statement.phrase = meaning := by
  obtain ⟨bound, rfl⟩ := Nat.exists_eq_succ_of_ne_zero (Nat.ne_zero_of_lt hbound)
  rw [hphrase] at hbound ⊢
  rw [statements_construct hconstruct]
  exact h bound fun part hmem => Phrase.height_lt_of_mem hbound hmem

theorem lowers_function (name : Name) (params : List Name) {body : List Statement}
    (hbody : ∀ statement ∈ body, Lowers statement) : Lowers (Clause.function name params body) := by
  intro bound hbound
  have hphrase := phrase_function name params body
  have hconstruct := (function name params body).classified.construct hphrase
  refine statements_of_phrase hbound hphrase hconstruct fun bound hparts => ?_
  have hblock := block_body hbody (hparts _ (by simp))
  rw [Lowering.construct, Lowering.function, Phrase.name_word, Phrase.names_brackets, hblock]
  simp only [Meaning.ok_bind, bind_assoc, pure_bind]
  rfl

theorem lowers_declaration (kind : Declaration) (name : Name) (value : Expression .chain) :
    Lowers (Clause.declaration kind name value) := by
  intro bound hbound
  have hphrase := phrase_declaration kind name value
  have hconstruct := (declaration kind name value).classified.construct hphrase
  refine statements_of_phrase hbound hphrase hconstruct fun bound hparts => ?_
  have hvalue := (value.agrees (hparts _ (by simp))).node
  rw [Lowering.construct, Lowering.variableDeclaration, Phrase.name_word, hvalue]
  cases kind with
  | here =>
      rw [if_pos (by simp [Declaration.keyword])]
      simp only [Meaning.ok_bind, bind_assoc, pure_bind]
      rfl
  | nearest =>
      rw [if_neg (by simp [Declaration.keyword]), if_pos (by simp [Declaration.keyword])]
      simp only [Meaning.ok_bind, bind_assoc, pure_bind]
      rfl

theorem lowers_classDeclaration (name : Name) (parent : Option Name) {body : List Statement}
    (hbody : ∀ statement ∈ body, Lowers statement) :
    Lowers (Clause.classDeclaration name parent body) := by
  intro bound hbound
  have hphrase := phrase_classDeclaration name parent body
  have hconstruct := (classDeclaration name parent body).classified.construct hphrase
  refine statements_of_phrase hbound hphrase hconstruct fun bound hparts => ?_
  have hblock := block_body hbody (hparts _ (by simp))
  cases parent with
  | none =>
      change (do return [← (ofHeight bound).classDeclaration
        [.keyword .classOf, .word name.text, .braces (body.map phrase)]]) = _
      rw [Lowering.classDeclaration, if_neg (by simp [Construct.has]), Phrase.name_word, hblock]
      simp only [Meaning.ok_bind, bind_assoc, pure_bind]
      rfl
  | some parent =>
      change (do return [← (ofHeight bound).classDeclaration
        [.keyword .classOf, .word name.text, .keyword .inherits, .word parent.text,
          .braces (body.map phrase)]]) = _
      rw [Lowering.classDeclaration, if_pos (by simp [Construct.has]), Phrase.name_word,
        Phrase.name_word, hblock]
      simp only [Meaning.ok_bind, bind_assoc, pure_bind]
      rfl

theorem lowers_enumDeclaration (name : Name) (items : List (Option Name)) :
    Lowers (Clause.enumDeclaration name items) := by
  intro bound hbound
  have hphrase := phrase_enumDeclaration name items
  have hconstruct := (enumDeclaration name items).classified.construct hphrase
  refine statements_of_phrase hbound hphrase hconstruct fun bound hparts => ?_
  rw [Lowering.construct, Lowering.enumDeclaration, Phrase.name_word, enumNames]
  rfl

theorem lowers_staticMethod (path : Name) {body : List Statement}
    (hbody : ∀ statement ∈ body, Lowers statement) : Lowers (Clause.staticMethod path body) := by
  intro bound hbound
  have hphrase := phrase_staticMethod path body
  have hconstruct := (staticMethod path body).classified.construct hphrase
  refine statements_of_phrase hbound hphrase hconstruct fun bound hparts => ?_
  have hblock := block_body hbody (hparts _ (by simp))
  rw [Lowering.construct, Lowering.staticMethod, Phrase.name_word, Meaning.ok_bind, hblock,
    meaning]
  cases Path.splitLast? path.text with
  | none => rfl
  | some split =>
      simp only [bind_assoc, pure_bind]

theorem lowers_attempt {body : List Statement} (caught : List Name) {handler : List Statement}
    (hbody : ∀ statement ∈ body, Lowers statement)
    (hhandler : ∀ statement ∈ handler, Lowers statement) :
    Lowers (Clause.attempt body caught handler) := by
  intro bound hbound
  have hphrase := phrase_attempt body caught handler
  have hconstruct := (attempt body caught handler).classified.construct hphrase
  refine statements_of_phrase hbound hphrase hconstruct fun bound hparts => ?_
  have hblock := block_body hbody (hparts _ (by simp))
  have hrescue := block_body hhandler (hparts _ (by simp))
  rw [Lowering.construct, Lowering.attempt, Phrase.names_brackets, hblock, hrescue]
  cases caught with
  | nil => rfl
  | cons first rest =>
      cases rest with
      | nil =>
          simp only [Meaning.ok_bind, List.map_cons, List.map_nil, bind_assoc, pure_bind]
          rfl
      | cons second rest =>
          change Except.error (MeaningFault.caughtNames _) = .error (.caughtNames _)
          simp

theorem lowers_importText (moduleName : String) : Lowers (Clause.importText moduleName) := by
  intro bound hbound
  have hphrase := phrase_importText moduleName
  have hconstruct := (importText moduleName).classified.construct hphrase
  exact statements_of_phrase hbound hphrase hconstruct fun _ _ => rfl

theorem lowers_importName (moduleName : Name) : Lowers (Clause.importName moduleName) := by
  intro bound hbound
  have hphrase := phrase_importName moduleName
  have hconstruct := (importName moduleName).classified.construct hphrase
  refine statements_of_phrase hbound hphrase hconstruct fun bound hparts => ?_
  have himporting : Lowering.importing [.keyword .importing, .word moduleName.text] =
      .ok (.importing moduleName.text) := by
    change (Phrase.word moduleName.text).name "module name" >>= _ = _
    rw [Phrase.name_word]
    rfl
  rw [Lowering.construct, himporting]
  rfl

theorem lowers_exporting (name : Name) (value : Expression .chain) :
    Lowers (Clause.exporting name value) := by
  intro bound hbound
  have hphrase := phrase_exporting name value
  have hconstruct := (exporting name value).classified.construct hphrase
  refine statements_of_phrase hbound hphrase hconstruct fun bound hparts => ?_
  have hvalue := (value.agrees (hparts _ (by simp))).node
  rw [Lowering.construct, Lowering.exporting, Phrase.name_word, hvalue]
  simp only [Meaning.ok_bind, bind_assoc, pure_bind]
  rfl

theorem lowers_typeInspection (value : Expression .chain) (typeName : Name) :
    Lowers (Clause.typeInspection value typeName) := by
  intro bound hbound
  have hphrase := phrase_typeInspection value typeName
  have hconstruct := (typeInspection value typeName).classified.construct hphrase
  refine statements_of_phrase hbound hphrase hconstruct fun bound hparts => ?_
  have hvalue := (value.agrees (hparts _ (by simp))).node
  rw [Lowering.construct, Lowering.inspectType, Phrase.name_word, hvalue]
  simp only [Meaning.ok_bind, bind_assoc, pure_bind]
  rfl

theorem lowers_giveBack (value : Expression .chain) : Lowers (Clause.giveBack value) := by
  intro bound hbound
  have hphrase := phrase_giveBack value
  have hconstruct := (giveBack value).classified.construct hphrase
  refine statements_of_phrase hbound hphrase hconstruct fun bound hparts => ?_
  have hvalue := (value.agrees (hparts _ (by simp))).node
  rw [Lowering.construct, Lowering.giveBack, hvalue]
  simp only [bind_assoc, pure_bind]
  rfl

theorem lowers_throwUp (value : Expression .chain) : Lowers (Clause.throwUp value) := by
  intro bound hbound
  have hphrase := phrase_throwUp value
  have hconstruct := (throwUp value).classified.construct hphrase
  refine statements_of_phrase hbound hphrase hconstruct fun bound hparts => ?_
  have hvalue := (value.agrees (hparts _ (by simp))).node
  rw [Lowering.construct, Lowering.throwUp, hvalue]
  simp only [bind_assoc, pure_bind]
  rfl

theorem lowers_distinction (subject : Expression .chain) {cases : List (Clause .patternCase)}
    (hcases : ∀ case ∈ cases, Lowers case) : Lowers (Clause.distinction subject cases) := by
  intro bound hbound
  have hphrase := phrase_distinction subject cases
  have hconstruct := (distinction subject cases).classified.construct hphrase
  refine statements_of_phrase hbound hphrase hconstruct fun bound hparts => ?_
  have hsubject := (subject.agrees (hparts _ (by simp))).node
  have hmapped : (cases.map caseParts).mapM (ofHeight bound).patternCase =
      casesMeaning cases := by
    rw [casesMeaning_eq_mapM]
    apply Meaning.mapM_map
    intro case hmem
    have hbraces : (Phrase.braces (cases.map phrase)).height < bound := hparts _ (by simp)
    have hgroup : (Phrase.group (cases.map phrase)).height < bound :=
      Phrase.height_lt_of_mem (Nat.lt_succ_of_lt hbraces) (by simp)
    apply hcases case hmem
    exact Nat.lt_succ_of_lt (Phrase.height_lt_of_mem (Nat.lt_succ_of_lt hgroup)
      (List.mem_map_of_mem hmem))
  rw [Lowering.construct, Lowering.distinguish, caseParts_braces, Meaning.ok_bind, hmapped,
    hsubject]
  simp only [bind_assoc, pure_bind]
  rfl

theorem lowers_loop (condition : Expression .chain) {body : List Statement}
    (hbody : ∀ statement ∈ body, Lowers statement) : Lowers (Clause.loop condition body) := by
  intro bound hbound
  have hphrase := phrase_loop condition body
  have hconstruct := (loop condition body).classified.construct hphrase
  refine statements_of_phrase hbound hphrase hconstruct fun bound hparts => ?_
  have hcondition := (condition.agrees (hparts _ (by simp))).node
  have hblock := block_body hbody (hparts _ (by simp))
  rw [Lowering.construct, Lowering.loop, hcondition, hblock]
  simp only [bind_assoc, pure_bind]
  rfl

theorem lowers_alternative (condition : Expression .chain) {consequent : List Statement}
    (hconsequent : ∀ statement ∈ consequent, Lowers statement) :
    Lowers (Clause.alternative condition consequent) := by
  intro bound hbound
  have hphrase := phrase_alternative condition consequent
  have hconstruct := (alternative condition consequent).classified.construct hphrase
  refine statements_of_phrase hbound hphrase hconstruct fun bound hparts => ?_
  have hcondition := (condition.agrees (hparts _ (by simp))).node
  have hthen := block_body hconsequent (hparts _ (by simp))
  rw [Lowering.construct, Lowering.alternative, hcondition, hthen]
  simp only [bind_assoc, pure_bind]
  rfl

theorem lowers_alternativeBlock (condition : Expression .chain)
    {consequent alternate : List Statement}
    (hconsequent : ∀ statement ∈ consequent, Lowers statement)
    (halternate : ∀ statement ∈ alternate, Lowers statement) :
    Lowers (Clause.alternativeBlock condition consequent alternate) := by
  intro bound hbound
  have hphrase := phrase_alternativeBlock condition consequent alternate
  have hconstruct :=
    (alternativeBlock condition consequent alternate).classified.construct hphrase
  refine statements_of_phrase hbound hphrase hconstruct fun bound hparts => ?_
  have hcondition := (condition.agrees (hparts _ (by simp))).node
  have hthen := block_body hconsequent (hparts _ (by simp))
  have helse := block_body halternate (hparts _ (by simp))
  rw [Lowering.construct, Lowering.alternative, if_pos (by simp), Lowering.alternate,
    Phrase.braced?_braces, Option.isSome_some, if_pos rfl, hcondition, hthen, helse]
  simp only [bind_assoc, pure_bind]
  rfl

theorem lowers_alternativeSentence (condition : Expression .chain) {consequent : List Statement}
    {alternate : Clause .sentence} (hconsequent : ∀ statement ∈ consequent, Lowers statement)
    (halternate : Lowers alternate) :
    Lowers (Clause.alternativeSentence condition consequent alternate) := by
  intro bound hbound
  have hphrase := phrase_alternativeSentence condition consequent alternate
  have hconstruct :=
    (alternativeSentence condition consequent alternate).classified.construct hphrase
  refine statements_of_phrase hbound hphrase hconstruct fun bound hparts => ?_
  have hcondition := (condition.agrees (hparts _ (by simp))).node
  have hthen := block_body hconsequent (hparts _ (by simp))
  have helse := halternate (hparts _ (by simp))
  rw [Lowering.construct, Lowering.alternative, if_pos (by simp), Lowering.alternate,
    alternate.braced?_sentence, hcondition, hthen, if_neg (by simp), helse]
  simp only [bind_assoc, pure_bind]
  rfl

theorem lowers_patternCase (pattern guard : Option (Expression .chain)) {body : List Statement}
    (hbody : ∀ statement ∈ body, Lowers statement) :
    Lowers (Clause.patternCase pattern guard body) := by
  intro bound hbound
  rw [phrase_eq_caseParts, caseParts] at hbound
  have hblock := block_body hbody (Phrase.height_lt_of_mem hbound (by simp))
  have hrest (head : Option Node) :
      (ofHeight bound).patternBody head
        ((guardTrees guard).map Tree.phrase ++ [.braces (body.map phrase)]) =
      (do
        let guard ← guard.mapM Expression.node
        let body ← bodyMeaning body
        return .mk head guard body : Meaning PatternCase) := by
    cases guard with
    | none =>
        change (do return PatternCase.mk head none (← (ofHeight bound).block _)) = _
        rw [hblock]
        rfl
    | some guard =>
        have hguard := (guard.agrees (Phrase.height_lt_of_mem hbound
          (by simp [guardTrees, Expression.phrase]))).node
        change (ofHeight bound).patternBody head
          [.keyword .provided, guard.phrase, .braces (body.map phrase)] = _
        rw [Lowering.patternBody, if_pos (by simp), hguard, hblock, Option.mapM_some,
          Expression.node]
        cases guard.readings.node <;> rfl
  rw [caseParts, List.append_assoc]
  cases pattern with
  | none =>
      refine (patternCase_otherwise _ _).trans ((hrest none).trans ?_)
      rfl
  | some pattern =>
      have hpattern := (pattern.agrees (Phrase.height_lt_of_mem hbound
        (by simp [patternTrees, Expression.phrase]))).node
      refine (patternCase_pattern (pattern.isKeyword_tree .otherwise) _).trans ?_
      rw [← Expression.phrase, hpattern, meaning, Option.mapM_some, Expression.node]
      cases pattern.readings.node with
      | error fault => rfl
      | ok node => exact hrest (some node)

theorem lowers {part : Part} (clause : Clause part) : Lowers clause := by
  induction clause with
  | function name params body ih => exact lowers_function name params ih
  | declaration kind name value => exact lowers_declaration kind name value
  | classDeclaration name parent body ih => exact lowers_classDeclaration name parent ih
  | enumDeclaration name items => exact lowers_enumDeclaration name items
  | staticMethod path body ih => exact lowers_staticMethod path ih
  | attempt body caught handler ihb ihh => exact lowers_attempt caught ihb ihh
  | importText moduleName => exact lowers_importText moduleName
  | importName moduleName => exact lowers_importName moduleName
  | exporting name value => exact lowers_exporting name value
  | typeInspection value typeName => exact lowers_typeInspection value typeName
  | sentence inner ih => exact ih
  | bare value =>
      intro bound hbound
      exact (value.agrees hbound).statements
  | giveBack value => exact lowers_giveBack value
  | throwUp value => exact lowers_throwUp value
  | distinction subject cases ih => exact lowers_distinction subject ih
  | loop condition body ih => exact lowers_loop condition ih
  | alternative condition consequent ih => exact lowers_alternative condition ih
  | alternativeBlock condition consequent alternate ihc iha =>
      exact lowers_alternativeBlock condition ihc iha
  | alternativeSentence condition consequent alternate ihc iha =>
      exact lowers_alternativeSentence condition ihc iha
  | patternCase pattern guard body ih => exact lowers_patternCase pattern guard ih

end Clause

/-- Lowering by recognition and the meaning of the productions are the same,
down to the fault that is reported. -/
theorem Program.ofPhrase_phrase (program : Program) :
    Node.ofPhrase program.phrase = program.node := by
  have hstatements : (ofHeight (program.phrase.height + 1)).statements program.phrase =
      Meaning.gather Clause.meaning program := by
    rw [program.phrase_eq, statements_run (Clause.of?_statements program)]
    apply Meaning.gather_map
    intro statement hmem
    exact statement.lowers (Phrase.height_lt_of_mem (Nat.lt_succ_self _)
      (List.mem_map_of_mem hmem))
  rw [Node.ofPhrase, hstatements]
  rfl

end Concrete

end Wabun
