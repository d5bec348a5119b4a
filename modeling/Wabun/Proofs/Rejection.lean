import Wabun.Proofs.Paths
import Wabun.Proofs.Recognition

/-!
Why a phrase that the reader gives has no meaning. There are three causes and no other:
brackets with no value or several values where one is needed, the path of a static method
without a dot, and an attempt that does not catch under exactly one name. A cause anywhere
in the phrase is enough, and the fault that is reported is that of one of the causes. All
other faults of lowering are about phrases that the grammar does not derive.
-/

namespace Wabun

namespace Construct

/-- The parts of a construct where one value is needed. The arguments of a call need one
value each, and the brackets around them are the call's own. -/
def slots : Construct → List Phrase → List Phrase
  | .exporting, [_, _, _, value] => [value]
  | .variableDeclaration, [_, _, _, value] => [value]
  | .inspectType, [_, value, _, _] => [value]
  | .distinguish, subject :: _ => [subject]
  | .strayCase, [pattern, _, _] => [pattern]
  | .strayCase, [pattern, _, _, guard, _] => [pattern, guard]
  | .alternative, condition :: _ => [condition]
  | .loop, condition :: _ => [condition]
  | .giveBack, value :: _ => [value]
  | .throwUp, value :: _ => [value]
  | .call, argument :: _ => argument.bracketed?.getD [argument]
  | .binary, [left, _, right] => [left, right]
  | _, _ => []

end Construct

namespace Phrase

/-- The condition of a case that has no pattern. -/
def guardSlots : List Phrase → List Phrase
  | [_, marker, guard, _] => if marker.isKeyword .provided then [guard] else []
  | _ => []

/-- The parts of a group where one value is needed. -/
def slots (parts : List Phrase) : List Phrase :=
  match Construct.of? parts with
  | some construct => construct.slots parts
  | none => guardSlots parts

/-- Brackets with no value or several. Brackets around a single value do not count, but
those inside of them do. -/
inductive Unfit : Phrase → MeaningFault → Prop
  | here {phrase items} : phrase.bracketed? = some items → items.length ≠ 1 →
    Unfit phrase (.bracketed items.length)
  | inside {phrase item fault} : phrase.bracketed? = some [item] → Unfit item fault →
    Unfit phrase fault

/-- What can be wrong with the direct parts of a group that the grammar derives. -/
inductive Misfit (parts : List Phrase) : MeaningFault → Prop
  | value {slot fault} : slot ∈ slots parts → Unfit slot fault → Misfit parts fault
  | staticPath {path} : Construct.of? parts = some .staticMethod →
    parts[1]? = some (.word path) → '.' ∉ path.toList → Misfit parts (.staticPath path)
  | caughtNames {names : List String} : Construct.of? parts = some .attempt →
    parts[3]? = some (.brackets (names.map word)) → names.length ≠ 1 →
    Misfit parts (.caughtNames names.length)

/-- A group of the phrase, at any depth, with something wrong about it. -/
def Offends (phrase : Phrase) (fault : MeaningFault) : Prop :=
  ∃ parts, Contains parts phrase ∧ Misfit parts fault

variable {phrase item : Phrase} {parts items : List Phrase} {fault : MeaningFault}

theorem not_offends_leaf (atom : Atom) : ¬ (leaf atom).Offends fault := by
  rintro ⟨parts, hcontains, _⟩
  cases hcontains

@[simp]
theorem not_offends_word (text : String) : ¬ (word text).Offends fault :=
  not_offends_leaf _

@[simp]
theorem not_offends_number (x : Float) : ¬ (number x).Offends fault :=
  not_offends_leaf _

@[simp]
theorem not_offends_keyword (k : Keyword) : ¬ (keyword k).Offends fault :=
  not_offends_leaf _

theorem offends_group :
    (group parts).Offends fault ↔ Misfit parts fault ∨ ∃ part ∈ parts, part.Offends fault := by
  constructor
  · rintro ⟨inner, hcontains, hmisfit⟩
    cases hcontains with
    | here => exact .inl hmisfit
    | inside hmem hcontains => exact .inr ⟨_, hmem, inner, hcontains, hmisfit⟩
  · rintro (hmisfit | ⟨part, hmem, inner, hcontains, hmisfit⟩)
    · exact ⟨parts, .here, hmisfit⟩
    · exact ⟨inner, .inside hmem hcontains, hmisfit⟩

theorem not_unfit_of_bracketed? (h : phrase.bracketed? = none) : ¬ phrase.Unfit fault := by
  intro hunfit
  cases hunfit with
  | here hsome => simp [h] at hsome
  | inside hsome => simp [h] at hsome

theorem unfit_of_bracketed?_singleton (h : phrase.bracketed? = some [item]) :
    phrase.Unfit fault ↔ item.Unfit fault := by
  constructor
  · intro hunfit
    cases hunfit with
    | here hsome hlength =>
        rw [h] at hsome
        cases hsome
        exact absurd rfl hlength
    | inside hsome hinside =>
        rw [h] at hsome
        cases hsome
        exact hinside
  · exact .inside h

/-- Groups that form a construct without a path or names of their own. -/
theorem misfit_of_construct {construct : Construct} (h : Construct.of? parts = some construct)
    (hstatic : construct ≠ .staticMethod) (hattempt : construct ≠ .attempt) :
    Misfit parts fault ↔ ∃ slot ∈ construct.slots parts, slot.Unfit fault := by
  have hslots : slots parts = construct.slots parts := by
    rw [slots, h]
  constructor
  · intro hmisfit
    cases hmisfit with
    | value hslot hunfit => exact ⟨_, hslots ▸ hslot, hunfit⟩
    | staticPath hconstruct => exact absurd (Option.some.inj (h.symm.trans hconstruct)) hstatic
    | caughtNames hconstruct => exact absurd (Option.some.inj (h.symm.trans hconstruct)) hattempt
  · rintro ⟨slot, hslot, hunfit⟩
    exact .value (hslots ▸ hslot) hunfit

theorem offends_construct {construct : Construct} (h : Construct.of? parts = some construct)
    (hstatic : construct ≠ .staticMethod) (hattempt : construct ≠ .attempt) :
    (group parts).Offends fault ↔
      (∃ slot ∈ construct.slots parts, slot.Unfit fault) ∨ ∃ part ∈ parts, part.Offends fault := by
  rw [offends_group, misfit_of_construct h hstatic hattempt]

theorem misfit_of_none (h : Construct.of? parts = none) :
    Misfit parts fault ↔ ∃ slot ∈ guardSlots parts, slot.Unfit fault := by
  have hslots : slots parts = guardSlots parts := by
    rw [slots, h]
  constructor
  · intro hmisfit
    cases hmisfit with
    | value hslot hunfit => exact ⟨_, hslots ▸ hslot, hunfit⟩
    | staticPath hconstruct => simp [h] at hconstruct
    | caughtNames hconstruct => simp [h] at hconstruct
  · rintro ⟨slot, hslot, hunfit⟩
    exact .value (hslots ▸ hslot) hunfit

/-- Groups that only hold other phrases together. -/
theorem offends_of_none (h : Construct.of? parts = none)
    (hquiet : ∀ part ∈ parts, part.isKeyword .provided = false) :
    (group parts).Offends fault ↔ ∃ part ∈ parts, part.Offends fault := by
  have hguard : guardSlots parts = [] := by
    unfold guardSlots
    split
    · next marker _ _ => rw [hquiet marker (by simp)]; rfl
    · rfl
  rw [offends_group, misfit_of_none h, hguard]
  simp

/-- A group of names and symbols. -/
theorem not_offends_words
    (h : ∀ part ∈ parts, (∃ s : Symbol, part = word s.text ∧ Word.isOperator s.text = false) ∨
      ∃ name : Name, part = word name.text) : ¬ (group parts).Offends fault := by
  have hquiet : ∀ part ∈ parts, (∀ k, part.isKeyword k = false) ∧
      part.word?.any Word.isOperator = false ∧ ¬ part.Offends fault := by
    intro part hpart
    rcases h part hpart with ⟨s, rfl, hs⟩ | ⟨name, rfl⟩
    · exact ⟨isKeyword_symbol s, hs, not_offends_word _⟩
    · exact ⟨isKeyword_name name, (plain_name name).isOperator, not_offends_word _⟩
  have hnone : Construct.of? parts = none :=
    Construct.of?_eq_none (fun part hpart => (hquiet part hpart).1)
      (fun part hpart => (hquiet part hpart).2.1)
  rw [offends_of_none hnone fun part hpart => (hquiet part hpart).1 .provided]
  rintro ⟨part, hpart, hoffends⟩
  exact (hquiet part hpart).2.2 hoffends

theorem offends_brackets (hitems : ∀ item ∈ items, item.Plain) :
    (brackets items).Offends fault ↔ ∃ item ∈ items, item.Offends fault := by
  have hparts : ∀ part ∈ word Symbol.leftParen.text ::
      items.intersperse (word Symbol.comma.text) ++ [word Symbol.rightParen.text],
      (∃ s : Symbol, part = word s.text) ∨ part ∈ items := by
    intro part hpart
    rw [List.cons_append, List.mem_cons, List.mem_append, List.mem_singleton] at hpart
    rcases hpart with rfl | hpart | rfl
    · exact .inl ⟨.leftParen, rfl⟩
    · rcases mem_of_mem_intersperse hpart with rfl | hitem
      · exact .inl ⟨.comma, rfl⟩
      · exact .inr hitem
    · exact .inl ⟨.rightParen, rfl⟩
  rw [brackets, offends_of_none (Construct.of?_brackets hitems)]
  · constructor
    · rintro ⟨part, hpart, hoffends⟩
      rcases hparts part hpart with ⟨s, rfl⟩ | hitem
      · exact absurd hoffends (not_offends_word _)
      · exact ⟨part, hitem, hoffends⟩
    · rintro ⟨item, hitem, hoffends⟩
      exact ⟨item, by simp [mem_intersperse_of_mem hitem], hoffends⟩
  · intro part hpart
    rcases hparts part hpart with ⟨s, rfl⟩ | hitem
    · exact isKeyword_symbol s .provided
    · exact (hitems part hitem).isKeyword .provided

theorem length_eq_of_brackets {others : List Phrase} (h : brackets items = brackets others) :
    items.length = others.length := by
  have hlength := congrArg List.length (Phrase.group.inj h)
  simp only [List.cons_append, List.length_cons, List.length_append,
    List.length_intersperse] at hlength
  omega

theorem offends_braces (hitems : ∀ item ∈ items, item.Plain) :
    (braces items).Offends fault ↔ ∃ item ∈ items, item.Offends fault := by
  have hinner : Construct.of? items = none :=
    Construct.of?_eq_none (fun item hitem => (hitems item hitem).isKeyword)
      (fun item hitem => (hitems item hitem).isOperator)
  have houter : Construct.of? [word Symbol.leftBrace.text, group items,
      word Symbol.rightBrace.text] = none := by
    apply Construct.of?_eq_none
    · simp
    · simp only [List.forall_mem_cons]
      exact ⟨by decide, rfl, by decide, fun _ h => absurd h List.not_mem_nil⟩
  rw [braces, offends_of_none houter (by simp)]
  simp [offends_of_none hinner fun item hitem => (hitems item hitem).isKeyword .provided]

end Phrase

namespace Meaning

variable {α β : Type}

/-- The meaning fails if there is any cause for it, and the fault is one of the causes. -/
structure FailsFor (meaning : Meaning α) (causes : MeaningFault → Prop) : Prop where
  cause : ∀ {fault}, meaning = .error fault → causes fault
  fails : ∀ {fault}, causes fault → ∃ reported, meaning = .error reported

namespace FailsFor

variable {meaning : Meaning α} {causes others : MeaningFault → Prop}

theorem ok (value : α) (h : ∀ fault, ¬ causes fault) :
    FailsFor (.ok value : Meaning α) causes := by
  constructor
  · intro fault hfault
    cases hfault
  · intro fault hcause
    exact absurd hcause (h fault)

theorem error {fault : MeaningFault} (h : causes fault) :
    FailsFor (.error fault : Meaning α) causes := by
  constructor
  · intro reported hreported
    cases hreported
    exact h
  · exact fun _ => ⟨fault, rfl⟩

theorem congr (h : FailsFor meaning causes) (hcauses : ∀ fault, others fault ↔ causes fault) :
    FailsFor meaning others := by
  constructor
  · exact fun hfault => (hcauses _).mpr (h.cause hfault)
  · exact fun hcause => h.fails ((hcauses _).mp hcause)

theorem bind {next : α → Meaning β} (h : FailsFor meaning causes)
    (hnext : ∀ value, FailsFor (next value) others) :
    FailsFor (meaning >>= next) (fun fault => causes fault ∨ others fault) := by
  cases meaning with
  | error first =>
      exact error (.inl (h.cause rfl))
  | ok value =>
      constructor
      · exact fun hfault => .inr ((hnext value).cause hfault)
      · intro fault hcause
        rcases hcause with hcause | hcause
        · obtain ⟨_, hreported⟩ := h.fails hcause
          cases hreported
        · exact (hnext value).fails hcause

/-- What is made of a value cannot fail any more. -/
theorem map (h : FailsFor meaning causes) (make : α → β) :
    FailsFor (do return make (← meaning)) causes := by
  have hmake : ∀ value, FailsFor (.ok (make value) : Meaning β) fun _ => False :=
    fun value => ok (make value) fun _ hno => hno
  refine (h.bind hmake).congr ?_
  simp

theorem mapM {read : α → Meaning β} {causes : α → MeaningFault → Prop} {parts : List α}
    (h : ∀ part ∈ parts, FailsFor (read part) (causes part)) :
    FailsFor (parts.mapM read) (fun fault => ∃ part ∈ parts, causes part fault) := by
  induction parts with
  | nil => exact ok [] (by simp)
  | cons first rest ih =>
      have hrest := ih fun part hmem => h part (List.mem_cons_of_mem first hmem)
      rw [List.mapM_cons]
      refine ((h first List.mem_cons_self).bind fun _ => hrest.map _).congr ?_
      simp

theorem optional {read : α → Meaning β} {causes : α → MeaningFault → Prop} (part : Option α)
    (h : ∀ value, FailsFor (read value) (causes value)) :
    FailsFor (part.mapM read) (fun fault => ∃ value ∈ part, causes value fault) := by
  cases part with
  | none => exact ok none (by simp)
  | some value => exact ((h value).map some).congr (by simp)

theorem gather {read : α → Meaning (List Node)} {causes : α → MeaningFault → Prop}
    {parts : List α} (h : ∀ part ∈ parts, FailsFor (read part) (causes part)) :
    FailsFor (Meaning.gather read parts) (fun fault => ∃ part ∈ parts, causes part fault) := by
  induction parts with
  | nil => exact ok [] (by simp)
  | cons first rest ih =>
      have hrest := ih fun part hmem => h part (List.mem_cons_of_mem first hmem)
      refine ((h first List.mem_cons_self).bind fun _ => hrest.map _).congr ?_
      simp

end FailsFor

end Meaning

namespace Concrete

open Meaning (FailsFor)

/-- The causes for which a phrase has no meaning where one value is needed. -/
def ValueCause (phrase : Phrase) (fault : MeaningFault) : Prop :=
  phrase.Unfit fault ∨ phrase.Offends fault

/-- Each of the three readings fails for causes in the phrase, and where values are
needed also for brackets that stand there. -/
structure Readings.FailFor (readings : Readings) (phrase : Phrase) : Prop where
  node : FailsFor readings.node (ValueCause phrase)
  arguments : FailsFor readings.arguments fun fault =>
    (∃ slot ∈ phrase.bracketed?.getD [phrase], slot.Unfit fault) ∨ phrase.Offends fault
  statements : FailsFor readings.statements phrase.Offends

namespace Readings.FailFor

theorem single {phrase : Phrase} {meaning : Meaning Node} (hbrackets : phrase.bracketed? = none)
    (h : FailsFor meaning phrase.Offends) : (Readings.single meaning).FailFor phrase := by
  have hunfit (fault : MeaningFault) : ¬ phrase.Unfit fault :=
    Phrase.not_unfit_of_bracketed? hbrackets
  constructor
  · exact h.congr (by simp [ValueCause, hunfit])
  · exact (h.map _).congr (by simp [hbrackets, hunfit])
  · exact h.map _

theorem literal (atom : Atom) (node : Node) :
    (Readings.single (.ok node)).FailFor (.leaf atom) :=
  single rfl (.ok node fun _ => Phrase.not_offends_leaf atom)

/-- A group that begins with no bracket. -/
theorem construct {first : Phrase} {rest : List Phrase} {meaning : Meaning Node}
    (hfirst : first.isWord Symbol.leftParen.text = false)
    (h : FailsFor meaning (Phrase.group (first :: rest)).Offends) :
    (Readings.single meaning).FailFor (.group (first :: rest)) := by
  refine single ?_ h
  rw [Phrase.bracketed?, Phrase.enclosed?_eq_none hfirst]
  rfl

theorem brackets {α : Type} {phrase : α → Phrase} {readings : α → Readings} {items : List α}
    (hplain : ∀ item ∈ items, (phrase item).Plain)
    (h : ∀ item ∈ items, (readings item).FailFor (phrase item)) :
    (Readings.brackets (items.map readings)).FailFor (.brackets (items.map phrase)) := by
  have hbracketed : (Phrase.brackets (items.map phrase)).bracketed? = some (items.map phrase) :=
    Phrase.bracketed?_brackets (by simpa using hplain)
  have hoffends (fault : MeaningFault) : (Phrase.brackets (items.map phrase)).Offends fault ↔
      ∃ item ∈ items, (phrase item).Offends fault := by
    rw [Phrase.offends_brackets (by simpa using hplain)]
    simp
  constructor
  · cases items with
    | nil => exact .error (.inl (.here hbracketed (by simp)))
    | cons first rest =>
        cases rest with
        | nil =>
            refine (h first List.mem_cons_self).node.congr fun fault => ?_
            rw [ValueCause, Phrase.unfit_of_bracketed?_singleton hbracketed, hoffends]
            simp [ValueCause]
        | cons second others =>
            have hunfit := Phrase.Unfit.here hbracketed (by simp)
            exact .error (.inl (by simpa using hunfit))
  · change FailsFor ((items.map readings).mapM Readings.node) _
    rw [Meaning.mapM_map (h := fun item => (readings item).node) fun _ _ => rfl]
    refine (FailsFor.mapM fun item hmem => (h item hmem).node).congr fun fault => ?_
    simp [hbracketed, hoffends, ValueCause, and_or_left, exists_or]
  · change FailsFor (Meaning.gather Readings.statements (items.map readings)) _
    rw [Meaning.gather_map (h := fun item => (readings item).statements) fun _ _ => rfl]
    exact (FailsFor.gather fun item hmem => (h item hmem).statements).congr hoffends

end Readings.FailFor

theorem Expression.failFor {rank : Rank} (e : Expression rank) :
    e.readings.FailFor e.phrase := by
  induction e with
  | text value => exact .literal _ _
  | truth value => exact .literal _ _
  | named name => exact .literal _ _
  | creation className =>
      have hof := (creation className).classified.construct (phrase_creation className)
      rw [phrase_creation]
      refine .construct (by decide) (.ok _ fun fault => ?_)
      simp [Phrase.offends_construct hof, Construct.slots]
  | bracketed items ih =>
      rw [phrase_bracketed, readings, readingsOfAll_eq_map]
      exact .brackets (fun item _ => item.plain_phrase) ih
  | negative magnitude => exact .literal _ _
  | minus inner ih =>
      have hof := (minus inner).classified.construct (phrase_minus inner)
      rw [phrase_minus]
      refine .construct (by decide) ((ih.node.map _).congr fun fault => ?_)
      have hzero : ¬ (Phrase.number 0).Unfit fault := Phrase.not_unfit_of_bracketed? rfl
      simp [Phrase.offends_construct hof, Construct.slots, ValueCause, hzero]
  | number value => exact .literal _ _
  | operand inner ih => exact ih
  | single level inner ih => exact ih
  | joined level operator hlevel left right ihl ihr =>
      have hof := (joined level operator hlevel left right).classified.construct
        (phrase_joined hlevel left right)
      rw [phrase_joined]
      refine .construct (left.plain_phrase.isWord (by decide)) ?_
      refine (ihl.node.bind fun _ => ihr.node.map _).congr fun fault => ?_
      simp [Phrase.offends_construct hof, Construct.slots, ValueCause, or_or_or_comm]
  | plain inner ih => exact ih
  | call argument callee ih =>
      have hof := (call argument callee).classified.construct (phrase_call argument callee)
      rw [phrase_call]
      refine .construct (argument.plain_phrase.isWord (by decide)) ?_
      refine (ih.arguments.map _).congr fun fault => ?_
      simp [Phrase.offends_construct hof, Construct.slots]

theorem Expression.node_failsFor {rank : Rank} (e : Expression rank) :
    FailsFor e.node (ValueCause e.phrase) :=
  e.failFor.node

namespace Clause

/-- What a clause contributes fails for the causes in its phrase. -/
def FailsForCauses {part : Part} (clause : Clause part) : Prop :=
  FailsFor clause.meaning clause.phrase.Offends

variable {body : List Statement}

theorem failsFor_body (h : ∀ statement ∈ body, statement.FailsForCauses) :
    FailsFor (bodyMeaning body) (Phrase.braces (body.map phrase)).Offends := by
  rw [bodyMeaning_eq_gather]
  refine (FailsFor.gather h).congr fun fault => ?_
  rw [Phrase.offends_braces (List.forall_mem_map.mpr fun statement _ => statement.plain_phrase)]
  simp

theorem failsFor_cases {cases : List (Clause .patternCase)}
    (h : ∀ case ∈ cases, case.FailsForCauses) :
    FailsFor (casesMeaning cases) (Phrase.braces (cases.map phrase)).Offends := by
  rw [casesMeaning_eq_mapM]
  refine (FailsFor.mapM h).congr fun fault => ?_
  rw [Phrase.offends_braces (List.forall_mem_map.mpr fun case _ => case.plain_phrase)]
  simp

theorem failsFor_staticMethod (path : Name) (h : ∀ statement ∈ body, statement.FailsForCauses) :
    (staticMethod path body).FailsForCauses := by
  have hof := (staticMethod path body).classified.construct (phrase_staticMethod path body)
  rw [FailsForCauses, phrase_staticMethod, meaning]
  cases hpath : Path.splitLast? path.text with
  | none =>
      have hdot := Path.splitLast?_eq_none_iff.mp hpath
      exact .error (Phrase.offends_group.mpr (.inl (.staticPath hof rfl hdot)))
  | some parts =>
      refine ((failsFor_body h).map _).congr fun fault => ?_
      have hmisfit : ¬ Phrase.Misfit [.keyword .static, .word path.text,
          .braces (body.map phrase)] fault := by
        intro hmisfit
        cases hmisfit with
        | value hslot => simp [Phrase.slots, hof, Construct.slots, Production.construct?] at hslot
        | staticPath _ hword hdot =>
            cases hword
            rw [Path.splitLast?_eq_none_iff.mpr hdot] at hpath
            cases hpath
        | caughtNames hattempt => simp [hof, Production.construct?] at hattempt
      simp [Phrase.offends_group, hmisfit]

theorem failsFor_attempt (caught : List Name) {handler : List Statement}
    (hbody : ∀ statement ∈ body, statement.FailsForCauses)
    (hhandler : ∀ statement ∈ handler, statement.FailsForCauses) :
    (attempt body caught handler).FailsForCauses := by
  have hof := (attempt body caught handler).classified.construct
    (phrase_attempt body caught handler)
  have hnames : (caught.map fun name => Phrase.word name.text) =
      (caught.map Name.text).map Phrase.word := by
    rw [List.map_map]
    rfl
  rw [FailsForCauses, phrase_attempt]
  by_cases hone : caught.length = 1
  · have hmisfit (fault : MeaningFault) : ¬ Phrase.Misfit [.keyword .attempt,
        .braces (body.map phrase), .keyword .rescue,
        .brackets (caught.map fun name => .word name.text), .braces (handler.map phrase)]
        fault := by
      intro hmisfit
      cases hmisfit with
      | value hslot => simp [Phrase.slots, hof, Construct.slots, Production.construct?] at hslot
      | staticPath hstatic => simp [hof, Production.construct?] at hstatic
      | caughtNames _ hwords hlength =>
          have hcount := Phrase.length_eq_of_brackets (Option.some.inj hwords)
          rw [List.length_map, List.length_map, hone] at hcount
          exact hlength hcount.symm
    have hwords : ∀ item ∈ caught.map fun name => Phrase.word name.text, item.Plain :=
      List.forall_mem_map.mpr fun name _ => Phrase.plain_name name
    obtain ⟨name, rfl⟩ := List.length_eq_one_iff.mp hone
    rw [List.map_singleton] at hmisfit hwords ⊢
    refine ((failsFor_body hbody).bind fun _ => (failsFor_body hhandler).map _).congr
      fun fault => ?_
    simp [Phrase.offends_group, hmisfit, Phrase.offends_brackets hwords]
  · have hmisfit : Phrase.Misfit [.keyword .attempt, .braces (body.map phrase),
        .keyword .rescue, .brackets (caught.map fun name => .word name.text),
        .braces (handler.map phrase)] (.caughtNames (caught.map Name.text).length) := by
      refine .caughtNames hof ?_ (by rwa [List.length_map])
      rw [hnames]
      rfl
    rw [List.length_map] at hmisfit
    have hmeaning : (attempt body caught handler).meaning =
        .error (.caughtNames caught.length) := by
      cases caught with
      | nil => rfl
      | cons first rest =>
          cases rest with
          | nil => exact absurd rfl hone
          | cons second others => rfl
    rw [hmeaning]
    exact .error (Phrase.offends_group.mpr (.inl hmisfit))

theorem failsFor_patternCase (pattern guard : Option (Expression .chain))
    (h : ∀ statement ∈ body, statement.FailsForCauses) :
    (patternCase pattern guard body).FailsForCauses := by
  have hof := (patternCase pattern guard body).classified.construct
    (phrase_patternCase pattern guard body)
  refine ((FailsFor.optional pattern Expression.node_failsFor).bind fun _ =>
    (FailsFor.optional guard Expression.node_failsFor).bind fun _ =>
      (failsFor_body h).map _).congr fun fault => ?_
  rw [phrase_patternCase]
  cases pattern with
  | none =>
      rw [Phrase.offends_group, Phrase.misfit_of_none hof]
      cases guard with
      | none => simp [patternTrees, guardTrees, Phrase.guardSlots]
      | some guard =>
          simp [patternTrees, guardTrees, Phrase.guardSlots, ValueCause, Expression.phrase, or_assoc]
  | some pattern =>
      rw [Phrase.offends_construct hof (by simp) (by simp)]
      cases guard with
      | none =>
          simp [patternTrees, guardTrees, Construct.slots, ValueCause, Expression.phrase, or_assoc]
      | some guard =>
          simp [patternTrees, guardTrees, Construct.slots, ValueCause, Expression.phrase,
            or_assoc, or_left_comm, or_comm]

theorem failsForCauses {part : Part} (clause : Clause part) : clause.FailsForCauses := by
  induction clause with
  | function name params body ih =>
      have hof := (function name params body).classified.construct
        (phrase_function name params body)
      refine ((failsFor_body ih).map _).congr fun fault => ?_
      have hplain : ∀ item ∈ params.map fun name => Phrase.word name.text, item.Plain := by
        simpa using fun name _ => Phrase.plain_name name
      simp [phrase_function, Phrase.offends_construct hof, Construct.slots,
        Phrase.offends_brackets hplain]
  | declaration kind name value =>
      have hof := (declaration kind name value).classified.construct
        (phrase_declaration kind name value)
      refine (value.node_failsFor.map _).congr fun fault => ?_
      simp [phrase_declaration, Phrase.offends_construct hof, Construct.slots, ValueCause]
  | classDeclaration name parent body ih =>
      have hof := (classDeclaration name parent body).classified.construct
        (phrase_classDeclaration name parent body)
      refine ((failsFor_body ih).map _).congr fun fault => ?_
      rw [phrase_classDeclaration, Phrase.offends_construct hof (by simp) (by simp)]
      cases parent with
      | none => simp [parentTrees, Construct.slots]
      | some parent => simp [parentTrees, Construct.slots]
  | enumDeclaration name items =>
      have hof := (enumDeclaration name items).classified.construct
        (phrase_enumDeclaration name items)
      refine .ok _ fun fault => ?_
      have hitems : ∀ part ∈ Phrase.word Symbol.leftBrace.text ::
          (items.map fun item => (enumItemTree item).phrase) ++
            [Phrase.word Symbol.rightBrace.text],
          (∃ s : Symbol, part = .word s.text ∧ Word.isOperator s.text = false) ∨
            ∃ name : Name, part = .word name.text := by
        intro part hpart
        rw [List.cons_append, List.mem_cons, List.mem_append, List.mem_singleton] at hpart
        rcases hpart with rfl | hpart | rfl
        · exact .inl ⟨.leftBrace, rfl, by decide⟩
        · obtain ⟨item, _, rfl⟩ := List.mem_map.mp hpart
          cases item with
          | none => exact .inl ⟨.comma, rfl, by decide⟩
          | some name => exact .inr ⟨name, rfl⟩
        · exact .inl ⟨.rightBrace, rfl, by decide⟩
      rw [phrase_enumDeclaration, Phrase.offends_construct hof (by simp) (by simp)]
      simpa [Construct.slots] using Phrase.not_offends_words hitems
  | staticMethod path body ih => exact failsFor_staticMethod path ih
  | attempt body caught handler ihb ihh => exact failsFor_attempt caught ihb ihh
  | importText moduleName =>
      have hof := (importText moduleName).classified.construct (phrase_importText moduleName)
      refine .ok _ fun fault => ?_
      simp [phrase_importText, Phrase.offends_construct hof, Construct.slots,
        Phrase.not_offends_leaf]
  | importName moduleName =>
      have hof := (importName moduleName).classified.construct (phrase_importName moduleName)
      refine .ok _ fun fault => ?_
      simp [phrase_importName, Phrase.offends_construct hof, Construct.slots]
  | exporting name value =>
      have hof := (exporting name value).classified.construct (phrase_exporting name value)
      refine (value.node_failsFor.map _).congr fun fault => ?_
      simp [phrase_exporting, Phrase.offends_construct hof, Construct.slots, ValueCause]
  | typeInspection value typeName =>
      have hof := (typeInspection value typeName).classified.construct
        (phrase_typeInspection value typeName)
      refine (value.node_failsFor.map _).congr fun fault => ?_
      simp [phrase_typeInspection, Phrase.offends_construct hof, Construct.slots, ValueCause]
  | sentence inner ih => exact ih
  | bare value => exact value.failFor.statements
  | giveBack value =>
      have hof := (giveBack value).classified.construct (phrase_giveBack value)
      refine (value.node_failsFor.map _).congr fun fault => ?_
      simp [phrase_giveBack, Phrase.offends_construct hof, Construct.slots, ValueCause]
  | throwUp value =>
      have hof := (throwUp value).classified.construct (phrase_throwUp value)
      refine (value.node_failsFor.map _).congr fun fault => ?_
      simp [phrase_throwUp, Phrase.offends_construct hof, Construct.slots, ValueCause]
  | distinction subject cases ih =>
      have hof := (distinction subject cases).classified.construct
        (phrase_distinction subject cases)
      refine ((failsFor_cases ih).bind fun _ => subject.node_failsFor.map _).congr fun fault => ?_
      simp [phrase_distinction, Phrase.offends_construct hof, Construct.slots, ValueCause,
        or_assoc, or_left_comm, or_comm]
  | loop condition body ih =>
      have hof := (loop condition body).classified.construct (phrase_loop condition body)
      refine (condition.node_failsFor.bind fun _ => (failsFor_body ih).map _).congr fun fault => ?_
      simp [phrase_loop, Phrase.offends_construct hof, Construct.slots, ValueCause, or_assoc]
  | alternative condition consequent ih =>
      have hof := (alternative condition consequent).classified.construct
        (phrase_alternative condition consequent)
      refine (condition.node_failsFor.bind fun _ => (failsFor_body ih).map _).congr fun fault => ?_
      simp [phrase_alternative, Phrase.offends_construct hof, Construct.slots, ValueCause, or_assoc]
  | alternativeBlock condition consequent alternate ihc iha =>
      have hof := (alternativeBlock condition consequent alternate).classified.construct
        (phrase_alternativeBlock condition consequent alternate)
      refine ((failsFor_body iha).bind fun _ => condition.node_failsFor.bind fun _ =>
        (failsFor_body ihc).map _).congr fun fault => ?_
      simp [phrase_alternativeBlock, Phrase.offends_construct hof, Construct.slots, ValueCause,
        or_assoc, or_left_comm, or_comm]
  | alternativeSentence condition consequent alternate ihc iha =>
      have hof := (alternativeSentence condition consequent alternate).classified.construct
        (phrase_alternativeSentence condition consequent alternate)
      refine (iha.bind fun _ => condition.node_failsFor.bind fun _ =>
        (failsFor_body ihc).map _).congr fun fault => ?_
      simp [phrase_alternativeSentence, Phrase.offends_construct hof, Construct.slots, ValueCause,
        or_assoc, or_left_comm, or_comm]
  | patternCase pattern guard body ih => exact failsFor_patternCase pattern guard ih

end Clause

theorem Program.failsFor (program : Program) :
    FailsFor (Meaning.gather Clause.meaning program) program.phrase.Offends := by
  have hplain : ∀ part ∈ program.map Clause.phrase, part.Plain :=
    List.forall_mem_map.mpr fun statement _ => statement.plain_phrase
  refine (FailsFor.gather fun statement _ => statement.failsForCauses).congr fun fault => ?_
  rw [program.phrase_eq, Phrase.offends_of_none (Clause.of?_statements program)
    fun part hpart => (hplain part hpart).isKeyword .provided]
  simp

end Concrete

/-- The tokens of `宣言 x は ((y, 真))`. -/
def TokenStream.bracketedPair : TokenStream where
  tokens :=
    [⟨.keyword .declare, ⟨1, 1⟩⟩, ⟨.word "x", ⟨1, 4⟩⟩, ⟨.keyword .topic, ⟨1, 6⟩⟩,
      ⟨.symbol .leftParen, ⟨1, 8⟩⟩, ⟨.symbol .leftParen, ⟨1, 9⟩⟩, ⟨.word "y", ⟨1, 10⟩⟩,
      ⟨.symbol .comma, ⟨1, 11⟩⟩, ⟨.truth true, ⟨1, 13⟩⟩, ⟨.symbol .rightParen, ⟨1, 14⟩⟩,
      ⟨.symbol .rightParen, ⟨1, 15⟩⟩]
  stop := ⟨1, 16⟩

/-- The phrase of `宣言 x は ((y, 真))`. -/
def Phrase.bracketedPair : Phrase :=
  .group [.group [.keyword .declare, .word "x", .keyword .topic,
    .brackets [.brackets [.word "y", .leaf (.truth true)]]]]

end Wabun
