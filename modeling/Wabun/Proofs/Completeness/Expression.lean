import Wabun.Proofs.Acceptance

/-!
Every expression that the grammar derives is accepted by the reader of token
streams, as the phrase of its derivation. What may follow it depends on its
rank: no operator that the rank would take in, and behind a chain of calls no
further call.
-/

namespace Wabun

open Token (Kind)

namespace Concrete

/-- No operator of the level stands at the head. -/
def NoOperator (level : Operator.Level) (rest : List Kind) : Prop :=
  ∀ op : Operator, rest.head? = some (.symbol (.operator op)) → op.level ≠ level

/-- No call stands at the head. A key word behind `を` is not a function. -/
def NoCall (rest : List Kind) : Prop :=
  ∀ (callee : Name) (tail : List Kind), rest ≠ .keyword .object :: .word callee.text :: tail

/-- What may follow an expression of a rank without being taken for a part of
it. -/
def Stops : Rank → List Kind → Prop
  | .chain, rest =>
    NoCall rest ∧ NoOperator .comparison rest ∧ NoOperator .additive rest ∧
      NoOperator .multiplicative rest
  | .level .comparison, rest =>
    NoOperator .comparison rest ∧ NoOperator .additive rest ∧ NoOperator .multiplicative rest
  | .level .additive, rest => NoOperator .additive rest ∧ NoOperator .multiplicative rest
  | .level .multiplicative, rest => NoOperator .multiplicative rest
  | .operand, _ => True
  | .unnumbered, _ => True

theorem stops_level {level : Operator.Level} {rest : List Kind} (h : Stops (.level level) rest) :
    NoOperator level rest ∧ Stops (Rank.below level) rest := by
  cases level with
  | comparison => exact h
  | additive => exact h
  | multiplicative => exact ⟨h, trivial⟩

theorem stops_below_operator {level : Operator.Level} {op : Operator} (hlevel : op.level = level)
    (rest : List Kind) : Stops (Rank.below level) (.symbol (.operator op) :: rest) := by
  have hother {looser : Operator.Level} (hne : level ≠ looser) :
      NoOperator looser (.symbol (.operator op) :: rest) := by
    intro other hhead
    have heq : op = other := by simpa using hhead
    rw [← heq, hlevel]
    exact hne
  cases level with
  | comparison => exact ⟨hother (by decide), hother (by decide)⟩
  | additive => exact hother (by decide)
  | multiplicative => trivial

/-- A token that is no operator and not `を` ends every expression. -/
theorem stops_of_head {kind : Kind} (rest : List Kind)
    (hoperator : ∀ op, kind ≠ .symbol (.operator op)) (hobject : kind ≠ .keyword .object) :
    Stops .chain (kind :: rest) := by
  have hnone (level : Operator.Level) : NoOperator level (kind :: rest) := by
    intro op hhead
    exact absurd (by simpa using hhead) (hoperator op)
  refine ⟨?_, hnone _, hnone _, hnone _⟩
  intro callee tail heq
  exact hobject (List.cons.inj heq).1

theorem stops_keyword {k : Keyword} (hk : k ≠ .object) (rest : List Kind) :
    Stops .chain (.keyword k :: rest) := by
  apply stops_of_head
  · intro op heq
    cases heq
  · intro heq
    exact hk (Keyword.text_injective (Kind.word.inj heq))

theorem stops_symbol {s : Symbol} (hs : ∀ op, s ≠ .operator op) (rest : List Kind) :
    Stops .chain (.symbol s :: rest) := by
  apply stops_of_head
  · intro op heq
    exact hs op (Kind.symbol.inj heq)
  · intro heq
    cases heq

theorem noOperator_keyword (level : Operator.Level) (k : Keyword) (rest : List Kind) :
    NoOperator level (.keyword k :: rest) := by
  intro op hhead
  cases hhead

/-- A key word behind `を` belongs to the sentence and not to the expression. -/
theorem stops_object_keyword (k : Keyword) (rest : List Kind) :
    Stops .chain (.keyword .object :: .keyword k :: rest) := by
  refine ⟨?_, noOperator_keyword _ _ _, noOperator_keyword _ _ _, noOperator_keyword _ _ _⟩
  intro callee tail heq
  have hword : k.text = callee.text := by
    have hsecond := (List.cons.inj (List.cons.inj heq).2).1
    exact Kind.word.inj hsecond
  exact Word.ne_of_isName callee.isName (Word.isName_keyword k) hword.symm

theorem stops_nil : Stops .chain [] := by
  have hnone (level : Operator.Level) : NoOperator level [] := by
    intro op hhead
    cases hhead
  refine ⟨?_, hnone _, hnone _, hnone _⟩
  intro callee tail heq
  cases heq

namespace Expression

/-- What the operands of a row have in common with the row. -/
def Row (motive : {rank : Rank} → Expression rank → Prop) :
    (rank : Rank) → Expression rank → Prop
  | .level level, e =>
    ∃ (first : Expression (Rank.below level)) (joints : List (Joint level)),
      e = joinAll (.single level first) joints ∧ motive first ∧
        ∀ joint ∈ joints, motive joint.right
  | .chain, e =>
    ∃ (first : Expression (.level .comparison)) (callees : List Name),
      e = callAll (.plain first) callees ∧ motive first
  | .operand, _ => True
  | .unnumbered, _ => True

/-- Induction in which a row of operands, or an argument with all the functions
that it is passed to, is taken as a whole, the way it is read. -/
theorem row_induction {motive : {rank : Rank} → Expression rank → Prop}
    (text : ∀ value, motive (.text value))
    (truth : ∀ value, motive (.truth value))
    (named : ∀ name, motive (.named name))
    (creation : ∀ className, motive (.creation className))
    (bracketed : ∀ items : List (Expression .chain),
      (∀ item ∈ items, motive item) → motive (.bracketed items))
    (negative : ∀ magnitude, motive (.negative magnitude))
    (minus : ∀ inner, motive inner → motive (.minus inner))
    (number : ∀ value, motive (.number value))
    (operand : ∀ inner, motive inner → motive (.operand inner))
    (joinAll : ∀ (level : Operator.Level) (first : Expression (Rank.below level))
      (joints : List (Joint level)), motive first → (∀ joint ∈ joints, motive joint.right) →
      motive (joinAll (.single level first) joints))
    (callAll : ∀ (first : Expression (.level .comparison)) (callees : List Name), motive first →
      motive (callAll (.plain first) callees))
    {rank : Rank} (e : Expression rank) : motive e := by
  have hboth : motive e ∧ Row motive rank e := by
    induction e with
    | text value => exact ⟨text value, trivial⟩
    | truth value => exact ⟨truth value, trivial⟩
    | named name => exact ⟨named name, trivial⟩
    | creation className => exact ⟨creation className, trivial⟩
    | bracketed items ih => exact ⟨bracketed items fun item hitem => (ih item hitem).1, trivial⟩
    | negative magnitude => exact ⟨negative magnitude, trivial⟩
    | minus inner ih => exact ⟨minus inner ih.1, trivial⟩
    | number value => exact ⟨number value, trivial⟩
    | operand inner ih => exact ⟨operand inner ih.1, trivial⟩
    | single level inner ih =>
        have hnone : ∀ joint ∈ ([] : List (Joint level)), motive joint.right :=
          fun _ h => absurd h List.not_mem_nil
        exact ⟨joinAll level inner [] ih.1 hnone, inner, [], rfl, ih.1, hnone⟩
    | joined level operator hlevel left right ihl ihr =>
        obtain ⟨first, joints, hleft, hfirst, hjoints⟩ := ihl.2
        have hrow : ∀ joint ∈ joints ++ [⟨operator, hlevel, right⟩], motive joint.right := by
          intro joint hjoint
          rcases List.mem_append.mp hjoint with hold | hnew
          · exact hjoints joint hold
          · rw [List.mem_singleton.mp hnew]
            exact ihr.1
        have heq : Expression.joined level operator hlevel left right =
            Expression.joinAll (.single level first) (joints ++ [⟨operator, hlevel, right⟩]) := by
          rw [hleft, Expression.joinAll, Expression.joinAll, List.foldl_append]
          rfl
        rw [heq]
        exact ⟨joinAll level first _ hfirst hrow, first, _, rfl, hfirst, hrow⟩
    | plain inner ih => exact ⟨callAll inner [] ih.1, inner, [], rfl, ih.1⟩
    | call argument callee ih =>
        obtain ⟨first, callees, hargument, hfirst⟩ := ih.2
        have heq : Expression.call argument callee =
            Expression.callAll (.plain first) (callees ++ [callee]) := by
          rw [hargument, Expression.callAll, Expression.callAll, List.foldl_append]
          rfl
        rw [heq]
        exact ⟨callAll first _ hfirst, first, _, rfl, hfirst⟩
  exact hboth.1

end Expression

end Concrete

namespace Parse

open Concrete

theorem joined_accepts {level : Operator.Level} {operand : Parse Phrase}
    {first : Expression (Rank.below level)} {joints : List (Expression.Joint level)}
    (hfirst : Accepts operand first.kinds first.phrase (Stops (Rank.below level)))
    (hjoints : ∀ joint ∈ joints,
      Accepts operand joint.right.kinds joint.right.phrase (Stops (Rank.below level))) :
    Accepts (joined level operand) (Expression.joinAll (.single level first) joints).kinds
      (Expression.joinAll (.single level first) joints).phrase (Stops (.level level)) := by
  have hjoint : ∀ joint ∈ joints, Accepts (Parse.joint level operand)
      (.symbol (.operator joint.operator) :: joint.right.kinds)
      (joint.operator, joint.right.phrase) (Stops (Rank.below level)) := by
    intro joint hmem s rest hs hrest
    have hoperator : s.operator? level = some joint.operator :=
      TokenStream.operator?_symbol hs joint.hlevel
    obtain ⟨t, ht, htkinds⟩ :=
      (hjoints joint hmem).bind_pure (g := fun right => (joint.operator, right))
        s.tail rest (TokenStream.kinds_tail_of_cons hs) hrest
    refine ⟨t, ?_, htkinds⟩
    unfold Parse.joint
    rw [get_bind, hoperator]
    exact ht
  have hmany : Accepts
      (many (fun stream => (stream.operator? level).isSome) (Parse.joint level operand))
      (joints.map fun joint => .symbol (.operator joint.operator) :: joint.right.kinds).flatten
      (joints.map fun joint => (joint.operator, joint.right.phrase))
      (fun rest => Stops (Rank.below level) rest ∧
        ∀ s : TokenStream, s.kinds = rest → (s.operator? level).isSome = false) := by
    apply many_accepts
    · intro joint _
      exact List.cons_ne_nil _ _
    · exact hjoint
    · intro joint _ s rest hs
      rw [TokenStream.operator?_symbol hs joint.hlevel, Option.isSome_some]
    · intro joint _ rest
      exact stops_below_operator joint.hlevel _
  have hstop (rest : List Kind) (h : Stops (.level level) rest) :
      Stops (Rank.below level) rest ∧
        ∀ s : TokenStream, s.kinds = rest → (s.operator? level).isSome = false := by
    obtain ⟨hnone, hbelow⟩ := stops_level h
    refine ⟨hbelow, fun s hs => ?_⟩
    cases hoperator : s.operator? level with
    | none => rfl
    | some op =>
        obtain ⟨hnext, hlevel⟩ := TokenStream.next?_of_operator? hoperator
        rw [TokenStream.next?_eq_head?, hs] at hnext
        exact absurd hlevel (hnone op hnext)
  rw [Expression.kinds_joinAll, Expression.phrase_joinAll]
  unfold joined
  refine hfirst.bind (hmany.weaken hstop).bind_pure ?_
  intro rest hrest
  cases joints with
  | nil => exact (stops_level hrest).2
  | cons joint others => exact stops_below_operator joint.hlevel _

theorem callees_accepts (callees : List Name) :
    Accepts (many (fun stream => stream.callee?.isSome) do
      let _ ← keyword .object
      name) (callees.map fun callee => [.keyword .object, .word callee.text]).flatten
      (callees.map fun callee => .word callee.text)
      (fun rest => Anything rest ∧
        ∀ s : TokenStream, s.kinds = rest → s.callee?.isSome = false) := by
  apply many_accepts
  · intro callee _
    exact List.cons_ne_nil _ _
  · intro callee _
    exact .keyword_bind (.name callee)
  · intro callee _ s rest hs
    have hobject : s.atKeyword .object = true := by
      rw [TokenStream.atKeyword_keyword hs, decide_eq_true rfl]
    have hname : s.tail.name? = some callee.text :=
      TokenStream.name?_word (TokenStream.kinds_tail_of_cons hs) callee.isName
    rw [TokenStream.callee?, if_pos hobject, hname, Option.isSome_some]
  · intro callee _ rest
    trivial

theorem callee?_of_noCall {s : TokenStream} (h : NoCall s.kinds) : s.callee?.isSome = false := by
  unfold TokenStream.callee?
  split
  · next hobject =>
      cases hname : s.tail.name? with
      | none => rfl
      | some w =>
          obtain ⟨hnext, hw⟩ := TokenStream.next?_of_name? hname
          have hkinds : s.kinds = .keyword .object :: .word w :: s.tail.tail.kinds := by
            rw [TokenStream.kinds_of_next? (TokenStream.next?_of_atKeyword hobject),
              TokenStream.kinds_of_next? hnext]
          exact absurd hkinds (h ⟨w, hw⟩ s.tail.tail.kinds)
  · rfl

end Parse

namespace Grammar

open Concrete Parse

/-- The part of the grammar that reads expressions of a rank. -/
def reader (grammar : Grammar) : Rank → Parse Phrase
  | .chain => grammar.expressionStep
  | .level .comparison =>
    joined .comparison <| joined .additive <| joined .multiplicative grammar.operandStep
  | .level .additive => joined .additive <| joined .multiplicative grammar.operandStep
  | .level .multiplicative => joined .multiplicative grammar.operandStep
  | .operand => grammar.operandStep
  | .unnumbered => grammar.operandStep

theorem reader_level (grammar : Grammar) (level : Operator.Level) :
    grammar.reader (.level level) = joined level (grammar.reader (Rank.below level)) := by
  cases level <;> rfl

variable {grammar : Grammar}

/-- Behind anything but a minus sign an operand is a primary. -/
theorem operandStep_accepts {kind : Kind} {tail : List Kind} {result : Phrase}
    {follow : List Kind → Prop} (hminus : kind ≠ .symbol (.operator .sub))
    (h : Accepts grammar.primary (kind :: tail) result Anything) :
    Accepts grammar.operandStep (kind :: tail) result follow := by
  intro s rest hs _
  have hnot : ¬ s.atSymbol (.operator .sub) = true := by
    intro hat
    have hhead := TokenStream.next?_of_atSymbol hat
    rw [TokenStream.next?_eq_head?, hs] at hhead
    exact hminus (Option.some.inj hhead)
  rw [operandStep_of_not_minus hnot]
  exact h s rest hs trivial

/-- A literal is read by looking at one token. -/
theorem literal_accepts {kind : Kind} {result : Phrase}
    (h : ∀ s : TokenStream, s.next? = some kind → grammar.primary s = .ok result s.tail) :
    Accepts grammar.primary [kind] result Anything := by
  intro s rest hs _
  refine ⟨s.tail, h s ?_, TokenStream.kinds_tail_of_cons hs⟩
  rw [TokenStream.next?_eq_head?, hs]
  rfl

theorem named_accepts (name : Name) :
    Accepts grammar.primary [.word name.text] (.word name.text) Anything := by
  apply literal_accepts
  intro s hnext
  have hcreate : (name.text == Keyword.create.text) = false :=
    beq_eq_false_iff_ne.mpr (Word.ne_of_isName name.isName (Word.isName_keyword .create))
  unfold primary
  rw [get_bind, hnext]
  dsimp only
  rw [hcreate, name.isName]
  rfl

theorem creation_accepts (className : Name) :
    Accepts grammar.primary [.keyword .create, .word className.text]
      (.group [.keyword .create, .word className.text]) Anything := by
  have hread : Accepts creation [.keyword .create, .word className.text]
      (.group [.keyword .create, .word className.text]) Anything :=
    .keyword_bind (Accepts.name className).bind_pure
  intro s rest hs hrest
  have hnext : s.next? = some (.keyword .create) := by
    rw [TokenStream.next?_eq_head?, hs]
    rfl
  obtain ⟨t, ht, htkinds⟩ := hread s rest hs hrest
  refine ⟨t, ?_, htkinds⟩
  unfold primary
  rw [get_bind, hnext]
  exact ht

theorem brackets_accepts (items : List (Expression .chain))
    (hitems : ∀ item ∈ items,
      Accepts grammar.expression item.kinds item.phrase (Stops .chain)) :
    Accepts grammar.primary (Expression.bracketed items).kinds
      (Expression.bracketed items).phrase Anything := by
  have hread : Accepts (bracketed grammar.expression) (bracketKinds (items.map Expression.kinds))
      (.brackets (items.map Expression.phrase)) Anything := by
    apply bracketed_accepts hitems
    · intro item _ s rest hs
      obtain ⟨kind, tail, hkinds, hopens⟩ := item.kinds_head
      rw [TokenStream.atSymbol_eq, hs, hkinds]
      exact Kind.isSymbol_of_opensExpression hopens (by decide) (by decide)
    · intro rest
      exact stops_symbol (fun op h => by cases h) rest
    · intro rest
      exact stops_symbol (fun op h => by cases h) rest
  intro s rest hs hrest
  have hnext : s.next? = some (.symbol .leftParen) := by
    rw [TokenStream.next?_eq_head?, hs]
    rfl
  rw [Expression.kinds, Expression.kindsOfAll_eq_map] at hs
  obtain ⟨t, ht, htkinds⟩ := hread s rest hs hrest
  refine ⟨t, ?_, htkinds⟩
  unfold primary
  rw [get_bind, hnext, Expression.phrase_bracketed]
  exact ht

theorem negative_accepts (magnitude : Float) {follow : List Kind → Prop} :
    Accepts grammar.operandStep (Expression.negative magnitude).kinds
      (Expression.negative magnitude).phrase follow := by
  intro s rest hs _
  have hminus : s.atSymbol (.operator .sub) = true := by
    rw [TokenStream.atSymbol_symbol hs, decide_eq_true rfl]
  have htail : s.tail.kinds = .number magnitude :: rest := TokenStream.kinds_tail_of_cons hs
  have hnext : s.tail.next? = some (.number magnitude) := by
    rw [TokenStream.next?_eq_head?, htail]
    rfl
  exact ⟨s.tail.tail, operandStep_of_number hminus hnext, TokenStream.kinds_tail_of_cons htail⟩

theorem minus_accepts {inner : Expression .unnumbered} {follow : List Kind → Prop}
    (hinner : Accepts grammar.operand inner.kinds inner.phrase follow) :
    Accepts grammar.operandStep (Expression.minus inner).kinds (Expression.minus inner).phrase
      follow := by
  intro s rest hs hrest
  have hminus : s.atSymbol (.operator .sub) = true := by
    rw [TokenStream.atSymbol_symbol hs, decide_eq_true rfl]
  have htail : s.tail.kinds = inner.kinds ++ rest := TokenStream.kinds_tail_of_cons hs
  have hnumber (x : Float) : s.tail.next? ≠ some (.number x) := by
    obtain ⟨kind, tail, hkinds, _⟩ := inner.kinds_head
    have hhead := inner.head_ne_number x
    rw [hkinds] at hhead
    rw [TokenStream.next?_eq_head?, htail, hkinds]
    exact hhead
  obtain ⟨t, ht, htkinds⟩ := hinner.bind_pure
    (g := fun operand => Phrase.group [.number 0, .word Operator.sub.symbol, operand])
    s.tail rest htail hrest
  refine ⟨t, ?_, htkinds⟩
  rw [operandStep_of_minus hminus hnumber]
  exact ht

theorem length_kinds_lt_bracketed {items : List (Expression .chain)} {item : Expression .chain}
    (h : item ∈ items) : item.kinds.length < (Expression.bracketed items).kinds.length := by
  have hsublist : List.Sublist item.kinds
      (List.intercalate [Kind.symbol .comma] (items.map Expression.kinds)) := by
    cases items with
    | nil => exact absurd h List.not_mem_nil
    | cons first others =>
        rw [List.map_cons, intercalate_cons, List.map_map]
        rcases List.mem_cons.mp h with rfl | hothers
        · exact List.sublist_append_left _ _
        · have hmem := List.mem_map_of_mem (f := (Kind.symbol .comma :: ·) ∘ Expression.kinds)
            hothers
          exact (List.sublist_cons_self _ _).trans
            ((List.sublist_flatten_of_mem hmem).trans (List.sublist_append_right _ _))
  have hlength := hsublist.length_le
  simp only [Expression.kinds, Expression.kindsOfAll_eq_map, bracketKinds, List.length_cons,
    List.length_append, List.cons_append]
  omega

theorem length_kinds_le_joinAll {level : Operator.Level} {first : Expression (.level level)}
    {joints : List (Expression.Joint level)} {joint : Expression.Joint level}
    (h : joint ∈ joints) :
    joint.right.kinds.length ≤ (Expression.joinAll first joints).kinds.length := by
  have hmem := List.mem_map_of_mem
    (f := fun joint => Kind.symbol (.operator joint.operator) :: joint.right.kinds) h
  rw [Expression.kinds_joinAll]
  exact ((List.sublist_cons_self _ _).trans
    ((List.sublist_flatten_of_mem hmem).trans (List.sublist_append_right _ _))).length_le

/-- An expression is read as its phrase by a grammar that is as deep as the
expression has tokens. -/
theorem reader_accepts {rank : Rank} (e : Expression rank) (depth : Nat)
    (hdepth : e.kinds.length ≤ depth) :
    Accepts ((ofDepth depth).reader rank) e.kinds e.phrase (Stops rank) := by
  induction e using Expression.row_induction generalizing depth with
  | text value =>
      exact operandStep_accepts (by simp) (literal_accepts fun s hnext => by
        rw [primary, get_bind, hnext]; rfl)
  | truth value =>
      exact operandStep_accepts (by simp) (literal_accepts fun s hnext => by
        rw [primary, get_bind, hnext]; rfl)
  | number value =>
      exact operandStep_accepts (by simp) (literal_accepts fun s hnext => by
        rw [primary, get_bind, hnext]; rfl)
  | named name => exact operandStep_accepts (by simp) (named_accepts name)
  | creation className =>
      exact operandStep_accepts (by simp [Kind.keyword]) (creation_accepts className)
  | bracketed items ih =>
      refine operandStep_accepts (by simp) (brackets_accepts items fun item hitem => ?_)
      have hshorter := length_kinds_lt_bracketed hitem
      obtain ⟨depth, rfl⟩ : ∃ n, depth = n + 1 := ⟨depth - 1, by omega⟩
      exact ih item hitem depth (by omega)
  | negative magnitude => exact negative_accepts magnitude
  | minus inner ih =>
      have hlength : inner.kinds.length + 1 ≤ depth := hdepth
      obtain ⟨depth, rfl⟩ : ∃ n, depth = n + 1 := ⟨depth - 1, by omega⟩
      exact minus_accepts (ih depth (by omega))
  | operand inner ih => exact ih depth hdepth
  | joinAll level first joints ihf ihj =>
      have hfirst : first.kinds.length ≤ depth := by
        rw [Expression.kinds_joinAll, List.length_append, Expression.kinds] at hdepth
        omega
      rw [reader_level]
      apply joined_accepts (ihf depth hfirst)
      intro joint hjoint
      exact ihj joint hjoint depth (Nat.le_trans (length_kinds_le_joinAll hjoint) hdepth)
  | callAll first callees ih =>
      have hfirst : first.kinds.length ≤ depth := by
        rw [Expression.kinds_callAll, List.length_append, Expression.kinds] at hdepth
        omega
      rw [Expression.kinds_callAll, Expression.phrase_callAll]
      refine (ih depth hfirst).bind ((callees_accepts callees).weaken ?_).bind_pure ?_
      · intro rest hrest
        exact ⟨trivial, fun s hs => callee?_of_noCall (hs ▸ hrest.1)⟩
      · intro rest hrest
        cases callees with
        | nil => exact hrest.2
        | cons callee others =>
            exact ⟨noOperator_keyword _ _ _, noOperator_keyword _ _ _, noOperator_keyword _ _ _⟩

end Grammar

end Wabun
