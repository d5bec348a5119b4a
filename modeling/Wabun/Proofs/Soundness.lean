import Wabun.Proofs.Reading

/-!
Whatever the reader of token streams accepts is derived by the grammar. A
reading yields derivations when every success of it took the tokens of some
derivation off the stream and gave the phrase of that derivation. The property
passes through every way in which readings are put together, so it passes from
the grammar of one depth to the grammar of the next.
-/

namespace Wabun

open Token (Kind)

namespace Parse

variable {α β X : Type}

/-- Every success takes the tokens of some derivation and gives its result. -/
def Yields (p : Parse α) (kinds : X → List Kind) (result : X → α) : Prop :=
  ∀ s a s', p s = .ok a s' → ∃ x : X, s.kinds = kinds x ++ s'.kinds ∧ a = result x

theorem Yields.bind_ok {p : Parse α} {kinds : X → List Kind} {result : X → α} {f : α → Parse β}
    {s s' : TokenStream} {b : β} (hp : Yields p kinds result) (h : (p >>= f) s = .ok b s') :
    ∃ x t, s.kinds = kinds x ++ t.kinds ∧ f (result x) t = .ok b s' := by
  obtain ⟨a, t, ha, h⟩ := Parse.bind_ok h
  obtain ⟨x, hx, rfl⟩ := hp s a t ha
  exact ⟨x, t, hx, h⟩

theorem keyword_yields (k : Keyword) :
    Yields (keyword k) (fun _ : Unit => [.keyword k]) (fun _ => .keyword k) := by
  intro s a s' h
  rw [keyword_run] at h
  split at h
  · next hat =>
      cases h
      exact ⟨(), TokenStream.kinds_of_next? (TokenStream.next?_of_atKeyword hat), rfl⟩
  · cases h

theorem symbol_yields (sym : Symbol) :
    Yields (symbol sym) (fun _ : Unit => [.symbol sym]) (fun _ => .word sym.text) := by
  intro s a s' h
  rw [symbol_run] at h
  split at h
  · next hat =>
      cases h
      exact ⟨(), TokenStream.kinds_of_next? (TokenStream.next?_of_atSymbol hat), rfl⟩
  · cases h

theorem name_yields :
    Yields name (fun n : Name => [.word n.text]) (fun n => .word n.text) := by
  intro s a s' h
  cases hname : s.name? with
  | none =>
      rw [name_run_none hname] at h
      cases h
  | some w =>
      rw [name_run_some hname] at h
      cases h
      obtain ⟨hnext, hw⟩ := TokenStream.next?_of_name? hname
      exact ⟨⟨w, hw⟩, TokenStream.kinds_of_next? hnext, rfl⟩

theorem manyUpTo_yields {more : TokenStream → Bool} {item : Parse α} {kinds : X → List Kind}
    {result : X → α} (hitem : Yields item kinds result) (bound : Nat) :
    Yields (manyUpTo more item bound) (fun xs : List X => (xs.map kinds).flatten)
      (fun xs => xs.map result) := by
  induction bound with
  | zero =>
      intro s a s' h
      obtain ⟨rfl, rfl⟩ := pure_ok h
      exact ⟨[], rfl, rfl⟩
  | succ bound ih =>
      intro s a s' h
      rw [manyUpTo_succ] at h
      split at h
      · obtain ⟨x, t, hx, h⟩ := hitem.bind_ok h
        obtain ⟨xs, u, hxs, h⟩ := ih.bind_ok h
        obtain ⟨rfl, rfl⟩ := pure_ok h
        exact ⟨x :: xs, by simp [hx, hxs], rfl⟩
      · cases h
        exact ⟨[], rfl, rfl⟩

theorem many_yields {more : TokenStream → Bool} {item : Parse α} {kinds : X → List Kind}
    {result : X → α} (hitem : Yields item kinds result) :
    Yields (many more item) (fun xs : List X => (xs.map kinds).flatten) (fun xs => xs.map result) :=
  fun s => manyUpTo_yields hitem (s.tokens.length + 1) s

theorem bracketed_yields {item : Parse Phrase} {kinds : X → List Kind} {result : X → Phrase}
    (hitem : Yields item kinds result) :
    Yields (bracketed item) (fun xs : List X => Concrete.bracketKinds (xs.map kinds))
      (fun xs => Phrase.brackets (xs.map result)) := by
  have hnext : Yields (do
      let comma ← symbol .comma
      let next ← item
      return [comma, next]) (fun x => .symbol .comma :: kinds x)
      (fun x => [.word Symbol.comma.text, result x]) := by
    intro s a s' h
    obtain ⟨_, t, ht, h⟩ := (symbol_yields .comma).bind_ok h
    obtain ⟨x, u, hu, h⟩ := hitem.bind_ok h
    obtain ⟨rfl, rfl⟩ := pure_ok h
    exact ⟨x, by simp [ht, hu], rfl⟩
  intro s a s' h
  unfold bracketed at h
  obtain ⟨_, t, ht, h⟩ := (symbol_yields .leftParen).bind_ok h
  rw [get_bind] at h
  dsimp only at h
  split at h
  · obtain ⟨_, u, hu, h⟩ := bind_ok h
    obtain ⟨rfl, rfl⟩ := pure_ok hu
    obtain ⟨_, v, hv, h⟩ := (symbol_yields .rightParen).bind_ok h
    obtain ⟨rfl, rfl⟩ := pure_ok h
    exact ⟨[], by simp [ht, hv, Concrete.bracketKinds, List.intercalate], rfl⟩
  · obtain ⟨x, u, hu, h⟩ := hitem.bind_ok h
    obtain ⟨xs, v, hv, h⟩ := (many_yields hnext).bind_ok h
    obtain ⟨_, w, hw, h⟩ := bind_ok h
    obtain ⟨rfl, rfl⟩ := pure_ok hw
    obtain ⟨_, z, hz, h⟩ := (symbol_yields .rightParen).bind_ok h
    obtain ⟨rfl, rfl⟩ := pure_ok h
    refine ⟨x :: xs, ?_, ?_⟩
    · simp [ht, hu, hv, hz, Concrete.bracketKinds, intercalate_cons, Function.comp_def]
    · simp [Phrase.brackets, intersperse_cons, Function.comp_def]

theorem braced_yields {item : Parse Phrase} {kinds : X → List Kind} {result : X → Phrase}
    (hitem : Yields item kinds result) :
    Yields (braced item) (fun xs : List X => Concrete.braceKinds (xs.map kinds))
      (fun xs => Phrase.braces (xs.map result)) := by
  have hguarded : Yields (do
      if (← get).atEnd then
        unexpected (.symbol .rightBrace)
      else
        item) kinds result := by
    intro s a s' h
    rw [get_bind] at h
    split at h
    · cases h
    · exact hitem s a s' h
  intro s a s' h
  unfold braced at h
  obtain ⟨_, t, ht, h⟩ := (symbol_yields .leftBrace).bind_ok h
  obtain ⟨xs, u, hu, h⟩ := (many_yields hguarded).bind_ok h
  obtain ⟨_, v, hv, h⟩ := (symbol_yields .rightBrace).bind_ok h
  obtain ⟨rfl, rfl⟩ := pure_ok h
  exact ⟨xs, by simp [ht, hu, hv, Concrete.braceKinds], rfl⟩

open Concrete (Expression Rank)

theorem joint_yields {level : Operator.Level} {operand : Parse Phrase}
    (hoperand : Yields operand (@Expression.kinds (Rank.below level)) Expression.phrase) :
    Yields (joint level operand)
      (fun joint : Expression.Joint level =>
        .symbol (.operator joint.operator) :: joint.right.kinds)
      (fun joint => (joint.operator, joint.right.phrase)) := by
  intro s a s' h
  unfold joint at h
  rw [get_bind] at h
  cases hop : s.operator? level with
  | none =>
      rw [hop] at h
      cases h
  | some op =>
      rw [hop] at h
      obtain ⟨hnext, hlevel⟩ := TokenStream.next?_of_operator? hop
      obtain ⟨_, t, ht, h⟩ := bind_ok h
      cases ht
      obtain ⟨right, u, hu, h⟩ := hoperand.bind_ok h
      obtain ⟨rfl, rfl⟩ := pure_ok h
      refine ⟨⟨op, hlevel, right⟩, ?_, rfl⟩
      rw [TokenStream.kinds_of_next? hnext, hu, List.cons_append]

theorem joined_yields {level : Operator.Level} {operand : Parse Phrase}
    (hoperand : Yields operand (@Expression.kinds (Rank.below level)) Expression.phrase) :
    Yields (joined level operand) (@Expression.kinds (.level level)) Expression.phrase := by
  intro s a s' h
  unfold joined at h
  obtain ⟨first, t, ht, h⟩ := hoperand.bind_ok h
  obtain ⟨joints, u, hu, h⟩ := (many_yields (joint_yields hoperand)).bind_ok h
  obtain ⟨rfl, rfl⟩ := pure_ok h
  refine ⟨.joinAll (.single level first) joints, ?_, ?_⟩
  · rw [ht, hu, Expression.kinds_joinAll, List.append_assoc]
    rfl
  · rw [Expression.phrase_joinAll]
    rfl

end Parse

namespace Grammar

open Concrete Parse

/-- The recursive parts of a grammar yield derivations. -/
structure Sound (grammar : Grammar) : Prop where
  statement : Yields grammar.statement (@Clause.kinds .statement) Clause.phrase
  sentence : Yields grammar.sentence (@Clause.kinds .sentence) Clause.phrase
  expression : Yields grammar.expression (@Expression.kinds .chain) Expression.phrase
  operand : Yields grammar.operand (@Expression.kinds .operand) Expression.phrase

variable {grammar : Grammar}

theorem creation_yields :
    Yields creation (fun className : Name => [.keyword .create, .word className.text])
      (fun className => .group [.keyword .create, .word className.text]) := by
  intro s a s' h
  obtain ⟨_, t, ht, h⟩ := (keyword_yields .create).bind_ok h
  obtain ⟨className, u, hu, h⟩ := name_yields.bind_ok h
  obtain ⟨rfl, rfl⟩ := pure_ok h
  exact ⟨className, by simp [ht, hu], rfl⟩

theorem primary_yields (hg : grammar.Sound) :
    Yields grammar.primary (@Expression.kinds .operand) Expression.phrase := by
  intro s a s' h
  unfold primary at h
  rw [get_bind] at h
  cases hnext : s.next? with
  | none =>
      rw [hnext] at h
      cases h
  | some kind =>
      have hkinds := TokenStream.kinds_of_next? hnext
      rw [hnext] at h
      cases kind with
      | number x =>
          cases h
          exact ⟨.number x, hkinds, rfl⟩
      | text value =>
          cases h
          exact ⟨.operand (.text value), hkinds, rfl⟩
      | truth value =>
          cases h
          exact ⟨.operand (.truth value), hkinds, rfl⟩
      | word w =>
          dsimp only at h
          split at h
          · obtain ⟨className, hclass, rfl⟩ := creation_yields s a s' h
            exact ⟨.operand (.creation className), hclass, rfl⟩
          · split at h
            · next hname =>
                cases h
                exact ⟨.operand (.named ⟨w, hname⟩), hkinds, rfl⟩
            · cases h
      | symbol sym =>
          cases sym with
          | leftParen =>
              obtain ⟨items, hitems, rfl⟩ := bracketed_yields hg.expression s a s' h
              refine ⟨.operand (.bracketed items), ?_, ?_⟩
              · simpa [Expression.kinds] using hitems
              · exact (Expression.phrase_bracketed items).symm
          | leftBrace | rightBrace | rightParen | comma | operator => cases h

/-- Behind a minus sign an operand that does not begin with a number is
subtracted from zero. -/
theorem subtraction_yields (hg : grammar.Sound) {s s' : TokenStream} {a : Phrase}
    (hnumber : ∀ x, s.next? ≠ some (.number x))
    (h : (do
      let operand ← grammar.operand
      return .group [.number 0, .word Operator.sub.symbol, operand] : Parse Phrase) s =
        .ok a s') :
    ∃ inner : Expression .unnumbered,
      s.kinds = inner.kinds ++ s'.kinds ∧ a = (Expression.minus inner).phrase := by
  obtain ⟨operand, t, ht, h⟩ := hg.operand.bind_ok h
  obtain ⟨rfl, rfl⟩ := pure_ok h
  cases operand with
  | number x =>
      have hhead : s.next? = some (.number x) := by
        rw [TokenStream.next?_eq_head?, ht]
        rfl
      exact absurd hhead (hnumber x)
  | operand inner => exact ⟨inner, ht, rfl⟩

theorem operandStep_yields (hg : grammar.Sound) :
    Yields grammar.operandStep (@Expression.kinds .operand) Expression.phrase := by
  intro s a s' h
  by_cases hminus : s.atSymbol (.operator .sub) = true
  · have hkinds := TokenStream.kinds_of_next? (TokenStream.next?_of_atSymbol hminus)
    by_cases hnumber : ∃ x, s.tail.next? = some (.number x)
    · obtain ⟨x, hnext⟩ := hnumber
      rw [operandStep_of_number hminus hnext] at h
      cases h
      refine ⟨.operand (.negative x), ?_, rfl⟩
      rw [hkinds, TokenStream.kinds_of_next? hnext]
      rfl
    · have hother : ∀ x, s.tail.next? ≠ some (.number x) := fun x hx => hnumber ⟨x, hx⟩
      rw [operandStep_of_minus hminus hother] at h
      obtain ⟨inner, hinner, rfl⟩ := subtraction_yields hg hother h
      refine ⟨.operand (.minus inner), ?_, rfl⟩
      rw [hkinds, hinner]
      rfl
  · rw [operandStep_of_not_minus hminus] at h
    exact primary_yields hg s a s' h

theorem expressionStep_yields (hg : grammar.Sound) :
    Yields grammar.expressionStep (@Expression.kinds .chain) Expression.phrase := by
  have hcallee : Yields (do
      let _ ← keyword .object
      name) (fun callee : Name => [.keyword .object, .word callee.text])
      (fun callee => .word callee.text) := by
    intro s a s' h
    obtain ⟨_, t, ht, h⟩ := (keyword_yields .object).bind_ok h
    obtain ⟨callee, hcallee, rfl⟩ := name_yields t a s' h
    exact ⟨callee, by simp [ht, hcallee], rfl⟩
  have hcomparison : Yields
      (joined .comparison <| joined .additive <| joined .multiplicative <| grammar.operandStep)
      (@Expression.kinds (.level .comparison)) Expression.phrase :=
    joined_yields (joined_yields (joined_yields (operandStep_yields hg)))
  intro s a s' h
  unfold expressionStep at h
  obtain ⟨first, t, ht, h⟩ := hcomparison.bind_ok h
  obtain ⟨callees, u, hu, h⟩ := (many_yields hcallee).bind_ok h
  obtain ⟨rfl, rfl⟩ := pure_ok h
  refine ⟨.callAll (.plain first) callees, ?_, ?_⟩
  · rw [ht, hu, Expression.kinds_callAll, List.append_assoc]
    rfl
  · rw [Expression.phrase_callAll]
    rfl

theorem block_yields (hg : grammar.Sound) :
    Yields grammar.block
      (fun body : List Statement => braceKinds (body.map Clause.kinds))
      (fun body => .braces (body.map Clause.phrase)) :=
  braced_yields hg.statement

theorem names_yields :
    Yields (bracketed name) nameKinds
      (fun names => .brackets (names.map fun name => .word name.text)) :=
  bracketed_yields name_yields

theorem functionDeclaration_yields (hg : grammar.Sound) :
    Yields grammar.functionDeclaration (@Clause.kinds .statement) Clause.phrase := by
  intro s a s' h
  obtain ⟨_, t, ht, h⟩ := (keyword_yields .function).bind_ok h
  obtain ⟨functionName, u, hu, h⟩ := name_yields.bind_ok h
  obtain ⟨params, v, hv, h⟩ := names_yields.bind_ok h
  obtain ⟨body, w, hw, h⟩ := (block_yields hg).bind_ok h
  obtain ⟨rfl, rfl⟩ := pure_ok h
  refine ⟨.function functionName params body, ?_, ?_⟩
  · simp [ht, hu, hv, hw, Clause.kinds]
  · simp [Clause.phrase_function]

/-- The declarations that bind a name to a value differ in their marker only. -/
theorem binding_yields (hg : grammar.Sound) (marker : Keyword) :
    Yields (grammar.binding marker)
      (fun bound : Name × Expression .chain =>
        .keyword marker :: .word bound.1.text :: .keyword .topic :: bound.2.kinds)
      (fun bound =>
        .group [.keyword marker, .word bound.1.text, .keyword .topic, bound.2.phrase]) := by
  intro s a s' h
  obtain ⟨_, t, ht, h⟩ := (keyword_yields marker).bind_ok h
  obtain ⟨bound, u, hu, h⟩ := name_yields.bind_ok h
  obtain ⟨_, v, hv, h⟩ := (keyword_yields .topic).bind_ok h
  obtain ⟨value, w, hw, h⟩ := hg.expression.bind_ok h
  obtain ⟨rfl, rfl⟩ := pure_ok h
  exact ⟨⟨bound, value⟩, by simp [ht, hu, hv, hw], rfl⟩

theorem declaration_yields (hg : grammar.Sound) (kind : Declaration) :
    Yields (grammar.binding kind.keyword) (@Clause.kinds .statement) Clause.phrase := by
  intro s a s' h
  obtain ⟨⟨bound, value⟩, hbound, rfl⟩ := binding_yields hg kind.keyword s a s' h
  exact ⟨.declaration kind bound value, hbound, rfl⟩

theorem exporting_yields (hg : grammar.Sound) :
    Yields (grammar.binding .exporting) (@Clause.kinds .statement) Clause.phrase := by
  intro s a s' h
  obtain ⟨⟨bound, value⟩, hbound, rfl⟩ := binding_yields hg .exporting s a s' h
  exact ⟨.exporting bound value, hbound, rfl⟩

theorem classDeclaration_yields (hg : grammar.Sound) :
    Yields grammar.classDeclaration (@Clause.kinds .statement) Clause.phrase := by
  intro s a s' h
  obtain ⟨_, t, ht, h⟩ := (keyword_yields .classOf).bind_ok h
  obtain ⟨className, u, hu, h⟩ := name_yields.bind_ok h
  rw [get_bind] at h
  dsimp only at h
  split at h
  · obtain ⟨_, v, hv, h⟩ := (keyword_yields .inherits).bind_ok h
    obtain ⟨parent, w, hw, h⟩ := name_yields.bind_ok h
    obtain ⟨_, x, hx, h⟩ := bind_ok h
    obtain ⟨rfl, rfl⟩ := pure_ok hx
    obtain ⟨body, y, hy, h⟩ := (block_yields hg).bind_ok h
    obtain ⟨rfl, rfl⟩ := pure_ok h
    refine ⟨.classDeclaration className (some parent) body, ?_, ?_⟩
    · simp [ht, hu, hv, hw, hy, Clause.kinds, parentKinds]
    · simp [Clause.phrase_classDeclaration, parentTrees]
  · obtain ⟨_, x, hx, h⟩ := bind_ok h
    obtain ⟨rfl, rfl⟩ := pure_ok hx
    obtain ⟨body, y, hy, h⟩ := (block_yields hg).bind_ok h
    obtain ⟨rfl, rfl⟩ := pure_ok h
    refine ⟨.classDeclaration className none body, ?_, ?_⟩
    · simp [ht, hu, hy, Clause.kinds, parentKinds]
    · simp [Clause.phrase_classDeclaration, parentTrees]

theorem enumDeclaration_yields :
    Yields enumDeclaration (@Clause.kinds .statement) Clause.phrase := by
  have hitem : Yields (do if (← get).atSymbol .comma then symbol .comma else name)
      (fun item : Option Name => [enumItemKind item])
      (fun item => (enumItemTree item).phrase) := by
    intro s a s' h
    rw [get_bind] at h
    split at h
    · obtain ⟨_, hcomma, rfl⟩ := symbol_yields .comma s a s' h
      exact ⟨none, hcomma, rfl⟩
    · obtain ⟨value, hvalue, rfl⟩ := name_yields s a s' h
      exact ⟨some value, hvalue, rfl⟩
  intro s a s' h
  obtain ⟨_, t, ht, h⟩ := (keyword_yields .enumerate).bind_ok h
  obtain ⟨enumName, u, hu, h⟩ := name_yields.bind_ok h
  obtain ⟨_, v, hv, h⟩ := (symbol_yields .leftBrace).bind_ok h
  obtain ⟨items, w, hw, h⟩ := (many_yields hitem).bind_ok h
  obtain ⟨_, x, hx, h⟩ := (symbol_yields .rightBrace).bind_ok h
  obtain ⟨rfl, rfl⟩ := pure_ok h
  refine ⟨.enumDeclaration enumName items, ?_, ?_⟩
  · simp [ht, hu, hv, hw, hx, Clause.kinds, ← List.flatMap_def, ← List.map_eq_flatMap]
  · rw [Clause.phrase_enumDeclaration]

theorem staticDeclaration_yields (hg : grammar.Sound) :
    Yields grammar.staticDeclaration (@Clause.kinds .statement) Clause.phrase := by
  intro s a s' h
  obtain ⟨_, t, ht, h⟩ := (keyword_yields .static).bind_ok h
  obtain ⟨path, u, hu, h⟩ := name_yields.bind_ok h
  obtain ⟨body, v, hv, h⟩ := (block_yields hg).bind_ok h
  obtain ⟨rfl, rfl⟩ := pure_ok h
  refine ⟨.staticMethod path body, ?_, ?_⟩
  · simp [ht, hu, hv, Clause.kinds]
  · simp [Clause.phrase_staticMethod]

theorem attempt_yields (hg : grammar.Sound) :
    Yields grammar.attempt (@Clause.kinds .statement) Clause.phrase := by
  intro s a s' h
  obtain ⟨_, t, ht, h⟩ := (keyword_yields .attempt).bind_ok h
  obtain ⟨body, u, hu, h⟩ := (block_yields hg).bind_ok h
  obtain ⟨_, v, hv, h⟩ := (keyword_yields .rescue).bind_ok h
  obtain ⟨caught, w, hw, h⟩ := names_yields.bind_ok h
  obtain ⟨handler, x, hx, h⟩ := (block_yields hg).bind_ok h
  obtain ⟨rfl, rfl⟩ := pure_ok h
  refine ⟨.attempt body caught handler, ?_, ?_⟩
  · simp [ht, hu, hv, hw, hx, Clause.kinds]
  · simp [Clause.phrase_attempt]

theorem importing_yields : Yields importing (@Clause.kinds .statement) Clause.phrase := by
  intro s a s' h
  obtain ⟨_, t, ht, h⟩ := (keyword_yields .importing).bind_ok h
  by_cases htext : ∃ value, t.next? = some (.text value)
  · obtain ⟨value, hnext⟩ := htext
    rw [get_bind, hnext] at h
    cases h
    refine ⟨.importText value, ?_, rfl⟩
    rw [ht, TokenStream.kinds_of_next? hnext]
    rfl
  · have hname : ∃ moduleName : Name, t.kinds = .word moduleName.text :: s'.kinds ∧
        a = .group [.keyword .importing, .word moduleName.text] := by
      have hread : (do
          let moduleName ← name
          return .group [.keyword .importing, moduleName] : Parse Phrase) t = .ok a s' := by
        rw [← h, get_bind]
        cases hnext : t.next? with
        | none => rfl
        | some kind =>
            cases kind with
            | text value => exact absurd ⟨value, hnext⟩ htext
            | word | number | truth | symbol => rfl
      obtain ⟨moduleName, u, hu, h⟩ := name_yields.bind_ok hread
      obtain ⟨rfl, rfl⟩ := pure_ok h
      exact ⟨moduleName, hu, rfl⟩
    obtain ⟨moduleName, hkinds, rfl⟩ := hname
    refine ⟨.importName moduleName, ?_, rfl⟩
    rw [ht, hkinds]
    rfl

theorem typeInspection_yields (hg : grammar.Sound) :
    Yields grammar.typeInspection (@Clause.kinds .statement) Clause.phrase := by
  intro s a s' h
  obtain ⟨_, t, ht, h⟩ := (keyword_yields .inspectType).bind_ok h
  obtain ⟨value, u, hu, h⟩ := hg.expression.bind_ok h
  obtain ⟨_, v, hv, h⟩ := (keyword_yields .topic).bind_ok h
  obtain ⟨typeName, w, hw, h⟩ := name_yields.bind_ok h
  obtain ⟨rfl, rfl⟩ := pure_ok h
  exact ⟨.typeInspection value typeName, by simp [ht, hu, hv, hw, Clause.kinds], rfl⟩

theorem patternCase_yields (hg : grammar.Sound) :
    Yields grammar.patternCase (@Clause.kinds .patternCase) Clause.phrase := by
  have hbody {s s' : TokenStream} {a : Phrase} (pattern : Option (Expression .chain))
      (h : (do
        let condition ←
          if (← get).atKeyword .provided then do
            let marker ← keyword .provided
            let value ← grammar.expression
            pure [marker, value]
          else
            pure []
        let body ← grammar.block
        return .group ((patternTrees pattern).map Tree.phrase ++ condition ++ [body]) :
          Parse Phrase) s = .ok a s') :
      ∃ guard body, s.kinds = guardKinds guard ++ braceKinds (body.map Clause.kinds) ++ s'.kinds ∧
        a = (Clause.patternCase pattern guard body).phrase := by
    rw [get_bind] at h
    dsimp only at h
    split at h
    · obtain ⟨_, t, ht, h⟩ := (keyword_yields .provided).bind_ok h
      obtain ⟨guard, u, hu, h⟩ := hg.expression.bind_ok h
      obtain ⟨_, v, hv, h⟩ := bind_ok h
      obtain ⟨rfl, rfl⟩ := pure_ok hv
      obtain ⟨body, w, hw, h⟩ := (block_yields hg).bind_ok h
      obtain ⟨rfl, rfl⟩ := pure_ok h
      refine ⟨some guard, body, ?_, ?_⟩
      · simp [ht, hu, hw, guardKinds]
      · rw [Clause.phrase_patternCase]
        rfl
    · obtain ⟨_, v, hv, h⟩ := bind_ok h
      obtain ⟨rfl, rfl⟩ := pure_ok hv
      obtain ⟨body, w, hw, h⟩ := (block_yields hg).bind_ok h
      obtain ⟨rfl, rfl⟩ := pure_ok h
      refine ⟨none, body, ?_, ?_⟩
      · simp [hw, guardKinds]
      · rw [Clause.phrase_patternCase]
        rfl
  intro s a s' h
  unfold patternCase at h
  rw [get_bind] at h
  dsimp only at h
  split at h
  · obtain ⟨_, t, ht, h⟩ := (keyword_yields .otherwise).bind_ok h
    obtain ⟨guard, body, hkinds, rfl⟩ := hbody none h
    exact ⟨.patternCase none guard body, by simp [ht, hkinds, Clause.kinds, patternKinds], rfl⟩
  · obtain ⟨pattern, t, ht, h⟩ := hg.expression.bind_ok h
    obtain ⟨_, u, hu, h⟩ := (keyword_yields .caseOf).bind_ok h
    obtain ⟨guard, body, hkinds, rfl⟩ := hbody (some pattern) h
    exact ⟨.patternCase (some pattern) guard body,
      by simp [ht, hu, hkinds, Clause.kinds, patternKinds], rfl⟩

/-- What may follow the condition of an alternative belongs to one sentence
together with it. -/
theorem alternative_yields (hg : grammar.Sound) (condition : Expression .chain)
    {s s' : TokenStream} {a : Phrase}
    (h : grammar.alternative condition.phrase s = .ok a s') :
    ∃ sentence : Clause .sentence,
      condition.kinds ++ s.kinds = sentence.kinds ++ s'.kinds ∧ a = sentence.phrase := by
  obtain ⟨_, t, ht, h⟩ := (keyword_yields .ifThen).bind_ok h
  obtain ⟨consequent, u, hu, h⟩ := (block_yields hg).bind_ok h
  rw [get_bind] at h
  split at h
  · obtain ⟨_, v, hv, h⟩ := (keyword_yields .otherwise).bind_ok h
    rw [get_bind] at h
    dsimp only at h
    split at h
    · obtain ⟨alternate, w, hw, h⟩ := (block_yields hg).bind_ok h
      obtain ⟨rfl, rfl⟩ := pure_ok h
      refine ⟨.alternativeBlock condition consequent alternate, ?_, ?_⟩
      · simp [ht, hu, hv, hw, Clause.kinds]
      · rw [Clause.phrase_alternativeBlock]
    · obtain ⟨alternate, w, hw, h⟩ := hg.sentence.bind_ok h
      obtain ⟨rfl, rfl⟩ := pure_ok h
      refine ⟨.alternativeSentence condition consequent alternate, ?_, ?_⟩
      · simp [ht, hu, hv, hw, Clause.kinds]
      · rw [Clause.phrase_alternativeSentence]
  · obtain ⟨rfl, rfl⟩ := pure_ok h
    refine ⟨.alternative condition consequent, ?_, ?_⟩
    · simp [ht, hu, Clause.kinds]
    · rw [Clause.phrase_alternative]

theorem sentenceStep_yields (hg : grammar.Sound) :
    Yields grammar.sentenceStep (@Clause.kinds .sentence) Clause.phrase := by
  intro s a s' h
  obtain ⟨subject, t, ht, h⟩ := (expressionStep_yields hg).bind_ok h
  rw [get_bind] at h
  split at h
  · split at h
    · obtain ⟨_, u, hu, h⟩ := (keyword_yields .object).bind_ok h
      obtain ⟨_, v, hv, h⟩ := (keyword_yields .giveBack).bind_ok h
      obtain ⟨rfl, rfl⟩ := pure_ok h
      exact ⟨.giveBack subject, by simp [ht, hu, hv, Clause.kinds], rfl⟩
    · split at h
      · obtain ⟨_, u, hu, h⟩ := (keyword_yields .object).bind_ok h
        obtain ⟨_, v, hv, h⟩ := (keyword_yields .throwUp).bind_ok h
        obtain ⟨rfl, rfl⟩ := pure_ok h
        exact ⟨.throwUp subject, by simp [ht, hu, hv, Clause.kinds], rfl⟩
      · split at h
        · obtain ⟨_, u, hu, h⟩ := (keyword_yields .object).bind_ok h
          obtain ⟨_, v, hv, h⟩ := (keyword_yields .distinguish).bind_ok h
          obtain ⟨cases, w, hw, h⟩ := (braced_yields (patternCase_yields hg)).bind_ok h
          obtain ⟨rfl, rfl⟩ := pure_ok h
          refine ⟨.distinction subject cases, ?_, ?_⟩
          · simp [ht, hu, hv, hw, Clause.kinds]
          · rw [Clause.phrase_distinction]
        · cases h
  · split at h
    · obtain ⟨sentence, hkinds, rfl⟩ := alternative_yields hg subject h
      exact ⟨sentence, by rw [ht, hkinds], rfl⟩
    · split at h
      · obtain ⟨_, u, hu, h⟩ := (keyword_yields .loop).bind_ok h
        obtain ⟨body, v, hv, h⟩ := (block_yields hg).bind_ok h
        obtain ⟨rfl, rfl⟩ := pure_ok h
        refine ⟨.loop subject body, ?_, ?_⟩
        · simp [ht, hu, hv, Clause.kinds]
        · rw [Clause.phrase_loop]
      · obtain ⟨rfl, rfl⟩ := pure_ok h
        exact ⟨.bare subject, ht, rfl⟩

theorem statementStep_yields (hg : grammar.Sound) :
    Yields grammar.statementStep (@Clause.kinds .statement) Clause.phrase := by
  intro s a s' h
  unfold statementStep at h
  rw [get_bind] at h
  -- The order of the tests does not matter here: each branch reads its key word again.
  rcases ite_ok h with h | h
  · exact functionDeclaration_yields hg s a s' h
  rcases ite_ok h with h | h
  · exact declaration_yields hg .here s a s' h
  rcases ite_ok h with h | h
  · exact declaration_yields hg .nearest s a s' h
  rcases ite_ok h with h | h
  · exact classDeclaration_yields hg s a s' h
  rcases ite_ok h with h | h
  · exact enumDeclaration_yields s a s' h
  rcases ite_ok h with h | h
  · exact staticDeclaration_yields hg s a s' h
  rcases ite_ok h with h | h
  · exact attempt_yields hg s a s' h
  rcases ite_ok h with h | h
  · exact importing_yields s a s' h
  rcases ite_ok h with h | h
  · exact exporting_yields hg s a s' h
  rcases ite_ok h with h | h
  · exact typeInspection_yields hg s a s' h
  obtain ⟨sentence, hkinds, rfl⟩ := sentenceStep_yields hg s a s' h
  exact ⟨.sentence sentence, hkinds, rfl⟩

theorem ofDepth_sound (depth : Nat) : (ofDepth depth).Sound := by
  induction depth with
  | zero =>
      constructor <;>
        · intro s a s' h
          cases h
  | succ depth ih =>
      exact
        { statement := statementStep_yields ih
          sentence := sentenceStep_yields ih
          expression := expressionStep_yields ih
          operand := operandStep_yields ih }

end Grammar

end Wabun
