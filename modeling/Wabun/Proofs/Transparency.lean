import Wabun.Proofs.Naming

/-!
A group that forms no construct is only a wrapper around its parts. Taking the wrapper off
inside a body leaves the nodes of the body, their order and the first fault as they are. The
two phrases are not nested equally deep, so the bound on the height comes first: a phrase
means the same under every bound that exceeds its height.
-/

namespace Wabun

open Meaning (Gives)

namespace Meaning

theorem mapM_congr {α β : Type} {f g : α → Meaning β} {items : List α}
    (h : ∀ item ∈ items, f item = g item) : items.mapM f = items.mapM g := by
  have hmap := mapM_map (g := id) h
  rwa [List.map_id] at hmap

theorem gather_congr {α : Type} {f g : α → Meaning (List Node)} {items : List α}
    (h : ∀ item ∈ items, f item = g item) : gather f items = gather g items := by
  have hmap := gather_map (g := id) h
  rwa [List.map_id] at hmap

theorem Gives.bind_congr {α β : Type} {post : α → Prop} {part : Meaning α}
    {f g : α → Meaning β} (hpart : Gives post part) (h : ∀ value, post value → f value = g value) :
    (part >>= f) = (part >>= g) := by
  cases part with
  | error fault => rfl
  | ok value => exact h value hpart

theorem gather_singleton {α : Type} (nodes : α → Meaning (List Node)) (part : α) :
    gather nodes [part] = nodes part := by
  rw [gather, gather]
  cases nodes part with
  | error fault => rfl
  | ok first => exact congrArg Except.ok (List.append_nil first)

theorem gather_append {α : Type} (nodes : α → Meaning (List Node)) (parts others : List α) :
    gather nodes (parts ++ others) = (do
      let first ← gather nodes parts
      let second ← gather nodes others
      return first ++ second) := by
  induction parts with
  | nil => cases hothers : gather nodes others <;> simp [gather, hothers, ok_bind]
  | cons part rest ih =>
      rw [List.cons_append, gather, gather, ih]
      simp only [bind_assoc, pure_bind, List.append_assoc]

end Meaning

namespace Phrase

variable {phrase : Phrase} {items : List Phrase}

theorem heightAll_append (parts others : List Phrase) :
    heightAll (parts ++ others) = max (heightAll parts) (heightAll others) := by
  induction parts with
  | nil => rw [List.nil_append, heightAll, Nat.zero_max]
  | cons part rest ih => rw [List.cons_append, heightAll, heightAll, ih, Nat.max_assoc]

theorem height_lt_of_enclosed? {opening closing : Symbol}
    (h : phrase.enclosed? opening closing = some items) :
    ∀ item ∈ items, item.height < phrase.height := by
  obtain ⟨parts, rfl, hparts⟩ := mem_of_enclosed? h
  intro item hitem
  exact Nat.lt_succ_of_le (height_le_heightAll (hparts item hitem))

theorem height_lt_of_bracketed? (h : phrase.bracketed? = some items) :
    ∀ item ∈ items, item.height < phrase.height := by
  obtain ⟨all, henclosed, rfl⟩ := Option.map_eq_some_iff.mp h
  exact fun item hitem => height_lt_of_enclosed? henclosed item (List.mem_of_mem_filter hitem)

end Phrase

namespace Lowering

/-- Two readings agree on phrases that are nested less deep. -/
structure AgreeBelow (height : Nat) (lowering other : Lowering) : Prop where
  transform : ∀ phrase : Phrase, phrase.height < height →
    lowering.transform phrase = other.transform phrase
  expression : ∀ phrase : Phrase, phrase.height < height →
    lowering.expression phrase = other.expression phrase

namespace AgreeBelow

variable {height : Nat} {lowering other : Lowering} {phrase : Phrase} {parts : List Phrase}

section Parts

variable (h : AgreeBelow height lowering other) (hphrase : phrase.height < height)
include h hphrase

theorem statements : lowering.statements phrase = other.statements phrase := by
  rw [Lowering.statements, Lowering.statements, h.transform phrase hphrase]

theorem block : lowering.block phrase = other.block phrase := by
  unfold Lowering.block
  split
  · next parts hparts =>
      have hinner := Phrase.height_lt_of_enclosed? hparts
      rw [Meaning.mapM_congr fun part hpart =>
        h.statements (Nat.lt_trans (hinner part hpart) hphrase)]
  · rfl

theorem arguments : lowering.arguments phrase = other.arguments phrase := by
  unfold Lowering.arguments
  split
  · next parts hparts =>
      have hinner := Phrase.height_lt_of_bracketed? hparts
      exact Meaning.mapM_congr fun part hpart =>
        h.expression part (Nat.lt_trans (hinner part hpart) hphrase)
  · rw [h.expression phrase hphrase]

theorem alternate : lowering.alternate phrase = other.alternate phrase := by
  rw [Lowering.alternate, Lowering.alternate, h.block hphrase, h.statements hphrase]

end Parts

section Constructs

variable (h : AgreeBelow height lowering other) (hparts : ∀ part ∈ parts, part.height < height)
include h hparts

theorem exporting : lowering.exporting parts = other.exporting parts := by
  unfold Lowering.exporting
  split
  · rw [h.expression _ (hparts _ (by simp))]
  · rfl

theorem function : lowering.function parts = other.function parts := by
  unfold Lowering.function
  split
  · rw [h.block (hparts _ (by simp))]
  · rfl

theorem classDeclaration : lowering.classDeclaration parts = other.classDeclaration parts := by
  unfold Lowering.classDeclaration
  split
  · split
    · rw [h.block (hparts _ (by simp))]
    · rfl
  · split
    · rw [h.block (hparts _ (by simp))]
    · rfl

theorem staticMethod : lowering.staticMethod parts = other.staticMethod parts := by
  unfold Lowering.staticMethod
  split
  · rw [h.block (hparts _ (by simp))]
  · rfl

theorem attempt : lowering.attempt parts = other.attempt parts := by
  unfold Lowering.attempt
  split
  · rw [h.block (hparts _ (by simp)), h.block (hparts _ (by simp))]
  · rfl

theorem patternBody (pattern : Option Node) :
    lowering.patternBody pattern parts = other.patternBody pattern parts := by
  unfold Lowering.patternBody
  split
  · rw [h.block (hparts _ (by simp))]
  · rw [h.expression _ (hparts _ (by simp)), h.block (hparts _ (by simp))]
  · rfl

theorem patternCase : lowering.patternCase parts = other.patternCase parts := by
  unfold Lowering.patternCase
  split
  · rfl
  · next first rest =>
      rw [List.forall_mem_cons] at hparts
      rw [h.patternBody hparts.2, h.expression first hparts.1]
      split
      · rfl
      · split
        · rfl
        · next marker rest =>
            simp only [h.patternBody (List.forall_mem_cons.mp hparts.2).2]

theorem distinguish : lowering.distinguish parts = other.distinguish parts := by
  unfold Lowering.distinguish
  split
  · next subject _ _ cases =>
      have hgives := Phrase.gives_caseParts (fun _ hgroup part hpart =>
        Nat.lt_trans (Nat.lt_succ_of_le (Phrase.height_le_heightAll hpart)) hgroup)
        (hparts cases (by simp))
      refine hgives.bind_congr fun groups hgroups => ?_
      rw [Meaning.mapM_congr fun group hgroup => h.patternCase (hgroups group hgroup),
        h.expression subject (hparts subject (by simp))]
  · rfl

theorem alternative : lowering.alternative parts = other.alternative parts := by
  unfold Lowering.alternative
  split
  · rw [h.expression _ (hparts _ (by simp)), h.block (hparts _ (by simp))]
  · rw [h.alternate (hparts _ (by simp)), h.expression _ (hparts _ (by simp)),
      h.block (hparts _ (by simp))]
  · rfl

theorem loop : lowering.loop parts = other.loop parts := by
  unfold Lowering.loop
  split
  · rw [h.expression _ (hparts _ (by simp)), h.block (hparts _ (by simp))]
  · rfl

theorem variableDeclaration :
    lowering.variableDeclaration parts = other.variableDeclaration parts := by
  unfold Lowering.variableDeclaration
  split
  · rw [h.expression _ (hparts _ (by simp))]
  · rfl

theorem call : lowering.call parts = other.call parts := by
  unfold Lowering.call
  split
  · rw [h.arguments (hparts _ (by simp))]
  · rfl

theorem giveBack : lowering.giveBack parts = other.giveBack parts := by
  unfold Lowering.giveBack
  split
  · rw [h.expression _ (hparts _ (by simp))]
  · rfl

theorem throwUp : lowering.throwUp parts = other.throwUp parts := by
  unfold Lowering.throwUp
  split
  · rw [h.expression _ (hparts _ (by simp))]
  · rfl

theorem inspectType : lowering.inspectType parts = other.inspectType parts := by
  unfold Lowering.inspectType
  split
  · rw [h.expression _ (hparts _ (by simp))]
  · rfl

theorem binary : lowering.binary parts = other.binary parts := by
  unfold Lowering.binary
  split
  · rw [h.expression _ (hparts _ (by simp)), h.expression _ (hparts _ (by simp))]
  · rfl

theorem construct (construct : Construct) :
    lowering.construct construct parts = other.construct construct parts := by
  cases construct with
  | importing | enumDeclaration | create | strayCase => rfl
  | exporting => exact h.exporting hparts
  | function => exact h.function hparts
  | classDeclaration => exact h.classDeclaration hparts
  | staticMethod => exact h.staticMethod hparts
  | attempt => exact h.attempt hparts
  | distinguish => exact h.distinguish hparts
  | alternative => exact h.alternative hparts
  | loop => exact h.loop hparts
  | variableDeclaration => exact h.variableDeclaration hparts
  | call => exact h.call hparts
  | giveBack => exact h.giveBack hparts
  | throwUp => exact h.throwUp hparts
  | inspectType => exact h.inspectType hparts
  | binary => exact h.binary hparts

end Constructs

section Steps

variable (h : AgreeBelow height lowering other) (hphrase : phrase.height < height + 1)
include h hphrase

theorem transformStep : lowering.transformStep phrase = other.transformStep phrase := by
  cases phrase with
  | leaf atom => rfl
  | group parts =>
      have hparts (part : Phrase) (hpart : part ∈ parts) : part.height < height :=
        Phrase.height_lt_of_mem hphrase hpart
      rw [Lowering.transformStep, Lowering.transformStep]
      split
      · rw [h.construct hparts]
      · rw [Meaning.mapM_congr fun part hpart => h.transform part (hparts part hpart)]

theorem expressionStep : lowering.expressionStep phrase = other.expressionStep phrase := by
  unfold Lowering.expressionStep
  split
  · next part hbracketed =>
      have hinner := Phrase.height_lt_of_bracketed? hbracketed part List.mem_cons_self
      exact h.expression part (by omega)
  · rfl
  · rw [h.transformStep hphrase]

end Steps

/-- Two bounds make no difference to phrases whose height is below both. -/
theorem ofHeight (bound bound' : Nat) :
    AgreeBelow (min bound bound') (Lowering.ofHeight bound) (Lowering.ofHeight bound') := by
  induction bound generalizing bound' with
  | zero => constructor <;> intro phrase hphrase <;> omega
  | succ bound ih =>
      cases bound' with
      | zero => constructor <;> intro phrase hphrase <;> omega
      | succ bound' =>
          have hheight {phrase : Phrase} (h : phrase.height < min (bound + 1) (bound' + 1)) :
              phrase.height < min bound bound' + 1 := by
            omega
          exact ⟨fun _ hphrase => (ih bound').transformStep (hheight hphrase),
            fun _ hphrase => (ih bound').expressionStep (hheight hphrase)⟩

end AgreeBelow

/-- A run is the nodes of its parts one after another, each read under any bound above it. -/
theorem statements_run_below {bound bound' : Nat} {parts : List Phrase}
    (hof : Construct.of? parts = none) (hbound : (Phrase.group parts).height < bound)
    (hbound' : Phrase.heightAll parts < bound') :
    (ofHeight bound).statements (.group parts) =
      Meaning.gather (ofHeight bound').statements parts := by
  cases bound with
  | zero => exact absurd hbound (Nat.not_lt_zero _)
  | succ bound =>
      rw [statements_run hof]
      refine Meaning.gather_congr fun part hpart => ?_
      refine (AgreeBelow.ofHeight bound bound').statements (Nat.lt_min.mpr ⟨?_, ?_⟩)
      · exact Phrase.height_lt_of_mem hbound hpart
      · exact Nat.lt_of_le_of_lt (Phrase.height_le_heightAll hpart) hbound'

end Lowering

namespace Lowered

theorem flatten_run (items : List Lowered) : (run items).flatten = items.flatMap flatten := by
  rw [flatten, flattenAll_eq_flatMap]

/-- Nodes are flat already. -/
theorem flatten_ofNodes (nodes : List Node) : (ofNodes nodes).flatten = nodes := by
  rw [ofNodes, flatten_run, List.flatMap_map]
  simp [flatten]

end Lowered

namespace Phrase

/-- The nodes of a phrase as part of a body. -/
def statements (phrase : Phrase) : Meaning (List Node) := do
  match ← phrase.transform with
  | some lowered => return lowered.flatten
  | none => return []

theorem statements_eq (phrase : Phrase) :
    phrase.statements = (Lowering.ofHeight (phrase.height + 1)).statements phrase := rfl

/-- Inside a run, the parts of another run may stand without their wrapper. -/
theorem gather_wrapped {before inner behind : List Phrase} (hinner : Construct.of? inner = none)
    {bound : Nat} (hbound : (group inner).height < bound) :
    Meaning.gather (Lowering.ofHeight bound).statements (before ++ [.group inner] ++ behind) =
      Meaning.gather (Lowering.ofHeight bound).statements (before ++ inner ++ behind) := by
  have hwrapped : Meaning.gather (Lowering.ofHeight bound).statements [.group inner] =
      Meaning.gather (Lowering.ofHeight bound).statements inner := by
    rw [Meaning.gather_singleton]
    exact Lowering.statements_run_below hinner hbound (Nat.lt_of_succ_lt hbound)
  rw [Meaning.gather_append, Meaning.gather_append, Meaning.gather_append, Meaning.gather_append,
    hwrapped]

/-- A group that forms no construct may be taken off inside another one: the nodes stay the
same, in the same order, or the first fault does. Flattening puts the items of a run one after
another, and changes nothing that is flat. -/
theorem wrappers_are_transparent {before inner behind : List Phrase}
    (hwhole : Construct.of? (before ++ [.group inner] ++ behind) = none)
    (hinner : Construct.of? inner = none)
    (hspliced : Construct.of? (before ++ inner ++ behind) = none) :
    (group (before ++ [.group inner] ++ behind)).statements =
        (group (before ++ inner ++ behind)).statements ∧
      Node.ofPhrase (group (before ++ [.group inner] ++ behind)) =
        Node.ofPhrase (group (before ++ inner ++ behind)) ∧
      (∀ items, (Lowered.run items).flatten = items.flatMap Lowered.flatten) ∧
      ∀ lowered : Lowered, (Lowered.ofNodes lowered.flatten).flatten = lowered.flatten := by
  have hstatements : (group (before ++ [.group inner] ++ behind)).statements =
      (group (before ++ inner ++ behind)).statements := by
    have hinside : (group inner).height ≤ heightAll (before ++ [.group inner] ++ behind) :=
      height_le_heightAll (by simp)
    have hlower : heightAll (before ++ inner ++ behind) ≤
        heightAll (before ++ [.group inner] ++ behind) := by
      simp only [heightAll_append] at hinside ⊢
      rw [height_group] at hinside
      omega
    rw [statements_eq, statements_eq,
      Lowering.statements_run_below hwhole (Nat.lt_succ_self _) (Nat.lt_succ_self _),
      gather_wrapped hinner (Nat.lt_succ_of_le hinside),
      Lowering.statements_run_below hspliced (Nat.lt_succ_self _) (Nat.lt_succ_of_le hlower)]
  refine ⟨hstatements, ?_, Lowered.flatten_run, fun lowered => Lowered.flatten_ofNodes _⟩
  rw [statements_eq, statements_eq] at hstatements
  rw [Node.ofPhrase, Node.ofPhrase, hstatements]

/-- The parts of `a (x 場合)`, a name and a case without a distinction. -/
def strayInside : List Phrase := [word "a", group [word "x", keyword .caseOf]]

/-- In `1 (a (x 場合)) (生成)` the stray case is the first fault, and it is so without the
wrapper as well. -/
theorem wrappers_are_transparent_strayInside :
    Construct.of? ([number 1] ++ [group strayInside] ++ [group [keyword .create]]) = none ∧
      Construct.of? strayInside = none ∧
      Construct.of? ([number 1] ++ strayInside ++ [group [keyword .create]]) = none ∧
      (group ([number 1] ++ [group strayInside] ++ [group [keyword .create]])).statements =
        .error .strayCase ∧
      (group ([number 1] ++ strayInside ++ [group [keyword .create]])).statements =
        .error .strayCase := by
  have hwhole : Construct.of? ([number 1] ++ [group strayInside] ++ [group [keyword .create]]) =
      none := by decide
  have hinner : Construct.of? strayInside = none := by decide
  have hspliced : Construct.of? ([number 1] ++ strayInside ++ [group [keyword .create]]) =
      none := by decide
  have hfault : (group ([number 1] ++ strayInside ++ [group [keyword .create]])).statements =
      .error .strayCase := rfl
  exact ⟨hwhole, hinner, hspliced,
    (wrappers_are_transparent hwhole hinner hspliced).1.trans hfault, hfault⟩

end Phrase

end Wabun
